/-!
# Files

A program is read from a file.  Reading fails with the operating system's own words and number,
because the path holds a character that no file name has, or because the bytes are not UTF-8.
`Directory` is a directory held in memory, with all below it, that answers as a disk would.
-/

namespace TreeScript

/-- Why a file could not be read. -/
inductive ReadFault where
  /-- The operating system refused. -/
  | system (reason : String) (code : Nat)
  /-- The path holds the null character. -/
  | nullInPath
  | notUtf8
deriving DecidableEq, Repr, Inhabited

namespace ReadFault

/-- Nothing has that name. -/
def notFound : ReadFault := system "No such file or directory" 2

/-- The path goes through something that is not a directory. -/
def notDirectory : ReadFault := system "Not a directory" 20

/-- The path leads to a directory. -/
def isDirectory : ReadFault := system "Is a directory" 21

/-- The path or a name in it is longer than any there can be. -/
def nameTooLong : ReadFault := system "File name too long" 36

/-- The wording of the fault. -/
def message : ReadFault → String
  | system reason code => reason ++ " (os error " ++ toString code ++ ")"
  | nullInPath => "file name contained an unexpected NUL byte"
  | notUtf8 => "stream did not contain valid UTF-8"

end ReadFault

/-- The text of a file's bytes. -/
def decodeUtf8 (bytes : ByteArray) : Except ReadFault String :=
  match String.fromUTF8? bytes with
  | some text => .ok text
  | none => .error .notUtf8

/-- A directory: what stands at the paths in it, a file's bytes or none for a directory.  A path is
the list of its names, innermost first, and the first entry for a path counts. -/
structure Directory where
  entries : List (List String × Option ByteArray)

namespace Directory

/-! ## Paths -/

/-- The parts of a path between its slashes, given the start of the first one, reversed. -/
def parts (part : List Char) : List Char → List String
  | [] => [String.ofList part.reverse]
  | c :: cs => if c = '/' then String.ofList part.reverse :: parts [] cs else parts (c :: part) cs

/-- Whether a part of a path is a name, and not a step to the same directory or the one around. -/
def isName (part : String) : Bool := part != "" && part != "." && part != ".."

/-- Where one part of a path leads.  A place is given by its names from the directory on, innermost
first; none stands for anywhere outside of it. -/
def follow (names : Option (List String)) (part : String) : Option (List String) :=
  if isName part then names.map (part :: ·)
  else if part = ".." then
    match names with
    | some (_ :: outer) => some outer
    | _ => none
  else names

/-- Names have at most this many bytes. -/
def nameLimit : Nat := 255

/-- Paths have at most this many bytes. -/
def pathLimit : Nat := 4095

/-! ## Contents -/

/-- The directory that holds nothing. -/
def empty : Directory := ⟨[]⟩

/-- The directory with a file's bytes, or none for a directory, put at a path.  What was there
before is replaced, and a path that leads outside is ignored. -/
def insert (directory : Directory) (path : String) (content : Option ByteArray) : Directory :=
  match (parts [] path.toList).foldl follow (some []) with
  | some names => ⟨(names, content) :: directory.entries⟩
  | none => directory

/-- What stands at a path, if anything does; around whatever is in the directory are others. -/
def content? (directory : Directory) (names : List String) : Option (Option ByteArray) :=
  match directory.entries.find? fun entry => entry.1 == names with
  | some entry => some entry.2
  | none => if directory.entries.any fun entry => names.isSuffixOf entry.1 then some none else none

/-! ## Reading -/

/-- A place that a path leads to. -/
inductive Place where
  /-- A directory, or none for one outside. -/
  | directory (names : Option (List String))
  | file (bytes : ByteArray)

/-- The place that one part of a path leads to. -/
def step (directory : Directory) (place : Place) (part : String) : Except ReadFault Place :=
  match place with
  | .file _ => .error .notDirectory
  | .directory names =>
    let next := follow names part
    if !isName part then .ok (.directory next)
    else if nameLimit < part.utf8ByteSize then .error .nameTooLong
    else
      match next.bind directory.content? with
      | some (some bytes) => .ok (.file bytes)
      | some none => .ok (.directory next)
      | none => .error .notFound

/-- The place that parts of a path lead to, one after the other. -/
def walk (directory : Directory) (place : Place) : List String → Except ReadFault Place
  | [] => .ok place
  | part :: parts =>
    match directory.step place part with
    | .ok place => directory.walk place parts
    | .error fault => .error fault

/-- The text of the file at a path. -/
def read (directory : Directory) (path : String) : Except ReadFault String :=
  let start : Place := .directory (if path.toList.head? = some '/' then none else some [])
  if path.toList.contains (Char.ofNat 0) then .error .nullInPath
  else if path = "" then .error .notFound
  else if pathLimit < path.utf8ByteSize then .error .nameTooLong
  else
    match directory.walk start (parts [] path.toList) with
    | .ok (.file bytes) => decodeUtf8 bytes
    | .ok (.directory _) => .error .isDirectory
    | .error fault => .error fault

end Directory

end TreeScript
