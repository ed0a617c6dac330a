import TreeScript.Json

/-!
# Writing JSON

Values are written without blanks.  Strings escape the quote, the backslash and the controls, by a
letter where there is one; every other character stands for itself.
-/

namespace TreeScript.Json

/-- A hexadecimal code unit of four digits. -/
def hexUnit (n : Nat) : List Char :=
  let digits := Nat.toDigits 16 n
  List.replicate (4 - digits.length) '0' ++ digits

/-- A character as it stands in a string. -/
def writeChar (c : Char) : List Char :=
  match c with
  | '"' => ['\\', '"']
  | '\\' => ['\\', '\\']
  | '\x08' => ['\\', 'b']
  | '\x0c' => ['\\', 'f']
  | '\n' => ['\\', 'n']
  | '\r' => ['\\', 'r']
  | '\t' => ['\\', 't']
  | c => if c.toNat < 0x20 then ['\\', 'u'] ++ hexUnit c.toNat else [c]

/-- A string literal.  One that denotes no text is written as a surrogate that stands alone. -/
def writeString : Literal → List Char
  | some s => '"' :: s.toList.flatMap writeChar ++ ['"']
  | none => "\"\\ud800\"".toList

/-- A number as it is spelled, the sign of its exponent always shown. -/
def writeNumber (n : Number) : List Char :=
  let sign := if n.negative then ['-'] else []
  let fraction := if n.fraction.isEmpty then [] else '.' :: n.fraction
  let exponent := match n.exponent with
    | none => []
    | some e => 'e' :: (if e < 0 then '-' else '+') :: Nat.toDigits 10 e.natAbs
  sign ++ Nat.toDigits 10 n.whole ++ fraction ++ exponent

mutual

/-- The text of a value. -/
def write : Json → List Char
  | null => "null".toList
  | bool true => "true".toList
  | bool false => "false".toList
  | number n => writeNumber n
  | string s => writeString s
  | array [] => ['[', ']']
  | array (item :: items) => '[' :: write item ++ writeItems items
  | object [] => ['\x7b', '\x7d']
  | object ((name, value) :: members) =>
    '\x7b' :: writeString name ++ ':' :: write value ++ writeMembers members

/-- The items after the first, and the bracket that closes the array. -/
def writeItems : List Json → List Char
  | [] => [']']
  | item :: items => ',' :: write item ++ writeItems items

/-- The members after the first, and the brace that closes the object. -/
def writeMembers : List (Literal × Json) → List Char
  | [] => ['\x7d']
  | (name, value) :: members =>
    ',' :: writeString name ++ ':' :: write value ++ writeMembers members

end

/-- The text of a value, as a string. -/
def render (j : Json) : String := String.ofList j.write

end TreeScript.Json
