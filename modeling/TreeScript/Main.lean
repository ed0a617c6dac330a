import Std.Time.DateTime.Timestamp
import TreeScript.CommandLine

/-!
# The program

Reads the file that the arguments name, and does what `CommandLine.run` says.
-/

namespace TreeScript.CommandLine

/-- The fault of an error number, which some layers report with its sign changed. -/
def readFaultOfCode (code : UInt32) (reason : String) : ReadFault :=
  let number := if code.toNat < Nat.pow 2 31 then code.toNat else Nat.pow 2 32 - code.toNat
  match number with
  | 2 => .notFound
  | 13 => .system "Permission denied" number
  | 20 => .notDirectory
  | 21 => .isDirectory
  | 36 => .nameTooLong
  | _ => .system reason number

/-- The fault that an error of the operating system stands for. -/
def readFaultOf : IO.Error → ReadFault
  | .noFileOrDirectory _ code reason | .permissionDenied _ code reason
  | .inappropriateType _ code reason | .invalidArgument _ code reason
  | .resourceExhausted _ code reason | .otherError code reason => readFaultOfCode code reason
  | error => .system error.toString 0

/-- The text of a file on disk. -/
def readFile (path : String) : IO (Except ReadFault String) := do
  try
    return decodeUtf8 (← IO.FS.readBinFile path)
  catch error =>
    return .error (readFaultOf error)

/-- Milliseconds since the start of 1970. -/
def currentTime : IO Float := do
  let now ← Std.Time.Timestamp.now
  return Float.ofInt now.toMillisecondsSinceUnixEpoch.val

/-- Does what the outcome of a command says, and yields its code. -/
def perform (arguments : List String) : IO UInt32 := do
  let now ← currentTime
  let contents ← match path? arguments with
    | some path => readFile path
    | none => pure (.error .notFound)
  match run (fun _ => contents) (.still now) arguments with
  | some outcome =>
    (← IO.getStdout).putStr outcome.stdout
    (← IO.getStderr).putStr outcome.stderr
    return outcome.code.toUInt32
  | none =>
    (← IO.getStderr).putStr "error: too many nested calls\n"
    return 1

end TreeScript.CommandLine

def main (arguments : List String) : IO UInt32 := TreeScript.CommandLine.perform arguments
