import TreeScript.Policy

/-!
# Options of a run

The arguments of a run are flags, at most one path, and any number of depth limits, in any order.
They are read from left to right: of several depth limits the last one holds, and the first argument
that does not fit is reported.
-/

namespace TreeScript

/-- What the arguments of a run ask for. -/
structure Options where
  policy : Policy := .default
  /-- Whether the value of the program is printed at the end. -/
  printResult : Bool := false
  path : Option String := none
deriving DecidableEq, Repr, Inhabited

/-- An argument that does not fit. -/
inductive OptionFault where
  | invalidDepth (value : String)
  | unknownOption (argument : String)
  | unexpectedArgument (argument : String)
deriving DecidableEq, Repr, Inhabited

/-- The wording of a fault. -/
def OptionFault.message : OptionFault → String
  | invalidDepth value => "invalid --max-depth value '" ++ value ++ "'"
  | unknownOption argument => "unknown option '" ++ argument ++ "'"
  | unexpectedArgument argument => "unexpected argument '" ++ argument ++ "'"

namespace Options

/-- What an argument is, before it is known whether it fits. -/
inductive Argument where
  | strictOperands
  | lenientArity
  | ieeeDivision
  | printResult
  | maxDepth (value : String)
  /-- Anything else that starts with a dash. -/
  | unknown (argument : String)
  | path (argument : String)
deriving DecidableEq, Repr, Inhabited

/-- What an argument is. -/
def Argument.of (argument : String) : Argument :=
  if argument = "--strict-operands" then .strictOperands
  else if argument = "--lenient-arity" then .lenientArity
  else if argument = "--ieee-division" then .ieeeDivision
  else if argument = "--print-result" then .printResult
  else if "--max-depth=".toList.isPrefixOf argument.toList then
    .maxDepth (String.ofList (argument.toList.drop "--max-depth=".length))
  else if argument.toList.head? = some '-' then .unknown argument
  else .path argument

/-- Digits, perhaps after a plus sign, that spell a number below `2 ^ 64`. -/
def readDepth? (value : String) : Option Nat :=
  let digits := match value.toList with
    | '+' :: digits => digits
    | digits => digits
  if digits.isEmpty || !digits.all Char.isDigit then none
  else
    let n := Nat.ofDigitChars 10 digits 0
    if n < Nat.pow 2 64 then some n else none

/-- A limit on the call depth: `none`, or a number. -/
def readLimit (value : String) : Except OptionFault (Option Nat) :=
  if value = "none" then .ok none
  else match readDepth? value with
    | some n => .ok (some n)
    | none => .error (.invalidDepth value)

/-- Takes one more argument into account. -/
def add (options : Options) (argument : String) : Except OptionFault Options :=
  match Argument.of argument with
  | .strictOperands =>
    .ok { options with policy := { options.policy with mixedOperands := .strict } }
  | .lenientArity => .ok { options with policy := { options.policy with arity := .lenient } }
  | .ieeeDivision => .ok { options with policy := { options.policy with zeroDivision := .ieee } }
  | .printResult => .ok { options with printResult := true }
  | .maxDepth value =>
    (readLimit value).map fun limit =>
      { options with policy := { options.policy with maxCallDepth := limit } }
  | .unknown argument => .error (.unknownOption argument)
  | .path argument =>
    match options.path with
    | none => .ok { options with path := some argument }
    | some _ => .error (.unexpectedArgument argument)

/-- The options after further arguments. -/
def addAll (options : Options) : List String → Except OptionFault Options
  | [] => .ok options
  | argument :: arguments =>
    match options.add argument with
    | .ok options => options.addAll arguments
    | .error fault => .error fault

/-- Reads the arguments of a run. -/
def parse (arguments : List String) : Except OptionFault Options := addAll {} arguments

end Options

end TreeScript
