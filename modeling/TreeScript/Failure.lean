import TreeScript.Operator
import TreeScript.Span

/-!
# Failures

An evaluation that fails says why by a `Fault`, and where: at the span of the innermost node that
has one, and under the calls that were live.  The wording of every fault is in `Fault.message`.  A
failure takes it along when it is made, and keeps it from then on.
-/

namespace TreeScript

/-- Why an evaluation failed. -/
inductive Fault where
  | duplicateDeclaration (name : String)
  | constantAssignment (name : String)
  | undefinedVariable (name : String)
  | invalidOperation (typeName : String) (op : BinaryOp)
  | operandMismatch (left right : String) (op : BinaryOp)
  | divisionByZero
  | moduloByZero
  | typeMismatch (left right : String)
  | unsupportedComparison (typeName : String)
  | notAnObject (typeName : String)
  | undefinedProperty (property : String)
  | invalidAssignmentTarget (kind : String)
  | notCallable (typeName : String)
  | arityMismatch (name : String) (expected got : Nat)
  | stackOverflow (depth : Nat)
  | nonBooleanCondition (typeName : String)
  | unimplementedNode (kind dump : String)
  /-- Raised by a function of the host, in its own words. -/
  | native (message : String)
deriving DecidableEq, Repr, Inhabited

/-- The wording of a fault. -/
def Fault.message : Fault → String
  | duplicateDeclaration name => "cannot declare variable " ++ name ++ ": it is already defined"
  | constantAssignment name => "cannot reassign variable " ++ name ++ ": it was declared constant"
  | undefinedVariable name => "variable " ++ name ++ " is not defined"
  | invalidOperation typeName op =>
    "invalid binary operation: `" ++ op.symbol ++ "` cannot be applied to " ++ typeName
  | operandMismatch left right op =>
    "cannot apply `" ++ op.symbol ++ "` to " ++ left ++ " and " ++ right
  | divisionByZero => "division by zero"
  | moduloByZero => "modulo by zero"
  | typeMismatch left right =>
    "cannot compare values of different types " ++ left ++ " and " ++ right
  | unsupportedComparison typeName => "unsupported data type for comparison: " ++ typeName
  | notAnObject typeName => "cannot access property of non-object type " ++ typeName
  | undefinedProperty property => "property " ++ property ++ " does not exist on object"
  | invalidAssignmentTarget kind => "invalid left-hand side in assignment: " ++ kind
  | notCallable typeName => "cannot call value that is not a function: " ++ typeName
  | arityMismatch name expected got =>
    name ++ " expects " ++ toString expected ++ (if expected = 1 then " argument" else " arguments")
      ++ ", got " ++ toString got
  | stackOverflow depth => "maximum call depth exceeded (limit: " ++ toString depth ++ ")"
  | nonBooleanCondition typeName => "condition must be a boolean value, got " ++ typeName
  | unimplementedNode kind _ => "unimplemented AST type: " ++ kind
  | native message => message

/-- A call: the name of the function and the span of the call, if it has one. -/
structure Frame where
  name : String
  span : Option Span
deriving DecidableEq, Repr, Inhabited

/-- The calls that were live, the latest first. -/
abbrev Backtrace := List Frame

namespace Backtrace

/-- The line of a frame, after its number. -/
def frameText (frame : Frame) : String :=
  match frame.span with
  | none => frame.name
  | some span => frame.name ++ " at " ++ span.text

/-- The lines of frames, numbered from `first` on. -/
def linesFrom (first : Nat) : Backtrace → List String
  | [] => []
  | frame :: frames =>
    ("  " ++ toString first ++ ": " ++ frameText frame ++ "\n") :: linesFrom (first + 1) frames

/-- The text of a backtrace: a heading and a line for each call, or nothing if there are none. -/
def text : Backtrace → String
  | [] => ""
  | frames => "stack backtrace:\n" ++ String.join (linesFrom 0 frames)

end Backtrace

/-- A failed evaluation: why, in which words, and where.  One made of a fault alone is in the words
of that fault. -/
structure Failure where
  fault : Fault
  message : String := fault.message
  span : Option Span := none
  backtrace : Option Backtrace := none
deriving DecidableEq, Repr, Inhabited

namespace Failure

/-- The failure located at `span`, whatever it was before. -/
def withSpan (span : Span) (failure : Failure) : Failure := { failure with span := some span }

/-- The failure located at `span`, unless it is located already or `span` is no location. -/
def orSpan (span : Span) (failure : Failure) : Failure :=
  { failure with span := failure.span <|> span.location? }

/-- The failure with a backtrace, whatever it had before. -/
def withBacktrace (backtrace : Backtrace) (failure : Failure) : Failure :=
  { failure with backtrace := some backtrace }

end Failure

end TreeScript
