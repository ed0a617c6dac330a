import TreeScript.Double
import TreeScript.Failure
import TreeScript.Policy
import TreeScript.Value

/-!
# Operators on values

Two numbers support all five arithmetic operators and two strings only `+`; what happens to any
other pair is up to the policy.  Numbers, strings and truth values can be compared with their like,
and nothing else can.
-/

namespace TreeScript

/-- An arithmetic operator on two numbers. -/
def BinaryOp.onNumbers (policy : ZeroDivision) (a b : Float) : BinaryOp → Except Fault Float
  | add => .ok (a + b)
  | sub => .ok (a - b)
  | mul => .ok (a * b)
  | div => if policy = .error ∧ b == 0.0 then .error .divisionByZero else .ok (a / b)
  | mod =>
    if policy = .error ∧ b == 0.0 then .error .moduloByZero else .ok (Double.remainder a b)

/-- An arithmetic operator on two strings. -/
def BinaryOp.onStrings (a b : String) : BinaryOp → Except Fault String
  | add => .ok (a ++ b)
  | op => .error (.invalidOperation "string" op)

/-- An arithmetic operator on two values. -/
def BinaryOp.apply (op : BinaryOp) (policy : Policy) (left right : Value) : Except Fault Value :=
  match left, right with
  | .number a, .number b => (op.onNumbers policy.zeroDivision a b).map .number
  | .string a, .string b => (op.onStrings a b).map .string
  | left, right =>
    match policy.mixedOperands with
    | .nullFallback => .ok .null
    | .strict => .error (.operandMismatch left.typeName right.typeName op)

/-- Whether two values are equal, as scripts see it. -/
def Value.compare (left right : Value) : Except Fault Bool :=
  match left, right with
  | .number a, .number b => .ok (a == b)
  | .bool a, .bool b => .ok (a == b)
  | .string a, .string b => .ok (a == b)
  | left, right =>
    if left.typeName ≠ right.typeName then .error (.typeMismatch left.typeName right.typeName)
    else .error (.unsupportedComparison left.typeName)

/-- A comparison of two values. -/
def ComparisonOp.apply (op : ComparisonOp) (left right : Value) : Except Fault Value :=
  (left.compare right).map fun equal => .bool (op.holds equal)

end TreeScript
