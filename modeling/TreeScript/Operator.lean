/-!
# Operators

The language has five arithmetic operators, of which `+` also joins strings, and two equality
comparisons.  Each is written with one symbol, and the symbol determines the operator.
-/

namespace TreeScript

/-- An arithmetic operator. -/
inductive BinaryOp where
  | add
  | sub
  | mul
  | div
  | mod
deriving DecidableEq, Repr, Inhabited

/-- An equality comparison. -/
inductive ComparisonOp where
  | eq
  | ne
deriving DecidableEq, Repr, Inhabited

namespace BinaryOp

/-- The symbol the operator is written with. -/
def symbol : BinaryOp → String
  | add => "+"
  | sub => "-"
  | mul => "*"
  | div => "/"
  | mod => "%"

/-- The operator written with a symbol. -/
def ofSymbol? : String → Option BinaryOp
  | "+" => some add
  | "-" => some sub
  | "*" => some mul
  | "/" => some div
  | "%" => some mod
  | _ => none

/-- The operator's name in a dump. -/
def name : BinaryOp → String
  | add => "Add"
  | sub => "Sub"
  | mul => "Mul"
  | div => "Div"
  | mod => "Mod"

@[simp] theorem ofSymbol?_symbol (op : BinaryOp) : ofSymbol? op.symbol = some op := by
  cases op <;> rfl

end BinaryOp

namespace ComparisonOp

/-- The symbol the operator is written with. -/
def symbol : ComparisonOp → String
  | eq => "=="
  | ne => "!="

/-- The operator written with a symbol. -/
def ofSymbol? : String → Option ComparisonOp
  | "==" => some eq
  | "!=" => some ne
  | _ => none

/-- The operator's name in a dump. -/
def name : ComparisonOp → String
  | eq => "Eq"
  | ne => "NotEq"

/-- The answer of the comparison when its operands are equal or not. -/
def holds : ComparisonOp → Bool → Bool
  | eq, equal => equal
  | ne, equal => !equal

@[simp] theorem ofSymbol?_symbol (op : ComparisonOp) : ofSymbol? op.symbol = some op := by
  cases op <;> rfl

end ComparisonOp

end TreeScript
