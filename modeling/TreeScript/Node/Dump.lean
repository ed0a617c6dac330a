import TreeScript.Decimal.Layout
import TreeScript.Node
import TreeScript.Text.Quoted

/-!
# Dumps of syntax trees

The dump of a node shows its kind, every field by name, and its span after an `@`.  A failure on a
node that cannot be evaluated carries the node's dump.
-/

namespace TreeScript

namespace Node

/-- Numbers in dumps are positional from `1e-4` up to `1e16` and always show that they are not
integers; elsewhere a positive exponent has no sign. -/
def dumpLayout : Decimal.Layout where
  lowest := -4
  highest := 15
  keepsPoint := true
  signsExponent := false
  signsZero := true
  tie := .up
  nan := "NaN"
  infinity := "inf"

/-- An optional part: `None` or `Some(…)`. -/
def dumpOption : Option String → String
  | none => "None"
  | some text => "Some(" ++ text ++ ")"

/-- The dump of an entry whose value is dumped already. -/
def dumpEntry (key : String) (value : Option String) : String :=
  Text.record "Property" [("key", Text.quote key), ("value", dumpOption value)]

/-- What follows a node's kind and fields. -/
def dumpSpan (span : Span) : String := " @ " ++ span.text

mutual

/-- The dump of a node. -/
def dump : Node → String
  | program body span =>
    Text.record "Program" [("body", Text.bracketed (dumpAll body))] ++ dumpSpan span
  | declaration constant name value span =>
    Text.record "VarDeclaration"
      [("constant", toString constant), ("identifier", Text.quote name),
        ("value", dumpOption (dump? value))] ++ dumpSpan span
  | function name parameters body span =>
    Text.record "FunctionDeclaration"
      [("name", Text.quote name), ("parameters", Text.bracketed (parameters.map Text.quote)),
        ("body", Text.bracketed (dumpAll body))] ++ dumpSpan span
  | assignment target value span =>
    Text.record "AssignmentExpr" [("assignee", dump target), ("value", dump value)] ++
      dumpSpan span
  | binary left right op span =>
    Text.record "BinaryExpr" [("left", dump left), ("right", dump right), ("operator", op.name)] ++
      dumpSpan span
  | comparison left right op span =>
    Text.record "ComparisonExpr"
      [("left", dump left), ("right", dump right), ("operator", op.name)] ++ dumpSpan span
  | call callee arguments span =>
    Text.record "CallExpr"
      [("caller", dump callee), ("args", Text.bracketed (dumpAll arguments))] ++ dumpSpan span
  | member subject key span =>
    Text.record "MemberExpr" [("object", dump subject), ("property", Text.quote key)] ++
      dumpSpan span
  | conditional condition consequent alternative span =>
    Text.record "IfExpr"
      [("condition", dump condition), ("then", Text.bracketed (dumpAll consequent)),
        ("otherwise", dumpOption (dumpBranch? alternative))] ++ dumpSpan span
  | identifier name span => Text.record "Identifier" [("symbol", Text.quote name)] ++ dumpSpan span
  | number value span =>
    Text.record "NumericLiteral" [("value", dumpLayout.text value)] ++ dumpSpan span
  | string value span =>
    Text.record "StringLiteral" [("value", Text.quote value)] ++ dumpSpan span
  | object entries span =>
    Text.record "ObjectLiteral" [("properties", Text.bracketed (dumpEntries entries))] ++
      dumpSpan span
  | property ⟨key, value⟩ span =>
    "Property(" ++ dumpEntry key (dump? value) ++ ")" ++ dumpSpan span

/-- The dump of a node that may be absent. -/
def dump? : Option Node → Option String
  | none => none
  | some node => some (dump node)

/-- The dump of a branch that may be absent. -/
def dumpBranch? : Option (List Node) → Option String
  | none => none
  | some body => some (Text.bracketed (dumpAll body))

/-- The dumps of nodes, in order. -/
def dumpAll : List Node → List String
  | [] => []
  | node :: nodes => dump node :: dumpAll nodes

/-- The dumps of entries, in order. -/
def dumpEntries : List (Entry Node) → List String
  | [] => []
  | ⟨key, value⟩ :: entries => dumpEntry key (dump? value) :: dumpEntries entries

end

end Node

end TreeScript
