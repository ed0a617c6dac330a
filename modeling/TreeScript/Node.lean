import TreeScript.Operator
import TreeScript.Span

/-!
# Syntax trees

A program is a tree of nodes.  Statements and expressions share one type, and every node carries
the span it was read from.  Fourteen kinds of node exist; `Node.Kind` names them, in a fixed order,
apart from what they hold.
-/

namespace TreeScript

/-- An entry of an object literal.  An entry without a value is short for the variable of the same
name: `{ x }` means `{ x: x }`. -/
structure Entry (α : Type) where
  key : String
  value : Option α := none
deriving Inhabited

/-- A node of a syntax tree. -/
inductive Node where
  /-- Statements, evaluated in order. -/
  | program (body : List Node) (span : Span)
  /-- `let name = value` or, if `constant`, `const name = value`. -/
  | declaration (constant : Bool) (name : String) (value : Option Node) (span : Span)
  /-- `fn name(parameters) { body }`. -/
  | function (name : String) (parameters : List String) (body : List Node) (span : Span)
  /-- `target = value`. -/
  | assignment (target value : Node) (span : Span)
  /-- `left op right` for an arithmetic operator. -/
  | binary (left right : Node) (op : BinaryOp) (span : Span)
  /-- `left == right` or `left != right`. -/
  | comparison (left right : Node) (op : ComparisonOp) (span : Span)
  /-- `callee(arguments…)`. -/
  | call (callee : Node) (arguments : List Node) (span : Span)
  /-- `subject.key`. -/
  | member (subject : Node) (key : String) (span : Span)
  /-- `if condition { consequent } else { alternative }`. -/
  | conditional (condition : Node) (consequent : List Node) (alternative : Option (List Node))
      (span : Span)
  /-- A reference to a variable. -/
  | identifier (name : String) (span : Span)
  /-- A number. -/
  | number (value : Float) (span : Span)
  /-- A string. -/
  | string (value : String) (span : Span)
  /-- `{ a: 1, b }`. -/
  | object (entries : List (Entry Node)) (span : Span)
  /-- An entry on its own.  It has a meaning only inside an object literal. -/
  | property (entry : Entry Node) (span : Span)
deriving Inhabited

namespace Node

/-- The kinds of node, in the order that numbers them. -/
inductive Kind where
  | program
  | declaration
  | function
  | assignment
  | binary
  | comparison
  | call
  | member
  | conditional
  | identifier
  | number
  | string
  | object
  | property
deriving DecidableEq, Repr, Inhabited

namespace Kind

/-- Every kind, each at the place its number says. -/
def all : List Kind :=
  [program, declaration, function, assignment, binary, comparison, call, member, conditional,
    identifier, number, string, object, property]

/-- The kind's name in trees and messages. -/
def name : Kind → String
  | program => "Program"
  | declaration => "VarDeclaration"
  | function => "FunctionDeclaration"
  | assignment => "AssignmentExpr"
  | binary => "BinaryExpr"
  | comparison => "ComparisonExpr"
  | call => "CallExpr"
  | member => "MemberExpr"
  | conditional => "IfExpr"
  | identifier => "Identifier"
  | number => "NumericLiteral"
  | string => "StringLiteral"
  | object => "ObjectLiteral"
  | property => "Property"

/-- The kind with a name. -/
def ofName? (name : String) : Option Kind := all.find? (·.name == name)

/-- The kind with a number. -/
def ofIndex? (index : Nat) : Option Kind := all[index]?

@[simp] theorem ofName?_name (kind : Kind) : ofName? kind.name = some kind := by
  cases kind <;> rfl

end Kind

/-- What kind of node this is. -/
def kind : Node → Kind
  | program .. => .program
  | declaration .. => .declaration
  | function .. => .function
  | assignment .. => .assignment
  | binary .. => .binary
  | comparison .. => .comparison
  | call .. => .call
  | member .. => .member
  | conditional .. => .conditional
  | identifier .. => .identifier
  | number .. => .number
  | string .. => .string
  | object .. => .object
  | property .. => .property

/-- Where the node was read from. -/
def span : Node → Span
  | program _ span | declaration _ _ _ span | function _ _ _ span | assignment _ _ span
  | binary _ _ _ span | comparison _ _ _ span | call _ _ span | member _ _ span
  | conditional _ _ _ span | identifier _ span | number _ span | string _ span | object _ span
  | property _ span => span

/-- The same node, said to be read from `span`. -/
def withSpan (span : Span) : Node → Node
  | program body _ => program body span
  | declaration constant name value _ => declaration constant name value span
  | function name parameters body _ => function name parameters body span
  | assignment target value _ => assignment target value span
  | binary left right op _ => binary left right op span
  | comparison left right op _ => comparison left right op span
  | call callee arguments _ => call callee arguments span
  | member subject key _ => member subject key span
  | conditional condition consequent alternative _ =>
    conditional condition consequent alternative span
  | identifier name _ => identifier name span
  | number value _ => number value span
  | string value _ => string value span
  | object entries _ => object entries span
  | property entry _ => property entry span

@[simp] theorem span_withSpan (s : Span) (n : Node) : (n.withSpan s).span = s := by
  cases n <;> rfl

@[simp] theorem kind_withSpan (s : Span) (n : Node) : (n.withSpan s).kind = n.kind := by
  cases n <;> rfl

end Node

end TreeScript
