import TreeScript.Json.Writer
import TreeScript.Node

/-!
# Saving syntax trees

A tree is saved as JSON: each node is an object that names its kind first, then holds the fields of
that kind in a fixed order, and its span last.  Optional parts that are absent are left out.
-/

namespace TreeScript

namespace Node

/-- A span as an object. -/
def encodeSpan (span : Span) : Json :=
  .record [("start", .nat span.start.toNat), ("end", .nat span.stop.toNat)]

/-- A node as an object: its kind, its fields, its span. -/
def encodeAs (kind : Kind) (fields : List (String × Json)) (span : Span) : Json :=
  .record ([("kind", .text kind.name)] ++ fields ++ [("span", encodeSpan span)])

/-- A field that is left out when absent. -/
def encodeOptional (name : String) : Option Json → List (String × Json)
  | none => []
  | some value => [(name, value)]

mutual

/-- The tree as JSON. -/
def encode : Node → Json
  | program body span => encodeAs .program [("body", .array (encodeAll body))] span
  | declaration constant name value span =>
    encodeAs .declaration
      ([("constant", .bool constant), ("identifier", .text name)] ++
        encodeOptional "value" (encode? value)) span
  | function name parameters body span =>
    encodeAs .function
      [("name", .text name), ("parameters", .array (parameters.map .text)),
        ("body", .array (encodeAll body))] span
  | assignment target value span =>
    encodeAs .assignment [("assignee", encode target), ("value", encode value)] span
  | binary left right op span =>
    encodeAs .binary
      [("left", encode left), ("right", encode right), ("operator", .text op.symbol)] span
  | comparison left right op span =>
    encodeAs .comparison
      [("left", encode left), ("right", encode right), ("operator", .text op.symbol)] span
  | call callee arguments span =>
    encodeAs .call [("caller", encode callee), ("args", .array (encodeAll arguments))] span
  | member subject key span =>
    encodeAs .member [("object", encode subject), ("property", .text key)] span
  | conditional condition consequent alternative span =>
    encodeAs .conditional
      ([("condition", encode condition), ("then", .array (encodeAll consequent))] ++
        encodeOptional "otherwise" (encodeBranch? alternative)) span
  | identifier name span => encodeAs .identifier [("symbol", .text name)] span
  | number value span => encodeAs .number [("value", .float value)] span
  | string value span => encodeAs .string [("value", .text value)] span
  | object entries span => encodeAs .object [("properties", .array (encodeEntries entries))] span
  | property ⟨key, value⟩ span =>
    encodeAs .property ([("key", .text key)] ++ encodeOptional "value" (encode? value)) span

/-- A node that may be absent. -/
def encode? : Option Node → Option Json
  | none => none
  | some node => some (encode node)

/-- A branch that may be absent. -/
def encodeBranch? : Option (List Node) → Option Json
  | none => none
  | some body => some (.array (encodeAll body))

/-- Nodes, in order. -/
def encodeAll : List Node → List Json
  | [] => []
  | node :: nodes => encode node :: encodeAll nodes

/-- Entries of an object literal, in order; they carry neither kind nor span. -/
def encodeEntries : List (Entry Node) → List Json
  | [] => []
  | ⟨key, value⟩ :: entries =>
    .record ([("key", .text key)] ++ encodeOptional "value" (encode? value)) ::
      encodeEntries entries

end

/-- The JSON text of the tree. -/
def toText (node : Node) : String := node.encode.render

end Node

end TreeScript
