import TreeScript.Json.Reader
import TreeScript.Node

/-!
# Loading syntax trees

A tree is loaded from JSON in any of its accepted spellings.  Members may come in any order, and
members that the node's kind does not know are ignored; a known member that is repeated is refused.
The kind is a name or a number, a span an object or a pair, an operator its symbol or an object that
holds nothing but it, and an entry of an object literal an object or a list.

Everything that is read must stay within limits, also where it is ignored: at most `maxDepth` nested
arrays and objects, only strings that denote a text, only numbers that round to a double.  The one
exception is the span of the outermost node, of which only the members `start` and `end` and the
names of the others are looked at.
-/

namespace TreeScript

namespace Node

/-- How deep arrays and objects may nest in a text. -/
def maxDepth : Nat := 127

/-- The members of a JSON object. -/
abbrev Members := List (Json.Literal × Json)

namespace Members

/-- The member of one of the given names: none if there is no such member, refused if several. -/
def find (members : Members) (names : List String) : Option (Option Json) :=
  match members.filter fun (name, _) => name.any names.contains with
  | [] => some none
  | [(_, value)] => some (some value)
  | _ => none

/-- The one member of one of the given names. -/
def required (members : Members) (names : List String) : Option Json := do
  let value ← members.find names
  value

/-- The member of a name, read by `decode` unless it is absent or null. -/
def optional {α : Type} (members : Members) (name : String) (decode : Json → Option α) :
    Option (Option α) := do
  match ← members.find [name] with
  | none | some .null => return none
  | some value => return some (← decode value)

end Members

/-! ## Parts without nodes -/

/-- A text. -/
def decodeText : Json → Option String
  | .string s => s
  | _ => none

/-- A truth value. -/
def decodeBool : Json → Option Bool
  | .bool b => some b
  | _ => none

/-- A double. -/
def decodeFloat : Json → Option Float
  | .number n => n.toFloat?
  | _ => none

/-- A list, item by item. -/
def decodeList {α : Type} (decode : Json → Option α) : Json → Option (List α)
  | .array items => items.mapM decode
  | _ => none

/-- An offset, spelled by digits alone. -/
def decodeOffset : Json → Option UInt32
  | .number n => do
    let value ← n.toNat?
    if value < UInt32.size then some (UInt32.ofNat value) else none
  | _ => none

/-- A span: an object with a start and an end, or the list of the two. -/
def decodeSpan : Json → Option Span
  | .object members => do
    guard (members.all fun (name, _) => name.isSome)
    let start ← decodeOffset (← Members.required members ["start"])
    let stop ← decodeOffset (← Members.required members ["end"])
    return ⟨start, stop⟩
  | .array [start, stop] => do
    return ⟨← decodeOffset start, ← decodeOffset stop⟩
  | _ => none

/-- A kind, by name or by number. -/
def decodeKind : Json → Option Kind
  | .string (some name) => Kind.ofName? name
  | .number n => do Kind.ofIndex? (← n.toNat?)
  | _ => none

/-- A symbol: a string, or an object that has it as its only name and holds nothing under it. -/
def decodeSymbol : Json → Option String
  | .string s => s
  | .object [(name, .null)] => name
  | .object [(name, .object [])] => name
  | _ => none

/-! ## Nodes -/

/-- An entry of an object literal: an object, or the list of a key and perhaps a value. -/
def decodeEntry (child : Json → Option Node) : Json → Option (Entry Node)
  | .object members => do
    let key ← decodeText (← Members.required members ["key"])
    let value ← Members.optional members "value" child
    return ⟨key, value⟩
  | .array [key] => do
    return ⟨← decodeText key, none⟩
  | .array [key, .null] => do
    return ⟨← decodeText key, none⟩
  | .array [key, value] => do
    return ⟨← decodeText key, some (← child value)⟩
  | _ => none

namespace Members

/-- The text under a name. -/
def text (members : Members) (name : String) : Option String := do
  decodeText (← members.required [name])

/-- The node under a name, read by `child`. -/
def node (members : Members) (child : Json → Option Node) (name : String) : Option Node := do
  child (← members.required [name])

/-- The nodes under a name, each read by `child`. -/
def nodes (members : Members) (child : Json → Option Node) (name : String) :
    Option (List Node) := do
  decodeList child (← members.required [name])

end Members

/-- A node of a kind from its members, with `child` to read the nodes inside. -/
def decodeFields (child : Json → Option Node) (members : Members) (span : Span) :
    Kind → Option Node
  | .program => do return .program (← members.nodes child "body") span
  | .declaration => do
    let constant ← decodeBool (← members.required ["constant"])
    let name ← members.text "identifier"
    return .declaration constant name (← members.optional "value" child) span
  | .function => do
    let parameters ← decodeList decodeText (← members.required ["parameters"])
    return .function (← members.text "name") parameters (← members.nodes child "body") span
  | .assignment => do
    let target ← child (← members.required ["assignee", "assigne"])
    return .assignment target (← members.node child "value") span
  | .binary => do
    let op ← BinaryOp.ofSymbol? (← decodeSymbol (← members.required ["operator"]))
    return .binary (← members.node child "left") (← members.node child "right") op span
  | .comparison => do
    let op ← ComparisonOp.ofSymbol? (← decodeSymbol (← members.required ["operator"]))
    return .comparison (← members.node child "left") (← members.node child "right") op span
  | .call => do return .call (← members.node child "caller") (← members.nodes child "args") span
  | .member => do return .member (← members.node child "object") (← members.text "property") span
  | .conditional => do
    let alternative ← members.optional "otherwise" (decodeList child)
    let condition ← members.node child "condition"
    return .conditional condition (← members.nodes child "then") alternative span
  | .identifier => do return .identifier (← members.text "symbol") span
  | .number => do return .number (← decodeFloat (← members.required ["value"])) span
  | .string => do return .string (← members.text "value") span
  | .object => do
    return .object (← decodeList (decodeEntry child) (← members.required ["properties"])) span
  | .property => do return .property (← decodeEntry child (.object members)) span

/-- A node from its members: the span, which may be absent, the kind, and the fields of the kind. -/
def decodeMembers (child : Json → Option Node) (members : Members) : Option Node := do
  let span ← match ← members.find ["span"] with
    | none => some .dummy
    | some span => decodeSpan span
  let kind ← decodeKind (← members.required ["kind"])
  decodeFields child members span kind

/-- A node of a value that nests at most `depth` arrays and objects. -/
def decode : Nat → Json → Option Node
  | depth + 1, .object members => decodeMembers (decode depth) members
  | _, _ => none

/-- Whether the value stays within the limits, the span of the outermost node apart. -/
def withinLimits : Json → Bool
  | .object members =>
    Json.membersFit (maxDepth - 1) (members.filter fun (name, _) => name != some "span")
  | _ => false

/-- The tree that a JSON value spells. -/
def ofJson? (j : Json) : Option Node := if withinLimits j then decode maxDepth j else none

/-- The tree that a text spells. -/
def ofText? (s : String) : Option Node := do ofJson? (← Json.read? s)

end Node

end TreeScript
