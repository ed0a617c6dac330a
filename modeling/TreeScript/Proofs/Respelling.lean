import Mathlib.Logic.Relation
import TreeScript.Proofs.RoundTrip

/-!
# Proofs — spellings of a tree

A tree has many spellings.  What may be spelled differently at a place of a value depends on what
the place holds, its `Role`: a node, a list of nodes, a span and so on.  Objects that stand for a
node, for a span or for an entry of an object literal have fields (`Role.fields`), under one name
or several, and a field may be left out if it has a default.

`Respells role a b` says that `b` is `a` with one thing spelled differently, at the place itself or
at a place inside it.  A change inside a member is a change of the first one, since members may be
put in any order.
-/

namespace TreeScript.Node

/-! ### Roles -/

/-- What a place of a value holds. -/
inductive Role where
  | node
  | nodes
  | entry
  | entries
  | span
  | offset
  | kind
  | operator
  | text
  | texts
  | bool
  | float
  /-- Nothing that is read. -/
  | other
deriving DecidableEq

/-- A field of an object: its names, its role, and the value that being left out stands for, if it
may be left out. -/
structure Field where
  names : List String
  role : Role
  default : Option Json := none

/-- The fields of a kind. -/
def Kind.fields : Kind → List Field
  | .program => [⟨["body"], .nodes, none⟩]
  | .declaration =>
    [⟨["constant"], .bool, none⟩, ⟨["identifier"], .text, none⟩, ⟨["value"], .node, some .null⟩]
  | .function =>
    [⟨["name"], .text, none⟩, ⟨["parameters"], .texts, none⟩, ⟨["body"], .nodes, none⟩]
  | .assignment => [⟨["assignee", "assigne"], .node, none⟩, ⟨["value"], .node, none⟩]
  | .binary | .comparison =>
    [⟨["left"], .node, none⟩, ⟨["right"], .node, none⟩, ⟨["operator"], .operator, none⟩]
  | .call => [⟨["caller"], .node, none⟩, ⟨["args"], .nodes, none⟩]
  | .member => [⟨["object"], .node, none⟩, ⟨["property"], .text, none⟩]
  | .conditional =>
    [⟨["condition"], .node, none⟩, ⟨["then"], .nodes, none⟩,
      ⟨["otherwise"], .nodes, some .null⟩]
  | .identifier => [⟨["symbol"], .text, none⟩]
  | .number => [⟨["value"], .float, none⟩]
  | .string => [⟨["value"], .text, none⟩]
  | .object => [⟨["properties"], .entries, none⟩]
  | .property => [⟨["key"], .text, none⟩, ⟨["value"], .node, some .null⟩]

/-- The kind that members give. -/
def Members.kind? (members : Members) : Option Kind := do decodeKind (← members.required ["kind"])

namespace Role

/-- Whether objects of the role have fields. -/
def isRecord : Role → Bool
  | node | entry | span => true
  | _ => false

/-- The fields of an object of the role.  Those of a node depend on its kind. -/
def fields : Role → Members → List Field
  | node, members =>
    ⟨["kind"], .kind, none⟩ :: ⟨["span"], .span, some (encodeSpan .dummy)⟩ ::
      (members.kind?.elim [] Kind.fields)
  | entry, _ => [⟨["key"], .text, none⟩, ⟨["value"], .node, some .null⟩]
  | span, _ => [⟨["start"], .offset, none⟩, ⟨["end"], .offset, none⟩]
  | _, _ => []

/-- The role of an item of a list of the role, given the items before it. -/
def item : Role → List Json → Role
  | nodes, _ => node
  | entries, _ => entry
  | texts, _ => text
  | span, _ => offset
  | entry, [] => text
  | entry, _ => node
  | _, _ => other

end Role

/-! ### Changes -/

/-- Every number of the value rounds to a double, and every string and name is well formed: it
denotes a text. -/
abbrev Sound : Json → Prop := Json.Each (fun n => n.toFloat?.isSome) fun literal => literal.isSome

/-- The second value is the first with one thing spelled differently, where both stand at a place of
the role. -/
inductive Respells : Role → Json → Json → Prop where
  /-- The members of an object are put in another order. -/
  | permute {role : Role} {members members' : Members} : members.Perm members' →
      Respells role (.object members) (.object members')
  /-- Something inside a field changes. -/
  | field {role : Role} {field : Field} {name : String} {members : Members} {a b : Json} :
      field ∈ role.fields ((some name, a) :: members) → name ∈ field.names →
      Respells field.role a b →
      Respells role (.object ((some name, a) :: members)) (.object ((some name, b) :: members))
  /-- Something inside a member changes that is no field. -/
  | unknown {role : Role} {name : Json.Literal} {members : Members} {a b : Json} :
      (∀ field ∈ role.fields ((name, a) :: members), ∀ known ∈ field.names, name ≠ some known) →
      Respells .other a b →
      Respells role (.object ((name, a) :: members)) (.object ((name, b) :: members))
  /-- Something inside an item of a list changes. -/
  | item {role : Role} {before after : List Json} {a b : Json} : Respells (role.item before) a b →
      Respells role (.array (before ++ a :: after)) (.array (before ++ b :: after))
  /-- There is one more member, which is no field. -/
  | extra {role : Role} {name : String} {value : Json} {members : Members} : role.isRecord →
      (∀ field ∈ role.fields members, name ∉ field.names) → Sound value →
      Respells role (.object members) (.object ((some name, value) :: members))
  /-- A field that was left out has its default. -/
  | default {role : Role} {field : Field} {name : String} {value : Json} {members : Members} :
      field ∈ role.fields members → name ∈ field.names → field.default = some value →
      (∀ member ∈ members, ∀ known ∈ field.names, member.1 ≠ some known) →
      Respells role (.object members) (.object ((some name, value) :: members))
  /-- A field goes by another of its names. -/
  | rename {role : Role} {field : Field} {name name' : String} {value : Json} {members : Members} :
      field ∈ role.fields ((some name, value) :: members) → name ∈ field.names →
      name' ∈ field.names →
      Respells role (.object ((some name, value) :: members))
        (.object ((some name', value) :: members))
  /-- A span is the list of its ends. -/
  | spanPair (start stop : Json) :
      Respells .span (.object [(some "start", start), (some "end", stop)]) (.array [start, stop])
  /-- An entry is the list of its key and its value. -/
  | entryPair (key value : Json) :
      Respells .entry (.object [(some "key", key), (some "value", value)]) (.array [key, value])
  /-- An entry without a value is the list of its key. -/
  | entryKey (key : Json) : Respells .entry (.object [(some "key", key)]) (.array [key])
  /-- An operator is the only name in an object. -/
  | symbol (symbol : Json.Literal) :
      Respells .operator (.string symbol) (.object [(symbol, .null)])
  /-- A kind is its number. -/
  | kindNumber {kind : Kind} {index : Nat} : Kind.ofIndex? index = some kind →
      Respells .kind (.text kind.name) (.nat index)

end TreeScript.Node
