import TreeScript.Node

/-!
# Values

A script computes with seven kinds of value.  A function value is a closure: it holds its body and
the scope it was declared in, by number, so that it sees what that scope binds later.  It also knows
which body that is, for two bodies can say the same without being the same.  A native value refers
to a function of the host, also by number.

Objects list their properties in the order of first appearance.  They are built by
`Value.ofEntries`, which lets the last entry of a key win and keeps the place of the first, so no
key comes twice.
-/

namespace TreeScript

/-- Scopes are known by number. -/
abbrev ScopeId := Nat

/-- Functions of the host are known by number. -/
abbrev NativeId := Nat

/-- Bodies of functions are known by a declaration of them: the scope and the name that it binds.
That tells all declarations of a run apart, as no scope binds a name twice; and two declarations
with one body share what it is known by. -/
structure BodyId where
  scope : ScopeId
  name : String
deriving DecidableEq, Repr, Inhabited

/-- A declared function and the scope of its declaration. -/
structure Closure where
  name : String
  parameters : List String
  body : List Node
  /-- Which body it is, whatever it says. -/
  bodyId : BodyId
  scope : ScopeId
deriving Inhabited

/-- A function of the host, under the name that scripts see. -/
structure Native where
  name : String
  id : NativeId
deriving DecidableEq, Repr, Inhabited

/-- A value. -/
inductive Value where
  | number (value : Float)
  | string (value : String)
  | bool (value : Bool)
  | null
  | object (properties : List (String × Value))
  | function (closure : Closure)
  | native (native : Native)
deriving Inhabited

namespace Value

/-- The name of the value's kind, as failures spell it. -/
def typeName : Value → String
  | number _ => "number"
  | string _ => "string"
  | bool _ => "boolean"
  | null => "null"
  | object _ => "object"
  | function _ => "function"
  | native _ => "native-function"

/-- Properties with `key` set to `value`: at its place if the key is there, at the end if not. -/
def setProperty (key : String) (value : Value) : List (String × Value) → List (String × Value)
  | [] => [(key, value)]
  | (k, v) :: properties =>
    if k = key then (key, value) :: properties else (k, v) :: setProperty key value properties

/-- The properties that entries set one after the other. -/
def propertiesOf (entries : List (String × Value)) : List (String × Value) :=
  entries.foldl (fun properties (key, value) => setProperty key value properties) []

/-- The object that entries set one after the other. -/
def ofEntries (entries : List (String × Value)) : Value := object (propertiesOf entries)

/-- The value of a property. -/
def property? (properties : List (String × Value)) (key : String) : Option Value :=
  properties.lookup key

end Value

end TreeScript
