import TreeScript.Failure
import TreeScript.Value

/-!
# Scopes

All scopes of a run live in one store, and a scope is known by its number there.  A scope owns its
bindings and knows the scope around it, which was created before it; so the chain of scopes from any
one outward descends in number and ends.

A name means the binding of the nearest scope on the chain that has one.  Declaring binds a name in
one scope, and only where that scope does not bind it yet; assigning replaces the value of the
nearest binding, unless that is constant.  Nothing ever removes a scope or a binding.
-/

namespace TreeScript

/-- Whether a binding can be given another value. -/
inductive Mutability where
  | mutable
  | constant
deriving DecidableEq, Repr, Inhabited

/-- The mutability of a declaration. -/
def Mutability.ofConstant (constant : Bool) : Mutability := if constant then .constant else .mutable

/-- A name bound in a scope. -/
structure Binding where
  name : String
  value : Value
  mutability : Mutability
deriving Inhabited

/-- A scope: its bindings, in the order of their declaration, and the scope around it. -/
structure Scope where
  bindings : List Binding
  parent : Option ScopeId
deriving Inhabited

namespace Scope

/-- The binding of a name in the scope itself. -/
def find? (scope : Scope) (name : String) : Option Binding :=
  scope.bindings.find? fun b => b.name == name

/-- Whether the scope itself binds a name. -/
def binds (scope : Scope) (name : String) : Bool := (scope.find? name).isSome

/-- The names the scope itself binds, in the order of their declaration. -/
def names (scope : Scope) : List String := scope.bindings.map (·.name)

/-- The scope with one more binding. -/
def add (scope : Scope) (binding : Binding) : Scope :=
  { scope with bindings := scope.bindings ++ [binding] }

/-- The scope with a new value for a name it binds. -/
def setValue (scope : Scope) (name : String) (value : Value) : Scope :=
  { scope with
    bindings :=
      scope.bindings.map fun b => if b.name == name then { b with value := value } else b }

end Scope

/-- The scopes of a run, each at its number. -/
structure Store where
  scopes : Array Scope
deriving Inhabited

namespace Store

/-- No scopes. -/
def empty : Store := ⟨#[]⟩

/-- The scope of a number. -/
def scope? (store : Store) (id : ScopeId) : Option Scope := store.scopes[id]?

/-- The scope around a scope. -/
def parent? (store : Store) (id : ScopeId) : Option ScopeId := (store.scope? id).bind (·.parent)

/-- A scope without bindings inside `parent`, and its number. -/
def newScope (store : Store) (parent : Option ScopeId) : ScopeId × Store :=
  (store.scopes.size, ⟨store.scopes.push ⟨[], parent⟩⟩)

/-- The scopes from `id` outward, `id` first. -/
def chain (store : Store) (id : ScopeId) : List ScopeId :=
  match store.parent? id with
  | some parent => if parent < id then id :: store.chain parent else [id]
  | none => [id]
termination_by id

/-- Whether the scope of a number itself binds a name. -/
def binds (store : Store) (id : ScopeId) (name : String) : Bool :=
  (store.scope? id).any (·.binds name)

/-- The names that the scope of a number itself binds. -/
def names (store : Store) (id : ScopeId) : List String :=
  match store.scope? id with
  | some scope => scope.names
  | none => []

/-- The nearest scope from `id` outward that binds a name. -/
def resolve? (store : Store) (id : ScopeId) (name : String) : Option ScopeId :=
  (store.chain id).find? fun scope => store.binds scope name

/-- The binding that a name means in a scope. -/
def binding? (store : Store) (id : ScopeId) (name : String) : Option Binding := do
  let owner ← store.resolve? id name
  let scope ← store.scope? owner
  scope.find? name

/-- The nearest scope from `id` outward that binds a name, or the fault that there is none. -/
def resolve (store : Store) (id : ScopeId) (name : String) : Except Fault ScopeId :=
  match store.resolve? id name with
  | some owner => .ok owner
  | none => .error (.undefinedVariable name)

/-- The value of a name in a scope. -/
def lookup (store : Store) (id : ScopeId) (name : String) : Except Fault Value :=
  match store.binding? id name with
  | some binding => .ok binding.value
  | none => .error (.undefinedVariable name)

/-- Binds a name in the scope of a number itself. -/
@[inline] def declare (store : Store) (id : ScopeId) (name : String) (value : Value)
    (mutability : Mutability) : Except Fault Store :=
  if store.binds id name then .error (.duplicateDeclaration name)
  else .ok ⟨store.scopes.modify id (·.add ⟨name, value, mutability⟩)⟩

/-- Replaces the value of a name where it is bound. -/
@[inline] def assign (store : Store) (id : ScopeId) (name : String) (value : Value) :
    Except Fault Store :=
  match store.resolve? id name, store.binding? id name with
  | some owner, some binding =>
    match binding.mutability with
    | .constant => .error (.constantAssignment name)
    | .mutable => .ok ⟨store.scopes.modify owner (·.setValue name value)⟩
  | _, _ => .error (.undefinedVariable name)

/-- Every scope lies inside an older one. -/
def WellFormed (store : Store) : Prop :=
  ∀ id parent, store.parent? id = some parent → parent < id

theorem empty_wellFormed : empty.WellFormed := by
  intro id parent h
  simp [parent?, scope?, empty] at h

end Store

end TreeScript
