import TreeScript.HostFunction
import TreeScript.Proofs.Steps

/-!
# Proofs — forgetting spans

`Node.bare` forgets the spans of a tree, and what holds trees forgets them with it: closures keep
their bodies, values and scopes keep closures.  Two things are the same up to spans if their bare
forms are equal.

Looking into things and forgetting spans commute: the bare value of a variable is the value of the
variable in the bare store (`Store.lookup_bare`), a bare store with one more binding is a store with
one more bare binding (`Store.declare_bare`), and operators see no spans (`BinaryOp.apply_bare`).
-/

namespace TreeScript

/-! ### Trees -/

namespace Node

mutual

/-- The tree without its spans. -/
def bare : Node → Node
  | .program body _ => .program (bareAll body) .dummy
  | .declaration constant name value _ => .declaration constant name (bareOption value) .dummy
  | .function name parameters body _ => .function name parameters (bareAll body) .dummy
  | .assignment target value _ => .assignment (bare target) (bare value) .dummy
  | .binary left right op _ => .binary (bare left) (bare right) op .dummy
  | .comparison left right op _ => .comparison (bare left) (bare right) op .dummy
  | .call callee arguments _ => .call (bare callee) (bareAll arguments) .dummy
  | .member subject key _ => .member (bare subject) key .dummy
  | .conditional condition consequent alternative _ =>
    .conditional (bare condition) (bareAll consequent) (bareBranch alternative) .dummy
  | .identifier name _ => .identifier name .dummy
  | .number value _ => .number value .dummy
  | .string value _ => .string value .dummy
  | .object entries _ => .object (bareEntries entries) .dummy
  | .property ⟨key, value⟩ _ => .property ⟨key, bareOption value⟩ .dummy

/-- Trees without their spans. -/
def bareAll : List Node → List Node
  | [] => []
  | node :: nodes => bare node :: bareAll nodes

/-- A tree that may be absent, without its spans. -/
def bareOption : Option Node → Option Node
  | none => none
  | some node => some (bare node)

/-- Trees that may be absent, without their spans. -/
def bareBranch : Option (List Node) → Option (List Node)
  | none => none
  | some body => some (bareAll body)

/-- Entries without the spans of their values. -/
def bareEntries : List (Entry Node) → List (Entry Node)
  | [] => []
  | ⟨key, value⟩ :: entries => ⟨key, bareOption value⟩ :: bareEntries entries

end

/-- The recursions on the parts of a node are maps. -/
theorem bareAll_eq_map (nodes : List Node) : bareAll nodes = nodes.map bare := by
  induction nodes with
  | nil => rfl
  | cons node nodes ih => rw [bareAll, ih, List.map_cons]

theorem bareOption_eq_map (value : Option Node) : bareOption value = value.map bare := by
  cases value <;> rfl

theorem bareBranch_eq_map (branch : Option (List Node)) :
    bareBranch branch = branch.map (·.map bare) := by
  cases branch with
  | none => rfl
  | some body => rw [bareBranch, bareAll_eq_map, Option.map_some]

theorem bareEntries_eq_map (entries : List (Entry Node)) :
    bareEntries entries = entries.map fun entry => ⟨entry.key, entry.value.map bare⟩ := by
  induction entries with
  | nil => rfl
  | cons entry entries ih => rw [bareEntries, ih, bareOption_eq_map, List.map_cons]

@[simp] theorem kind_bare (node : Node) : node.bare.kind = node.kind := by
  cases node <;> rfl

/-- What a node stands for as the target of an assignment is not a matter of spans. -/
theorem assignable_bare (node : Node) : node.bare.assignable = node.assignable := by
  cases node <;> rfl

end Node

/-- Lists with equal images are related item by item. -/
theorem forall₂_of_map_eq {α β : Type} {f : α → β} {xs ys : List α} (h : xs.map f = ys.map f) :
    List.Forall₂ (fun x y => f x = f y) xs ys := by
  rw [← List.forall₂_eq_eq_eq] at h
  simpa using h

/-- Optional things with equal images are both absent or related. -/
theorem optionRel_of_map_eq {α β : Type} {f : α → β} {R : α → α → Prop}
    (hR : ∀ x y, f x = f y → R x y) {x y : Option α} (h : x.map f = y.map f) :
    Option.Rel R x y := by
  match x, y, h with
  | none, none, _ => exact .none
  | some x, some y, h => exact .some (hR x y (Option.some.inj h))

/-- Trees that are the same up to spans have one shape, and so have their parts. -/
theorem Node.Alike.of_bare {n m : Node} (h : n.bare = m.bare) :
    Node.Alike (fun n m => n.bare = m.bare) n m := by
  have hkind : n.kind = m.kind := by rw [← kind_bare n, h, kind_bare]
  cases n with
  | program =>
      cases m <;> cases hkind
      simp only [bare, program.injEq, bareAll_eq_map, and_true] at h
      exact .program (forall₂_of_map_eq h)
  | declaration =>
      cases m <;> cases hkind
      simp only [bare, declaration.injEq, bareOption_eq_map, and_true] at h
      obtain ⟨rfl, rfl, hvalue⟩ := h
      exact .declaration (optionRel_of_map_eq (fun _ _ h => h) hvalue)
  | function =>
      cases m <;> cases hkind
      simp only [bare, function.injEq] at h
      obtain ⟨rfl, rfl, -⟩ := h
      exact .function
  | assignment =>
      cases m <;> cases hkind
      simp only [bare, assignment.injEq, and_true] at h
      exact .assignment h.2
  | binary =>
      cases m <;> cases hkind
      simp only [bare, binary.injEq, and_true] at h
      obtain ⟨hleft, hright, rfl⟩ := h
      exact .binary hleft hright
  | comparison =>
      cases m <;> cases hkind
      simp only [bare, comparison.injEq, and_true] at h
      obtain ⟨hleft, hright, rfl⟩ := h
      exact .comparison hleft hright
  | call =>
      cases m <;> cases hkind
      simp only [bare, call.injEq, bareAll_eq_map, and_true] at h
      exact .call h.1 (forall₂_of_map_eq h.2)
  | member =>
      cases m <;> cases hkind
      simp only [bare, member.injEq, and_true] at h
      obtain ⟨hsubject, rfl⟩ := h
      exact .member hsubject
  | conditional =>
      cases m <;> cases hkind
      simp only [bare, conditional.injEq, bareAll_eq_map, bareBranch_eq_map, and_true] at h
      obtain ⟨hcondition, hconsequent, halternative⟩ := h
      refine .conditional hcondition (forall₂_of_map_eq hconsequent) ?_
      exact optionRel_of_map_eq (fun _ _ => forall₂_of_map_eq) halternative
  | identifier =>
      cases m <;> cases hkind
      simp only [bare, identifier.injEq, and_true] at h
      obtain rfl := h
      exact .identifier
  | number =>
      cases m <;> cases hkind
      simp only [bare, number.injEq, and_true] at h
      obtain rfl := h
      exact .number
  | string =>
      cases m <;> cases hkind
      simp only [bare, string.injEq, and_true] at h
      obtain rfl := h
      exact .string
  | object =>
      cases m <;> cases hkind
      simp only [bare, object.injEq, bareEntries_eq_map, and_true] at h
      refine .object ((forall₂_of_map_eq h).imp fun entry entry' hentry => ?_)
      simp only [Entry.mk.injEq] at hentry
      exact ⟨hentry.1, optionRel_of_map_eq (fun _ _ h => h) hentry.2⟩
  | property =>
      cases m <;> cases hkind
      exact .property

/-! ### Values -/

/-- The closure with the bare trees of its body. -/
def Closure.bare (closure : Closure) : Closure :=
  { closure with body := closure.body.map Node.bare }

namespace Value

mutual

/-- The value without the spans in its closures. -/
def bare : Value → Value
  | .object properties => .object (bareProperties properties)
  | .function closure => .function closure.bare
  | .number x => .number x
  | .string s => .string s
  | .bool b => .bool b
  | .null => .null
  | .native n => .native n

/-- Properties without the spans in the closures of their values. -/
def bareProperties : List (String × Value) → List (String × Value)
  | [] => []
  | (key, value) :: properties => (key, bare value) :: bareProperties properties

end

@[simp] theorem typeName_bare (value : Value) : value.bare.typeName = value.typeName := by
  cases value <;> rfl

/-- A property is set at the same place, whatever the spans. -/
theorem setProperty_bare (key : String) (value : Value) (properties : List (String × Value)) :
    setProperty key value.bare (bareProperties properties) =
      bareProperties (setProperty key value properties) := by
  induction properties with
  | nil => rfl
  | cons property properties ih =>
      obtain ⟨k, v⟩ := property
      simp only [setProperty, bareProperties]
      split <;> simp only [bareProperties, ih]

/-- An object literal keeps and drops the same properties, whatever the spans. -/
theorem ofEntries_bare (entries : List (String × Value)) :
    (ofEntries entries).bare = ofEntries (bareProperties entries) := by
  suffices ∀ properties, bareProperties (entries.foldl
      (fun properties entry => setProperty entry.1 entry.2 properties) properties) =
        (bareProperties entries).foldl
          (fun properties entry => setProperty entry.1 entry.2 properties)
          (bareProperties properties) from congrArg Value.object (this [])
  induction entries with
  | nil => exact fun _ => rfl
  | cons entry entries ih =>
      intro properties
      simp only [bareProperties, List.foldl_cons, ih, setProperty_bare]

/-- So it is found there. -/
theorem property?_bare (properties : List (String × Value)) (key : String) :
    property? (bareProperties properties) key = (property? properties key).map bare := by
  simp only [property?]
  induction properties with
  | nil => rfl
  | cons property properties ih =>
      obtain ⟨k, v⟩ := property
      simp only [bareProperties, List.lookup_cons]
      split <;> simp_all

/-- Access to a property succeeds or fails alike, and with one value up to spans. -/
theorem member_bare (subject : Value) (key : String) :
    subject.bare.member key = (subject.member key).map bare := by
  cases subject with
  | object properties =>
      simp only [bare, member, property?_bare]
      cases property? properties key <;> rfl
  | _ => rfl

/-- No span decides a condition. -/
theorem condition_bare (value : Value) : value.bare.condition = value.condition := by
  cases value <;> rfl

/-- Nor are spans compared. -/
theorem compare_bare (left right : Value) : left.bare.compare right.bare = left.compare right := by
  cases left <;> cases right <;> rfl

mutual

/-- A value is displayed without a look at spans. -/
theorem display_bare : ∀ value : Value, value.bare.display = value.display
  | .object [] => rfl
  | .object (property :: properties) => by
      have h := displayProperties_bare (property :: properties)
      rw [bare]
      simp only [bareProperties, display] at h ⊢
      rw [h]
  | .function _ | .number _ | .string _ | .bool _ | .null | .native _ => rfl

theorem displayProperties_bare : ∀ properties : List (String × Value),
    displayProperties (bareProperties properties) = displayProperties properties
  | [] => rfl
  | (key, value) :: properties => by
      simp only [bareProperties, displayProperties, display_bare value,
        displayProperties_bare properties]

end

/-- So is a line of values. -/
theorem printLine_bare (values : List Value) : printLine (values.map bare) = printLine values := by
  have hprint : ∀ value : Value, value.bare.printForm = value.printForm := by
    intro value
    cases value with
    | string s => rfl
    | _ => exact display_bare _
  rw [printLine, List.map_map, printLine]
  exact congrArg _ (List.map_congr_left fun value _ => hprint value)

end Value

/-- Operators yield one value up to spans, or fail alike. -/
theorem BinaryOp.apply_bare (op : BinaryOp) (policy : Policy) (left right : Value) :
    op.apply policy left.bare right.bare = (op.apply policy left right).map Value.bare := by
  cases left <;> cases right
  case number.number a b =>
    simp only [Value.bare, BinaryOp.apply]
    cases op.onNumbers policy.zeroDivision a b <;> rfl
  case string.string a b =>
    simp only [Value.bare, BinaryOp.apply]
    cases op.onStrings a b <;> rfl
  all_goals
    simp only [Value.bare, BinaryOp.apply]
    cases policy.mixedOperands <;> rfl

/-- So do comparisons. -/
theorem ComparisonOp.apply_bare (op : ComparisonOp) (left right : Value) :
    op.apply left.bare right.bare = (op.apply left right).map Value.bare := by
  rw [ComparisonOp.apply, ComparisonOp.apply, Value.compare_bare]
  cases left.compare right <;> rfl

/-! ### Scopes -/

/-- The binding without the spans in the closures of its value. -/
def Binding.bare (binding : Binding) : Binding := { binding with value := binding.value.bare }

/-- The scope without the spans in the closures that it binds. -/
def Scope.bare (scope : Scope) : Scope := { scope with bindings := scope.bindings.map Binding.bare }

/-- The store without the spans in the closures that it holds. -/
def Store.bare (store : Store) : Store := ⟨store.scopes.map Scope.bare⟩

namespace Scope

/-- A scope binds the same names, to one value up to spans. -/
theorem find?_bare (scope : Scope) (name : String) :
    scope.bare.find? name = (scope.find? name).map Binding.bare := by
  simp only [find?, bare, List.find?_map]
  rfl

theorem binds_bare (scope : Scope) (name : String) : scope.bare.binds name = scope.binds name := by
  simp [binds, find?_bare]

/-- A binding is added at the same place. -/
theorem add_bare (scope : Scope) (binding : Binding) :
    (scope.add binding).bare = scope.bare.add binding.bare := by
  simp [bare, add]

/-- A value is replaced where it was bound. -/
theorem setValue_bare (scope : Scope) (name : String) (value : Value) :
    (scope.setValue name value).bare = scope.bare.setValue name value.bare := by
  simp only [bare, setValue, List.map_map, Scope.mk.injEq, and_true]
  refine List.map_congr_left fun binding _ => ?_
  by_cases hname : binding.name = name <;> simp [Binding.bare, hname]

end Scope

namespace Store

/-- A scope keeps its number. -/
theorem scope?_bare (store : Store) (id : ScopeId) :
    store.bare.scope? id = (store.scope? id).map Scope.bare := by
  simp [scope?, bare]

/-- It keeps the scope around it. -/
theorem parent?_bare (store : Store) (id : ScopeId) : store.bare.parent? id = store.parent? id := by
  simp only [parent?, scope?_bare]
  cases store.scope? id <;> rfl

theorem binds_bare (store : Store) (id : ScopeId) (name : String) :
    store.bare.binds id name = store.binds id name := by
  simp only [binds, scope?_bare]
  cases store.scope? id with
  | none => rfl
  | some scope => exact scope.binds_bare name

theorem chain_bare (store : Store) (id : ScopeId) : store.bare.chain id = store.chain id :=
  chain_congr fun k _ => store.parent?_bare k

/-- So names are resolved as before, to the same scope. -/
theorem resolve?_bare (store : Store) (id : ScopeId) (name : String) :
    store.bare.resolve? id name = store.resolve? id name := by
  simp only [resolve?, chain_bare, binds_bare]

theorem binding?_bare (store : Store) (id : ScopeId) (name : String) :
    store.bare.binding? id name = (store.binding? id name).map Binding.bare := by
  simp only [binding?, resolve?_bare]
  cases store.resolve? id name with
  | none => rfl
  | some owner =>
      simp only [Option.bind_eq_bind, Option.bind_some, scope?_bare]
      cases store.scope? owner with
      | none => rfl
      | some scope => exact scope.find?_bare name

/-- A name has the same value up to spans. -/
theorem lookup_bare (store : Store) (id : ScopeId) (name : String) :
    store.bare.lookup id name = (store.lookup id name).map Value.bare := by
  simp only [lookup, binding?_bare]
  cases store.binding? id name <;> rfl

/-- Changing a scope without its spans is as good as erasing them after the change. -/
theorem modify_bare (store : Store) (id : ScopeId) {f g : Scope → Scope}
    (h : ∀ scope : Scope, (f scope).bare = g scope.bare) :
    Store.bare ⟨store.scopes.modify id f⟩ = ⟨store.bare.scopes.modify id g⟩ := by
  refine congrArg Store.mk (Array.ext_getElem? fun k => ?_)
  simp only [bare, Array.getElem?_map, Array.getElem?_modify]
  by_cases hk : id = k <;> cases store.scopes[k]? <;> simp [hk, h]

/-- A name can be declared, whatever the spans. -/
theorem declare_bare (store : Store) (id : ScopeId) (name : String) (value : Value)
    (mutability : Mutability) :
    store.bare.declare id name value.bare mutability =
      (store.declare id name value mutability).map bare := by
  simp only [declare, binds_bare]
  split
  · rfl
  · exact congrArg Except.ok (modify_bare store id fun scope => scope.add_bare _).symm

/-- A name can be assigned to, whatever the spans. -/
theorem assign_bare (store : Store) (id : ScopeId) (name : String) (value : Value) :
    store.bare.assign id name value.bare = (store.assign id name value).map bare := by
  simp only [assign, resolve?_bare, binding?_bare]
  cases store.resolve? id name with
  | none => rfl
  | some owner =>
      cases store.binding? id name with
      | none => rfl
      | some binding =>
          simp only [Option.map_some, Binding.bare]
          cases binding.mutability with
          | constant => rfl
          | «mutable» =>
              exact congrArg Except.ok
                (modify_bare store owner fun scope => scope.setValue_bare name value).symm

/-- A new scope gets the same number, whatever the spans. -/
theorem newScope_bare (store : Store) (parent : Option ScopeId) :
    store.bare.newScope parent =
      ((store.newScope parent).1, (store.newScope parent).2.bare) := by
  simp [newScope, bare, Scope.bare]

end Store

end TreeScript
