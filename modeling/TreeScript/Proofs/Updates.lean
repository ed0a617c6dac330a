import TreeScript.Proofs.Growth
import TreeScript.Proofs.Nesting

/-!
# Proofs — what an update changes

A declaration and an assignment change the meaning of one name, for exactly the scopes that should
see it change, and of nothing else (`updates_exact`).  The declaration concerns the scopes from
which its own scope is reached before any other that binds the name; the assignment concerns the
scopes that find the name where the assigning one finds it.  An update that is refused changes
nothing.

Both replace what one scope binds to one name.  A name means what the first scope on the chain binds
to it (`Store.binding?_eq_findSome?`), so who sees the change is a matter of the chain alone
(`Store.Rebinds.lookup`).  The chain consists of the scopes that one comes through along the links
outward, in this order, as long as every scope lies inside an older one (`Store.Outward.chain_eq`).
-/

namespace TreeScript

namespace Store

/-! ### Walks outward -/

/-- Going outward from `id` one comes through the scopes `around`, and then there are no more. -/
inductive Outward (store : Store) : ScopeId → List ScopeId → Prop where
  | outermost {id : ScopeId} : store.parent? id = none → Outward store id []
  | inside {id parent : ScopeId} {around : List ScopeId} : store.parent? id = some parent →
      Outward store parent around → Outward store id (parent :: around)

/-- Where every scope lies inside an older one, one comes to an outermost scope from each. -/
theorem WellFormed.exists_outward {store : Store} (hstore : store.WellFormed) (id : ScopeId) :
    ∃ around, store.Outward id around := by
  -- the numbers of the scopes fall on the way outward
  induction id using Nat.strong_induction_on with
  | _ id ih =>
      cases hparent : store.parent? id with
      | none => exact ⟨[], .outermost hparent⟩
      | some parent =>
          obtain ⟨around, houtward⟩ := ih parent (hstore id parent hparent)
          exact ⟨parent :: around, .inside hparent houtward⟩

namespace Outward

variable {store : Store} {id : ScopeId} {around : List ScopeId}

/-- The scopes around one are older. -/
theorem lt (h : store.Outward id around) (hstore : store.WellFormed) : ∀ k ∈ around, k < id := by
  induction h with
  | outermost => nofun
  | inside hparent _ ih =>
      have hlt := hstore _ _ hparent
      exact List.forall_mem_cons.mpr ⟨hlt, fun k hk => (ih k hk).trans hlt⟩

/-- The chain from a scope is that scope and those around it. -/
theorem chain_eq (h : store.Outward id around) (hstore : store.WellFormed) :
    store.chain id = id :: around := by
  induction h with
  | outermost hparent => rw [chain, hparent]
  | inside hparent _ ih =>
      rw [chain, hparent]
      -- the chain would stop before a scope that is not older, but there is none
      simp only [if_pos (hstore _ _ hparent), ih]

end Outward

/-- So the chain from a scope is the walk along the links, all the way. -/
theorem WellFormed.chain_outward {store : Store} (hstore : store.WellFormed) (id : ScopeId) :
    ∃ around, store.Outward id around ∧ store.chain id = id :: around := by
  obtain ⟨around, houtward⟩ := hstore.exists_outward id
  exact ⟨around, houtward, houtward.chain_eq hstore⟩

/-! ### The nearest binding -/

/-- Seen from the scope `id`, nothing hides the name in `owner`: that lies on the chain from `id`
outward, and no scope before it there binds the name. -/
def Exposes (store : Store) (id : ScopeId) (name : String) (owner : ScopeId) : Prop :=
  ∃ nearer further, store.chain id = nearer ++ owner :: further ∧
    ∀ k ∈ nearer, store.binds k name = false

/-- The nearest binding of the name, seen from the scope `id`, is `binding` in `owner`. -/
structure Nearest (store : Store) (id : ScopeId) (name : String) (owner : ScopeId)
    (binding : Binding) : Prop where
  exposes : store.Exposes id name owner
  own : store.ownBinding? owner name = some binding

theorem binds_eq_isSome (store : Store) (id : ScopeId) (name : String) :
    store.binds id name = (store.ownBinding? id name).isSome := by
  rw [binds, ownBinding?]
  cases store.scope? id <;> rfl

theorem resolve?_eq_some {store : Store} {id : ScopeId} {name : String} {owner : ScopeId} :
    store.resolve? id name = some owner ↔
      store.Exposes id name owner ∧ store.binds owner name = true := by
  simp only [resolve?, List.find?_eq_some_iff_append, Exposes]
  constructor
  · rintro ⟨hbinds, nearer, further, hchain, hnearer⟩
    exact ⟨⟨nearer, further, hchain, by simpa using hnearer⟩, hbinds⟩
  · rintro ⟨⟨nearer, further, hchain, hnearer⟩, hbinds⟩
    exact ⟨hbinds, nearer, further, hchain, by simpa using hnearer⟩

/-- A name means what the first scope outward binds to it. -/
theorem binding?_eq_findSome? (store : Store) (id : ScopeId) (name : String) :
    store.binding? id name = (store.chain id).findSome? (store.ownBinding? · name) := by
  rw [binding?, resolve?]
  show ((store.chain id).find? _).bind (store.ownBinding? · name) = _
  induction store.chain id with
  | nil => rfl
  | cons k chain ih =>
      rw [List.find?_cons, List.findSome?_cons, binds_eq_isSome]
      cases h : store.ownBinding? k name with
      | none => exact ih
      | some binding => exact h

theorem Nearest.binding? {store : Store} {id : ScopeId} {name : String} {owner : ScopeId}
    {binding : Binding} (h : store.Nearest id name owner binding) :
    store.resolve? id name = some owner ∧ store.binding? id name = some binding := by
  have hresolve : store.resolve? id name = some owner :=
    resolve?_eq_some.mpr ⟨h.exposes, by rw [binds_eq_isSome, h.own]; rfl⟩
  refine ⟨hresolve, ?_⟩
  rw [Store.binding?, hresolve]
  exact h.own

/-- A name has a nearest binding, unless no scope outward binds it. -/
theorem unbound_or_nearest (store : Store) (id : ScopeId) (name : String) :
    (∀ k ∈ store.chain id, store.binds k name = false) ∨
      ∃ owner binding, store.Nearest id name owner binding := by
  cases h : store.resolve? id name with
  | none => exact .inl (by simpa [resolve?] using h)
  | some owner =>
      obtain ⟨hexposes, hbinds⟩ := resolve?_eq_some.mp h
      rw [binds_eq_isSome] at hbinds
      obtain ⟨binding, hown⟩ := Option.isSome_iff_exists.mp hbinds
      exact .inr ⟨owner, binding, hexposes, hown⟩

/-! ### Replacing one binding -/

/-- The second store differs from the first in what `owner` binds to the name, which is now
`binding`. -/
structure Rebinds (before after : Store) (owner : ScopeId) (name : String) (binding : Binding) :
    Prop where
  chain (id : ScopeId) : after.chain id = before.chain id
  own (id : ScopeId) (key : String) : after.ownBinding? id key =
    if id = owner ∧ key = name then some binding else before.ownBinding? id key

namespace Rebinds

variable {before after : Store} {owner : ScopeId} {name : String} {binding : Binding}

/-- The new binding is the first that is found, where no nearer scope binds the name. -/
theorem binding?_of_exposes (h : before.Rebinds after owner name binding) {id : ScopeId}
    (hexposes : before.Exposes id name owner) : after.binding? id name = some binding := by
  obtain ⟨nearer, further, hchain, hnearer⟩ := hexposes
  rw [binding?_eq_findSome?, h.chain, hchain]
  clear hchain
  induction nearer with
  | nil => simp [h.own]
  | cons k nearer ih =>
      have hk : before.ownBinding? k name = none := by
        simpa [binds_eq_isSome] using hnearer k List.mem_cons_self
      rw [List.cons_append, List.findSome?_cons, h.own]
      split
      · by_cases hid : k = owner <;> simp_all
      · exact ih fun k' hk' => hnearer k' (List.mem_cons_of_mem k hk')

/-- On a chain where the owner is not there, or is hidden, the search comes upon another scope with
the name first, or upon none. -/
theorem findSome?_of_hidden (h : before.Rebinds after owner name binding) {chain : List ScopeId}
    (hhidden : ¬∃ nearer further, chain = nearer ++ owner :: further ∧
      ∀ k ∈ nearer, before.binds k name = false) :
    chain.findSome? (after.ownBinding? · name) = chain.findSome? (before.ownBinding? · name) := by
  induction chain with
  | nil => rfl
  | cons k chain ih =>
      have hk : k ≠ owner := by
        rintro rfl
        exact hhidden ⟨[], chain, rfl, by simp⟩
      rw [List.findSome?_cons, List.findSome?_cons, h.own, if_neg (by simp [hk])]
      cases hown : before.ownBinding? k name with
      | some found => rfl
      | none =>
          refine ih ?_
          rintro ⟨nearer, further, rfl, hnearer⟩
          refine hhidden ⟨k :: nearer, further, rfl, ?_⟩
          simpa [binds_eq_isSome, hown] using hnearer

/-- What is found elsewhere is found as before. -/
theorem binding?_of_not (h : before.Rebinds after owner name binding) {id : ScopeId} {key : String}
    (hnot : ¬(key = name ∧ before.Exposes id name owner)) :
    after.binding? id key = before.binding? id key := by
  rw [binding?_eq_findSome?, binding?_eq_findSome?, h.chain]
  by_cases hkey : key = name
  · subst hkey
    exact h.findSome?_of_hidden fun hexposes => hnot ⟨rfl, hexposes⟩
  · have hown : (after.ownBinding? · key) = (before.ownBinding? · key) := by
      funext k
      rw [h.own, if_neg fun hk => hkey hk.2]
    rw [hown]

/-- **Who sees the change.**  The name has the new value wherever nothing nearer hides it, and every
other lookup gives what it gave. -/
theorem lookup (h : before.Rebinds after owner name binding) (id : ScopeId) (key : String) :
    (key = name ∧ before.Exposes id name owner → after.lookup id key = .ok binding.value) ∧
    (¬(key = name ∧ before.Exposes id name owner) →
      after.lookup id key = before.lookup id key) := by
  constructor
  · rintro ⟨rfl, hexposes⟩
    rw [Store.lookup, h.binding?_of_exposes hexposes]
  · intro hnot
    rw [Store.lookup, Store.lookup, h.binding?_of_not hnot]

end Rebinds

/-- Changing one scope, but not its parent, leaves the chains alone. -/
theorem chain_modify (store : Store) (id k : ScopeId) {f : Scope → Scope}
    (hf : ∀ scope, (f scope).parent = scope.parent) :
    (Store.mk (store.scopes.modify id f)).chain k = store.chain k :=
  chain_congr fun j _ => parent?_modify store id j hf

theorem ownBinding?_modify (store : Store) (id k : ScopeId) (key : String) (f : Scope → Scope) :
    (Store.mk (store.scopes.modify id f)).ownBinding? k key =
      if k = id then (store.scope? k).bind fun scope => (f scope).find? key
      else store.ownBinding? k key := by
  rw [ownBinding?, ownBinding?, scope?_modify]
  split
  · cases store.scope? k <;> rfl
  · rfl

/-- A declaration in a scope that does not bind the name. -/
theorem rebinds_add {store : Store} {id : ScopeId} {name : String} {scope : Scope}
    (hscope : store.scope? id = some scope) (hfree : store.binds id name = false) (value : Value)
    (mutability : Mutability) :
    store.Rebinds ⟨store.scopes.modify id (·.add ⟨name, value, mutability⟩)⟩ id name
      ⟨name, value, mutability⟩ where
  chain k := store.chain_modify id k fun _ => rfl
  own k key := by
    rw [ownBinding?_modify]
    by_cases hk : k = id
    · subst hk
      have hnone : scope.find? name = none := by
        simpa [binds, hscope, Scope.binds] using hfree
      rw [if_pos rfl, ownBinding?, hscope]
      by_cases hkey : key = name
      · subst hkey
        rw [Scope.find?] at hnone
        simp [Scope.find?, Scope.add, List.find?_append, hnone]
      · have hother : (name == key) = false := by simpa using Ne.symm hkey
        simp [Scope.find?, Scope.add, List.find?_append, hkey, hother]
    · rw [if_neg hk, if_neg fun h => hk h.1]

/-- An assignment in a scope that binds the name. -/
theorem rebinds_setValue {store : Store} {owner : ScopeId} {name : String} {binding : Binding}
    (hown : store.ownBinding? owner name = some binding) (value : Value) :
    store.Rebinds ⟨store.scopes.modify owner (·.setValue name value)⟩ owner name
      { binding with value := value } where
  chain k := store.chain_modify owner k fun _ => rfl
  own k key := by
    rw [ownBinding?_modify]
    by_cases hk : k = owner
    · subst hk
      obtain ⟨scope, hscope, hfind⟩ := Option.bind_eq_some_iff.mp hown
      rw [if_pos rfl, ownBinding?, hscope]
      simp only [Option.bind_some, Scope.find?_setValue, true_and]
      by_cases hkey : key = name
      · subst hkey
        have hname : binding.name = key := by simpa using List.find?_some hfind
        simp [hfind, hname]
      · rw [if_neg hkey]
        cases hother : scope.find? key with
        | none => rfl
        | some found =>
            have hname : found.name = key := by simpa using List.find?_some hother
            simp [hname, hkey]
    · rw [if_neg hk, if_neg fun h => hk h.1]

end Store

/-! ### Updates by a run -/

/-- A declaration yields its value and changes the store, or fails and changes nothing. -/
theorem declareIn_apply (id : ScopeId) (name : String) (value : Value) (mutability : Mutability)
    (s : State) :
    declareIn id name value mutability s =
      match s.world.store.declare id name value mutability with
      | .ok store => some (.ok value, ⟨⟨store, s.world.output, s.world.clock⟩, s.stack⟩)
      | .error fault => some (.error { fault := fault }, s) := by
  show Run.bind (Run.update _) _ s = _
  rw [Run.bind, Run.update_apply]
  cases s.world.store.declare id name value mutability <;> rfl

/-- So does an assignment. -/
theorem assignIn_apply (id : ScopeId) (name : String) (value : Value) (s : State) :
    assignIn id name value s =
      match s.world.store.assign id name value with
      | .ok store => some (.ok value, ⟨⟨store, s.world.output, s.world.clock⟩, s.stack⟩)
      | .error fault => some (.error { fault := fault }, s) := by
  show Run.bind (Run.update _) _ s = _
  rw [Run.bind, Run.update_apply]
  cases s.world.store.assign id name value <;> rfl

/-- **Updates change exactly the right lookups.**

* Where every scope lies inside an older one, the chain from a scope consists of that scope and all
  that one comes through on the way outward.
* Declaring a name in a scope fails as a duplicate, and changes nothing, if the scope itself binds
  the name.  Otherwise it succeeds; then the name has the declared value in all scopes from which no
  nearer scope hides it, and every other lookup gives what it gave.
* Assigning to a name that no scope outward binds fails as undefined; and a name has a nearest
  binding or is bound by no scope outward.
* Assigning to a name whose nearest binding is constant fails.  If the binding is mutable, it
  succeeds; then the name has the assigned value in all scopes that resolve it to the same scope,
  and every other lookup gives what it gave.

An update that fails leaves the state as it is. -/
theorem updates_exact (s : State) (env : ScopeId) (henv : (s.world.store.scope? env).isSome)
    (name : String) (value : Value) :
    (s.world.store.WellFormed → ∀ id, ∃ around,
      s.world.store.Outward id around ∧ s.world.store.chain id = id :: around) ∧
    (∀ constant : Bool,
      (s.world.store.binds env name = true →
        declareIn env name value (.ofConstant constant) s =
          some (.error { fault := .duplicateDeclaration name }, s)) ∧
      (s.world.store.binds env name = false →
        ∃ store, declareIn env name value (.ofConstant constant) s =
            some (.ok value, ⟨⟨store, s.world.output, s.world.clock⟩, s.stack⟩) ∧
          ∀ id key,
            (key = name ∧ s.world.store.Exposes id name env → store.lookup id key = .ok value) ∧
            (¬(key = name ∧ s.world.store.Exposes id name env) →
              store.lookup id key = s.world.store.lookup id key))) ∧
    ((∀ k ∈ s.world.store.chain env, s.world.store.binds k name = false) →
      assignIn env name value s = some (.error { fault := .undefinedVariable name }, s)) ∧
    ((∀ k ∈ s.world.store.chain env, s.world.store.binds k name = false) ∨
      ∃ owner binding, s.world.store.Nearest env name owner binding) ∧
    ∀ owner binding, s.world.store.Nearest env name owner binding →
      (binding.mutability = .constant →
        assignIn env name value s = some (.error { fault := .constantAssignment name }, s)) ∧
      (binding.mutability = .mutable →
        ∃ store, assignIn env name value s =
            some (.ok value, ⟨⟨store, s.world.output, s.world.clock⟩, s.stack⟩) ∧
          ∀ id key,
            (key = name ∧ s.world.store.resolve? id name = s.world.store.resolve? env name →
              store.lookup id key = .ok value) ∧
            (¬(key = name ∧ s.world.store.resolve? id name = s.world.store.resolve? env name) →
              store.lookup id key = s.world.store.lookup id key)) := by
  obtain ⟨scope, hscope⟩ := Option.isSome_iff_exists.mp henv
  refine ⟨Store.WellFormed.chain_outward, fun constant => ⟨fun hbound => ?_, fun hfree => ?_⟩,
    fun hunbound => ?_, s.world.store.unbound_or_nearest env name,
    fun owner binding hnearest => ⟨fun hconstant => ?_, fun hmutable => ?_⟩⟩
  · rw [declareIn_apply, Store.declare, if_pos hbound]
  · refine ⟨_, ?_, (Store.rebinds_add hscope hfree value (.ofConstant constant)).lookup⟩
    rw [declareIn_apply, Store.declare, if_neg (by simp [hfree])]
  · have hresolve : s.world.store.resolve? env name = none := by
      simpa [Store.resolve?] using hunbound
    rw [assignIn_apply, Store.assign, hresolve]
  · obtain ⟨hresolve, hbinding⟩ := hnearest.binding?
    rw [assignIn_apply, Store.assign, hresolve, hbinding]
    simp only [hconstant]
  · obtain ⟨hresolve, hbinding⟩ := hnearest.binding?
    have hlookup := (Store.rebinds_setValue hnearest.own value).lookup
    -- a scope sees the owner unhidden just if it resolves the name to the owner, which binds it
    have hsees : ∀ id, s.world.store.Exposes id name owner ↔
        s.world.store.resolve? id name = s.world.store.resolve? env name := by
      intro id
      rw [hresolve, Store.resolve?_eq_some]
      exact (and_iff_left (Store.resolve?_eq_some.mp hresolve).2).symm
    simp only [hsees] at hlookup
    refine ⟨_, ?_, hlookup⟩
    rw [assignIn_apply, Store.assign, hresolve, hbinding]
    simp only [hmutable]

/-- Four scopes: the second and the fourth inside the first, which binds `x`, and the third inside
the second, which binds `x` as a constant. -/
def familyState : State :=
  let outer : Scope := ⟨[⟨"x", .null, .mutable⟩], none⟩
  let innermost : Scope := ⟨[⟨"x", .bool true, .constant⟩], some 1⟩
  ⟨⟨⟨#[outer, ⟨[], some 0⟩, innermost, ⟨[], some 0⟩]⟩, .empty, .still 0⟩, .empty⟩

/-- From the third scope one comes outward through the second to the first.  Declaring `x` in the
second scope is seen from there and not from the scope inside it, which
binds `x` itself, nor from the one beside it.  Assigning to `x` from the second scope is seen from
the one beside it too.  The constant cannot be assigned to. -/
theorem updates_exact_family :
    (familyState.world.store.scope? 1).isSome ∧ familyState.world.store.Outward 2 [1, 0] ∧
    (∃ store, declareIn 1 "x" (.string "new") (.ofConstant false) familyState =
        some (.ok (.string "new"), ⟨⟨store, .empty, .still 0⟩, .empty⟩) ∧
      store.lookup 1 "x" = .ok (.string "new") ∧ store.lookup 2 "x" = .ok (.bool true) ∧
      store.lookup 3 "x" = .ok .null) ∧
    (∃ store, assignIn 1 "x" (.string "new") familyState =
        some (.ok (.string "new"), ⟨⟨store, .empty, .still 0⟩, .empty⟩) ∧
      store.lookup 1 "x" = .ok (.string "new") ∧ store.lookup 2 "x" = .ok (.bool true) ∧
      store.lookup 3 "x" = .ok (.string "new")) ∧
    assignIn 2 "x" (.string "new") familyState =
      some (.error { fault := .constantAssignment "x" }, familyState) := by
  have hchain : familyState.world.store.chain 1 = [1, 0] ∧
      familyState.world.store.chain 2 = [2, 1, 0] ∧
      familyState.world.store.chain 3 = [3, 0] := by
    cbv
  obtain ⟨hone, htwo, hthree⟩ := hchain
  have hsame : familyState.world.store.lookup 2 "x" = .ok (.bool true) ∧
      familyState.world.store.lookup 3 "x" = .ok .null := by
    cbv
  have hresolve : familyState.world.store.resolve? 1 "x" = some 0 ∧
      familyState.world.store.resolve? 2 "x" = some 2 ∧
      familyState.world.store.resolve? 3 "x" = some 0 := by
    cbv
  have hwellFormed : familyState.world.store.WellFormed := by
    rintro (_ | _ | _ | _ | id) parent hparent <;> cases hparent <;> decide
  obtain ⟨hwalk, hdeclare, -, -, hassign⟩ := updates_exact familyState 1 rfl "x" (.string "new")
  obtain ⟨-, -, -, -, hconstant⟩ := updates_exact familyState 2 rfl "x" (.string "new")
  refine ⟨rfl, ?_, ?_, ?_, ?_⟩
  · obtain ⟨around, houtward, hchain⟩ := hwalk hwellFormed 2
    obtain ⟨-, rfl⟩ := List.cons.inj (htwo.symm.trans hchain)
    exact houtward
  · obtain ⟨store, hrun, hlookup⟩ := (hdeclare false).2 rfl
    refine ⟨store, hrun, (hlookup 1 "x").1 ⟨rfl, [], [0], hone, by simp⟩, ?_, ?_⟩
    · refine ((hlookup 2 "x").2 ?_).trans hsame.1
      rintro ⟨-, nearer, further, hsplit, hnearer⟩
      rw [htwo] at hsplit
      cases nearer with
      | nil => cases hsplit
      | cons k nearer =>
          obtain ⟨rfl, -⟩ := List.cons.inj hsplit
          cases hnearer 2 List.mem_cons_self
    · refine ((hlookup 3 "x").2 ?_).trans hsame.2
      rintro ⟨-, nearer, further, hsplit, -⟩
      have hmem : 1 ∈ familyState.world.store.chain 3 := by simp [hsplit]
      simp [hthree] at hmem
  · have hnearest : familyState.world.store.Nearest 1 "x" 0 ⟨"x", .null, .mutable⟩ :=
      ⟨(Store.resolve?_eq_some.mp hresolve.1).1, rfl⟩
    obtain ⟨store, hrun, hlookup⟩ := (hassign 0 _ hnearest).2 rfl
    rw [hresolve.1] at hlookup
    refine ⟨store, hrun, (hlookup 1 "x").1 ⟨rfl, hresolve.1⟩, ?_,
      (hlookup 3 "x").1 ⟨rfl, hresolve.2.2⟩⟩
    refine ((hlookup 2 "x").2 ?_).trans hsame.1
    rintro ⟨-, h⟩
    rw [hresolve.2.1] at h
    cases h
  · have hnearest : familyState.world.store.Nearest 2 "x" 2 ⟨"x", .bool true, .constant⟩ :=
      ⟨(Store.resolve?_eq_some.mp hresolve.2.1).1, rfl⟩
    exact (hconstant 2 _ hnearest).1 rfl

end TreeScript
