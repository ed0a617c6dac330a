import TreeScript.Proofs.Lexical
import TreeScript.Proofs.Relaxation

/-!
# Proofs — closures stay among the scopes they are reached from

A run gets hold of closures by declaring them, or by reading them from a scope.  Let `T` be a set of
scopes that has the scopes around its members and all that do not exist yet, and let `K` hold of
every closure that is bound in `T` (`Store.Confines`).  Then a run in `T` finds only closures of `K`
(`Store.Confines.lookup`), and if it binds no others, it leaves the store as confined as it was.

Functions of the host take part if they get hold of closures in no other way than scripts do: from
their arguments, and from the scopes they can come to from that of the call
(`HostFunction.Confined`).
-/

namespace TreeScript

namespace Store

/-- `T` has the scopes around its members and all scopes that do not exist yet, and `K` holds of all
closures bound in it. -/
structure Confines (T : ScopeId → Prop) (K : Closure → Prop) (store : Store) : Prop where
  unused {id : ScopeId} : store.scopes.size ≤ id → T id
  parent {id : ScopeId} {scope : Scope} {parent : ScopeId} : T id → store.scope? id = some scope →
    scope.parent = some parent → T parent
  closure {id : ScopeId} {scope : Scope} {binding : Binding} {closure : Closure} : T id →
    store.scope? id = some scope → binding ∈ scope.bindings → binding.value.Contains closure →
      K closure

/-- What is accessible from a scope is confined to the closures that are reached from it. -/
theorem confines_accessible {store : Store} {origin : ScopeId} {K : Closure → Prop}
    (h : ∀ id scope binding closure, store.Reaches origin id → store.scope? id = some scope →
      binding ∈ scope.bindings → binding.value.Contains closure → K closure) :
    store.Confines (store.Accessible origin) K := by
  have hreached : ∀ {id scope}, store.Accessible origin id → store.scope? id = some scope →
      store.Reaches origin id := by
    rintro id scope (hid | hid) hscope
    · exact hid
    · rw [scope?, Array.getElem?_eq_none hid] at hscope
      cases hscope
  exact {
    unused := .inr
    parent := fun hid hscope hparent =>
      .inl (.step (hreached hid hscope) hscope (.parent hparent))
    closure := fun hid hscope => h _ _ _ _ (hreached hid hscope) hscope }

namespace Confines

variable {T : ScopeId → Prop} {K : Closure → Prop} {store store' : Store} {id : ScopeId}

theorem mono {K' : Closure → Prop} (h : store.Confines T K) (hK : ∀ c, K c → K' c) :
    store.Confines T K' where
  unused := h.unused
  parent := h.parent
  closure hid hscope hb hc := hK _ (h.closure hid hscope hb hc)

/-- A confined set of scopes is closed: one gets out of it neither by a parent nor by a closure. -/
theorem closed (h : store.Confines T K) (hK : ∀ c, K c → T c.scope) : store.Closed T := by
  intro id scope next hid hscope hrefers
  cases hrefers with
  | parent hp => exact h.parent hid hscope hp
  | captured hb hc => exact hK _ (h.closure hid hscope hb hc)

/-- What a name means in a scope of `T` holds only closures of `K`. -/
theorem lookup (h : store.Confines T K) (hK : ∀ c, K c → T c.scope) (hid : T id) {name : String}
    {v : Value} (hv : store.lookup id name = .ok v) : ∀ c, v.Contains c → K c := by
  intro c hc
  simp only [Store.lookup] at hv
  split at hv <;> cases hv
  rename_i b hb
  obtain ⟨owner, hresolve, hb⟩ := Option.bind_eq_some_iff.mp hb
  obtain ⟨scope, hscope, hfind⟩ := Option.bind_eq_some_iff.mp hb
  have howner : T owner :=
    (resolve?_agree (h.closed hK) (fun _ _ => rfl) hid name).2 owner hresolve
  exact h.closure howner hscope (List.mem_of_find?_eq_some hfind) hc

/-- A change of one scope that leaves it where it is and binds no closures but those of `K`. -/
theorem modify (h : store.Confines T K) (f : Scope → Scope)
    (hparent : ∀ scope, (f scope).parent = scope.parent)
    (hbindings : ∀ scope, ∀ b ∈ (f scope).bindings, b ∈ scope.bindings ∨
      ∀ c, b.value.Contains c → K c) :
    (Store.mk (store.scopes.modify id f)).Confines T K where
  unused hk := h.unused (by rwa [Array.size_modify] at hk)
  parent hk hscope hp := by
    rw [scope?_modify] at hscope
    split at hscope
    · obtain ⟨inner, hinner, rfl⟩ := Option.map_eq_some_iff.mp hscope
      exact h.parent hk hinner (hparent inner ▸ hp)
    · exact h.parent hk hscope hp
  closure hk hscope hb hc := by
    rw [scope?_modify] at hscope
    split at hscope
    · obtain ⟨inner, hinner, rfl⟩ := Option.map_eq_some_iff.mp hscope
      rcases hbindings inner _ hb with hb | hK
      · exact h.closure hk hinner hb hc
      · exact hK _ hc
    · exact h.closure hk hscope hb hc

/-- Declaring a value with closures of the kind keeps the store confined. -/
theorem declare (h : store.Confines T K) {name : String} {v : Value} {mutability : Mutability}
    (hv : ∀ c, v.Contains c → K c) (hd : store.declare id name v mutability = .ok store') :
    store'.Confines T K := by
  obtain ⟨-, rfl⟩ := declare_eq_ok hd
  refine h.modify _ (fun _ => rfl) fun scope b hb => ?_
  rcases List.mem_append.mp hb with hb | hb
  · exact .inl hb
  · rw [List.mem_singleton.mp hb]
    exact .inr hv

/-- So does assigning one. -/
theorem assign (h : store.Confines T K) {name : String} {v : Value}
    (hv : ∀ c, v.Contains c → K c) (ha : store.assign id name v = .ok store') :
    store'.Confines T K := by
  obtain ⟨owner, _, _, -, -, -, -, rfl⟩ := assign_eq_ok ha
  refine h.modify _ (fun _ => rfl) fun scope b hb => ?_
  obtain ⟨old, hold, rfl⟩ := List.mem_map.mp hb
  split
  · exact .inr hv
  · exact .inl hold

/-- So does a new scope inside one of the set. -/
theorem push (h : store.Confines T K) {parent : ScopeId} (hparent : T parent) :
    (Store.mk (store.scopes.push ⟨[], some parent⟩)).Confines T K where
  unused hk := h.unused (by rw [Array.size_push] at hk; omega)
  parent hk hscope hp := by
    rw [scope?_push] at hscope
    split at hscope
    · cases hscope
      cases hp
      exact hparent
    · exact h.parent hk hscope hp
  closure hk hscope hb hc := by
    rw [scope?_push] at hscope
    split at hscope
    · cases hscope
      cases hb
    · exact h.closure hk hscope hb hc

end Confines

end Store

/-! ### Functions of the host -/

/-- The function gets hold of closures only through its arguments and the scope of the call: from a
store that is confined to closures `K`, and with arguments that hold only such, it yields only such
and leaves the store confined. -/
def HostFunction.Confined (function : HostFunction) : Prop :=
  ∀ (T : ScopeId → Prop) (K : Closure → Prop) (values : List Value) (scope : ScopeId)
    (world : World), (∀ c, K c → T c.scope) → world.store.Confines T K → T scope →
    (∀ v ∈ values, ∀ c, v.Contains c → K c) →
      (function values scope world).2.store.Confines T K ∧
        ∀ v, (function values scope world).1 = .ok v → ∀ c, v.Contains c → K c

/-- Printing hands out no closures. -/
theorem HostFunction.print_confined (sink : Sink) : (print sink).Confined := by
  intro T K values scope world _ h _ _
  refine ⟨h, ?_⟩
  rintro v ⟨⟩ c ⟨⟩

/-- Neither does the clock. -/
theorem HostFunction.time_confined : time.Confined := by
  intro T K values scope world _ h _ _
  refine ⟨h, ?_⟩
  rintro v ⟨⟩ c ⟨⟩

/-- All functions of the host are confined. -/
def Host.Confined (host : Host) : Prop := ∀ function ∈ host.functions, function.Confined

/-- So is every native of theirs, also one that the host does not know. -/
theorem Host.Confined.call {host : Host} (h : host.Confined) (native : Native) :
    HostFunction.Confined (host.call native) := by
  intro T K values scope world hK hstore hscope hvalues
  simp only [Host.call]
  split
  · exact h _ (Array.mem_of_getElem? ‹_›) T K values scope world hK hstore hscope hvalues
  · refine ⟨hstore, ?_⟩
    rintro v ⟨⟩ c ⟨⟩

theorem globalSession_confined (policy : Policy) : (globalSession policy).host.Confined := by
  intro function h
  rcases globalSession_functions h with rfl | rfl
  · exact HostFunction.print_confined .buffer
  · exact HostFunction.time_confined

end TreeScript
