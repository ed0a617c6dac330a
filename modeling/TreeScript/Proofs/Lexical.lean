import Mathlib.Data.List.Find
import TreeScript.Proofs.Simulation
import TreeScript.Proofs.Steps

/-!
# Proofs — evaluation is lexical

What an evaluation sees and changes is settled by the scope it starts in.  From that scope one
reaches the scopes around it and the scopes that the closures bound there were declared in
(`Store.Reaches`); all others might as well not be there.  An evaluation leaves them alone, and two
evaluations from states that differ only in them, and in what was printed before, take the same
course (`evaluation_lexical`), as long as the clock shows both the same.

The invariant is about a set `T` of scopes that is fixed for the run: those that are reached at its
start, and all that do not exist yet (`Store.Accessible`).  Whatever a scope of `T` refers to is in
`T` again (`Store.Closed`), and every evaluation of the run is in a scope of `T`.  The two stores of
the runs agree on `T` throughout, and keep outside `T` what they started with (`Agree`).

Functions of the host take part with their arguments only (`HostFunction.Detached`), as `print` and
`time` do: they print the same, yield the same and refer to no scope but those that their arguments
refer to.
-/

namespace TreeScript

/-! ### Reachable scopes -/

/-- The scopes that a scope refers to: the one around it, and those that the closures in its
bindings were declared in. -/
inductive Scope.RefersTo (scope : Scope) : ScopeId → Prop where
  | parent {id : ScopeId} : scope.parent = some id → RefersTo scope id
  | captured {binding : Binding} {closure : Closure} : binding ∈ scope.bindings →
      binding.value.Contains closure → RefersTo scope closure.scope

namespace Scope

/-- One more binding refers to what its value captures. -/
theorem RefersTo.of_add {scope : Scope} {binding : Binding} {id : ScopeId}
    (h : (scope.add binding).RefersTo id) :
    scope.RefersTo id ∨ ∃ closure, binding.value.Contains closure ∧ closure.scope = id := by
  cases h with
  | parent hp => exact .inl (.parent hp)
  | captured hb hc =>
      rcases List.mem_append.mp hb with hb | hb
      · exact .inl (.captured hb hc)
      · rw [List.mem_singleton.mp hb] at hc
        exact .inr ⟨_, hc, rfl⟩

/-- So does a new value for an old one. -/
theorem RefersTo.of_setValue {scope : Scope} {name : String} {value : Value} {id : ScopeId}
    (h : (scope.setValue name value).RefersTo id) :
    scope.RefersTo id ∨ ∃ closure, value.Contains closure ∧ closure.scope = id := by
  cases h with
  | parent hp => exact .inl (.parent hp)
  | captured hb hc =>
      obtain ⟨b, hmem, rfl⟩ := List.mem_map.mp hb
      split at hc
      · exact .inr ⟨_, hc, rfl⟩
      · exact .inl (.captured hmem hc)

end Scope

namespace Store

/-- The scopes that a run in `origin` can come to, from one to those that it refers to. -/
inductive Reaches (store : Store) (origin : ScopeId) : ScopeId → Prop where
  | refl : Reaches store origin origin
  | step {id next : ScopeId} {scope : Scope} : Reaches store origin id →
      store.scope? id = some scope → scope.RefersTo next → Reaches store origin next

/-- The scopes that a run in `origin` can come to, or will create. -/
def Accessible (store : Store) (origin id : ScopeId) : Prop :=
  store.Reaches origin id ∨ store.scopes.size ≤ id

/-- Whatever the scopes of `T` refer to is in `T`. -/
def Closed (store : Store) (T : ScopeId → Prop) : Prop :=
  ∀ id scope next, T id → store.scope? id = some scope → scope.RefersTo next → T next

/-- A closed set has all that is reached from its members. -/
theorem Reaches.mem {store : Store} {T : ScopeId → Prop} (hclosed : store.Closed T)
    {origin id : ScopeId} (horigin : T origin) (h : store.Reaches origin id) : T id := by
  induction h with
  | refl => exact horigin
  | step _ hscope hrefers ih => exact hclosed _ _ _ ih hscope hrefers

/-! ### Stores that agree on a closed set -/

section Agreement

variable {σ τ : Store} {T : ScopeId → Prop}

/-- From a scope of a closed set outward, one stays in the set and goes the same way in both
stores. -/
theorem chain_agree (hclosed : σ.Closed T) (hagree : ∀ id, T id → σ.scope? id = τ.scope? id) :
    ∀ id, T id → τ.chain id = σ.chain id ∧ ∀ k ∈ σ.chain id, T k := by
  intro id
  -- the scope around one has a smaller number
  induction id using Nat.strong_induction_on with
  | _ id ih =>
      intro hid
      have hparent : τ.parent? id = σ.parent? id := by rw [parent?, parent?, hagree id hid]
      have hself : ∀ k ∈ [id], T k := fun k hk => List.mem_singleton.mp hk ▸ hid
      rw [chain, chain, hparent]
      cases hp : σ.parent? id with
      | none => exact ⟨rfl, hself⟩
      | some parent =>
          simp only
          split
          · rename_i hlt
            obtain ⟨scope, hscope, hparent⟩ := Option.bind_eq_some_iff.mp hp
            have hT : T parent := hclosed id scope parent hid hscope (.parent hparent)
            obtain ⟨heq, hmem⟩ := ih parent hlt hT
            exact ⟨by rw [heq], List.forall_mem_cons.mpr ⟨hid, hmem⟩⟩
          · exact ⟨rfl, hself⟩

variable {id : ScopeId} {name : String}

/-- So a name resolves to the same scope, which is in the set. -/
theorem resolve?_agree (hclosed : σ.Closed T) (hagree : ∀ id, T id → σ.scope? id = τ.scope? id)
    (hid : T id) (name : String) :
    τ.resolve? id name = σ.resolve? id name ∧
      ∀ owner, σ.resolve? id name = some owner → T owner := by
  obtain ⟨hchain, hmem⟩ := chain_agree hclosed hagree id hid
  constructor
  · rw [resolve?, resolve?, hchain]
    refine List.find?_congr fun k hk => ?_
    rw [binds, binds, hagree k (hmem k hk)]
  · exact fun owner h => hmem owner (List.mem_of_find?_eq_some h)

/-- And means the same there. -/
theorem binding?_agree (hclosed : σ.Closed T) (hagree : ∀ id, T id → σ.scope? id = τ.scope? id)
    (hid : T id) (name : String) : τ.binding? id name = σ.binding? id name := by
  obtain ⟨hresolve, howner⟩ := resolve?_agree hclosed hagree hid name
  rw [binding?, binding?, hresolve]
  cases h : σ.resolve? id name with
  | none => rfl
  | some owner => simp only [Option.bind_eq_bind, Option.bind_some, hagree owner (howner owner h)]

/-- What a name means refers to scopes of the set. -/
theorem mem_of_binding? (hclosed : σ.Closed T) (hid : T id) {b : Binding}
    (h : σ.binding? id name = some b) {c : Closure} (hc : b.value.Contains c) : T c.scope := by
  obtain ⟨owner, hresolve, h⟩ := Option.bind_eq_some_iff.mp h
  obtain ⟨scope, hscope, hfind⟩ := Option.bind_eq_some_iff.mp h
  have howner : T owner := (resolve?_agree hclosed (fun _ _ => rfl) hid name).2 owner hresolve
  exact hclosed owner scope _ howner hscope (.captured (List.mem_of_find?_eq_some hfind) hc)

/-- Declarations in a scope of the set are refused alike. -/
theorem declare_agree (hagree : ∀ id, T id → σ.scope? id = τ.scope? id) (hid : T id)
    (name : String) (value : Value) (mutability : Mutability) :
    (∃ fault, σ.declare id name value mutability = .error fault ∧
        τ.declare id name value mutability = .error fault) ∨
      let f := fun scope : Scope => scope.add ⟨name, value, mutability⟩
      σ.declare id name value mutability = .ok ⟨σ.scopes.modify id f⟩ ∧
        τ.declare id name value mutability = .ok ⟨τ.scopes.modify id f⟩ := by
  have hbinds : τ.binds id name = σ.binds id name := by rw [binds, binds, hagree id hid]
  rw [declare, declare, hbinds]
  split
  · exact .inl ⟨_, rfl, rfl⟩
  · exact .inr ⟨rfl, rfl⟩

/-- Assignments from a scope of the set are refused alike, or change the same scope of the set. -/
theorem assign_agree (hclosed : σ.Closed T) (hagree : ∀ id, T id → σ.scope? id = τ.scope? id)
    (hid : T id) (name : String) (value : Value) :
    (∃ fault, σ.assign id name value = .error fault ∧ τ.assign id name value = .error fault) ∨
      ∃ owner, T owner ∧
        σ.assign id name value = .ok ⟨σ.scopes.modify owner (·.setValue name value)⟩ ∧
        τ.assign id name value = .ok ⟨τ.scopes.modify owner (·.setValue name value)⟩ := by
  obtain ⟨hresolve, howner⟩ := resolve?_agree hclosed hagree hid name
  rw [assign, assign, hresolve, binding?_agree hclosed hagree hid name]
  cases hr : σ.resolve? id name with
  | none => exact .inl ⟨_, rfl, rfl⟩
  | some owner =>
      cases hb : σ.binding? id name with
      | none => exact .inl ⟨_, rfl, rfl⟩
      | some b =>
          cases hm : b.mutability with
          | constant => exact .inl ⟨.constantAssignment name, by simp [hm], by simp [hm]⟩
          | «mutable» => exact .inr ⟨owner, howner owner hr, by simp [hm], by simp [hm]⟩

end Agreement

end Store

/-! ### Functions of the host that keep to their arguments -/

/-- The function depends on nothing in the world but the clock, and does nothing to it but print and
read the clock; and it refers to no scope but those that its arguments refer to. -/
def HostFunction.Detached (function : HostFunction) : Prop :=
  ∀ values scope clock, ∃ result text after,
    (∀ world : World, world.clock = clock →
      function values scope world =
        (result, { world with output := world.output.append text, clock := after })) ∧
    ∀ v c, result = .ok v → v.Contains c → ∃ value ∈ values, ∃ c', value.Contains c' ∧
      c'.scope = c.scope

namespace HostFunction

theorem print_detached (sink : Sink) : (print sink).Detached := by
  intro values scope clock
  let line := Value.printLine values ++ "\n"
  refine ⟨.ok .null, Output.empty.write line sink, clock, ?_, ?_⟩
  · rintro world rfl
    cases sink <;> simp [print, Output.write, Output.append, Output.empty, line]
  · rintro v c ⟨⟩ ⟨⟩

theorem time_detached : time.Detached := by
  intro values scope clock
  refine ⟨.ok (.number clock.now), .empty, clock.tick, ?_, ?_⟩
  · rintro world rfl
    rw [Output.append_empty]
    rfl
  · rintro v c ⟨⟩ ⟨⟩

end HostFunction

/-- All functions of the host are detached. -/
def Host.Detached (host : Host) : Prop := ∀ function ∈ host.functions, function.Detached

/-- So is every native of theirs, also one that the host does not know. -/
theorem Host.Detached.call {host : Host} (h : host.Detached) (native : Native) :
    HostFunction.Detached (host.call native) := by
  intro values scope clock
  simp only [Host.call]
  split
  · exact h _ (Array.mem_of_getElem? ‹_›) values scope clock
  · refine ⟨.ok .null, .empty, clock, ?_, ?_⟩
    · rintro world rfl
      rw [Output.append_empty]
    · rintro v c ⟨⟩ ⟨⟩

/-! ### The invariant of two runs -/

/-- Two runs from `s₀` and `t₀` have come to `s` and `t`.  Their stores agree on `T`, which is
closed and has every scope that does not exist yet; the other scopes are as they were at the start;
and both runs printed the same and have the same clock. -/
structure Agree (T : ScopeId → Prop) (s₀ t₀ s t : State) : Prop where
  stack : s.stack = t.stack
  clock : s.world.clock = t.world.clock
  size : s.world.store.scopes.size = t.world.store.scopes.size
  unused {id : ScopeId} : s.world.store.scopes.size ≤ id → T id
  closed : s.world.store.Closed T
  scope (id : ScopeId) : T id → s.world.store.scope? id = t.world.store.scope? id
  left {id : ScopeId} : ¬ T id → s.world.store.scope? id = s₀.world.store.scope? id
  right {id : ScopeId} : ¬ T id → t.world.store.scope? id = t₀.world.store.scope? id
  output : ∃ text, s.world.output = s₀.world.output.append text ∧
    t.world.output = t₀.world.output.append text

namespace Agree

variable {T : ScopeId → Prop} {s₀ t₀ s t : State}

theorem symm (h : Agree T s₀ t₀ s t) : Agree T t₀ s₀ t s where
  stack := h.stack.symm
  clock := h.clock.symm
  size := h.size.symm
  unused hid := h.unused (h.size ▸ hid)
  closed id scope next hid hscope hrefers :=
    h.closed id scope next hid ((h.scope id hid).trans hscope) hrefers
  scope id hid := (h.scope id hid).symm
  left := h.right
  right := h.left
  output := by obtain ⟨text, hs, ht⟩ := h.output; exact ⟨text, ht, hs⟩

/-- Two states that agree on what `scope` reaches are the start of such runs. -/
theorem start {scope : ScopeId} (hstack : s.stack = t.stack)
    (hclock : s.world.clock = t.world.clock)
    (hsize : s.world.store.scopes.size = t.world.store.scopes.size)
    (hscope : ∀ id, s.world.store.Reaches scope id →
      s.world.store.scope? id = t.world.store.scope? id) :
    Agree (s.world.store.Accessible scope) s t s t where
  stack := hstack
  clock := hclock
  size := hsize
  unused hid := .inr hid
  closed := by
    rintro id inner next (hid | hid) hinner hrefers
    · exact .inl (.step hid hinner hrefers)
    · rw [Store.scope?, Array.getElem?_eq_none hid] at hinner
      cases hinner
  scope := by
    rintro id (hid | hid)
    · exact hscope id hid
    · rw [Store.scope?, Store.scope?, Array.getElem?_eq_none hid,
        Array.getElem?_eq_none (hsize ▸ hid)]
  left _ := rfl
  right _ := rfl
  output := ⟨.empty, by rw [Output.append_empty], by rw [Output.append_empty]⟩

/-- Changing a scope of `T` in both stores, so that it refers to nothing new outside `T`. -/
theorem modify (h : Agree T s₀ t₀ s t) {id : ScopeId} (hid : T id) (f : Scope → Scope)
    (hf : ∀ scope next, (f scope).RefersTo next → scope.RefersTo next ∨ T next) :
    Agree T s₀ t₀ ⟨⟨⟨s.world.store.scopes.modify id f⟩, s.world.output, s.world.clock⟩, s.stack⟩
      ⟨⟨⟨t.world.store.scopes.modify id f⟩, t.world.output, t.world.clock⟩, t.stack⟩ where
  stack := h.stack
  clock := h.clock
  size := by rw [Array.size_modify, Array.size_modify, h.size]
  unused hk := h.unused (by rwa [Array.size_modify] at hk)
  closed k scope next hk hscope hrefers := by
    rw [Store.scope?_modify] at hscope
    split at hscope
    · obtain ⟨inner, hinner, rfl⟩ := Option.map_eq_some_iff.mp hscope
      rcases hf inner next hrefers with hrefers | hnext
      · exact h.closed k inner next hk hinner hrefers
      · exact hnext
    · exact h.closed k scope next hk hscope hrefers
  scope k hk := by rw [Store.scope?_modify, Store.scope?_modify, h.scope k hk]
  left {k} hk := by
    have hne : k ≠ id := fun e => hk (e ▸ hid)
    rw [Store.scope?_modify, if_neg hne, h.left hk]
  right {k} hk := by
    have hne : k ≠ id := fun e => hk (e ▸ hid)
    rw [Store.scope?_modify, if_neg hne, h.right hk]
  output := h.output

/-- Creating a scope inside one of `T` in both stores. -/
theorem push (h : Agree T s₀ t₀ s t) {parent : ScopeId} (hparent : T parent) :
    Agree T s₀ t₀
      ⟨⟨⟨s.world.store.scopes.push ⟨[], some parent⟩⟩, s.world.output, s.world.clock⟩, s.stack⟩
      ⟨⟨⟨t.world.store.scopes.push ⟨[], some parent⟩⟩, t.world.output, t.world.clock⟩,
        t.stack⟩ where
  stack := h.stack
  clock := h.clock
  size := by rw [Array.size_push, Array.size_push, h.size]
  unused hk := h.unused (by rw [Array.size_push] at hk; omega)
  closed k scope next hk hscope hrefers := by
    rw [Store.scope?_push] at hscope
    split at hscope
    · cases hscope
      cases hrefers with
      | parent hp => cases hp; exact hparent
      | captured hb => cases hb
    · exact h.closed k scope next hk hscope hrefers
  scope k hk := by rw [Store.scope?_push, Store.scope?_push, h.size, h.scope k hk]
  left {k} hk := by
    have hne : k ≠ s.world.store.scopes.size := fun e => hk (h.unused e.ge)
    rw [Store.scope?_push, if_neg hne, h.left hk]
  right {k} hk := by
    have hne : k ≠ t.world.store.scopes.size := fun e => hk (h.unused (h.size ▸ e.ge))
    rw [Store.scope?_push, if_neg hne, h.right hk]
  output := h.output

/-- Printing one text more in both runs, and setting both clocks to the same. -/
theorem print (h : Agree T s₀ t₀ s t) (text : Output) (clock : Clock) :
    Agree T s₀ t₀
      ⟨{ s.world with output := s.world.output.append text, clock := clock }, s.stack⟩
      ⟨{ t.world with output := t.world.output.append text, clock := clock }, t.stack⟩ := by
  obtain ⟨before, hs, ht⟩ := h.output
  exact { h with
    clock := rfl
    output := ⟨before.append text, by rw [hs, Output.append_assoc],
      by rw [ht, Output.append_assoc]⟩ }

/-- **The runs stay in lockstep**: the operations of the evaluator, in scopes of `T` and on values
whose closures were declared in `T`, keep the invariant. -/
theorem simulation {config : Config} (hhost : config.host.Detached) (T : ScopeId → Prop)
    (s₀ t₀ : State) :
    Simulation config (Agree T s₀ t₀) (fun closure => T closure.scope) T where
  same h := h.stack
  any _ h := { h with stack := rfl }
  closure _ _ _ _ hscope := hscope
  lookup := by
    intro scope s t name hscope h
    rw [Store.lookup, Store.lookup, Store.binding?_agree h.closed h.scope hscope name]
    refine ⟨rfl, fun v hv c hc => ?_⟩
    split at hv
    · rename_i b hb
      cases hv
      exact Store.mem_of_binding? h.closed hscope hb hc
    · cases hv
  declare := by
    intro scope name v mutability hscope hv
    refine .update fun s t h => ?_
    rcases Store.declare_agree h.scope hscope name v mutability with hfault | ⟨hs, ht⟩
    · exact .inl hfault
    · refine .inr ⟨_, _, hs, ht, h.modify hscope _ fun inner next hrefers => ?_⟩
      rcases hrefers.of_add with hrefers | ⟨c, hc, rfl⟩
      · exact .inl hrefers
      · exact .inr (hv c hc)
  assign := by
    intro scope name v hscope hv
    refine .update fun s t h => ?_
    rcases Store.assign_agree h.closed h.scope hscope name v with
      hfault | ⟨owner, howner, hs, ht⟩
    · exact .inl hfault
    · -- the scope that changes may lie far out on the chain, but never outside `T`
      refine .inr ⟨_, _, hs, ht, h.modify howner _ fun inner next hrefers => ?_⟩
      rcases hrefers.of_setValue with hrefers | ⟨c, hc, rfl⟩
      · exact .inl hrefers
      · exact .inr (hv c hc)
  newScope := by
    intro closure hclosure s t h r s' hrun
    cases hrun
    -- both runs take the same number for the new scope, since their stores have one size
    exact ⟨_, _, rfl, h.push hclosure, .ok ⟨h.size, h.unused le_rfl⟩⟩
  native := by
    intro scope native values _ hvalues s t h r s' hrun
    obtain ⟨result, text, clock, hact, hrefers⟩ :=
      hhost.call native values scope s.world.clock
    simp only [Run.act, hact s.world rfl, hact t.world h.clock.symm] at hrun ⊢
    cases hrun
    refine ⟨_, _, rfl, h.print text clock, ?_⟩
    cases r with
    | error failure => exact .error failure
    | ok v =>
        refine .ok ⟨rfl, fun c hc => ?_⟩
        obtain ⟨value, hvalue, c', hc', hscope⟩ := hrefers v c rfl hc
        exact hscope ▸ hvalues value hvalue c' hc'

end Agree

/-! ### Evaluations -/

/-- An evaluation that ends does so in lockstep with that from any state that agrees. -/
theorem evaluateWithin_agree {config : Config} (hhost : config.host.Detached)
    {T : ScopeId → Prop} {s t s' : State} {scope : ScopeId} (hscope : T scope) {budget : Nat}
    {node : Node} {r : Except Failure Value} (h : Agree T s t s t)
    (hrun : evaluateWithin config budget scope node s = some (r, s')) :
    ∃ t', evaluateWithin config budget scope node t = some (r, t') ∧ Agree T s t s' t' := by
  obtain ⟨r', t', ht, h', hr⟩ :=
    (Agree.simulation hhost T s t).evaluateWithin le_rfl hscope node s t h r s' hrun
  cases hr.eq fun _ _ hv => hv.1
  exact ⟨t', ht, h'⟩

/-- **Evaluation is lexical**, within any budget of nested calls and so within that of the policy.

* A scope that is not reached from the scope of the evaluation is left as it is, whether the
  evaluation succeeds or fails.
* From a state with the same clock that agrees on all that is reached, whatever it has in the other
  scopes and has printed, the evaluation does not end either, or it ends with the same value or
  failure, prints the same text, and leaves the same in every scope that is reached, before or
  after, or is new, and the same clock. -/
theorem evaluation_lexical (config : Config) (hhost : config.host.Detached) (budget : Nat)
    (scope : ScopeId) (node : Node) (s : State) :
    (∀ r s', evaluateWithin config budget scope node s = some (r, s') →
      ∀ id < s.world.store.scopes.size, ¬ s.world.store.Reaches scope id →
        s'.world.store.scope? id = s.world.store.scope? id) ∧
    ∀ t : State, s.stack = t.stack → s.world.clock = t.world.clock →
      s.world.store.scopes.size = t.world.store.scopes.size →
      (∀ id, s.world.store.Reaches scope id →
        s.world.store.scope? id = t.world.store.scope? id) →
      (evaluateWithin config budget scope node s = none ∧
        evaluateWithin config budget scope node t = none) ∨
      ∃ r s' t' text,
        evaluateWithin config budget scope node s = some (r, s') ∧
        evaluateWithin config budget scope node t = some (r, t') ∧
        s'.world.output = s.world.output.append text ∧
        t'.world.output = t.world.output.append text ∧
        s'.stack = t'.stack ∧ s'.world.clock = t'.world.clock ∧
        s'.world.store.scopes.size = t'.world.store.scopes.size ∧
        ∀ id, s.world.store.Reaches scope id ∨ s'.world.store.Reaches scope id ∨
            s.world.store.scopes.size ≤ id →
          s'.world.store.scope? id = t'.world.store.scope? id := by
  constructor
  · intro r s' hrun id hid hreach
    have start : Agree (s.world.store.Accessible scope) s s s s :=
      .start rfl rfl rfl fun _ _ => rfl
    obtain ⟨t', -, h⟩ := evaluateWithin_agree hhost (.inl .refl) start hrun
    refine h.left ?_
    rintro (hreached | hnew)
    · exact hreach hreached
    · omega
  · intro t hstack hclock hsize hscope
    have start := Agree.start hstack hclock hsize hscope
    cases hs : evaluateWithin config budget scope node s with
    | none =>
        cases ht : evaluateWithin config budget scope node t with
        | none => exact .inl ⟨rfl, rfl⟩
        | some end_ =>
            -- the other run would end in lockstep with this one
            obtain ⟨s', hs', -⟩ := evaluateWithin_agree hhost (.inl .refl) start.symm ht
            rw [hs] at hs'
            cases hs'
    | some end_ =>
        obtain ⟨t', ht, h⟩ := evaluateWithin_agree hhost (.inl .refl) start hs
        obtain ⟨text, hsout, htout⟩ := h.output
        refine .inr ⟨_, _, t', text, rfl, ht, hsout, htout, h.stack, h.clock, h.size, ?_⟩
        rintro id (hid | hid | hid)
        · exact h.scope id (.inl hid)
        · exact h.scope id (hid.mem h.closed (.inl .refl))
        · exact h.scope id (.inr hid)

/-- A host with `print` and `time`. -/
def plainHost : Host := ⟨#[.print .buffer, .time], BodyId.mk⟩

/-- `fn reset(value) { count = value }`, declared in scope 1. -/
def counterReset : Closure :=
  ⟨"reset", ["value"],
    [.assignment (.identifier "count" .dummy) (.identifier "value" .dummy) .dummy],
    ⟨1, "reset"⟩, 1⟩

/-- Scope 0 binds `print` and an object with `counterReset` in it, and scope 1 binds `count`.
Nothing refers to scope 2. -/
def counterState (other : Scope) (printed : String) : State :=
  let globals : Scope :=
    ⟨[⟨"print", .native ⟨"print", 0⟩, .constant⟩,
      ⟨"counter", .object [("reset", .function counterReset)], .mutable⟩], none⟩
  ⟨⟨⟨#[globals, ⟨[⟨"count", .null, .mutable⟩], none⟩, other]⟩, ⟨printed, ""⟩, .still 0⟩, .empty⟩

/-- `print(counter.reset("zero"))`. -/
def resetCounter : Node :=
  .call (.identifier "print" .dummy)
    [.call (.member (.identifier "counter" .dummy) "reset" .dummy) [.string "zero" .dummy] .dummy]
    .dummy

theorem counterState_reaches (other : Scope) (printed : String) {id : ScopeId}
    (h : (counterState other printed).world.store.Reaches 0 id) : id = 0 ∨ id = 1 := by
  refine h.mem (T := fun id => id = 0 ∨ id = 1) ?_ (.inl rfl)
  rintro _ scope next (rfl | rfl) hscope hrefers
  · cases hscope
    cases hrefers with
    | parent hp => cases hp
    | captured hb hc =>
        rcases List.mem_pair.mp hb with rfl | rfl
        · cases hc
        · cases hc with
          | property hp hc =>
              cases List.mem_singleton.mp hp
              cases hc
              exact .inr rfl
  · cases hscope
    cases hrefers with
    | parent hp => cases hp
    | captured hb hc =>
        cases List.mem_singleton.mp hb
        cases hc

/-- Resetting the counter prints `zero` and leaves scope 2 alone, whatever that scope binds. -/
theorem evaluation_lexical_counter :
    let s := counterState ⟨[], some 0⟩ ""
    let t := counterState ⟨[⟨"count", .bool true, .constant⟩], none⟩ "before\n"
    plainHost.Detached ∧ ¬ s.world.store.Reaches 0 2 ∧
    ∃ r s' t' text,
      evaluateWithin ⟨.default, plainHost⟩ 2 0 resetCounter s = some (r, s') ∧
      evaluateWithin ⟨.default, plainHost⟩ 2 0 resetCounter t = some (r, t') ∧
      s'.world.store.scope? 2 = s.world.store.scope? 2 ∧
      s'.world.output = s.world.output.append text ∧
      t'.world.output = t.world.output.append text ∧
      s'.world.store.scope? 1 = t'.world.store.scope? 1 := by
  intro s t
  have hdetached : plainHost.Detached := by
    intro function h
    simp only [plainHost, List.mem_toArray, List.mem_cons, List.not_mem_nil, or_false] at h
    rcases h with rfl | rfl
    · exact HostFunction.print_detached .buffer
    · exact HostFunction.time_detached
  have hreach : ¬ s.world.store.Reaches 0 2 := by
    intro h
    rcases counterState_reaches _ _ h with h | h <;> cases h
  have hone : s.world.store.Reaches 0 counterReset.scope := by
    refine .step .refl rfl (.captured (List.mem_cons_of_mem _ (List.mem_cons_self ..)) ?_)
    exact .property (List.mem_cons_self ..) (.function _)
  have hagree : ∀ id, s.world.store.Reaches 0 id →
      s.world.store.scope? id = t.world.store.scope? id := by
    intro id h
    rcases counterState_reaches _ _ h with rfl | rfl <;> rfl
  have hends : (evaluateWithin ⟨.default, plainHost⟩ 2 0 resetCounter s).isSome := by decide +kernel
  obtain ⟨hframe, hlockstep⟩ :=
    evaluation_lexical ⟨.default, plainHost⟩ hdetached 2 0 resetCounter s
  rcases hlockstep t rfl rfl rfl hagree with
    ⟨hnone, -⟩ | ⟨r, s', t', text, hs, ht, hsout, htout, -, -, -, hscope⟩
  · rw [hnone] at hends
    cases hends
  · exact ⟨hdetached, hreach, r, s', t', text, hs, ht, hframe r s' hs 2 (by decide) hreach, hsout,
      htout, hscope 1 (.inl hone)⟩

end TreeScript
