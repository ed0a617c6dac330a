import TreeScript.Proofs.Accord

/-!
# Proofs — one run simulates another

`Run.Simulates S R x y` says that `y` follows `x` where nothing has to be learnt along the way: from
states that `S` relates, whenever `x` ends so does `y`, in states that `S` relates, with the same
failure or with values that `R` relates.  Two evaluations of one node simulate each other if
lookups, changes of the scope and calls do (`Simulation.evaluateWithin`), whatever the node is.
-/

namespace TreeScript

namespace Run

variable {α : Type} {S : State → State → Prop}

/-- From states that `S` relates, `y` ends whenever `x` does, in states that `S` relates and with
results that `R` relates. -/
def Simulates (S : State → State → Prop) (α : Type) (R : α → α → Prop) (x y : Run α) : Prop :=
  ∀ s t, S s t → ∀ r s', x s = some (r, s') →
    ∃ r' t', y t = some (r', t') ∧ S s' t' ∧ Results R r r'

/-- Simulations are runs in accord at the only index. -/
theorem simulates_iff_follows {R : α → α → Prop} {x y : Run α} :
    Simulates S α R x y ↔
      Follows (W := Unit) (fun _ _ => True) (fun _ => S) α () (fun _ => R) x y := by
  constructor
  · intro h s t hst r s' hx
    obtain ⟨r', t', hy, hst', hr⟩ := h s t hst r s' hx
    exact ⟨(), r', t', trivial, hy, hst', hr⟩
  · intro h s t hst r s' hx
    obtain ⟨_, r', t', -, hy, hst', hr⟩ := h s t hst r s' hx
    exact ⟨r', t', hy, hst', hr⟩

/-- A change that the two stores refuse alike, or that leads to related states. -/
theorem Simulates.update {change : Store → Except Fault Store}
    (h : ∀ s t, S s t →
      (∃ fault, change s.world.store = .error fault ∧ change t.world.store = .error fault) ∨
        ∃ σ τ, change s.world.store = .ok σ ∧ change t.world.store = .ok τ ∧
          S ⟨⟨σ, s.world.output, s.world.clock⟩, s.stack⟩
            ⟨⟨τ, t.world.output, t.world.clock⟩, t.stack⟩) :
    Simulates S Unit (fun _ _ => True) (Run.update change) (Run.update change) := by
  refine simulates_iff_follows.mpr (.update trivial fun s t hst => ?_)
  rcases h s t hst with hfault | ⟨σ, τ, hs, ht, hst'⟩
  · exact .inl hfault
  · exact .inr ⟨(), σ, τ, trivial, hs, ht, hst'⟩

end Run

/-! ### Evaluations that simulate each other -/

/-- What makes evaluations under `config` simulations for `S`.  `K` holds of the closures that the
runs get hold of, and `N` of the scopes that they evaluate in. -/
structure Simulation (config : Config) (S : State → State → Prop) (K : Closure → Prop)
    (N : ScopeId → Prop) : Prop where
  same {s t : State} : S s t → s.stack = t.stack
  any {s t : State} (stack : CallStack) : S s t → S ⟨s.world, stack⟩ ⟨t.world, stack⟩
  closure {scope : ScopeId} (name : String) (parameters : List String) (body : List Node)
    (bodyId : BodyId) : N scope → K ⟨name, parameters, body, bodyId, scope⟩
  lookup {scope : ScopeId} {s t : State} (name : String) : N scope → S s t →
    t.world.store.lookup scope name = s.world.store.lookup scope name ∧
      ∀ v, s.world.store.lookup scope name = .ok v → ∀ c, v.Contains c → K c
  declare {scope : ScopeId} (name : String) {v : Value} (mutability : Mutability) : N scope →
    (∀ c, v.Contains c → K c) →
      Run.Simulates S Unit (fun _ _ => True)
        (Run.update fun store => store.declare scope name v mutability)
        (Run.update fun store => store.declare scope name v mutability)
  assign {scope : ScopeId} (name : String) {v : Value} : N scope → (∀ c, v.Contains c → K c) →
    Run.Simulates S Unit (fun _ _ => True) (Run.update fun store => store.assign scope name v)
      (Run.update fun store => store.assign scope name v)
  newScope {closure : Closure} : K closure →
    Run.Simulates S ScopeId (fun a b => a = b ∧ N a) (Run.newScope (some closure.scope))
      (Run.newScope (some closure.scope))
  native {scope : ScopeId} (native : Native) {values : List Value} : N scope →
    (∀ v ∈ values, ∀ c, v.Contains c → K c) →
      Run.Simulates S Value (Value.Holding K) (Run.act (config.host.call native values scope))
        (Run.act (config.host.call native values scope))

namespace Simulation

variable {config : Config} {S : State → State → Prop} {K : Closure → Prop} {N : ScopeId → Prop}

open Run (simulates_iff_follows)

/-- A simulation asks nothing of nodes and names but the scope. -/
theorem accord (h : Simulation config S K N) :
    Accord (W := Unit) config (fun _ _ => True) (fun _ => S) (fun _ => K)
      (fun _ scope _ => N scope) (fun _ scope _ => N scope) where
  refl _ := trivial
  trans _ _ _ _ _ := trivial
  same _ _ _ hst := h.same hst
  any _ _ _ stack hst := h.any stack hst
  closure_mono _ hK := hK
  name_mono _ hN := hN
  node_mono _ hN := hN
  parts hN _ _ _ := hN
  names hN _ _ := hN
  closure _ hN := h.closure _ _ _ _ hN
  lookup hN hst := h.lookup _ hN hst
  declare mutability hN hv := simulates_iff_follows.mp (h.declare _ mutability hN hv)
  assign hN hv := simulates_iff_follows.mp (h.assign _ hN hv)
  newScope {_ closure} hK := by
    intro s t hst r s' hx
    obtain ⟨r', t', hy, hst', hr⟩ := h.newScope hK s t hst r s' hx
    refine ⟨(), r', t', trivial, hy, hst', ?_⟩
    cases hr with
    | ok hab => exact .ok ⟨hab.1, fun _ _ => hab.2, fun _ _ => hab.2⟩
    | error failure => exact .error failure
  native native _ hN hvalues := simulates_iff_follows.mp (h.native native hN hvalues)

/-- **Evaluations simulate each other**, the one with the larger budget that with the smaller. -/
theorem evaluateWithin (h : Simulation config S K N) {budget budget' : Nat} (hb : budget ≤ budget')
    {scope : ScopeId} (hN : N scope) (node : Node) :
    Run.Simulates S Value (Value.Holding K) (TreeScript.evaluateWithin config budget scope node)
      (TreeScript.evaluateWithin config budget' scope node) :=
  simulates_iff_follows.mpr (h.accord.evaluateWithin hb hN)

end Simulation

end TreeScript
