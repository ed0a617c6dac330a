import TreeScript.Proofs.Balance
import TreeScript.Proofs.Simulation

/-!
# Proofs — evaluation under a limit ends

Under a limit on the live calls every evaluation ends (`evaluate_terminates`), however the program
recurses.  A call runs a body that is fetched from a closure and may be larger than the node that
calls it, so nothing gets smaller with a call except what is left of the limit; inside one body the
node gets smaller.

The second half of this measure is the recursion of `evalNode`; looking a name up ends too, since
`Store.chain` goes from a scope to ones of smaller number only.  The first half is the budget of
nested calls: a call is refused as soon as the limit is reached, so where `depth` calls are live,
more than `limit - depth` nested calls are never needed (`Run.Ends`).  How much more the budget
holds makes no difference (`evaluateWithin_mono`): what ends, ends the same way under any larger
budget.
-/

namespace TreeScript

/-! ### Larger budgets -/

theorem Run.Simulates.refl {α : Type} {R : α → α → Prop} (hR : ∀ a, R a a) (x : Run α) :
    Run.Simulates Eq α R x x := by
  rintro s _ rfl r s' h
  refine ⟨r, s', h, rfl, ?_⟩
  cases r with
  | ok a => exact .ok (hR a)
  | error failure => exact .error failure

/-- Every evaluation follows itself, step by step. -/
theorem Simulation.refl (config : Config) :
    Simulation config Eq (fun _ => True) (fun _ => True) where
  same := by rintro s _ rfl; rfl
  any := by rintro s _ stack rfl; rfl
  closure _ _ _ _ _ := trivial
  lookup := by rintro scope s _ name - rfl; exact ⟨rfl, fun _ _ _ _ => trivial⟩
  declare _ _ _ _ _ := .refl (fun _ => trivial) _
  assign _ _ _ _ := .refl (fun _ => trivial) _
  newScope _ := .refl (fun _ => ⟨rfl, trivial⟩) _
  native _ _ _ _ := .refl (fun _ => ⟨rfl, fun _ _ => trivial⟩) _

/-- What ends within a budget ends the same way within every larger one. -/
theorem evaluateWithin_mono {config : Config} {budget budget' : Nat} {scope : ScopeId} {node : Node}
    {s s' : State} {r : Except Failure Value} (hb : budget ≤ budget')
    (h : evaluateWithin config budget scope node s = some (r, s')) :
    evaluateWithin config budget' scope node s = some (r, s') := by
  obtain ⟨r', t', h', rfl, hr⟩ :=
    (Simulation.refl config).evaluateWithin hb trivial node s s rfl r s' h
  rwa [hr.eq fun _ _ hab => hab.1]

/-! ### The budget that a limit needs -/

/-- Where `budget` calls, at least one, reach beyond the limit, `x` ends, with the live calls it
started with. -/
def Run.Ends (limit budget : Nat) (α : Type) (P : α → Prop) (x : Run α) : Prop :=
  0 < budget → ∀ s : State, limit < s.stack.depth + budget →
    ∃ r s', x s = some (r, s') ∧ s'.stack = s.stack ∧ ∀ a, r = .ok a → P a

theorem Run.ends_composes (limit budget : Nat) : Composes (Run.Ends limit budget) where
  pure ha _ s _ := ⟨_, s, rfl, rfl, by rintro _ ⟨⟩; exact ha⟩
  bind := by
    intro α β P Q x f hx hf hb s hs
    obtain ⟨r₁, s₁, h₁, hstack, hP⟩ := hx hb s hs
    cases r₁ with
    | error failure =>
        exact ⟨_, s₁, Run.bind_eq_some.mpr (.inl ⟨failure, h₁, rfl⟩), hstack, by rintro _ ⟨⟩⟩
    | ok a =>
        obtain ⟨r, s', h₂, hstack', hQ⟩ := hf a (hP a rfl) hb s₁ (by rwa [hstack])
        exact ⟨r, s', Run.bind_eq_some.mpr (.inr ⟨a, s₁, h₁, h₂⟩), hstack'.trans hstack, hQ⟩
  located := by
    intro α P span x hx hb s hs
    obtain ⟨r, s', h, hstack, hP⟩ := hx hb s hs
    cases r with
    | error failure =>
        exact ⟨_, s', Run.located_eq_some.mpr (.inl ⟨failure, h, rfl⟩), hstack, by rintro _ ⟨⟩⟩
    | ok a => exact ⟨_, s', Run.located_eq_some.mpr (.inr ⟨a, h, rfl⟩), hstack, hP⟩
  ofExcept := by
    intro α P result hP _ s _
    cases result with
    | error fault => exact ⟨_, s, rfl, rfl, by rintro _ ⟨⟩⟩
    | ok a => exact ⟨_, s, rfl, rfl, by rintro _ ⟨⟩; exact hP a rfl⟩
  query := by
    intro α P question hP _ s _
    simp only [Run.query]
    cases hq : question s.world.store with
    | error fault => exact ⟨_, s, rfl, rfl, by rintro _ ⟨⟩⟩
    | ok a => exact ⟨_, s, rfl, rfl, by rintro _ ⟨⟩; exact hP _ a hq⟩

section

variable {config : Config} {limit budget : Nat}

/-- A change of the store ends. -/
theorem Run.ends_update (change : Store → Except Fault Store) :
    Run.Ends limit budget Unit (fun _ => True) (Run.update change) := by
  intro _ s _
  rw [Run.update_apply]
  cases change s.world.store <;> exact ⟨_, _, rfl, rfl, fun _ _ => trivial⟩

theorem declareIn_ends (scope : ScopeId) (name : String) (value : Value) (mutability : Mutability) :
    Run.Ends limit budget Value (fun _ => True) (declareIn scope name value mutability) :=
  (Run.ends_composes limit budget).bind (Run.ends_update _) fun _ _ =>
    (Run.ends_composes limit budget).pure trivial

theorem assignIn_ends (scope : ScopeId) (name : String) (value : Value) :
    Run.Ends limit budget Value (fun _ => True) (assignIn scope name value) :=
  (Run.ends_composes limit budget).bind (Run.ends_update _) fun _ _ =>
    (Run.ends_composes limit budget).pure trivial

/-- A call ends if the calls of closures do. -/
theorem applyValue_ends {call : Caller}
    (hcall : ∀ closure values span,
      Run.Ends limit budget Value (fun _ => True) (call closure values span))
    (scope : ScopeId) (f : Value) (values : List Value) (span : Span) :
    Run.Ends limit budget Value (fun _ => True) (applyValue config call scope f values span) := by
  simp only [applyValue]
  split
  · exact fun _ _ _ => ⟨_, _, rfl, rfl, fun _ _ => trivial⟩
  · exact hcall _ _ _
  · exact (Run.ends_composes limit budget).ofExcept fun _ _ => trivial

/-- A push within the limit costs one call of the budget and of what is left of the limit. -/
theorem pushFrame_framed_ends {span : Span} {frame : Frame} {body : Run Value}
    (hbody : Run.Ends limit budget Value (fun _ => True) body) :
    Run.Ends limit (budget + 1) Value (fun _ => True)
      (do Run.located span (Run.pushFrame (some limit) frame); Run.framed body) := by
  intro _ s hs
  rw [Run.pushFrame_framed_apply]
  cases hp : s.stack.push (some limit) frame with
  | error fault => exact ⟨_, s, rfl, rfl, fun _ _ => trivial⟩
  | ok pushed =>
      obtain ⟨hdepth, hlimit⟩ := CallStack.push_ok hp
      have hlt : s.stack.depth < limit := hlimit limit rfl
      -- one call fewer in the budget, one more on the stack
      obtain ⟨r, s', h, hstack, -⟩ := hbody (by omega) ⟨s.world, pushed⟩ (by simp only; omega)
      have hframed : Run.framed body ⟨s.world, pushed⟩ =
          some (r.mapError s'.stack.attachBacktrace, ⟨s'.world, s'.stack.pop⟩) := by
        rw [Run.framed_apply, h]
        rfl
      refine ⟨_, _, hframed, ?_, fun _ _ => trivial⟩
      show s'.stack.pop = s.stack
      rw [hstack]
      exact CallStack.pop_push hp

/-- **Calls under a limit end**, within a budget that reaches beyond it. -/
theorem callClosure_ends (hlimit : config.policy.maxCallDepth = some limit) :
    ∀ budget closure values span, Run.Ends limit budget Value (fun _ => True)
      (callClosure config budget closure values span) := by
  intro budget
  induction budget with
  | zero => exact fun _ _ _ h => absurd h (Nat.lt_irrefl 0)
  | succ budget ih =>
      intro closure values span
      refine (Run.ends_composes limit (budget + 1)).enterClosure
        (fun _ _ _ => ⟨_, _, rfl, rfl, fun _ _ => trivial⟩)
        (fun scope name value => declareIn_ends scope name value .mutable) (fun scope => ?_) values
      rw [hlimit, Run.spread_eq]
      exact pushFrame_framed_ends ((Run.ends_composes limit budget).evalBlock
        (declareIn_ends scope) (assignIn_ends scope) (applyValue_ends ih scope) _ _)

/-- Evaluations under a limit end, within a budget that reaches beyond it. -/
theorem evaluateWithin_ends (hlimit : config.policy.maxCallDepth = some limit) (scope : ScopeId)
    (node : Node) :
    Run.Ends limit budget Value (fun _ => True) (evaluateWithin config budget scope node) :=
  (Run.ends_composes limit budget).evalNode (declareIn_ends scope) (assignIn_ends scope)
    (applyValue_ends (callClosure_ends hlimit budget) scope) node

/-- **Evaluation under a limit ends**, with a value or a failure, from every state; and every budget
of nested calls beyond the limit gives the same outcome. -/
theorem evaluate_terminates (hlimit : config.policy.maxCallDepth = some limit) (scope : ScopeId)
    (node : Node) (s : State) :
    ∃ r s', evaluate config scope node s = some (r, s') ∧
      ∀ budget, limit < budget → evaluateWithin config budget scope node s = some (r, s') := by
  obtain ⟨r, s', h, -, -⟩ :=
    evaluateWithin_ends hlimit scope node (Nat.succ_pos limit) s (by omega)
  have hbudget : config.policy.callBudget = limit + 1 := by simp [Policy.callBudget, hlimit]
  refine ⟨r, s', ?_, fun budget hb => evaluateWithin_mono hb h⟩
  rwa [evaluate, hbudget]

end

/-- Endless recursion ends at the limit, whatever the budget beyond it. -/
theorem evaluate_terminates_at_limit :
    shallowSession.config.policy.maxCallDepth = some 2 ∧
    ∃ failure s', evaluate shallowSession.config 0 endlessRecursion shallowSession.state =
        some (.error failure, s') ∧
      failure.fault = .stackOverflow 2 ∧
      ∀ budget, 2 < budget → evaluateWithin shallowSession.config budget 0 endlessRecursion
        shallowSession.state = some (.error failure, s') := by
  have hlimit : shallowSession.config.policy.maxCallDepth = some 2 := rfl
  obtain ⟨r, s', h, hbudget⟩ :=
    evaluate_terminates hlimit 0 endlessRecursion shallowSession.state
  have hrun : Run.failure? (evaluate shallowSession.config 0 endlessRecursion
      shallowSession.state) =
        some { fault := .stackOverflow 2, backtrace := some [⟨"f", none⟩, ⟨"f", none⟩] } := by
    decide +kernel
  obtain ⟨s'', hfails⟩ := Run.failure?_eq_some.mp hrun
  cases h.symm.trans hfails
  exact ⟨hlimit, _, s', h, rfl, hbudget⟩

end TreeScript
