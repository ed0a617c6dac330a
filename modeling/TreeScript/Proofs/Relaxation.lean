import Mathlib.Data.List.Permutation
import TreeScript.Proofs.Curtailment
import TreeScript.Proofs.Faults
import TreeScript.Proofs.Termination

/-!
# Proofs — policies that refuse less

Relaxing a policy only removes failures.  Under a policy with some strict settings relaxed, an
evaluation ends exactly as before, unless it failed before with a fault that such a setting guards
(`relaxing_removes_faults`).  Raising the limit on live calls is conservative in the same way: only
an evaluation that failed because of the limit may end differently (`raising_limit_conservative`).

In both cases what the failed evaluation had printed is the beginning of what the new one prints,
if the functions of the host only append to the output, as `print` does.
-/

namespace TreeScript

/-! ### Relaxed settings -/

/-- `q` is `p` with any of its strict settings relaxed, and with the limit of `p`. -/
structure Policy.RelaxesTo (p q : Policy) : Prop where
  mixedOperands : q.mixedOperands = p.mixedOperands ∨
    p.mixedOperands = .strict ∧ q.mixedOperands = .nullFallback
  arity : q.arity = p.arity ∨ p.arity = .strict ∧ q.arity = .lenient
  zeroDivision : q.zeroDivision = p.zeroDivision ∨ p.zeroDivision = .error ∧ q.zeroDivision = .ieee
  maxCallDepth : q.maxCallDepth = p.maxCallDepth

/-- The fault is guarded by a setting that `p` has and `q` has relaxed. -/
def Policy.Guards (p q : Policy) : Fault → Prop
  | .operandMismatch .. => p.mixedOperands = .strict ∧ q.mixedOperands = .nullFallback
  | .arityMismatch .. => p.arity = .strict ∧ q.arity = .lenient
  | .divisionByZero | .moduloByZero => p.zeroDivision = .error ∧ q.zeroDivision = .ieee
  | _ => False

namespace Policy.RelaxesTo

variable {p q : Policy}

/-- An operator on numbers minds only division by zero. -/
theorem onNumbers (h : p.RelaxesTo q) (op : BinaryOp) (a b : Float) :
    Refuses (p.Guards q) (op.onNumbers p.zeroDivision a b) (op.onNumbers q.zeroDivision a b) := by
  rcases h.zeroDivision with heq | ⟨hp, hq⟩
  · exact .inl (by rw [heq])
  · by_cases hb : b == 0.0
    · cases op with
      | add | sub | mul => exact .inl rfl
      | div => exact .inr ⟨.divisionByZero, by simp [BinaryOp.onNumbers, hp, hb], hp, hq⟩
      | mod => exact .inr ⟨.moduloByZero, by simp [BinaryOp.onNumbers, hp, hb], hp, hq⟩
    · cases op with
      | add | sub | mul => exact .inl rfl
      | div | mod => exact .inl (by simp [BinaryOp.onNumbers, hb])

theorem binary (h : p.RelaxesTo q) (op : BinaryOp) (l r : Value) :
    Refuses (p.Guards q) (op.apply p l r) (op.apply q l r) := by
  simp only [BinaryOp.apply]
  split
  · rename_i a b
    rcases h.onNumbers op a b with heq | ⟨fault, hfault, hG⟩
    · exact .inl (by rw [heq])
    · exact .inr ⟨fault, by rw [hfault]; rfl, hG⟩
  · exact .inl rfl
  · rcases h.mixedOperands with heq | ⟨hp, hq⟩
    · exact .inl (by rw [heq])
    · exact .inr ⟨.operandMismatch l.typeName r.typeName op, by rw [hp], hp, hq⟩

/-- What `p` refuses beyond `q`, it refuses with a fault that a relaxed setting guards. -/
theorem curtails (h : p.RelaxesTo q) (host : Host) :
    Config.Curtails (p.Guards q) ⟨p, host⟩ ⟨q, host⟩ where
  host := rfl
  binary := h.binary
  arity := by
    rcases h.arity with heq | ⟨hp, hq⟩
    · exact .inl heq.symm
    · exact .inr ⟨hp, fun _ _ _ => ⟨hp, hq⟩⟩
  push _ _ := .inl (by rw [h.maxCallDepth])

end Policy.RelaxesTo

/-- **Relaxing a policy only removes the failures it guards against.**  Let an evaluation end under
`p` and, from the same state, under a relaxed policy `q`, within any budgets of nested calls.  Then
the one under `p` fails with a fault that a relaxed setting guards, and what it has printed is the
beginning of what the other one prints; or both end with the same value or failure and in the same
state. -/
theorem relaxing_removes_faults (p q : Policy) (hpq : p.RelaxesTo q) (host : Host)
    (budget budget' : Nat) (scope : ScopeId) (node : Node) (s s' t' : State)
    (r r' : Except Failure Value)
    (hp : evaluateWithin ⟨p, host⟩ budget scope node s = some (r, s'))
    (hq : evaluateWithin ⟨q, host⟩ budget' scope node s = some (r', t')) :
    (∃ failure, r = .error failure ∧ p.Guards q failure.fault ∧
      (host.Appends → s'.world.output.Precedes t'.world.output)) ∨
    r' = r ∧ t' = s' := by
  -- with the larger budget the evaluation under `q` still ends as it does
  have hq' := evaluateWithin_mono (Nat.le_max_right budget budget') hq
  have curtails := (hpq.curtails host).evaluateWithin (Nat.le_max_left budget budget') scope node
  rcases curtails.ends hp with ⟨r'', hsame, hr⟩ | ⟨failure, hfailure, hG, hprints⟩
  · cases hsame.symm.trans hq'
    exact .inr ⟨(hr.eq fun _ _ h => h).symm, rfl⟩
  · exact .inl ⟨failure, hfailure, hG, hprints _ _ hq'⟩

/-- A session with a global scope. -/
def globalSession (policy : Policy) : Session :=
  ((Session.start policy .buffer (.still 0)).newGlobals .buffer).2

/-- Its host offers `print` and `time`. -/
theorem globalSession_functions {policy : Policy} {function : HostFunction}
    (h : function ∈ (globalSession policy).host.functions) :
    function = .print .buffer ∨ function = .time := by
  change function ∈ #[HostFunction.print .buffer, HostFunction.time] at h
  simpa using h

theorem globalSession_appends (policy : Policy) : (globalSession policy).host.Appends := by
  intro function h
  rcases globalSession_functions h with rfl | rfl
  · exact HostFunction.print_appends .buffer
  · exact HostFunction.time_appends

theorem globalSession_shallow (policy : Policy) : (globalSession policy).host.Shallow := by
  intro function h
  rcases globalSession_functions h with rfl | rfl <;> rintro values scope world failure depth ⟨⟩

/-- `print("before")  true + null  print("after")`. -/
def printingSum : Node :=
  let print (text : String) : Node :=
    .call (.identifier "print" .dummy) [.string text .dummy] .dummy
  let sum : Node := .binary (.identifier "true" .dummy) (.identifier "null" .dummy) .add .dummy
  .program [print "before", sum, print "after"] .dummy

/-- The strict policy stops at the sum, and the permissive one goes on printing. -/
theorem relaxing_removes_faults_sum :
    Policy.strict.RelaxesTo .permissive ∧ (globalSession .strict).host.Appends ∧
    ∃ failure s' v t',
      evaluateWithin ⟨.strict, (globalSession .strict).host⟩ 1 0 printingSum
        (globalSession .strict).state = some (.error failure, s') ∧
      evaluateWithin ⟨.permissive, (globalSession .strict).host⟩ 1 0 printingSum
        (globalSession .strict).state = some (.ok v, t') ∧
      failure.fault = .operandMismatch "boolean" "null" .add ∧
      s'.world.output.Precedes t'.world.output := by
  have hpq : Policy.strict.RelaxesTo .permissive :=
    ⟨.inr ⟨rfl, rfl⟩, .inr ⟨rfl, rfl⟩, .inr ⟨rfl, rfl⟩, rfl⟩
  have happends := globalSession_appends .strict
  have hp : Run.failure? (evaluateWithin ⟨.strict, (globalSession .strict).host⟩ 1 0 printingSum
      (globalSession .strict).state) =
        some { fault := .operandMismatch "boolean" "null" .add } := by
    decide +kernel
  have hq : (evaluateWithin ⟨.permissive, (globalSession .strict).host⟩ 1 0 printingSum
      (globalSession .strict).state).map (fun p => p.1) = some (.ok .null) := by
    cbv
  obtain ⟨s', hp⟩ := Run.failure?_eq_some.mp hp
  obtain ⟨⟨r', t'⟩, hq, rfl⟩ := Option.map_eq_some_iff.mp hq
  rcases relaxing_removes_faults _ _ hpq _ 1 1 0 printingSum _ s' t' _ _ hp hq with
    ⟨_, ⟨⟩, -, hprefix⟩ | ⟨⟨⟩, -⟩
  exact ⟨hpq, happends, _, s', _, t', hp, hq, rfl, hprefix happends⟩

/-! ### Higher limits -/

/-- The configuration with another limit on the live calls. -/
def Config.withLimit (config : Config) (limit : Option Nat) : Config :=
  { config with policy := { config.policy with maxCallDepth := limit } }

/-- What a lower limit refuses beyond a higher one, it refuses because the stack is full. -/
theorem Config.withLimit_curtails {config : Config} {low : Nat} {limit : Option Nat}
    (hlow : config.policy.maxCallDepth = some low)
    (hlimit : ∀ high, limit = some high → low ≤ high) :
    Config.Curtails (· = .stackOverflow low) config (config.withLimit limit) where
  host := rfl
  binary _ _ _ := .inl rfl
  arity := .inl rfl
  push stack frame := by
    by_cases hfull : low ≤ stack.depth
    · exact .inr ⟨.stackOverflow low, by simp [CallStack.push, hlow, hfull], rfl⟩
    · refine .inl ?_
      simp only [Config.withLimit, CallStack.push, hlow, if_neg hfull]
      cases limit with
      | none => rfl
      | some high =>
          have hroom : ¬ high ≤ stack.depth := fun h => hfull (Nat.le_trans (hlimit high rfl) h)
          simp only [if_neg hroom]

/-- **Raising the limit on live calls is conservative.**  Let `limit` be no smaller than the limit
`low` of a configuration, or no limit at all.  The evaluation under `low` ends.

* If it does not fail because the stack is full, it ends under `limit` too, with the same value or
  failure and in the same state, within every budget of more than `low` nested calls.
* If it does, the fault names `low`, and what is printed by then is the beginning of what the
  evaluation under `limit` prints, if that ends within any budget. -/
theorem raising_limit_conservative (config : Config) (low : Nat) (limit : Option Nat)
    (hlow : config.policy.maxCallDepth = some low) (hlimit : ∀ high, limit = some high → low ≤ high)
    (scope : ScopeId) (node : Node) (s : State) :
    ∃ r s', evaluate config scope node s = some (r, s') ∧
      ((∀ failure depth, r = .error failure → failure.fault ≠ .stackOverflow depth) →
        ∀ budget, low < budget →
          evaluateWithin (config.withLimit limit) budget scope node s = some (r, s')) ∧
      ∀ failure depth, r = .error failure → failure.fault = .stackOverflow depth →
        (config.host.Shallow → depth = low) ∧
          ∀ budget r' t',
            evaluateWithin (config.withLimit limit) budget scope node s = some (r', t') →
              config.host.Appends → s'.world.output.Precedes t'.world.output := by
  have hbudget : config.policy.callBudget = low + 1 := by simp [Policy.callBudget, hlow]
  obtain ⟨r, s', hrun, -, -⟩ := evaluateWithin_ends hlow scope node (Nat.succ_pos low) s (by omega)
  have curtails := fun budget (hle : low + 1 ≤ budget) =>
    ((Config.withLimit_curtails hlow hlimit).evaluateWithin hle scope node).ends hrun
  refine ⟨r, s', by rwa [evaluate, hbudget], fun hother budget hmore => ?_,
    fun failure depth hr hdepth => ?_⟩
  · rcases curtails budget hmore with ⟨r', hsame, hr⟩ | ⟨failure, hfailure, hfull, -⟩
    · rwa [hr.eq fun _ _ h => h]
    · exact absurd hfull (hother failure low hfailure)
  · subst hr
    refine ⟨fun hshallow => evaluateWithin_overflow hlow hshallow hrun hdepth,
      fun budget r' t' hend => ?_⟩
    -- with a budget that exceeds the lower limit, the evaluation still ends as it does
    have hend' := evaluateWithin_mono (Nat.le_max_right (low + 1) budget) hend
    rcases curtails _ (Nat.le_max_left (low + 1) budget) with ⟨r'', hsame, -⟩ | ⟨_, -, -, hprints⟩
    · cases hsame.symm.trans hend'
      exact fun _ => .refl _
    · exact hprints _ _ hend'

/-- `fn f() { print("x")  last }  f()`. -/
def printingCall (last : Node) : Node :=
  let print : Node := .call (.identifier "print" .dummy) [.string "x" .dummy] .dummy
  .program [.function "f" [] [print, last] .dummy, .call (.identifier "f" .dummy) [] .dummy] .dummy

/-- `printingCall` with a body that calls nothing. -/
def singleCall : Node := printingCall (.identifier "true" .dummy)

/-- `printingCall` with a body that calls itself. -/
def endlessCall : Node := printingCall (.call (.identifier "f" .dummy) [] .dummy)

/-- One call ends without a limit as it does under a limit of two live calls; and endless recursion
is stopped there, having printed the beginning of what it prints under a limit of three. -/
theorem raising_limit_conservative_calls :
    shallowSession.config.policy.maxCallDepth = some 2 ∧
    shallowSession.config.host.Appends ∧ shallowSession.config.host.Shallow ∧
    (∃ v s', evaluate shallowSession.config 0 singleCall shallowSession.state =
        some (.ok v, s') ∧
      evaluateWithin (shallowSession.config.withLimit none) 3 0 singleCall shallowSession.state =
        some (.ok v, s')) ∧
    ∃ failure s' r' t',
      evaluate shallowSession.config 0 endlessCall shallowSession.state =
        some (.error failure, s') ∧
      failure.fault = .stackOverflow 2 ∧
      evaluateWithin (shallowSession.config.withLimit (some 3)) 4 0 endlessCall
        shallowSession.state = some (r', t') ∧
      s'.world.output.Precedes t'.world.output := by
  have hlow : shallowSession.config.policy.maxCallDepth = some 2 := rfl
  have happends : shallowSession.config.host.Appends := globalSession_appends .default
  have hshallow : shallowSession.config.host.Shallow := globalSession_shallow .default
  refine ⟨hlow, happends, hshallow, ?_, ?_⟩
  · obtain ⟨r, s', hrun, hsame, -⟩ := raising_limit_conservative _ 2 none hlow (by rintro _ ⟨⟩) 0
      singleCall shallowSession.state
    have hvalue : (evaluate shallowSession.config 0 singleCall shallowSession.state).map
        (fun p => p.1) = some (.ok (.bool true)) := by
      cbv
    rw [hrun] at hvalue
    cases hvalue
    exact ⟨_, s', hrun, hsame (by rintro _ _ ⟨⟩) 3 (by decide)⟩
  · obtain ⟨r, s', hrun, -, hfull⟩ := raising_limit_conservative _ 2 (some 3) hlow
      (by rintro _ ⟨⟩; decide) 0 endlessCall shallowSession.state
    have hfailure : Run.failure? (evaluate shallowSession.config 0 endlessCall
        shallowSession.state) =
          some { fault := .stackOverflow 2, backtrace := some [⟨"f", none⟩, ⟨"f", none⟩] } := by
      decide +kernel
    have hends : (evaluateWithin (shallowSession.config.withLimit (some 3)) 4 0 endlessCall
        shallowSession.state).isSome := by
      decide +kernel
    obtain ⟨s'', hfails⟩ := Run.failure?_eq_some.mp hfailure
    cases hrun.symm.trans hfails
    obtain ⟨⟨r', t'⟩, hend⟩ := Option.isSome_iff_exists.mp hends
    exact ⟨_, s', r', t', hrun, rfl, hend, (hfull _ 2 rfl rfl).2 4 r' t' hend happends⟩

end TreeScript
