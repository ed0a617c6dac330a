import TreeScript.Proofs.Raise
import TreeScript.Proofs.Relaxation

/-!
# Proofs — backtraces

The backtrace of a failure lists the calls that were live where it was raised: those whose bodies
were under way, the latest first, each with the name of the function and the span of the call
(`backtraces_exact`).  The innermost body that a failure leaves puts the backtrace on it, before its
frame comes off the stack, and the bodies around it keep what is there.

A call that is rejected before its body starts has no frame yet.  So if the stack is full, the
backtrace is as long as the limit: the push is refused where so many calls are live
(`Raised.limit_le_depth`), and no more ever are (`Raised.depth_le_limit`).
-/

namespace TreeScript

/-- The failures of the function carry no backtrace. -/
def HostFunction.Untraced (function : HostFunction) : Prop :=
  ∀ (values : List Value) (scope : ScopeId) (world : World) (failure : Failure),
    (function values scope world).1 = .error failure → failure.backtrace = none

/-- No function of the host fails with a backtrace. -/
def Host.Untraced (host : Host) : Prop := ∀ function ∈ host.functions, function.Untraced

/-! ### Calls that do not start a body -/

/-- A call of a value is refused: the value is no function, or the call is rejected. -/
inductive Refused (policy : Policy) (values : List Value) (span : Span) (s : State) :
    Value → Fault → State → Prop where
  | callee {f : Value} : (∀ native, f ≠ .native native) → (∀ closure, f ≠ .function closure) →
      Refused policy values span s f (.notCallable f.typeName) s
  | rejected {closure : Closure} {fault : Fault} {s' : State} :
      Rejected policy closure values span s fault s' →
      Refused policy values span s (.function closure) fault s'

/-- A call that is refused fails without a backtrace, and leaves the live calls alone. -/
theorem Refused.applyValue {config : Config} {budget : Nat} {scope : ScopeId} {f : Value}
    {values : List Value} {span : Span} {s s' : State} {fault : Fault}
    (h : Refused config.policy values span s f fault s') :
    ∃ failure,
      TreeScript.applyValue config (callClosure config (budget + 1)) scope f values span s =
        some (.error failure, s') ∧
      failure.fault = fault ∧ failure.backtrace = none ∧ s'.stack = s.stack := by
  cases h with
  | callee hnative hfunction =>
      refine ⟨{ fault := .notCallable f.typeName }, ?_, rfl, rfl, rfl⟩
      simp only [TreeScript.applyValue]
      rfl
  | rejected hrejected =>
      obtain ⟨failure, hcall, hfailure⟩ := hrejected.enterClosure
      refine ⟨failure, hcall, ?_, ?_, hrejected.stack⟩
      · rcases hfailure with rfl | rfl <;> rfl
      · rcases hfailure with rfl | rfl <;> rfl

/-! ### Full stacks -/

section

variable {config : Config} {budget limit : Nat} {scope : ScopeId} {node : Node} {s : State}
  {raise : Raise}

/-- A node that is itself at fault does not report a full stack. -/
theorem Node.Faults.ne_overflow (hhost : config.host.Shallow) {values : List Value}
    {failure : Failure} {place : Option Span} {s' : State} {depth : Nat}
    (h : node.Faults config scope s values failure place s') :
    failure.fault ≠ .stackOverflow depth := by
  intro hfault
  cases h with
  | declaration h => cases (Store.declare_eq_error h).symm.trans hfault
  | function h => cases (Store.declare_eq_error h).symm.trans hfault
  | @target target _ _ fault h =>
      cases hfault
      cases target <;> cases h
  | assignment h =>
      rcases Store.assign_eq_error h with rfl | rfl <;> cases hfault
  | binary h =>
      cases hfault
      exact BinaryOp.apply_ne_overflow h
  | comparison h =>
      cases hfault
      exact ComparisonOp.apply_ne_overflow h
  | native h =>
      obtain ⟨function, hmem, hfails⟩ := Host.call_eq_error (congrArg Prod.fst h)
      exact hhost function hmem _ _ _ _ depth hfails hfault
  | callee => cases hfault
  | member h =>
      cases hfault
      exact Value.member_ne_overflow h
  | @condition _ _ _ _ value _ h =>
      cases hfault
      cases value <;> cases h
  | identifier h => cases (Store.lookup_eq_error h).symm.trans hfault
  | property => cases hfault

/-- Where a full stack is reported, as many calls are live as the limit admits. -/
theorem Raised.limit_le_depth (hlimit : config.policy.maxCallDepth = some limit)
    (hhost : config.host.Shallow) {depth : Nat} (h : Raised config budget scope node s raise)
    (hfault : raise.failure.fault = .stackOverflow depth) : limit ≤ raise.state.stack.depth := by
  induction h with
  | here _ hfaults => exact absurd hfault (hfaults.ne_overflow hhost)
  | short _ hlookup => cases (Store.lookup_eq_error hlookup).symm.trans hfault
  | rejected _ hrejected =>
      cases hrejected with
      | arity => cases hfault
      | parameter => cases hfault
      | limit _ _ hpush =>
          rw [hlimit] at hpush
          exact (CallStack.push_eq_error hpush).2
  | operand _ _ _ ih => exact ih hfault
  | entry _ _ ih => exact ih hfault
  | branch _ _ _ _ ih => exact ih hfault
  | body _ _ _ _ _ ih => exact ih hfault

/-- No more calls are ever live than the limit admits. -/
theorem Raised.depth_le_limit (hlimit : config.policy.maxCallDepth = some limit)
    (h : Raised config budget scope node s raise) (hs : s.stack.depth ≤ limit) :
    raise.state.stack.depth ≤ limit := by
  induction h with
  | here hoperands hfaults => rwa [hfaults.stack, evalAll_stack hoperands]
  | short hbefore _ => rwa [evalEntries_stack hbefore]
  | rejected hoperands hrejected => rwa [hrejected.stack, evalAll_stack hoperands]
  | operand _ hbefore _ ih => exact ih (by rwa [evalAll_stack hbefore])
  | entry hbefore _ ih => exact ih (by rwa [evalEntries_stack hbefore])
  | branch hcondition _ hbefore _ ih =>
      exact ih (by rwa [evalAll_stack hbefore, evaluateWithin_stack hcondition])
  | body _ hbegins _ hbefore _ ih =>
      refine ih ?_
      rw [evalAll_stack hbefore]
      obtain ⟨-, -, hpush⟩ := hbegins
      obtain ⟨hdepth, hroom⟩ := CallStack.push_ok hpush
      rw [hdepth]
      exact hroom limit hlimit

end

/-! ### The backtrace of a failure -/

theorem CallStack.length_capture (stack : CallStack) : stack.capture.length = stack.depth := by
  simp [CallStack.capture, CallStack.depth]

/-- **Backtraces are exact.**  Let an evaluation fail with no call live at its start.  It has a
raise, and for its raise: the live calls are those whose bodies are under way, and the backtrace
lists just these, or is absent if there are none.  A call that is refused has no part in it; and a
full stack is reported with the limit, under as many calls. -/
theorem backtraces_exact (config : Config) (hhost : config.host.Untraced) (budget : Nat)
    (scope : ScopeId) (node : Node) (world : World) (failure : Failure) (s' : State)
    (h : evaluateWithin config budget scope node ⟨world, .empty⟩ = some (.error failure, s')) :
    (∃ raise, Raised config budget scope node ⟨world, .empty⟩ raise) ∧
    (∀ raise, Raised config budget scope node ⟨world, .empty⟩ raise →
      failure.fault = raise.failure.fault ∧
      raise.state.stack.capture = raise.calls ∧
      (failure.backtrace = none ↔ raise.calls = []) ∧
      (raise.calls ≠ [] → failure.backtrace = some raise.calls)) ∧
    (∀ f values span s fault s₁, Refused config.policy values span s f fault s₁ →
      ∃ failure, applyValue config (callClosure config (budget + 1)) scope f values span s =
          some (.error failure, s₁) ∧
        failure.fault = fault ∧ failure.backtrace = none ∧ s₁.stack = s.stack) ∧
    ∀ limit depth, config.policy.maxCallDepth = some limit → config.host.Shallow →
      failure.fault = .stackOverflow depth →
      depth = limit ∧
      (limit = 0 → failure.backtrace = none) ∧
      (limit ≠ 0 → ∃ frames, failure.backtrace = some frames ∧ frames.length = limit) := by
  have exact : ∀ raise, Raised config budget scope node ⟨world, .empty⟩ raise →
      failure = raise.outcome ∧ raise.state.stack.capture = raise.calls ∧
        raise.failure.backtrace = none := by
    intro raise hraise
    obtain ⟨hfails, hcapture⟩ := hraise.fails
    rw [h] at hfails
    cases hfails
    refine ⟨rfl, by simpa [CallStack.capture, CallStack.empty] using hcapture, ?_⟩
    rcases hraise.bare_or_native with hbare | ⟨function, hmem, values, scope, world, hfails⟩
    · rw [hbare]
    · exact hhost function hmem values scope world _ hfails
  have traced : ∀ raise, Raised config budget scope node ⟨world, .empty⟩ raise →
      failure.backtrace = if raise.calls = [] then none else some raise.calls := by
    intro raise hraise
    obtain ⟨rfl, hcapture, hbare⟩ := exact raise hraise
    simp [Raise.outcome, hcapture, hbare]
  obtain ⟨raise, hraise⟩ := exists_raised budget scope node _ _ _ h
  refine ⟨⟨raise, hraise⟩, ?_, fun _ _ _ _ _ _ hrefused => hrefused.applyValue, ?_⟩
  · intro raise hraise
    obtain ⟨rfl, hcapture, -⟩ := exact raise hraise
    have hbacktrace := traced raise hraise
    refine ⟨rfl, hcapture, ?_, fun hcalls => by rw [hbacktrace, if_neg hcalls]⟩
    rw [hbacktrace]
    split <;> simp_all
  · intro limit depth hlimit hshallow hfault
    obtain ⟨hfailure, hcapture, -⟩ := exact raise hraise
    have hraised : raise.failure.fault = .stackOverflow depth := by rw [← hfault, hfailure]; rfl
    have hlength : raise.calls.length = limit := by
      have hle := hraise.depth_le_limit hlimit (Nat.zero_le limit)
      have hge := hraise.limit_le_depth hlimit hshallow hraised
      rw [← hcapture, CallStack.length_capture]
      omega
    have hbacktrace := traced raise hraise
    refine ⟨evaluateWithin_overflow hlimit hshallow h hfault, ?_, ?_⟩
    · intro hzero
      rw [hbacktrace, if_pos (List.length_eq_zero_iff.mp (hlength.trans hzero))]
    · intro hpositive
      refine ⟨raise.calls, ?_, hlength⟩
      rw [hbacktrace, if_neg]
      intro hnil
      rw [hnil] at hlength
      exact hpositive hlength.symm

theorem globalSession_untraced (policy : Policy) : (globalSession policy).host.Untraced := by
  intro function h
  rcases globalSession_functions h with rfl | rfl <;> rintro values scope world failure ⟨⟩

/-- `fn f() { f() }  f()`, where only the call in the body has a location. -/
def locatedRecursion : Node :=
  .program
    [.function "f" [] [.call (.identifier "f" .dummy) [] ⟨9, 12⟩] .dummy,
      .call (.identifier "f" .dummy) [] .dummy] .dummy

/-- Two calls are live where the third is refused; the first of them was made outside of any
location. -/
theorem backtraces_exact_recursion :
    shallowSession.config.host.Untraced ∧ shallowSession.config.host.Shallow ∧
    ∃ failure s' raise,
      evaluateWithin shallowSession.config 3 0 locatedRecursion
        ⟨shallowSession.state.world, .empty⟩ = some (.error failure, s') ∧
      Raised shallowSession.config 3 0 locatedRecursion ⟨shallowSession.state.world, .empty⟩ raise ∧
      failure.fault = .stackOverflow 2 ∧
      failure.backtrace = some [⟨"f", some ⟨9, 12⟩⟩, ⟨"f", none⟩] ∧
      raise.calls = [⟨"f", some ⟨9, 12⟩⟩, ⟨"f", none⟩] ∧
      ∃ frames, failure.backtrace = some frames ∧ frames.length = 2 := by
  have huntraced : shallowSession.config.host.Untraced := globalSession_untraced .default
  have hshallow : shallowSession.config.host.Shallow := globalSession_shallow .default
  have hrun : Run.failure? (evaluateWithin shallowSession.config 3 0 locatedRecursion
      ⟨shallowSession.state.world, .empty⟩) = some
        { fault := .stackOverflow 2
          span := some ⟨9, 12⟩
          backtrace := some [⟨"f", some ⟨9, 12⟩⟩, ⟨"f", none⟩] } := by
    decide +kernel
  obtain ⟨s', h⟩ := Run.failure?_eq_some.mp hrun
  obtain ⟨⟨raise, hraise⟩, hexact, -, hfull⟩ :=
    backtraces_exact shallowSession.config huntraced 3 0 locatedRecursion _ _ s' h
  obtain ⟨-, -, hnone, hsome⟩ := hexact raise hraise
  have hcalls : raise.calls ≠ [] := fun hnil => by cases hnone.mpr hnil
  obtain ⟨-, -, hlength⟩ := hfull 2 2 rfl hshallow rfl
  exact ⟨huntraced, hshallow, _, s', raise, h, hraise, rfl, rfl,
    Option.some.inj (hsome hcalls).symm, hlength (by decide)⟩

end TreeScript
