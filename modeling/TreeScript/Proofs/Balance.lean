import TreeScript.Proofs.Invariance

/-!
# Proofs — calls leave the stack as they found it

An evaluation that ends, with a value or with a failure, ends with the live calls it started with
(`evaluateWithin_stack`, `callClosure_stack`).  So no evaluation lowers the depth that later ones
have.

Two facts concern the inside of a run: a frame is taken off only a stack that has one, and a body
starts only within the limit on live calls.  `watchedCall` calls closures like `callClosure` and
looks at the stack where a body starts and where its frame is about to be taken off; if it is not
as it should be there, an arbitrary computation, the alarm, goes on instead.  A failure passes
through every caller, so an alarm that goes off can be chosen to show at the end of the run.
`watchedCall_eq` says that no alarm makes a difference.
-/

namespace TreeScript

/-! ### The stack before and after -/

/-- A refused push apart, a push admits one more call within the limit. -/
theorem CallStack.push_ok {limit : Option Nat} {frame : Frame} {stack pushed : CallStack}
    (h : stack.push limit frame = .ok pushed) :
    pushed.depth = stack.depth + 1 ∧ ∀ max, limit = some max → stack.depth < max := by
  simp only [CallStack.push] at h
  cases limit with
  | none => cases h; simp [CallStack.depth]
  | some max =>
      by_cases hmax : max ≤ stack.depth
      · simp [hmax] at h
      · simp only [hmax, if_false, Except.ok.injEq] at h
        subst h
        simpa [CallStack.depth] using hmax

/-- Every run keeps the stack: only a call touches it, and takes off again what it has put on. -/
theorem stack_pervades (config : Config) :
    Pervades config (Run.Keeps fun s s' => s'.stack = s.stack) := by
  refine Run.keeps_pervades (fun _ => rfl) (fun _ _ _ h₁ h₂ => h₂.trans h₁) ?_ ?_ ?_ ?_ ?_
  · exact fun _ _ _ _ _ _ _ => rfl
  · exact fun _ _ _ _ _ _ => rfl
  · exact fun _ _ _ _ => rfl
  · exact fun _ _ => rfl
  · intro s s' frame pushed hp hs
    show s'.stack.pop = s.stack
    rw [hs]
    exact CallStack.pop_push hp

/-- A call that ends leaves the live calls it started with. -/
theorem callClosure_stack {config : Config} {budget : Nat} {closure : Closure}
    {values : List Value} {span : Span} {s s' : State} {r : Except Failure Value}
    (h : callClosure config budget closure values span s = some (r, s')) : s'.stack = s.stack :=
  ((stack_pervades config).callClosure budget closure values span s r s' h).1

/-- An evaluation that ends leaves the live calls it started with. -/
theorem evaluateWithin_stack {config : Config} {budget : Nat} {scope : ScopeId} {node : Node}
    {s s' : State} {r : Except Failure Value}
    (h : evaluateWithin config budget scope node s = some (r, s')) : s'.stack = s.stack :=
  ((stack_pervades config).evaluateWithin budget scope node s r s' h).1

/-! ### The stack inside a run -/

/-- Runs `x` in a state that passes the test, and the alarm in any other. -/
def Run.checkedBefore {α : Type} (test : State → Bool) (alarm x : Run α) : Run α := fun s =>
  if test s then x s else alarm s

/-- Runs `x`, and then the alarm if the state that `x` ends in fails the test. -/
def Run.checkedAfter {α : Type} (test : State → Bool) (alarm x : Run α) : Run α := fun s =>
  match x s with
  | some (r, s') => if test s' then some (r, s') else alarm s'
  | none => none

/-- Calls closures like `callClosure`, with a check where a body starts, that the live calls are
within the limit, and one where its frame is about to be taken off, that there is a frame. -/
def watchedCall (config : Config) (alarm : Run Value) : Nat → Caller
  | 0 => fun _ _ _ => Run.exhausted
  | budget + 1 => fun closure values span =>
    enterClosure config.policy closure values span fun scope =>
      Run.checkedBefore (fun s => config.policy.maxCallDepth.all (s.stack.depth ≤ ·)) alarm
        (Run.checkedAfter (fun s => !s.stack.isEmpty) alarm
          (evalBlock config (watchedCall config alarm budget) scope .null closure.body))

/-- Between the push and the pop of its frame, a body that keeps the stack passes both checks. -/
theorem framed_checked {limit : Option Nat} {frame : Frame} {span : Span} {alarm body : Run Value}
    (hbody : Run.Keeps (fun s s' => s'.stack = s.stack) Value (fun _ => True) body) :
    (do Run.located span (Run.pushFrame limit frame)
        Run.framed (Run.checkedBefore (fun s => limit.all (s.stack.depth ≤ ·)) alarm
          (Run.checkedAfter (fun s => !s.stack.isEmpty) alarm body))) =
      (do Run.located span (Run.pushFrame limit frame); Run.framed body) := by
  funext s
  rw [Run.pushFrame_framed_apply, Run.pushFrame_framed_apply]
  cases hp : s.stack.push limit frame with
  | error fault => rfl
  | ok pushed =>
      obtain ⟨hdepth, hlimit⟩ := CallStack.push_ok hp
      -- the push admitted the call below the limit
      have before : limit.all (pushed.depth ≤ ·) = true := by
        cases limit with
        | none => rfl
        | some max =>
            simp only [Option.all_some, hdepth, decide_eq_true_eq]
            exact hlimit max rfl
      -- the body gives back the pushed stack, which has a frame to take off
      have after : Run.checkedAfter (fun s => !s.stack.isEmpty) alarm body ⟨s.world, pushed⟩ =
          body ⟨s.world, pushed⟩ := by
        simp only [Run.checkedAfter]
        rcases hb : body ⟨s.world, pushed⟩ with _ | ⟨r, s'⟩
        · rfl
        · have hs' : s'.stack = pushed := (hbody _ _ _ hb).1
          have hne : pushed.isEmpty = false := by
            simp only [CallStack.depth] at hdepth
            simp [CallStack.isEmpty, ← Array.size_eq_zero_iff, hdepth]
          simp [hs', hne]
      simp only [Run.framed_apply, Run.checkedBefore, before, if_true, after]

/-- **No alarm goes off**: calls with the checks are calls without them, whatever the alarm is. -/
theorem watchedCall_eq (config : Config) (alarm : Run Value) (budget : Nat) :
    watchedCall config alarm budget = callClosure config budget := by
  induction budget with
  | zero => rfl
  | succ budget ih =>
      funext closure values span
      have hbody := fun scope => (stack_pervades config).evalBlock
        ((stack_pervades config).declare scope) ((stack_pervades config).assign scope)
        ((stack_pervades config).applyValue ((stack_pervades config).callClosure budget) scope)
        .null closure.body
      simp only [watchedCall, callClosure, enterClosure, ih, Run.spread_eq,
        framed_checked (hbody _)]

/-! ### Sessions after a failure -/

/-- A session built afresh with the policy and sink of another, on its functions and its world. -/
def Session.rebuilt (session : Session) : Session :=
  { Session.start session.policy session.sink session.state.world.clock with
    host := session.host
    state := ⟨session.state.world, .empty⟩ }

theorem Session.rebuilt_eq {session : Session} (h : session.state.stack = .empty) :
    session.rebuilt = session := by
  obtain ⟨policy, sink, host, ⟨world, stack⟩⟩ := session
  cases h
  rfl

/-- An evaluation of a session leaves the stack as it found it. -/
theorem Session.evaluate_stack {session later : Session} {scope : ScopeId} {node : Node}
    {r : Except Failure Value} (h : session.evaluate scope node = some (r, later)) :
    later.state.stack = session.state.stack := by
  obtain ⟨s', hrun, rfl⟩ := Session.perform_eq_some.mp h
  exact evaluateWithin_stack hrun

/-- **Calls are balanced.**  Evaluations and calls that end, in whatever way, end with the live
calls they started with; on the way, no body starts beyond the limit and no frame is taken off an
empty stack; and so a session whose evaluation failed goes on like one built afresh. -/
theorem calls_balanced (config : Config) (budget : Nat) :
    (∀ scope node s r s', evaluateWithin config budget scope node s = some (r, s') →
      s'.stack = s.stack) ∧
    (∀ closure values span s r s', callClosure config budget closure values span s = some (r, s') →
      s'.stack = s.stack) ∧
    (∀ alarm, watchedCall config alarm budget = callClosure config budget ∧
      ∀ scope node, evalNode config (watchedCall config alarm budget) scope node =
        evaluateWithin config budget scope node) ∧
    ∀ (session later : Session) scope node failure, session.state.stack = .empty →
      session.evaluate scope node = some (.error failure, later) →
      ∀ scope' node', later.evaluate scope' node' = later.rebuilt.evaluate scope' node' := by
  refine ⟨fun _ _ _ _ _ => evaluateWithin_stack, fun _ _ _ _ _ _ => callClosure_stack,
    fun alarm => ⟨watchedCall_eq config alarm budget, fun scope node => ?_⟩, ?_⟩
  · rw [watchedCall_eq]
    rfl
  · intro session later scope node failure hempty h scope' node'
    rw [Session.rebuilt_eq ((Session.evaluate_stack h).trans hempty)]

/-- `fn f() { f() }  f()`. -/
def endlessRecursion : Node :=
  let call : Node := .call (.identifier "f" .dummy) [] .dummy
  .program [.function "f" [] [call] .dummy, call] .dummy

/-- A session with a global scope, which admits two live calls. -/
def shallowSession : Session :=
  let policy : Policy := { Policy.default with maxCallDepth := some 2 }
  let (_, session) := (Session.start policy .buffer (.still 0)).newGlobals .buffer
  session

/-- Endless recursion fails at the limit and leaves no live call behind; a call whose parameters
repeat a name fails before its body and leaves the one that was live. -/
theorem calls_balanced_at_limit :
    (∃ failure later, shallowSession.evaluate 0 endlessRecursion = some (.error failure, later) ∧
      failure.fault = .stackOverflow 2 ∧ later.state.stack = .empty ∧
      ∀ scope node, later.evaluate scope node = later.rebuilt.evaluate scope node) ∧
    ∃ failure s', callClosure shallowSession.config 3 ⟨"g", ["x", "x"], [], ⟨0, "g"⟩, 0⟩
        [.null, .null] .dummy ⟨shallowSession.state.world, ⟨#[⟨"f", none⟩]⟩⟩ =
          some (.error failure, s') ∧
      failure.fault = .duplicateDeclaration "x" ∧ s'.stack = ⟨#[⟨"f", none⟩]⟩ := by
  obtain ⟨hevaluate, hcall, -, hsession⟩ := calls_balanced shallowSession.config 3
  constructor
  · have hrun : Run.failure? (evaluate shallowSession.config 0 endlessRecursion
        shallowSession.state) = some
          { fault := .stackOverflow 2, backtrace := some [⟨"f", none⟩, ⟨"f", none⟩] } := by
      decide +kernel
    obtain ⟨s', hs⟩ := Run.failure?_eq_some.mp hrun
    have h : shallowSession.evaluate 0 endlessRecursion = some (.error _, _) :=
      Session.perform_eq_some.mpr ⟨s', hs, rfl⟩
    exact ⟨_, _, h, rfl, hevaluate _ _ _ _ _ hs, hsession _ _ _ _ _ rfl h⟩
  · have hrun : Run.failure? (callClosure shallowSession.config 3
        ⟨"g", ["x", "x"], [], ⟨0, "g"⟩, 0⟩ [.null, .null] .dummy
        ⟨shallowSession.state.world, ⟨#[⟨"f", none⟩]⟩⟩) =
          some { fault := .duplicateDeclaration "x" } := by
      decide +kernel
    obtain ⟨s', h⟩ := Run.failure?_eq_some.mp hrun
    exact ⟨_, s', h, rfl, hcall _ _ _ _ _ _ h⟩

end TreeScript
