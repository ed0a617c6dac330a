import TreeScript.Proofs.Balance
import TreeScript.Proofs.Faults
import TreeScript.Proofs.Operands

/-!
# Proofs — where a failure is raised

A failure gains a location and a backtrace on its way out.  To say whether they are the right ones
takes an account of where it was raised, and this module gives one that mentions neither.

`Raised config budget scope node s raise` says how the evaluation of a node from a state comes to
fail: its operands are evaluated one after the other until one fails; or a value of an object
literal, a statement of a branch or of a called body does; or all of that went well and the node
itself cannot go on (`Node.Faults`, `Rejected`).  The trail of the raise lists what was under way,
innermost first: the evaluations of nodes, and the bodies of the functions that were called.

Every failing evaluation has such a raise (`exists_raised`), and the raise determines the failure
that comes out (`Raised.fails`): its location is the first one along the trail, its backtrace the
live calls at the raise.
-/

namespace TreeScript

/-! ### The start of a call -/

/-- A frame carries the name of the function, and the span of the call unless that is the dummy
one. -/
theorem Frame.ofCall_eq (name : String) (span : Span) :
    Frame.ofCall name span = ⟨name, if span = .dummy then none else some span⟩ := by
  by_cases h : span = .dummy
  · rw [if_pos h, h]
    rfl
  · rw [if_neg h, Frame.ofCall, Span.location?_eq_some_iff.mpr ⟨rfl, h⟩]

theorem CallStack.capture_push {limit : Option Nat} {frame : Frame} {stack pushed : CallStack}
    (h : stack.push limit frame = .ok pushed) : pushed.capture = frame :: stack.capture := by
  simp only [CallStack.push] at h
  split at h
  · split at h <;> cases h
    simp [CallStack.capture]
  · cases h
    simp [CallStack.capture]

/-- The policy admits calling the closure with so many arguments. -/
def Policy.Admits (policy : Policy) (closure : Closure) (values : List Value) : Prop :=
  policy.arity = .strict → closure.parameters.length = values.length

/-- Creates the scope of a call, and binds the parameters in it. -/
def openScope (closure : Closure) (values : List Value) : Run ScopeId := do
  let scope ← Run.newScope (some closure.scope)
  bindParameters scope closure.parameters values
  return scope

/-- A call is rejected before its body starts: for the number of its arguments, for a parameter
that repeats a name, or by a stack that has no room for its frame. -/
inductive Rejected (policy : Policy) (closure : Closure) (values : List Value) (span : Span)
    (s : State) : Fault → State → Prop where
  | arity : ¬policy.Admits closure values →
      Rejected policy closure values span s
        (.arityMismatch closure.name closure.parameters.length values.length) s
  | parameter {name : String} {s' : State} : policy.Admits closure values →
      openScope closure values s = some (.error { fault := .duplicateDeclaration name }, s') →
      Rejected policy closure values span s (.duplicateDeclaration name) s'
  | limit {inner : ScopeId} {fault : Fault} {s' : State} : policy.Admits closure values →
      openScope closure values s = some (.ok inner, s') →
      s'.stack.push policy.maxCallDepth
        ⟨closure.name, if span = .dummy then none else some span⟩ = .error fault →
      Rejected policy closure values span s fault s'

/-- A call starts its body: in a scope of its own, over a frame with the name of the function and
the span of the call, if it has one. -/
inductive Begins (policy : Policy) (closure : Closure) (values : List Value) (span : Span)
    (s : State) : ScopeId → State → Prop where
  | intro {inner : ScopeId} {s' : State} {pushed : CallStack} : policy.Admits closure values →
      openScope closure values s = some (.ok inner, s') →
      s'.stack.push policy.maxCallDepth
        ⟨closure.name, if span = .dummy then none else some span⟩ = .ok pushed →
      Begins policy closure values span s inner ⟨s'.world, pushed⟩

theorem enterClosure_of_admits {policy : Policy} {closure : Closure} {values : List Value}
    {span : Span} {body : ScopeId → Run Value} (h : policy.Admits closure values) :
    enterClosure policy closure values span body =
      (do let scope ← openScope closure values
          Run.located span (Run.pushFrame policy.maxCallDepth
            ⟨closure.name, if span = .dummy then none else some span⟩)
          Run.framed (body scope)) := by
  have hnot : ¬(policy.arity = .strict ∧ closure.parameters.length ≠ values.length) :=
    fun ⟨hstrict, hne⟩ => hne (h hstrict)
  simp [enterClosure, openScope, hnot, Frame.ofCall_eq]

/-- `x` ends with the live calls it started with, and fails, if at all, because a name is bound
already. -/
def Run.Declares {α : Type} (x : Run α) : Prop :=
  ∀ s, (∃ name s', x s = some (.error { fault := .duplicateDeclaration name }, s') ∧
      s'.stack = s.stack) ∨
    ∃ a s', x s = some (.ok a, s') ∧ s'.stack = s.stack

theorem Run.Declares.pure {α : Type} (a : α) : Run.Declares (Pure.pure a) :=
  fun s => .inr ⟨a, s, rfl, rfl⟩

theorem Run.Declares.bind {α β : Type} {x : Run α} {f : α → Run β} (hx : x.Declares)
    (hf : ∀ a, (f a).Declares) : (x >>= f).Declares := by
  intro s
  rcases hx s with ⟨name, s₁, h, hstack⟩ | ⟨a, s₁, h, hstack⟩
  · exact .inl ⟨name, s₁, Run.bind_eq_some.mpr (.inl ⟨_, h, rfl⟩), hstack⟩
  · rcases hf a s₁ with ⟨name, s', h', hstack'⟩ | ⟨b, s', h', hstack'⟩
    · exact .inl ⟨name, s', Run.bind_eq_some.mpr (.inr ⟨a, s₁, h, h'⟩), hstack'.trans hstack⟩
    · exact .inr ⟨b, s', Run.bind_eq_some.mpr (.inr ⟨a, s₁, h, h'⟩), hstack'.trans hstack⟩

theorem declareIn_declares (scope : ScopeId) (name : String) (value : Value)
    (mutability : Mutability) : (declareIn scope name value mutability).Declares := by
  refine .bind (fun s => ?_) fun _ => .pure value
  rw [Run.update_apply]
  cases h : s.world.store.declare scope name value mutability with
  | error fault =>
      rw [Store.declare_eq_error h]
      exact .inl ⟨name, s, rfl, rfl⟩
  | ok store => exact .inr ⟨(), _, rfl, rfl⟩

theorem bindParameters_declares (scope : ScopeId) :
    ∀ (names : List String) (values : List Value), (bindParameters scope names values).Declares
  | [], _ => .pure ()
  | name :: names, [] =>
      .bind (declareIn_declares scope name _ _) fun _ => bindParameters_declares scope names []
  | name :: names, _ :: values =>
      .bind (declareIn_declares scope name _ _) fun _ => bindParameters_declares scope names values

theorem openScope_declares (closure : Closure) (values : List Value) :
    (openScope closure values).Declares :=
  .bind (fun _ => .inr ⟨_, _, rfl, rfl⟩) fun scope =>
    .bind (bindParameters_declares scope _ _) fun _ => .pure scope

section

variable {policy : Policy} {closure : Closure} {values : List Value} {span : Span}
  {s s' : State} {body : ScopeId → Run Value}

/-- Opening the scope of a call leaves the live calls alone. -/
theorem openScope_stack {r : Except Failure ScopeId}
    (h : openScope closure values s = some (r, s')) : s'.stack = s.stack := by
  rcases openScope_declares closure values s with ⟨_, s₁, h', hstack⟩ | ⟨_, s₁, h', hstack⟩
  all_goals
    rw [h] at h'
    cases h'
    exact hstack

/-- A call is rejected or starts its body. -/
theorem rejected_or_begins (policy : Policy) (closure : Closure) (values : List Value)
    (span : Span) (s : State) :
    (∃ fault s', Rejected policy closure values span s fault s') ∨
      ∃ inner s', Begins policy closure values span s inner s' := by
  by_cases hadmits : policy.Admits closure values
  · rcases openScope_declares closure values s with ⟨name, s', h, -⟩ | ⟨inner, s', h, -⟩
    · exact .inl ⟨_, s', .parameter hadmits h⟩
    · cases hp : s'.stack.push policy.maxCallDepth
        ⟨closure.name, if span = .dummy then none else some span⟩ with
      | error fault => exact .inl ⟨fault, s', .limit hadmits h hp⟩
      | ok pushed => exact .inr ⟨inner, _, .intro hadmits h hp⟩
  · exact .inl ⟨_, s, .arity hadmits⟩

/-- A rejected call fails with the live calls it found. -/
theorem Rejected.stack {fault : Fault} (h : Rejected policy closure values span s fault s') :
    s'.stack = s.stack := by
  cases h with
  | arity => rfl
  | parameter _ hopen => exact openScope_stack hopen
  | limit _ hopen _ => exact openScope_stack hopen

/-- A rejected call fails, and at most says where it was made. -/
theorem Rejected.enterClosure {fault : Fault}
    (h : Rejected policy closure values span s fault s') :
    ∃ failure : Failure,
      TreeScript.enterClosure policy closure values span body s = some (.error failure, s') ∧
        (failure = { fault := fault } ∨ failure = Failure.orSpan span { fault := fault }) := by
  cases h with
  | arity hnot =>
      have hstrict : policy.arity = .strict ∧ closure.parameters.length ≠ values.length := by
        simpa [Policy.Admits] using hnot
      refine ⟨_, ?_, .inl rfl⟩
      rw [TreeScript.enterClosure, if_pos hstrict]
      rfl
  | parameter hadmits hopen =>
      refine ⟨_, ?_, .inl rfl⟩
      rw [enterClosure_of_admits hadmits]
      exact Run.bind_eq_some.mpr (.inl ⟨_, hopen, rfl⟩)
  | limit hadmits hopen hpush =>
      refine ⟨_, ?_, .inr rfl⟩
      rw [enterClosure_of_admits hadmits]
      refine Run.bind_eq_some.mpr (.inr ⟨_, _, hopen, ?_⟩)
      rw [Run.pushFrame_framed_apply, hpush]

/-- A call that starts its body runs it, and takes its frame off the stack at the end. -/
theorem Begins.enterClosure {inner : ScopeId} (h : Begins policy closure values span s inner s') :
    TreeScript.enterClosure policy closure values span body s = Run.framed (body inner) s' := by
  obtain ⟨hadmits, hopen, hpush⟩ := h
  rw [enterClosure_of_admits hadmits]
  show Run.bind _ _ s = _
  simp only [Run.bind, hopen]
  exact (Run.pushFrame_framed_apply ..).trans (by rw [hpush])

/-- So the budget of its body is one less than its own. -/
theorem Begins.callClosure {config : Config} {budget : Nat} {inner : ScopeId}
    (h : Begins config.policy closure values span s inner s') :
    TreeScript.callClosure config (budget + 1) closure values span s =
      Run.framed (evalBlock config (TreeScript.callClosure config budget) inner .null closure.body)
        s' := by
  have hspread := Run.spread_eq
    (evalBlock config (TreeScript.callClosure config budget) inner .null closure.body)
  exact h.enterClosure.trans (by rw [hspread])

/-- Taking the frame of a call off again gives the live calls before it. -/
theorem Begins.pop {inner : ScopeId} (h : Begins policy closure values span s inner s') :
    s'.stack.pop = s.stack := by
  obtain ⟨-, hopen, hpush⟩ := h
  rw [← openScope_stack hopen]
  exact CallStack.pop_push hpush

/-- The frame of a call that starts its body is the latest on the stack. -/
theorem Begins.capture {inner : ScopeId} (h : Begins policy closure values span s inner s') :
    s'.stack.capture =
      ⟨closure.name, if span = .dummy then none else some span⟩ :: s.stack.capture := by
  obtain ⟨-, hopen, hpush⟩ := h
  rw [← openScope_stack hopen]
  exact CallStack.capture_push hpush

end

/-! ### Raises -/

/-- What is under way during an evaluation: the evaluation of a node, or the body of a function that
was called by its name at a span. -/
inductive Pending where
  | evaluation (node : Node)
  | body (name : String) (span : Span)

namespace Pending

/-- The span of a node under way. -/
def span? : Pending → Option Span
  | .evaluation node => some node.span
  | .body .. => none

/-- The call of a body under way: the name of the function, and where the call was made if that is
a location. -/
def frame? : Pending → Option Frame
  | .evaluation _ => none
  | .body name span => some ⟨name, if span = .dummy then none else some span⟩

end Pending

/-- Where a failure is raised. -/
structure Raise where
  /-- The failure itself. -/
  failure : Failure
  /-- The span of the part of the node that is at fault, where it is a part. -/
  place : Option Span
  /-- What was under way, innermost first. -/
  trail : List Pending
  /-- The state at that moment. -/
  state : State

namespace Raise

/-- The raise seen from one level further out. -/
def within (raise : Raise) (pending : Pending) : Raise :=
  { raise with trail := raise.trail ++ [pending] }

/-- The spans that concern the raise: of the part at fault, then of the nodes under way, innermost
first. -/
def spans (raise : Raise) : List Span :=
  raise.place.toList ++ raise.trail.filterMap Pending.span?

/-- The calls whose bodies are under way, the latest first. -/
def calls (raise : Raise) : List Frame := raise.trail.filterMap Pending.frame?

/-- The failure that leaves the outermost node of the trail: located at the first span that is a
location, under the calls that are live at the raise. -/
def outcome (raise : Raise) : Failure where
  fault := raise.failure.fault
  message := raise.failure.message
  span := raise.failure.span <|> raise.spans.findSome? Span.location?
  backtrace :=
    if raise.calls = [] then raise.failure.backtrace
    else raise.failure.backtrace <|> some raise.state.stack.capture

@[simp] theorem within_failure (raise : Raise) (pending : Pending) :
    (raise.within pending).failure = raise.failure := rfl

@[simp] theorem within_state (raise : Raise) (pending : Pending) :
    (raise.within pending).state = raise.state := rfl

@[simp] theorem spans_within (raise : Raise) (pending : Pending) :
    (raise.within pending).spans = raise.spans ++ pending.span?.toList := by
  cases pending <;> simp [spans, within, Pending.span?]

@[simp] theorem calls_within (raise : Raise) (pending : Pending) :
    (raise.within pending).calls = raise.calls ++ pending.frame?.toList := by
  cases pending <;> simp [calls, within, Pending.frame?]

/-- The node at fault itself leaves a failure as it is raised, located at the part to blame. -/
theorem outcome_nil (failure : Failure) (place : Option Span) (s : State) :
    (Raise.mk failure place [] s).outcome =
      place.elim failure fun span => failure.orSpan span := by
  cases place <;> simp [outcome, spans, calls, Failure.orSpan]

/-- A node locates the failure. -/
theorem outcome_within_evaluation (raise : Raise) (node : Node) :
    (raise.within (.evaluation node)).outcome = raise.outcome.orSpan node.span := by
  simp [outcome, Failure.orSpan, Pending.span?, Pending.frame?, List.findSome?_append,
    Option.or_assoc]

/-- A body leaves the live calls in the failure, if no body inside it has. -/
theorem outcome_within_body (raise : Raise) (name : String) (span : Span) (stack : CallStack)
    (hstack : raise.state.stack.capture = raise.calls ++ stack.capture)
    (hlive : stack.capture ≠ []) :
    (raise.within (.body name span)).outcome = stack.attachBacktrace raise.outcome := by
  have hlive' : stack.isEmpty = false := by
    simpa [CallStack.isEmpty, CallStack.capture] using hlive
  by_cases hcalls : raise.calls = []
  · -- the innermost body
    rw [hcalls, List.nil_append] at hstack
    cases hb : raise.failure.backtrace <;>
      simp [outcome, CallStack.attachBacktrace, Failure.withBacktrace, Pending.span?,
        Pending.frame?, hcalls, hlive', hstack, hb]
  · cases hb : raise.failure.backtrace <;>
      simp [outcome, CallStack.attachBacktrace, Pending.span?, Pending.frame?, hcalls, hb]

end Raise

/-- A node whose operands have values is itself at fault: what it does with them in the state `s`
raises the failure.  Where a part of the node is to blame, its span is given. -/
inductive Node.Faults (config : Config) (scope : ScopeId) (s : State) :
    Node → List Value → Failure → Option Span → State → Prop where
  | declaration {constant : Bool} {name : String} {value : Option Node} {span : Span}
      {values : List Value} {fault : Fault} :
      s.world.store.declare scope name (values.headD .null) (.ofConstant constant) = .error fault →
      Faults config scope s (.declaration constant name value span) values { fault := fault } none s
  | function {name : String} {parameters : List String} {body : List Node} {span : Span}
      {fault : Fault} :
      s.world.store.declare scope name
          (.function ⟨name, parameters, body, config.host.bodyOf scope name, scope⟩) .constant =
        .error fault →
      Faults config scope s (.function name parameters body span) [] { fault := fault } none s
  | target {target value : Node} {span : Span} {fault : Fault} :
      target.assignable = .error fault →
      Faults config scope s (.assignment target value span) [] { fault := fault }
        (some target.span) s
  | assignment {name : String} {inner span : Span} {node : Node} {value : Value} {fault : Fault} :
      s.world.store.assign scope name value = .error fault →
      Faults config scope s (.assignment (.identifier name inner) node span) [value]
        { fault := fault } none s
  | binary {left right : Node} {op : BinaryOp} {span : Span} {l r : Value} {fault : Fault} :
      op.apply config.policy l r = .error fault →
      Faults config scope s (.binary left right op span) [l, r] { fault := fault } none s
  | comparison {left right : Node} {op : ComparisonOp} {span : Span} {l r : Value}
      {fault : Fault} :
      op.apply l r = .error fault →
      Faults config scope s (.comparison left right op span) [l, r] { fault := fault } none s
  | native {callee : Node} {arguments : List Node} {span : Span} {native : Native}
      {values : List Value} {failure : Failure} {world : World} :
      config.host.call native values scope s.world = (.error failure, world) →
      Faults config scope s (.call callee arguments span) (values ++ [.native native]) failure none
        ⟨world, s.stack⟩
  | callee {callee : Node} {arguments : List Node} {span : Span} {f : Value}
      {values : List Value} :
      (∀ native, f ≠ .native native) → (∀ closure, f ≠ .function closure) →
      Faults config scope s (.call callee arguments span) (values ++ [f])
        { fault := .notCallable f.typeName } none s
  | member {subject : Node} {key : String} {span : Span} {value : Value} {fault : Fault} :
      value.member key = .error fault →
      Faults config scope s (.member subject key span) [value] { fault := fault } none s
  | condition {condition : Node} {consequent : List Node} {alternative : Option (List Node)}
      {span : Span} {value : Value} {fault : Fault} :
      value.condition = .error fault →
      Faults config scope s (.conditional condition consequent alternative span) [value]
        { fault := fault } (some condition.span) s
  | identifier {name : String} {span : Span} {fault : Fault} :
      s.world.store.lookup scope name = .error fault →
      Faults config scope s (.identifier name span) [] { fault := fault } none s
  | property {entry : Entry Node} {span : Span} :
      Faults config scope s (.property entry span) []
        { fault := .unimplementedNode Node.Kind.property.name (Node.property entry span).dump }
        none s

/-- How the evaluation of a node in a scope, from a state and with a budget of nested calls, comes
to fail. -/
inductive Raised (config : Config) : Nat → ScopeId → Node → State → Raise → Prop where
  /-- The node itself is at fault. -/
  | here {budget : Nat} {scope : ScopeId} {node : Node} {s s₁ s₂ : State} {values : List Value}
      {failure : Failure} {place : Option Span} :
      evalAll config (callClosure config budget) scope node.operands s = some (.ok values, s₁) →
      node.Faults config scope s₁ values failure place s₂ →
      Raised config budget scope node s ⟨failure, place, [.evaluation node], s₂⟩
  /-- An entry of an object literal that is a name only has no value. -/
  | short {budget : Nat} {scope : ScopeId} {before after : List (Entry Node)} {key : String}
      {span : Span} {s s₁ : State} {values : List (String × Value)} {fault : Fault} :
      evalEntries config (callClosure config budget) scope before s = some (.ok values, s₁) →
      s₁.world.store.lookup scope key = .error fault →
      Raised config budget scope (.object (before ++ ⟨key, none⟩ :: after) span) s
        ⟨{ fault := fault }, none,
          [.evaluation (.object (before ++ ⟨key, none⟩ :: after) span)], s₁⟩
  /-- The call of a function is rejected. -/
  | rejected {budget : Nat} {scope : ScopeId} {callee : Node} {arguments : List Node} {span : Span}
      {s s₁ s₂ : State} {values : List Value} {closure : Closure} {fault : Fault} :
      evalAll config (callClosure config (budget + 1)) scope (arguments ++ [callee]) s =
        some (.ok (values ++ [.function closure]), s₁) →
      Rejected config.policy closure values span s₁ fault s₂ →
      Raised config (budget + 1) scope (.call callee arguments span) s
        ⟨{ fault := fault }, none, [.evaluation (.call callee arguments span)], s₂⟩
  /-- An operand fails. -/
  | operand {budget : Nat} {scope : ScopeId} {node part : Node} {before after : List Node}
      {s s₁ : State} {values : List Value} {raise : Raise} :
      node.operands = before ++ part :: after →
      evalAll config (callClosure config budget) scope before s = some (.ok values, s₁) →
      Raised config budget scope part s₁ raise →
      Raised config budget scope node s (raise.within (.evaluation node))
  /-- A value of an object literal fails. -/
  | entry {budget : Nat} {scope : ScopeId} {before after : List (Entry Node)} {key : String}
      {part : Node} {span : Span} {s s₁ : State} {values : List (String × Value)} {raise : Raise} :
      evalEntries config (callClosure config budget) scope before s = some (.ok values, s₁) →
      Raised config budget scope part s₁ raise →
      Raised config budget scope (.object (before ++ ⟨key, some part⟩ :: after) span) s
        (raise.within (.evaluation (.object (before ++ ⟨key, some part⟩ :: after) span)))
  /-- A statement of the branch taken fails. -/
  | branch {budget : Nat} {scope : ScopeId} {condition part : Node} {consequent : List Node}
      {alternative : Option (List Node)} {span : Span} {before after : List Node} {taken : Bool}
      {s s₁ s₂ : State} {values : List Value} {raise : Raise} :
      evaluateWithin config budget scope condition s = some (.ok (.bool taken), s₁) →
      (if taken then consequent else alternative.getD []) = before ++ part :: after →
      evalAll config (callClosure config budget) scope before s₁ = some (.ok values, s₂) →
      Raised config budget scope part s₂ raise →
      Raised config budget scope (.conditional condition consequent alternative span) s
        (raise.within (.evaluation (.conditional condition consequent alternative span)))
  /-- A statement of the body of a called function fails. -/
  | body {budget : Nat} {scope inner : ScopeId} {callee part : Node} {arguments : List Node}
      {span : Span} {before after : List Node} {s s₁ s₂ s₃ : State} {values results : List Value}
      {closure : Closure} {raise : Raise} :
      evalAll config (callClosure config (budget + 1)) scope (arguments ++ [callee]) s =
        some (.ok (values ++ [.function closure]), s₁) →
      Begins config.policy closure values span s₁ inner s₂ →
      closure.body = before ++ part :: after →
      evalAll config (callClosure config budget) inner before s₂ = some (.ok results, s₃) →
      Raised config budget inner part s₃ raise →
      Raised config (budget + 1) scope (.call callee arguments span) s
        ((raise.within (.body closure.name span)).within
          (.evaluation (.call callee arguments span)))

/-! ### A raise determines the failure -/

section

variable {config : Config} {budget : Nat} {scope : ScopeId} {s s' : State}

theorem evalAll_stack {nodes : List Node} {values : List Value}
    (h : evalAll config (callClosure config budget) scope nodes s = some (.ok values, s')) :
    s'.stack = s.stack := by
  have hrun : evaluateWithin config budget scope (.program nodes .dummy) s =
      some (.ok (values.getLastD .null), s') := by
    rw [evaluateWithin, evalNode_eq]
    refine Run.located_eq_some.mpr (.inr ⟨_, ?_, rfl⟩)
    exact Run.bind_eq_some.mpr (.inr ⟨values, s', h, rfl⟩)
  exact evaluateWithin_stack hrun

theorem evalEntries_stack {entries : List (Entry Node)} {values : List (String × Value)}
    (h : evalEntries config (callClosure config budget) scope entries s = some (.ok values, s')) :
    s'.stack = s.stack := by
  have hrun : evaluateWithin config budget scope (.object entries .dummy) s =
      some (.ok (.ofEntries values), s') := by
    rw [evaluateWithin, evalNode]
    refine Run.located_eq_some.mpr (.inr ⟨_, ?_, rfl⟩)
    exact Run.bind_eq_some.mpr (.inr ⟨values, s', h, rfl⟩)
  exact evaluateWithin_stack hrun

namespace Node.Faults

variable {node : Node} {values : List Value} {failure : Failure} {place : Option Span}

theorem stack (h : node.Faults config scope s values failure place s') : s'.stack = s.stack := by
  cases h <;> rfl

/-- A node that is at fault fails with that failure, located at the part that is to blame. -/
theorem conclude {call : Caller} (h : node.Faults config scope s values failure place s') :
    node.conclude config call scope values s =
      some (.error (place.elim failure fun span => failure.orSpan span), s') := by
  cases h with
  | declaration h | function h | assignment h =>
      refine Run.bind_eq_some.mpr (.inl ⟨_, ?_, rfl⟩)
      rw [Run.update_apply, h]
      rfl
  | target h =>
      have hconclude : ∀ (target value : Node) (span : Span), (∀ name inner,
          target ≠ .identifier name inner) →
          (Node.assignment target value span).conclude config call scope [] =
            (do
              let _ ← Run.located target.span (Run.ofExcept target.assignable)
              return .null) := by
        intro target value span hne
        cases target with
        | identifier name inner => exact absurd rfl (hne name inner)
        | _ => rfl
      rw [hconclude _ _ _ (by rintro name inner rfl; cases h), h]
      rfl
  | binary h | comparison h | member h =>
      simp only [Node.conclude, h]
      rfl
  | native h =>
      simp [Node.conclude, applyValue, Run.act, h]
  | callee hnative hfunction =>
      simp only [Node.conclude, List.getLastD_concat, applyValue]
      rfl
  | condition h =>
      rw [Node.conclude, h]
      rfl
  | identifier h =>
      simp only [Node.conclude, Run.query, h]
      rfl
  | property => rfl

end Node.Faults

/-- A node locates the failure of its operands or of what is done with them. -/
theorem evaluateWithin_of_outcome {node : Node} (raise : Raise)
    (h : (evalAll config (callClosure config budget) scope node.operands >>=
      node.conclude config (callClosure config budget) scope) s =
        some (.error raise.outcome, s')) :
    evaluateWithin config budget scope node s =
      some (.error (raise.within (.evaluation node)).outcome, s') := by
  rw [evaluateWithin, evalNode_eq, Raise.outcome_within_evaluation]
  exact Run.located_eq_some.mpr (.inl ⟨_, h, rfl⟩)

/-- **The raise determines the failure**: evaluation fails with the outcome of the raise, in the
world of the raise; and what was live at the raise are the calls of the trail, over those that were
live before. -/
theorem Raised.fails {node : Node} {raise : Raise} (h : Raised config budget scope node s raise) :
    evaluateWithin config budget scope node s =
        some (.error raise.outcome, ⟨raise.state.world, s.stack⟩) ∧
      raise.state.stack.capture = raise.calls ++ s.stack.capture := by
  induction h with
  | @here budget scope node s s₁ s₂ values failure place hoperands hfaults =>
      have hstack : s₂.stack = s.stack := hfaults.stack.trans (evalAll_stack hoperands)
      refine ⟨?_, by simp [Raise.calls, Pending.frame?, hstack]⟩
      refine evaluateWithin_of_outcome ⟨failure, place, [], s₂⟩ ?_
      rw [Raise.outcome_nil, ← hstack]
      exact Run.bind_eq_some.mpr (.inr ⟨values, s₁, hoperands, hfaults.conclude⟩)
  | @short budget scope before after key span s s₁ values fault hbefore hlookup =>
      have hstack : s₁.stack = s.stack := evalEntries_stack hbefore
      refine ⟨?_, by simp [Raise.calls, Pending.frame?, hstack]⟩
      refine evaluateWithin_of_outcome ⟨{ fault := fault }, none, [], s₁⟩ ?_
      rw [Raise.outcome_nil, ← hstack]
      refine Run.bind_eq_some.mpr (.inr ⟨[], s, rfl, ?_⟩)
      refine Run.bind_eq_some.mpr (.inl ⟨_, ?_, rfl⟩)
      refine evalEntries_eq_error.mpr ⟨before, _, after, values, s₁, rfl, hbefore, ?_⟩
      exact evalEntries_short_eq_error.mpr ⟨fault, hlookup, rfl, rfl⟩
  | @rejected budget scope callee arguments span s s₁ s₂ values closure fault hoperands hrejected =>
      have hstack : s₂.stack = s.stack := hrejected.stack.trans (evalAll_stack hoperands)
      refine ⟨?_, by simp [Raise.calls, Pending.frame?, hstack]⟩
      obtain ⟨failure, hcall, hfailure⟩ := hrejected.enterClosure
      have hlocated : failure.orSpan span = Failure.orSpan span { fault := fault } := by
        rcases hfailure with rfl | rfl
        · rfl
        · simp [Failure.orSpan]
      show evaluateWithin config (budget + 1) scope (.call callee arguments span) s =
        some (.error (Raise.within ⟨{ fault := fault }, none, [], s₂⟩ (.evaluation _)).outcome, _)
      rw [evaluateWithin, evalNode_eq, Raise.outcome_within_evaluation, Raise.outcome_nil, ← hstack]
      refine Run.located_eq_some.mpr (.inl ⟨failure, ?_, congrArg Except.error hlocated.symm⟩)
      refine Run.bind_eq_some.mpr (.inr ⟨_, s₁, hoperands, ?_⟩)
      rw [Node.conclude_call]
      exact hcall
  | operand hoperands hbefore _ ih =>
      obtain ⟨hpart, hcapture⟩ := ih
      have hstack := evalAll_stack hbefore
      rw [hstack] at hpart hcapture
      refine ⟨evaluateWithin_of_outcome _ ?_, by simpa [Pending.frame?] using hcapture⟩
      refine Run.bind_eq_some.mpr (.inl ⟨_, ?_, rfl⟩)
      exact evalAll_eq_error.mpr ⟨_, _, _, _, _, hoperands, hbefore, hpart⟩
  | entry hbefore _ ih =>
      obtain ⟨hpart, hcapture⟩ := ih
      have hstack := evalEntries_stack hbefore
      rw [hstack] at hpart hcapture
      refine ⟨evaluateWithin_of_outcome _ ?_, by simpa [Pending.frame?] using hcapture⟩
      refine Run.bind_eq_some.mpr (.inr ⟨[], _, rfl, ?_⟩)
      refine Run.bind_eq_some.mpr (.inl ⟨_, ?_, rfl⟩)
      refine evalEntries_eq_error.mpr ⟨_, _, _, _, _, rfl, hbefore, ?_⟩
      exact evalEntries_value_eq_error.mpr hpart
  | @branch _ _ _ _ _ _ _ _ _ taken s s₁ s₂ _ _ hcondition hbranch hbefore _ ih =>
      obtain ⟨hpart, hcapture⟩ := ih
      have hstack : s₂.stack = s.stack :=
        (evalAll_stack hbefore).trans (evaluateWithin_stack hcondition)
      rw [hstack] at hpart hcapture
      refine ⟨evaluateWithin_of_outcome _ ?_, by simpa [Pending.frame?] using hcapture⟩
      refine Run.bind_eq_some.mpr (.inr ⟨[.bool taken], s₁, ?_, ?_⟩)
      · exact evalAll_singleton_eq_ok.mpr ⟨_, hcondition, rfl⟩
      · refine Run.bind_eq_some.mpr (.inr ⟨_, s₁, rfl, ?_⟩)
        refine evalBlock_eq_error.mpr ?_
        exact evalAll_eq_error.mpr ⟨_, _, _, _, _, hbranch, hbefore, hpart⟩
  | @body budget scope inner callee part arguments span _ _ s s₁ s₂ s₃ values _ closure raise
      hoperands hbegins hbody hbefore _ ih =>
      obtain ⟨hpart, hcapture⟩ := ih
      rw [evalAll_stack hbefore] at hpart hcapture
      have hlive := hbegins.capture
      rw [evalAll_stack hoperands] at hlive
      have hrun : evalBlock config (callClosure config budget) inner .null closure.body s₂ =
          some (.error raise.outcome, ⟨raise.state.world, s₂.stack⟩) :=
        evalBlock_eq_error.mpr
          (evalAll_eq_error.mpr ⟨_, _, _, _, _, hbody, hbefore, hpart⟩)
      refine ⟨evaluateWithin_of_outcome _ ?_, ?_⟩
      · refine Run.bind_eq_some.mpr (.inr ⟨_, s₁, hoperands, ?_⟩)
        rw [Node.conclude_call,
          Raise.outcome_within_body raise _ _ s₂.stack hcapture (by simp [hlive]),
          ← evalAll_stack hoperands, ← hbegins.pop]
        refine hbegins.callClosure.trans ?_
        rw [Run.framed_apply, hrun]
        rfl
      · simp [Pending.frame?, hcapture, hlive]

/-- A failure is raised without saying where, unless a function of the host raises it. -/
theorem Raised.bare_or_native {node : Node} {raise : Raise}
    (h : Raised config budget scope node s raise) :
    raise.failure = { fault := raise.failure.fault } ∨
      ∃ function ∈ config.host.functions, ∃ values scope world,
        (function values scope world).1 = .error raise.failure := by
  induction h with
  | here _ hfaults =>
      cases hfaults with
      | native hcall =>
          obtain ⟨function, hmem, hfails⟩ := Host.call_eq_error (congrArg Prod.fst hcall)
          exact .inr ⟨function, hmem, _, _, _, hfails⟩
      | _ => exact .inl rfl
  | short => exact .inl rfl
  | rejected => exact .inl rfl
  | operand _ _ _ ih => exact ih
  | entry _ _ ih => exact ih
  | branch _ _ _ _ ih => exact ih
  | body _ _ _ _ _ ih => exact ih

end

/-! ### Every failure is raised -/

section

variable {config : Config} {call : Caller} {scope : ScopeId} {s s' : State} {failure : Failure}

theorem Run.ofExcept_eq_error {α : Type} {result : Except Fault α}
    (h : Run.ofExcept result s = some (.error failure, s')) : ∃ fault, result = .error fault := by
  cases result with
  | error fault => exact ⟨fault, rfl⟩
  | ok a => cases h

theorem Run.update_eq_error {change : Store → Except Fault Store} {α : Type} {a : α}
    (h : (do Run.update change; return a) s = some (.error failure, s')) :
    ∃ fault, change s.world.store = .error fault := by
  rcases Run.bind_eq_some.mp h with ⟨_, hupdate, -⟩ | ⟨_, _, _, ⟨⟩⟩
  rw [Run.update_apply] at hupdate
  cases hchange : change s.world.store with
  | error fault => exact ⟨fault, rfl⟩
  | ok store => simp [hchange] at hupdate

/-- If a node fails once its operands have values, then it is itself at fault, or what fails is the
call it makes, the branch it takes, or the entries it holds. -/
theorem Node.conclude_eq_error {node : Node} {values : List Value}
    (hlength : values.length = node.operands.length)
    (h : node.conclude config call scope values s = some (.error failure, s')) :
    (∃ raised place s₁, node.Faults config scope s values raised place s₁) ∨
    (∃ callee arguments span closure, ∃ others : List Value, node = .call callee arguments span ∧
      values = others ++ [.function closure] ∧
      call closure others span s = some (.error failure, s')) ∨
    (∃ condition consequent alternative span taken,
      node = .conditional condition consequent alternative span ∧ values = [.bool taken] ∧
      evalBlock config call scope .null (if taken then consequent else alternative.getD []) s =
        some (.error failure, s')) ∨
    ∃ entries span, node = .object entries span ∧
      evalEntries config call scope entries s = some (.error failure, s') := by
  cases node with
  | program body span => cases h
  | declaration constant name value span =>
      obtain ⟨fault, h⟩ := Run.update_eq_error h
      exact .inl ⟨_, _, _, .declaration h⟩
  | function name parameters body span =>
      obtain rfl := List.length_eq_zero_iff.mp hlength
      obtain ⟨fault, h⟩ := Run.update_eq_error h
      exact .inl ⟨_, _, _, .function h⟩
  | assignment target value span =>
      by_cases htarget : ∃ name inner, target = .identifier name inner
      · obtain ⟨name, inner, rfl⟩ := htarget
        obtain ⟨v, rfl⟩ := List.length_eq_one_iff.mp hlength
        obtain ⟨fault, h⟩ := Run.update_eq_error h
        exact .inl ⟨_, _, _, .assignment h⟩
      · have hnone : (Node.assignment target value span).operands = [] := by
          cases target with
          | identifier name inner => exact absurd ⟨name, inner, rfl⟩ htarget
          | _ => rfl
        have hfault : ∃ fault, target.assignable = .error fault := by
          cases target with
          | identifier name inner => exact absurd ⟨name, inner, rfl⟩ htarget
          | _ => exact ⟨_, rfl⟩
        rw [hnone] at hlength
        obtain rfl := List.length_eq_zero_iff.mp hlength
        obtain ⟨fault, hfault⟩ := hfault
        exact .inl ⟨_, _, _, .target hfault⟩
  | binary left right op span =>
      obtain ⟨l, r, rfl⟩ := List.length_eq_two.mp hlength
      obtain ⟨fault, h⟩ := Run.ofExcept_eq_error h
      exact .inl ⟨_, _, _, .binary h⟩
  | comparison left right op span =>
      obtain ⟨l, r, rfl⟩ := List.length_eq_two.mp hlength
      obtain ⟨fault, h⟩ := Run.ofExcept_eq_error h
      exact .inl ⟨_, _, _, .comparison h⟩
  | call callee arguments span =>
      have hne : values ≠ [] := by
        rintro rfl
        simp [operands] at hlength
      obtain ⟨others, f, rfl⟩ := (List.eq_nil_or_concat' values).resolve_left hne
      rw [conclude_call] at h
      cases f with
      | native native =>
          have hcall : (config.host.call native others scope s.world).1 = .error failure := by
            simp only [applyValue, Run.act, Option.some.injEq, Prod.mk.injEq] at h
            exact h.1
          exact .inl ⟨failure, none, _, .native (Prod.ext hcall rfl)⟩
      | function closure =>
          exact .inr (.inl ⟨callee, arguments, span, closure, others, rfl, rfl, h⟩)
      | _ => exact .inl ⟨_, _, _, .callee (by simp) (by simp)⟩
  | member subject key span =>
      obtain ⟨value, rfl⟩ := List.length_eq_one_iff.mp hlength
      obtain ⟨fault, h⟩ := Run.ofExcept_eq_error h
      exact .inl ⟨_, _, _, .member h⟩
  | conditional condition consequent alternative span =>
      obtain ⟨value, rfl⟩ := List.length_eq_one_iff.mp hlength
      cases value with
      | bool taken =>
          exact .inr (.inr (.inl ⟨condition, consequent, alternative, span, taken, rfl, rfl, h⟩))
      | _ => exact .inl ⟨_, _, _, .condition rfl⟩
  | identifier name span =>
      obtain rfl := List.length_eq_zero_iff.mp hlength
      cases hlookup : s.world.store.lookup scope name with
      | error fault => exact .inl ⟨_, _, _, .identifier hlookup⟩
      | ok value => simp [conclude, Run.query, hlookup] at h
  | number value span => cases h
  | string value span => cases h
  | object entries span =>
      rcases Run.bind_eq_some.mp h with ⟨_, hentries, ⟨⟩⟩ | ⟨_, _, _, ⟨⟩⟩
      exact .inr (.inr (.inr ⟨entries, span, rfl, hentries⟩))
  | property entry span =>
      obtain rfl := List.length_eq_zero_iff.mp hlength
      exact .inl ⟨_, _, _, .property⟩

end

variable {config : Config}

/-- The evaluations of `node` that fail are raised. -/
def FailuresRaised (config : Config) (budget : Nat) (scope : ScopeId) (node : Node) : Prop :=
  ∀ s failure s', evaluateWithin config budget scope node s = some (.error failure, s') →
    ∃ raise, Raised config budget scope node s raise

/-- A call that fails was rejected or is raised in its body. -/
theorem exists_raised_call {budget : Nat} {scope : ScopeId} {callee : Node} {arguments : List Node}
    {span : Span} {closure : Closure} {values : List Value} {s s₁ s' : State} {failure : Failure}
    (ih : ∀ smaller < budget, ∀ scope node, FailuresRaised config smaller scope node)
    (hoperands : evalAll config (callClosure config budget) scope (arguments ++ [callee]) s =
      some (.ok (values ++ [.function closure]), s₁))
    (h : callClosure config budget closure values span s₁ = some (.error failure, s')) :
    ∃ raise, Raised config budget scope (.call callee arguments span) s raise := by
  cases budget with
  | zero => cases h
  | succ budget =>
      rcases rejected_or_begins config.policy closure values span s₁ with
        ⟨fault, s₂, hrejected⟩ | ⟨inner, s₂, hbegins⟩
      · exact ⟨_, .rejected hoperands hrejected⟩
      · rw [hbegins.callClosure, Run.framed_apply, Option.map_eq_some_iff] at h
        obtain ⟨⟨_ | _, s₃⟩, hbody, hframed⟩ := h
        · obtain ⟨before, part, after, results, s₄, hsplit, hbefore, hpart⟩ :=
            evalAll_eq_error.mp (evalBlock_eq_error.mp hbody)
          obtain ⟨raise, hraise⟩ := ih budget (Nat.lt_succ_self budget) inner part _ _ _ hpart
          exact ⟨_, .body hoperands hbegins hsplit hbefore hraise⟩
        · cases hframed

/-- **Every failing evaluation is raised.** -/
theorem exists_raised (budget : Nat) :
    ∀ scope node, FailuresRaised config budget scope node := by
  -- a call goes on with a smaller budget, everything else with a part of the node
  induction budget using Nat.strongRecOn with | _ budget ih
  intro scope node
  induction node using Node.induction_parts with | step node hparts
  intro s failure s' h
  rw [evaluateWithin, evalNode_eq] at h
  rcases Run.located_eq_some.mp h with ⟨raised, h, -⟩ | ⟨_, _, ⟨⟩⟩
  rcases Run.bind_eq_some.mp h with ⟨_, hoperands, ⟨⟩⟩ | ⟨values, s₁, hoperands, h⟩
  · obtain ⟨before, part, after, values, s₁, hsplit, hbefore, hpart⟩ :=
      evalAll_eq_error.mp hoperands
    have hmem : part ∈ node.parts := Node.mem_parts_of_mem_operands (by simp [hsplit])
    obtain ⟨raise, hraise⟩ := hparts part hmem _ _ _ hpart
    exact ⟨_, .operand hsplit hbefore hraise⟩
  rcases Node.conclude_eq_error (evalAll_length hoperands) h with
    ⟨_, _, _, hfaults⟩ | ⟨callee, arguments, span, closure, others, rfl, rfl, hcall⟩ |
    ⟨condition, consequent, alternative, span, taken, rfl, rfl, hbranch⟩ |
    ⟨entries, span, rfl, hentries⟩
  · exact ⟨_, .here hoperands hfaults⟩
  · exact exists_raised_call ih hoperands hcall
  · obtain ⟨_, hcondition, ⟨⟩⟩ := evalAll_singleton_eq_ok.mp hoperands
    obtain ⟨before, part, after, values, s₂, hsplit, hbefore, hpart⟩ :=
      evalAll_eq_error.mp (evalBlock_eq_error.mp hbranch)
    have hmem : part ∈ (Node.conditional condition consequent alternative span).parts := by
      cases taken <;> simp_all [Node.parts]
    obtain ⟨raise, hraise⟩ := hparts part hmem _ _ _ hpart
    exact ⟨_, .branch hcondition hsplit hbefore hraise⟩
  · cases hoperands
    obtain ⟨before, ⟨key, _ | part⟩, after, values, s₂, rfl, hbefore, hentry⟩ :=
      evalEntries_eq_error.mp hentries
    · obtain ⟨fault, hlookup, -, -⟩ := evalEntries_short_eq_error.mp hentry
      exact ⟨_, .short hbefore hlookup⟩
    · obtain ⟨raise, hraise⟩ :=
        hparts part (by simp [Node.parts]) _ _ _ (evalEntries_value_eq_error.mp hentry)
      exact ⟨_, .entry hbefore hraise⟩

end TreeScript
