import TreeScript.Proofs.Erasure
import TreeScript.Proofs.Relaxation

/-!
# Proofs — spans make no difference

Two evaluations of trees that are the same up to spans, from states that are, go side by side: both
run out of budget, both yield values or both fail, and what they end with is the same up to spans
(`spans_indifferent`).  Only failures show spans, as locations and in their backtraces; the dump of
a node that cannot be evaluated shows them too.

`Run.Lockstep R x y` says this of two computations.  It is closed under the operations of
computations, so that it reaches nodes by `Corresponds` and calls by induction on the budget.
-/

namespace TreeScript

/-! ### States and failures without spans -/

/-- The world without the spans in its closures. -/
def World.bare (world : World) : World := { world with store := world.store.bare }

/-- The call without its span. -/
def Frame.bare (frame : Frame) : Frame := { frame with span := none }

/-- The live calls without their spans. -/
def CallStack.bare (stack : CallStack) : CallStack := ⟨stack.frames.map Frame.bare⟩

/-- The state without its spans. -/
def State.bare (s : State) : State := ⟨s.world.bare, s.stack.bare⟩

/-- The fault without the dump of a node. -/
def Fault.bare : Fault → Fault
  | .unimplementedNode kind _ => .unimplementedNode kind ""
  | fault => fault

/-- The failure without its location, the spans of its backtrace and the dump of a node. -/
def Failure.bare (failure : Failure) : Failure where
  fault := failure.fault.bare
  message := failure.message
  backtrace := failure.backtrace.map (·.map Frame.bare)

/-- The wording of a fault does not show a dump. -/
theorem Fault.message_bare (fault : Fault) : fault.bare.message = fault.message := by
  cases fault <;> rfl

/-- Failures that differ by their spans do so wherever they are located. -/
@[simp] theorem Failure.bare_orSpan (span : Span) (failure : Failure) :
    (failure.orSpan span).bare = failure.bare := rfl

/-- So failures made of faults that are the same, dumps aside, have one wording. -/
theorem Failure.bare_eq_of_fault {fault fault' : Fault} (h : fault.bare = fault'.bare) :
    Failure.bare { fault := fault } = Failure.bare { fault := fault' } := by
  have hmessage : fault.message = fault'.message := by
    rw [← Fault.message_bare, h, Fault.message_bare]
  simp only [Failure.bare, h, hmessage]

/-- Failures that differ only by their spans have the same words. -/
theorem Failure.message_eq_of_bare {failure failure' : Failure}
    (h : failure.bare = failure'.bare) : failure.message = failure'.message := by
  show failure.bare.message = failure'.bare.message
  rw [h]

/-- They name the same calls. -/
theorem Failure.names_eq_of_bare {failure failure' : Failure} (h : failure.bare = failure'.bare) :
    failure.backtrace.map (·.map (·.name)) = failure'.backtrace.map (·.map (·.name)) := by
  have hnames : ∀ failure : Failure, failure.backtrace.map (·.map (·.name)) =
      failure.bare.backtrace.map (·.map (·.name)) := by
    intro failure
    cases hb : failure.backtrace <;> simp [Failure.bare, Frame.bare, hb]
  rw [hnames, h, ← hnames]

namespace CallStack

/-- A frame is pushed or refused, whatever the spans. -/
theorem push_bare (limit : Option Nat) (frame : Frame) (stack : CallStack) :
    stack.bare.push limit frame.bare = (stack.push limit frame).map bare := by
  have hdepth : stack.bare.depth = stack.depth := by simp [depth, bare]
  have hframes : stack.bare.frames.push frame.bare =
      (CallStack.mk (stack.frames.push frame)).bare.frames := by simp [bare]
  cases limit with
  | none => simp only [push, hframes]; rfl
  | some max =>
      simp only [push, hdepth, hframes]
      split <;> rfl

theorem pop_bare (stack : CallStack) : stack.pop.bare = stack.bare.pop := by
  simp [pop, bare, Array.map_pop]

/-- Backtraces are attached to the same failures. -/
theorem attachBacktrace_bare (stack : CallStack) (failure : Failure) :
    (stack.attachBacktrace failure).bare = stack.bare.attachBacktrace failure.bare := by
  have hempty : stack.bare.isEmpty = stack.isEmpty := by simp [isEmpty, bare, Array.isEmpty]
  have hcapture : stack.bare.capture = stack.capture.map Frame.bare := by
    simp [capture, bare, List.map_reverse]
  simp only [attachBacktrace, hempty, Failure.bare, Option.isSome_map]
  split
  · rfl
  · simp [Failure.withBacktrace, hcapture]

end CallStack

/-! ### Computations side by side -/

/-- Two results: both are errors that `E` relates, or both are values that `R` relates. -/
inductive ExceptRel {ε α : Type} (E : ε → ε → Prop) (R : α → α → Prop) :
    Except ε α → Except ε α → Prop where
  | error {e e' : ε} : E e e' → ExceptRel E R (.error e) (.error e')
  | ok {a b : α} : R a b → ExceptRel E R (.ok a) (.ok b)

/-- Results of an operation on the store are the same up to spans. -/
abbrev SameAnswers {α : Type} (R : α → α → Prop) : Except Fault α → Except Fault α → Prop :=
  ExceptRel (fun fault fault' => fault.bare = fault'.bare) R

/-- Results of computations are the same up to spans. -/
abbrev SameFates {α : Type} (R : α → α → Prop) : Except Failure α → Except Failure α → Prop :=
  ExceptRel (fun failure failure' => failure.bare = failure'.bare) R

/-- Answers with equal images are the same. -/
theorem sameAnswers_of_map_eq {α β : Type} (f : α → β) {r r' : Except Fault α}
    (h : r.map f = r'.map f) : SameAnswers (fun a b => f a = f b) r r' := by
  match r, r', h with
  | .error fault, .error _, rfl => exact .error rfl
  | .ok a, .ok b, h => exact .ok (Except.ok.inj h)

namespace Run

variable {α β : Type}

/-- From states that are the same up to spans, `x` and `y` both run out of budget, or end in states
that are the same up to spans: both with failures that are, or both with values that `R` relates. -/
def Lockstep (α : Type) (R : α → α → Prop) (x y : Run α) : Prop :=
  ∀ s t : State, s.bare = t.bare →
    Option.Rel (fun p q => SameFates R p.1 q.1 ∧ p.2.bare = q.2.bare) (x s) (y t)

namespace Lockstep

variable {R : α → α → Prop} {Q : β → β → Prop}

/-- How two computations end that go side by side. -/
theorem ends {x y : Run α} (h : Lockstep α R x y) {s t : State} (hst : s.bare = t.bare) :
    (x s = none ∧ y t = none) ∨
    (∃ failure failure' s' t', x s = some (.error failure, s') ∧
      y t = some (.error failure', t') ∧ failure.bare = failure'.bare ∧ s'.bare = t'.bare) ∨
    ∃ a b s' t', x s = some (.ok a, s') ∧ y t = some (.ok b, t') ∧ R a b ∧ s'.bare = t'.bare := by
  have hends := h s t hst
  generalize x s = p at hends ⊢
  generalize y t = q at hends ⊢
  cases hends with
  | none => exact .inl ⟨rfl, rfl⟩
  | @some p q hends =>
      obtain ⟨r, s'⟩ := p
      obtain ⟨r', t'⟩ := q
      obtain ⟨hfates, hst'⟩ := hends
      simp only at hfates
      cases hfates with
      | error hfailure => exact .inr (.inl ⟨_, _, s', t', rfl, rfl, hfailure, hst'⟩)
      | ok hab => exact .inr (.inr ⟨_, _, s', t', rfl, rfl, hab, hst'⟩)

theorem pure {a b : α} (hab : R a b) : Lockstep α R (Pure.pure a) (Pure.pure b) :=
  fun _ _ hst => .some ⟨.ok hab, hst⟩

theorem exhausted : Lockstep α R Run.exhausted Run.exhausted := fun _ _ _ => .none

theorem bind {x y : Run α} {f g : α → Run β} (hx : Lockstep α R x y)
    (hf : ∀ a b, R a b → Lockstep β Q (f a) (g b)) : Lockstep β Q (x >>= f) (y >>= g) := by
  intro s t hst
  show Option.Rel _ (Run.bind x f s) (Run.bind y g t)
  rcases hx.ends hst with ⟨hs, ht⟩ | ⟨_, _, s', t', hs, ht, hfailure, hst'⟩ |
    ⟨a, b, s', t', hs, ht, hab, hst'⟩ <;> simp only [Run.bind, hs, ht]
  · exact .none
  · exact .some ⟨.error hfailure, hst'⟩
  · exact hf a b hab s' t' hst'

/-- Locations do not count. -/
theorem located (span span' : Span) {x y : Run α} (hx : Lockstep α R x y) :
    Lockstep α R (Run.located span x) (Run.located span' y) := by
  intro s t hst
  rcases hx.ends hst with ⟨hs, ht⟩ | ⟨_, _, s', t', hs, ht, hfailure, hst'⟩ |
    ⟨a, b, s', t', hs, ht, hab, hst'⟩ <;> simp only [Run.located, hs, ht]
  · exact .none
  · exact .some ⟨.error (by simpa using hfailure), hst'⟩
  · exact .some ⟨.ok hab, hst'⟩

theorem ofExcept {r r' : Except Fault α} (h : SameAnswers R r r') :
    Lockstep α R (Run.ofExcept r) (Run.ofExcept r') := by
  intro s t hst
  cases h with
  | error hfault => exact .some ⟨.error (Failure.bare_eq_of_fault hfault), hst⟩
  | ok hab => exact .some ⟨.ok hab, hst⟩

theorem query {question question' : Store → Except Fault α}
    (h : ∀ σ τ : Store, σ.bare = τ.bare → SameAnswers R (question σ) (question' τ)) :
    Lockstep α R (Run.query question) (Run.query question') := by
  intro s t hst
  have hanswers := h s.world.store t.world.store (congrArg (fun s : State => s.world.store) hst)
  simp only [Run.query]
  generalize question s.world.store = r at hanswers ⊢
  generalize question' t.world.store = r' at hanswers ⊢
  cases hanswers with
  | error hfault => exact .some ⟨.error (Failure.bare_eq_of_fault hfault), hst⟩
  | ok hab => exact .some ⟨.ok hab, hst⟩

/-- Changes of the store that are refused or made alike. -/
theorem update {change change' : Store → Except Fault Store}
    (h : ∀ σ τ : Store, σ.bare = τ.bare →
      SameAnswers (fun σ τ => σ.bare = τ.bare) (change σ) (change' τ)) :
    Lockstep Unit (fun _ _ => True) (Run.update change) (Run.update change') := by
  intro s t hst
  have hanswers := h s.world.store t.world.store (congrArg (fun s : State => s.world.store) hst)
  rw [Run.update_apply, Run.update_apply]
  generalize change s.world.store = r at hanswers ⊢
  generalize change' t.world.store = r' at hanswers ⊢
  cases hanswers with
  | error hfault => exact .some ⟨.error (Failure.bare_eq_of_fault hfault), hst⟩
  | ok hstores =>
      refine .some ⟨.ok trivial, ?_⟩
      simp only [State.bare, World.bare, State.mk.injEq, World.mk.injEq] at hst ⊢
      exact ⟨⟨hstores, hst.1.2⟩, hst.2⟩

/-- Calls that run their bodies side by side, with frames of one name. -/
theorem pushFrame_framed (limit : Option Nat) {frame frame' : Frame} (span span' : Span)
    {x y : Run α} (hframe : frame.bare = frame'.bare) (hx : Lockstep α R x y) :
    Lockstep α R (do Run.located span (Run.pushFrame limit frame); Run.framed x)
      (do Run.located span' (Run.pushFrame limit frame'); Run.framed y) := by
  intro s t hst
  obtain ⟨hworld, hstack⟩ : s.world.bare = t.world.bare ∧ s.stack.bare = t.stack.bare := by
    simpa only [State.bare, State.mk.injEq] using hst
  have hpush : (s.stack.push limit frame).map CallStack.bare =
      (t.stack.push limit frame').map CallStack.bare := by
    rw [← CallStack.push_bare, ← CallStack.push_bare, hstack, hframe]
  have hanswers := sameAnswers_of_map_eq CallStack.bare hpush
  rw [Run.pushFrame_framed_apply, Run.pushFrame_framed_apply]
  generalize s.stack.push limit frame = r at hanswers ⊢
  generalize t.stack.push limit frame' = r' at hanswers ⊢
  cases hanswers with
  | error hfault => exact .some ⟨.error (Failure.bare_eq_of_fault hfault), hst⟩
  | @ok pushed pushed' hpushed =>
      have hcalled : State.bare ⟨s.world, pushed⟩ = State.bare ⟨t.world, pushed'⟩ := by
        simp only [State.bare, hworld, hpushed]
      have hpopped : ∀ {s' t' : State}, s'.bare = t'.bare →
          State.bare ⟨s'.world, s'.stack.pop⟩ = State.bare ⟨t'.world, t'.stack.pop⟩ := by
        intro s' t' hst'
        simp only [State.bare, State.mk.injEq] at hst' ⊢
        rw [CallStack.pop_bare, CallStack.pop_bare, hst'.2]
        exact ⟨hst'.1, rfl⟩
      rcases hx.ends hcalled with ⟨hs, ht⟩ | ⟨_, _, s', t', hs, ht, hfailure, hst'⟩ |
        ⟨a, b, s', t', hs, ht, hab, hst'⟩ <;> simp only [Run.framed_apply, hs, ht]
      · exact .none
      · refine .some ⟨.error ?_, hpopped hst'⟩
        have hstack' : s'.stack.bare = t'.stack.bare := congrArg State.stack hst'
        rw [CallStack.attachBacktrace_bare, CallStack.attachBacktrace_bare, hstack', hfailure]
      · exact .some ⟨.ok hab, hpopped hst'⟩

end Lockstep

end Run

/-! ### Functions of the host -/

/-- The function does not look into closures: given the same up to spans, it does the same up to
spans. -/
def HostFunction.Blind (function : HostFunction) : Prop :=
  ∀ (values values' : List Value) (scope : ScopeId) (world world' : World),
    values.map Value.bare = values'.map Value.bare → world.bare = world'.bare →
      SameFates (fun v v' => v.bare = v'.bare) (function values scope world).1
          (function values' scope world').1 ∧
        (function values scope world).2.bare = (function values' scope world').2.bare

/-- No function of the host looks into closures. -/
def Host.Blind (host : Host) : Prop := ∀ function ∈ host.functions, function.Blind

theorem HostFunction.print_blind (sink : Sink) : (print sink).Blind := by
  intro values values' scope world world' hvalues hworld
  have hline : Value.printLine values = Value.printLine values' := by
    rw [← Value.printLine_bare, hvalues, Value.printLine_bare]
  refine ⟨.ok rfl, ?_⟩
  simp only [World.bare, World.mk.injEq] at hworld
  simp only [print, World.bare, hline, hworld]

theorem HostFunction.time_blind : time.Blind := by
  intro values values' scope world world' _ hworld
  simp only [World.bare, World.mk.injEq] at hworld
  obtain ⟨hstore, houtput, hclock⟩ := hworld
  exact ⟨.ok (by rw [hclock]), by simp only [time, World.bare, hstore, houtput, hclock]⟩

theorem Host.Blind.act {host : Host} (h : host.Blind) (native : Native)
    {values values' : List Value} (hvalues : values.map Value.bare = values'.map Value.bare)
    (scope : ScopeId) :
    Run.Lockstep Value (fun v v' => v.bare = v'.bare) (Run.act (host.call native values scope))
      (Run.act (host.call native values' scope)) := by
  intro s t hst
  obtain ⟨hworld, hstack⟩ : s.world.bare = t.world.bare ∧ s.stack.bare = t.stack.bare := by
    simpa only [State.bare, State.mk.injEq] using hst
  simp only [Run.act, Host.call]
  cases hfunction : host.functions[native.id]? with
  | none => exact .some ⟨.ok rfl, hst⟩
  | some function =>
      obtain ⟨hfates, hworld'⟩ :=
        h function (Array.mem_of_getElem? hfunction) values values' scope _ _ hvalues hworld
      exact .some ⟨hfates, by simp only [State.bare, hworld', hstack]⟩

/-! ### Evaluations side by side -/

/-- Declarations are in lockstep if their values differ by spans only. -/
theorem declareIn_lockstep (scope : ScopeId) (name : String) {v v' : Value} (hv : v.bare = v'.bare)
    (mutability : Mutability) :
    Run.Lockstep Value (fun v v' => v.bare = v'.bare) (declareIn scope name v mutability)
      (declareIn scope name v' mutability) := by
  refine .bind (.update fun σ τ hστ => sameAnswers_of_map_eq Store.bare ?_) fun _ _ _ => .pure hv
  rw [← Store.declare_bare, ← Store.declare_bare, hστ, hv]

/-- So are assignments. -/
theorem assignIn_lockstep (scope : ScopeId) (name : String) {v v' : Value} (hv : v.bare = v'.bare) :
    Run.Lockstep Value (fun v v' => v.bare = v'.bare) (assignIn scope name v)
      (assignIn scope name v') := by
  refine .bind (.update fun σ τ hστ => sameAnswers_of_map_eq Store.bare ?_) fun _ _ _ => .pure hv
  rw [← Store.assign_bare, ← Store.assign_bare, hστ, hv]

theorem lookup_lockstep (scope : ScopeId) (name : String) :
    Run.Lockstep Value (fun v v' => v.bare = v'.bare)
      (Run.query fun store => store.lookup scope name)
      (Run.query fun store => store.lookup scope name) := by
  refine .query fun σ τ hστ => sameAnswers_of_map_eq Value.bare ?_
  rw [← Store.lookup_bare, ← Store.lookup_bare, hστ]

/-- Two callers that call closures which are the same up to spans side by side. -/
def Caller.Lockstep (call call' : Caller) : Prop :=
  ∀ (closure closure' : Closure) (values values' : List Value) (span span' : Span),
    closure.bare = closure'.bare → values.map Value.bare = values'.map Value.bare →
      Run.Lockstep Value (fun v v' => v.bare = v'.bare) (call closure values span)
        (call' closure' values' span')

section

variable {config : Config} {scope : ScopeId}

/-- Calls are in lockstep if those of closures are. -/
theorem applyValue_lockstep (hhost : config.host.Blind) {call call' : Caller}
    (hcall : call.Lockstep call') {f f' : Value} (hf : f.bare = f'.bare)
    {values values' : List Value} (hvalues : values.map Value.bare = values'.map Value.bare)
    (span span' : Span) :
    Run.Lockstep Value (fun v v' => v.bare = v'.bare)
      (applyValue config call scope f values span)
      (applyValue config call' scope f' values' span') := by
  have hname : f.typeName = f'.typeName := by
    rw [← Value.typeName_bare, hf, Value.typeName_bare]
  have hfault : Run.Lockstep Value (fun v v' => v.bare = v'.bare)
      (Run.ofExcept (.error (.notCallable f.typeName)))
      (Run.ofExcept (.error (.notCallable f'.typeName))) :=
    .ofExcept (.error (by rw [hname]))
  cases f <;> cases f' <;> simp only [Value.bare, reduceCtorEq] at hf
  case native.native =>
    cases hf
    exact hhost.act _ hvalues scope
  case function.function => exact hcall _ _ _ _ span span' (Value.function.inj hf) hvalues
  all_goals exact hfault

/-- Nodes that are the same up to spans are evaluated side by side, if closures are called so. -/
theorem lockstep_corresponds (hhost : config.host.Blind) {call call' : Caller}
    (hcall : call.Lockstep call') :
    Corresponds (W := Unit) (fun _ _ => True) config config call call' scope scope
      (fun n m => n.bare = m.bare) (fun _ v v' => v.bare = v'.bare)
      (fun α _ R => Run.Lockstep α (R ())) where
  alike := .of_bare
  mono _ hv := hv
  pure hab := .pure hab
  bind hx hf := hx.bind fun a b hab => hf () a b trivial hab
  located _ _ _ hx := hx.located _ _
  null _ := rfl
  number _ _ := rfl
  string _ _ := rfl
  object := by
    intro w entries entries' h
    have hentries : Value.bareProperties entries = Value.bareProperties entries' := by
      induction h with
      | nil => rfl
      | @cons entry entry' _ _ hentry _ ih =>
          obtain ⟨hkey, hvalue⟩ := hentry
          rw [Value.bareProperties, Value.bareProperties, ih, hkey, hvalue]
    rw [Value.ofEntries_bare, Value.ofEntries_bare, hentries]
  identifier _ _ := lookup_lockstep scope _
  short _ _ _ := lookup_lockstep scope _
  declaration _ hv := declareIn_lockstep scope _ hv _
  function := by
    intro name parameters body body' s s' w hn
    refine declareIn_lockstep scope name ?_ _
    simp only [Node.bare, Node.function.injEq, Node.bareAll_eq_map, and_true, true_and] at hn
    simp only [Value.bare, Closure.bare, hn]
  target := by
    intro target target' n n' s s' w hn
    have htarget : target'.assignable = target.assignable := by
      simp only [Node.bare, Node.assignment.injEq] at hn
      rw [← Node.assignable_bare, ← hn.1, Node.assignable_bare]
    rw [htarget]
    refine .located _ _ (.ofExcept ?_)
    cases target.assignable with
    | error fault => exact .error rfl
    | ok name => exact .ok ⟨rfl, rfl⟩
  assignment := by
    intro target target' n n' s s' name name' w v v' hn htarget htarget' hv
    have hname : name = name' := by
      simp only [Node.bare, Node.assignment.injEq] at hn
      rw [← Node.assignable_bare, hn.1, Node.assignable_bare, htarget'] at htarget
      exact (Except.ok.inj htarget).symm
    subst hname
    exact assignIn_lockstep scope name hv
  binary hl hr := .ofExcept (sameAnswers_of_map_eq Value.bare
    (by rw [← BinaryOp.apply_bare, ← BinaryOp.apply_bare, hl, hr]))
  comparison hl hr := .ofExcept (sameAnswers_of_map_eq Value.bare
    (by rw [← ComparisonOp.apply_bare, ← ComparisonOp.apply_bare, hl, hr]))
  member hv := .ofExcept (sameAnswers_of_map_eq Value.bare
    (by rw [← Value.member_bare, ← Value.member_bare, hv]))
  condition := by
    intro w v v' hv
    have hcondition : v.condition = v'.condition := by
      rw [← Value.condition_bare, hv, Value.condition_bare]
    rw [hcondition]
    refine .ofExcept ?_
    cases v'.condition with
    | error fault => exact .error rfl
    | ok taken => exact .ok rfl
  apply := by
    intro n n' ns ns' s s' w f f' as as' hn hf has
    refine applyValue_lockstep hhost hcall hf ?_ s s'
    rw [← List.forall₂_eq_eq_eq]
    simpa using has
  property := by
    intro entry entry' s s' w hn
    rw [evalNode, evalNode]
    exact .located _ _ (.ofExcept (.error (by simp only [Fault.bare])))

theorem newScope_lockstep (parent : Option ScopeId) :
    Run.Lockstep ScopeId Eq (Run.newScope parent) (Run.newScope parent) := by
  intro s t hst
  simp only [State.bare, World.bare, State.mk.injEq, World.mk.injEq] at hst
  obtain ⟨⟨hstore, houtput, hclock⟩, hstack⟩ := hst
  have hnew := Store.newScope_bare s.world.store parent
  rw [hstore, Store.newScope_bare, Prod.mk.injEq] at hnew
  refine .some ⟨.ok hnew.1.symm, ?_⟩
  show State.mk ⟨(s.world.store.newScope parent).2.bare, s.world.output, s.world.clock⟩
      s.stack.bare =
    State.mk ⟨(t.world.store.newScope parent).2.bare, t.world.output, t.world.clock⟩ t.stack.bare
  rw [hnew.2, houtput, hclock, hstack]

/-- Parameters are bound in lockstep to values that differ by spans only. -/
theorem bindParameters_lockstep :
    ∀ (names : List String) {values values' : List Value},
      values.map Value.bare = values'.map Value.bare →
        Run.Lockstep Unit (fun _ _ => True) (bindParameters scope names values)
          (bindParameters scope names values')
  | [], _, _, _ => .pure trivial
  | name :: names, [], [], h =>
      (declareIn_lockstep scope name rfl _).bind fun _ _ _ => bindParameters_lockstep names h
  | name :: names, _ :: _, _ :: _, h =>
      (declareIn_lockstep scope name (List.cons.inj h).1 _).bind fun _ _ _ =>
        bindParameters_lockstep names (List.cons.inj h).2

end

/-- **Calls go side by side**, whatever the budget. -/
theorem callClosure_lockstep {config : Config} (hhost : config.host.Blind) (budget : Nat) :
    Caller.Lockstep (callClosure config budget) (callClosure config budget) := by
  induction budget with
  | zero => exact fun _ _ _ _ _ _ _ _ => .exhausted
  | succ budget ih =>
      rintro ⟨name, parameters, body, bodyId, scope⟩ ⟨name', parameters', body', bodyId', scope'⟩
        values values' span span' hclosure hvalues
      simp only [Closure.bare, Closure.mk.injEq] at hclosure
      obtain ⟨rfl, rfl, hbody, -, rfl⟩ := hclosure
      have hlength : values.length = values'.length := by simpa using congrArg List.length hvalues
      simp only [callClosure, enterClosure, hlength, Run.spread_eq]
      split
      · exact .ofExcept (.error rfl)
      · refine (newScope_lockstep (some scope)).bind ?_
        rintro inner _ rfl
        refine (bindParameters_lockstep parameters hvalues).bind fun _ _ _ => ?_
        refine .pushFrame_framed _ _ _ rfl ?_
        exact (lockstep_corresponds hhost ih).evalBlock _ _ () _ _ (forall₂_of_map_eq hbody) rfl

/-- **Spans make no difference.**  Trees that are the same up to spans, evaluated in one scope from
states that are the same up to spans, both run out of budget; or both yield values that are the same
up to spans; or both fail, with one message, one fault, dumps aside, and under calls of the same
names.  Their output and their clock are the same, and their scopes are the same up to spans. -/
theorem spans_indifferent (config : Config) (hhost : config.host.Blind) (budget : Nat)
    (scope : ScopeId) (n m : Node) (hnodes : n.bare = m.bare) (s t : State)
    (hstates : s.bare = t.bare) :
    (evaluateWithin config budget scope n s = none ∧
      evaluateWithin config budget scope m t = none) ∨
    ∃ r s' r' t', evaluateWithin config budget scope n s = some (r, s') ∧
      evaluateWithin config budget scope m t = some (r', t') ∧
      s'.world.output = t'.world.output ∧ s'.world.clock = t'.world.clock ∧
      s'.world.store.bare = t'.world.store.bare ∧
      ((∃ v v', r = .ok v ∧ r' = .ok v' ∧ v.bare = v'.bare) ∨
        ∃ failure failure', r = .error failure ∧ r' = .error failure' ∧
          failure.message = failure'.message ∧
          failure.fault.bare = failure'.fault.bare ∧
          failure.backtrace.map (·.map (·.name)) = failure'.backtrace.map (·.map (·.name))) := by
  have hlockstep : Run.Lockstep Value (fun v v' => v.bare = v'.bare)
      (evaluateWithin config budget scope n) (evaluateWithin config budget scope m) :=
    (lockstep_corresponds hhost (callClosure_lockstep hhost budget)).evalNode n m () hnodes
  have hworld {s' t' : State} (h : s'.bare = t'.bare) :
      s'.world.output = t'.world.output ∧ s'.world.clock = t'.world.clock ∧
        s'.world.store.bare = t'.world.store.bare := by
    simp only [State.bare, World.bare, State.mk.injEq, World.mk.injEq] at h
    obtain ⟨⟨hstore, houtput, hclock⟩, -⟩ := h
    exact ⟨houtput, hclock, hstore⟩
  rcases hlockstep.ends hstates with hnone | ⟨failure, failure', s', t', hs, ht, hfailure, hst'⟩ |
    ⟨v, v', s', t', hs, ht, hv, hst'⟩
  · exact .inl hnone
  · obtain ⟨houtput, hclock, hstore⟩ := hworld hst'
    refine .inr ⟨_, s', _, t', hs, ht, houtput, hclock, hstore, .inr ⟨failure, failure', rfl, rfl,
      ?_⟩⟩
    exact ⟨Failure.message_eq_of_bare hfailure, congrArg Failure.fault hfailure,
      Failure.names_eq_of_bare hfailure⟩
  · obtain ⟨houtput, hclock, hstore⟩ := hworld hst'
    exact .inr ⟨_, s', _, t', hs, ht, houtput, hclock, hstore, .inl ⟨v, v', rfl, rfl, hv⟩⟩

theorem globalSession_blind (policy : Policy) : (globalSession policy).host.Blind := by
  intro function h
  rcases globalSession_functions h with rfl | rfl
  · exact HostFunction.print_blind .buffer
  · exact HostFunction.time_blind

/-- A global scope that binds `f` to `fn f() { print(f)  missing }`, where the missing variable has
the given span. -/
def holdsPrinter (span : Span) : State :=
  let print : Node := .call (.identifier "print" .dummy) [.identifier "f" .dummy] span
  let closure : Closure := ⟨"f", [], [print, .identifier "missing" span], ⟨0, "f"⟩, 0⟩
  let bindings := Session.globalBindings ⟨"print", 0⟩ ⟨"time", 1⟩
  ⟨⟨⟨#[⟨bindings ++ [⟨"f", .function closure, .constant⟩], none⟩]⟩, .empty, .still 0⟩, .empty⟩

/-- `f()`. -/
def callOf (span : Span) : Node := .call (.identifier "f" .dummy) [] span

/-- Calling a stored function fails alike with and without locations. -/
theorem spans_indifferent_call :
    (globalSession .default).host.Blind ∧ (callOf ⟨29, 32⟩).bare = (callOf .dummy).bare ∧
    (holdsPrinter ⟨19, 26⟩).bare = (holdsPrinter .dummy).bare ∧
    ∃ failure s' failure' t',
      evaluateWithin ⟨.default, (globalSession .default).host⟩ 1 0 (callOf ⟨29, 32⟩)
        (holdsPrinter ⟨19, 26⟩) = some (.error failure, s') ∧
      evaluateWithin ⟨.default, (globalSession .default).host⟩ 1 0 (callOf .dummy)
        (holdsPrinter .dummy) = some (.error failure', t') ∧
      failure.span = some ⟨19, 26⟩ ∧ failure'.span = none ∧
      failure.message = failure'.message ∧ failure.fault.bare = failure'.fault.bare ∧
      failure.backtrace.map (·.map (·.name)) = failure'.backtrace.map (·.map (·.name)) ∧
      s'.world.output = t'.world.output ∧ s'.world.store.bare = t'.world.store.bare := by
  have hhost := globalSession_blind .default
  have hnodes : (callOf ⟨29, 32⟩).bare = (callOf .dummy).bare := rfl
  have hstates : (holdsPrinter ⟨19, 26⟩).bare = (holdsPrinter .dummy).bare := by
    simp [holdsPrinter, State.bare, World.bare, Store.bare, Scope.bare, Binding.bare, Value.bare,
      Closure.bare, Node.bare]
  have hrun : Run.failure? (evaluateWithin ⟨.default, (globalSession .default).host⟩ 1 0
      (callOf ⟨29, 32⟩) (holdsPrinter ⟨19, 26⟩)) = some
        { fault := .undefinedVariable "missing"
          span := some ⟨19, 26⟩
          backtrace := some [⟨"f", some ⟨29, 32⟩⟩] } := by
    decide +kernel
  have hrun' : Run.failure? (evaluateWithin ⟨.default, (globalSession .default).host⟩ 1 0
      (callOf .dummy) (holdsPrinter .dummy)) =
        some { fault := .undefinedVariable "missing", backtrace := some [⟨"f", none⟩] } := by
    decide +kernel
  obtain ⟨s₁, hrun⟩ := Run.failure?_eq_some.mp hrun
  obtain ⟨t₁, hrun'⟩ := Run.failure?_eq_some.mp hrun'
  rcases spans_indifferent ⟨.default, (globalSession .default).host⟩ hhost 1 0 _ _ hnodes _ _
    hstates with ⟨h, -⟩ | ⟨r, s', r', t', h, h', houtput, -, hstore, hends⟩
  · cases h.symm.trans hrun
  · cases h.symm.trans hrun
    cases h'.symm.trans hrun'
    obtain ⟨_, _, ⟨⟩, -⟩ | ⟨_, _, ⟨⟩, ⟨⟩, hmessage, hfault, hnames⟩ := hends
    exact ⟨hhost, hnodes, hstates, _, s₁, _, t₁, hrun, hrun', rfl, rfl, hmessage, hfault, hnames,
      houtput, hstore⟩

end TreeScript
