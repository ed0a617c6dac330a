import TreeScript.Proofs.Invariance

/-!
# Proofs — the failures of an evaluation

Every failure that an evaluation ends with was raised by one of a few operations, and all that it
gains on its way out is a location and a backtrace.  So a statement about failures that neither of
them affects (`Failure.Passes`) holds of every failing evaluation if it holds of what each of these
operations raises (`Config.Raises`, `Config.Raises.evaluateWithin`).

As an instance, a full stack is reported with the limit of the policy (`evaluateWithin_overflow`).
-/

namespace TreeScript

/-! ### Failures on their way out -/

/-- The statement `Q` still holds of a failure that has gained a location or a backtrace. -/
structure Failure.Passes (Q : Failure → Prop) : Prop where
  orSpan (span : Span) {failure : Failure} : Q failure → Q (failure.orSpan span)
  withBacktrace (backtrace : Backtrace) {failure : Failure} :
    Q failure → Q (failure.withBacktrace backtrace)

/-- A statement about why and in which words an evaluation failed. -/
theorem Failure.Passes.of_words (Q : Fault → String → Prop) :
    Passes fun failure => Q failure.fault failure.message where
  orSpan _ := id
  withBacktrace _ := id

/-- The live calls are a backtrace like any other. -/
theorem Failure.Passes.attachBacktrace {Q : Failure → Prop} (hQ : Passes Q) (stack : CallStack)
    {failure : Failure} (h : Q failure) : Q (stack.attachBacktrace failure) := by
  unfold CallStack.attachBacktrace
  split
  · exact h
  · exact hQ.withBacktrace _ h

/-! ### Computations that fail in certain ways -/

/-- If `x` fails, its failure satisfies `Q`, and if it yields a value, that satisfies `P`. -/
def Run.FailsWith (Q : Failure → Prop) (α : Type) (P : α → Prop) (x : Run α) : Prop :=
  ∀ s r s', x s = some (r, s') →
    (∀ failure, r = .error failure → Q failure) ∧ ∀ a, r = .ok a → P a

namespace Run.FailsWith

variable {Q : Failure → Prop} {α : Type} {P : α → Prop}

/-- Sequences fail as their parts do. -/
theorem sequences (hQ : Failure.Passes Q) : Sequences (FailsWith Q) where
  pure := by
    rintro α P a ha s r s' ⟨⟩
    exact ⟨by rintro _ ⟨⟩, by rintro _ ⟨⟩; exact ha⟩
  bind := by
    intro α β P P' x f hx hf s r s' h
    rcases Run.bind_eq_some.mp h with ⟨failure, h₁, rfl⟩ | ⟨a, s₁, h₁, h₂⟩
    · exact ⟨by rintro _ ⟨⟩; exact (hx _ _ _ h₁).1 failure rfl, by rintro _ ⟨⟩⟩
    · exact hf a ((hx _ _ _ h₁).2 a rfl) _ _ _ h₂
  located := by
    intro α P span x hx s r s' h
    rcases Run.located_eq_some.mp h with ⟨failure, h₁, rfl⟩ | ⟨a, h₁, rfl⟩
    · exact ⟨by rintro _ ⟨⟩; exact hQ.orSpan span ((hx _ _ _ h₁).1 failure rfl), by rintro _ ⟨⟩⟩
    · exact hx _ _ _ h₁

/-- A result fails with its fault, in the words of that fault. -/
theorem ofExcept {result : Except Fault α}
    (hQ : ∀ fault, result = .error fault → Q { fault := fault })
    (hP : ∀ a, result = .ok a → P a) : FailsWith Q α P (Run.ofExcept result) := by
  intro s r s' h
  cases result with
  | error fault => cases h; exact ⟨by rintro _ ⟨⟩; exact hQ fault rfl, by rintro _ ⟨⟩⟩
  | ok a => cases h; exact ⟨by rintro _ ⟨⟩, by rintro _ ⟨⟩; exact hP a rfl⟩

/-- A question fails with the fault that the store answers. -/
theorem query {question : Store → Except Fault α}
    (hQ : ∀ store fault, question store = .error fault → Q { fault := fault }) :
    FailsWith Q α (fun _ => True) (Run.query question) := by
  intro s r s' h
  simp only [Run.query] at h
  split at h <;> cases h
  · exact ⟨by rintro _ ⟨⟩, fun _ _ => trivial⟩
  · exact ⟨by rintro _ ⟨⟩; exact hQ _ _ ‹_›, fun _ _ => trivial⟩

/-- A change fails with the fault that the store refuses it for. -/
theorem update {change : Store → Except Fault Store}
    (hQ : ∀ store fault, change store = .error fault → Q { fault := fault }) :
    FailsWith Q Unit (fun _ => True) (Run.update change) := by
  intro s r s' h
  rw [Run.update_apply] at h
  split at h <;> cases h
  · exact ⟨by rintro _ ⟨⟩, fun _ _ => trivial⟩
  · exact ⟨by rintro _ ⟨⟩; exact hQ _ _ ‹_›, fun _ _ => trivial⟩

/-- A call fails because its frame is refused, or as its body does. -/
theorem pushFrame_framed {limit : Option Nat} {frame : Frame} {span : Span} {body : Run Value}
    (hpass : Failure.Passes Q)
    (hQ : ∀ (stack : CallStack) fault, stack.push limit frame = .error fault →
      Q { fault := fault })
    (hbody : FailsWith Q Value (fun _ => True) body) :
    FailsWith Q Value (fun _ => True)
      (do Run.located span (Run.pushFrame limit frame); Run.framed body) := by
  intro s r s' h
  refine ⟨?_, fun _ _ => trivial⟩
  rw [Run.pushFrame_framed_apply] at h
  cases hp : s.stack.push limit frame with
  | error fault =>
      simp only [hp] at h
      cases h
      rintro _ ⟨⟩
      exact hpass.orSpan span (hQ s.stack fault hp)
  | ok pushed =>
      simp only [hp, Run.framed_apply, Option.map_eq_some_iff] at h
      obtain ⟨⟨r₁, s₁⟩, h₁, h₂⟩ := h
      cases h₂
      cases r₁ with
      | ok a => rintro _ ⟨⟩
      | error failure =>
          rintro _ ⟨⟩
          exact hpass.attachBacktrace _ ((hbody _ _ _ h₁).1 failure rfl)

end Run.FailsWith

/-! ### Faults of the store -/

namespace Store

variable {store : Store} {id : ScopeId} {name : String} {value : Value} {fault : Fault}

/-- A lookup fails only for want of a binding. -/
theorem lookup_eq_error (h : store.lookup id name = .error fault) :
    fault = .undefinedVariable name := by
  simp only [lookup] at h
  split at h <;> cases h
  rfl

/-- A declaration is refused only where the name is taken. -/
theorem declare_eq_error {mutability : Mutability}
    (h : store.declare id name value mutability = .error fault) :
    fault = .duplicateDeclaration name := by
  simp only [declare] at h
  split at h <;> cases h
  rfl

/-- An assignment is refused for a constant, or for want of a binding. -/
theorem assign_eq_error (h : store.assign id name value = .error fault) :
    fault = .constantAssignment name ∨ fault = .undefinedVariable name := by
  simp only [assign] at h
  split at h
  · split at h <;> cases h
    exact .inl rfl
  · cases h
    exact .inr rfl

end Store

/-! ### Failures of evaluations -/

/-- Every failure that an operation raises under `config` satisfies `Q`, and passes it on. -/
structure Config.Raises (config : Config) (Q : Failure → Prop) : Prop extends Failure.Passes Q where
  undefined (name : String) : Q { fault := .undefinedVariable name }
  duplicate (name : String) : Q { fault := .duplicateDeclaration name }
  constant (name : String) : Q { fault := .constantAssignment name }
  target {node : Node} {fault : Fault} : node.assignable = .error fault → Q { fault := fault }
  binary {op : BinaryOp} {l r : Value} {fault : Fault} :
    op.apply config.policy l r = .error fault → Q { fault := fault }
  comparison {op : ComparisonOp} {l r : Value} {fault : Fault} :
    op.apply l r = .error fault → Q { fault := fault }
  member {subject : Value} {key : String} {fault : Fault} :
    subject.member key = .error fault → Q { fault := fault }
  condition {value : Value} {fault : Fault} : value.condition = .error fault → Q { fault := fault }
  property (entry : Entry Node) (span : Span) :
    Q { fault := .unimplementedNode Node.Kind.property.name (Node.property entry span).dump }
  callee {value : Value} : (∀ native, value ≠ .native native) →
    (∀ closure, value ≠ .function closure) → Q { fault := .notCallable value.typeName }
  arity {closure : Closure} {values : List Value} : config.policy.arity = .strict →
    closure.parameters.length ≠ values.length →
      Q { fault := .arityMismatch closure.name closure.parameters.length values.length }
  push {stack : CallStack} {frame : Frame} {fault : Fault} :
    stack.push config.policy.maxCallDepth frame = .error fault → Q { fault := fault }
  native {native : Native} {values : List Value} {scope : ScopeId} {world : World}
    {failure : Failure} :
    (config.host.call native values scope world).1 = .error failure → Q failure

namespace Config.Raises

variable {config : Config} {Q : Failure → Prop} {scope : ScopeId} {call : Caller}

theorem sequences (h : config.Raises Q) : Sequences (Run.FailsWith Q) :=
  Run.FailsWith.sequences h.toPasses

/-- A declaration fails in one way. -/
theorem declareIn (h : config.Raises Q) (name : String) (value : Value) (mutability : Mutability) :
    Run.FailsWith Q Value (fun _ => True) (TreeScript.declareIn scope name value mutability) := by
  refine h.sequences.bind (.update fun store fault he => ?_) fun _ _ => h.sequences.pure trivial
  rw [Store.declare_eq_error he]
  exact h.duplicate name

/-- An assignment to a name fails in one of two ways. -/
theorem assignIn (h : config.Raises Q) (name : String) (value : Value) :
    Run.FailsWith Q Value (fun _ => True) (TreeScript.assignIn scope name value) := by
  refine h.sequences.bind (.update fun store fault he => ?_) fun _ _ => h.sequences.pure trivial
  rcases Store.assign_eq_error he with rfl | rfl
  · exact h.constant name
  · exact h.undefined name

/-- A call fails as the native or the closure does, or because there is nothing to call. -/
theorem applyValue (h : config.Raises Q)
    (hcall : ∀ closure values span,
      Run.FailsWith Q Value (fun _ => True) (call closure values span))
    (f : Value) (values : List Value) (span : Span) :
    Run.FailsWith Q Value (fun _ => True)
      (TreeScript.applyValue config call scope f values span) := by
  simp only [TreeScript.applyValue]
  split
  · rintro s r s' ⟨⟩
    exact ⟨fun failure => h.native, fun _ _ => trivial⟩
  · exact hcall _ _ _
  · rename_i hnative hfunction
    refine .ofExcept ?_ fun _ _ => trivial
    rintro _ ⟨⟩
    exact h.callee hnative hfunction

/-- All nodes inherit the statement about their failures. -/
theorem inherits (h : config.Raises Q)
    (hcall : ∀ closure values span,
      Run.FailsWith Q Value (fun _ => True) (call closure values span)) :
    Inherits config call scope (fun _ => True) (Run.FailsWith Q) where
  toSequences := h.sequences
  parts _ := .refl (fun _ => ⟨rfl, trivial⟩) _
  lookup name := .query fun store fault he => by
    rw [Store.lookup_eq_error he]
    exact h.undefined name
  declaration v _ := h.declareIn _ v _
  function _ := h.declareIn _ _ _
  target _ := .ofExcept (fun _ => h.target) fun _ hname => hname
  assignment v _ _ := h.assignIn _ v
  binary _ _ _ := .ofExcept (fun _ => h.binary) fun _ _ => trivial
  comparison _ _ _ := .ofExcept (fun _ => h.comparison) fun _ _ => trivial
  member _ _ := .ofExcept (fun _ => h.member) fun _ _ => trivial
  condition _ := .ofExcept (fun _ => h.condition) fun _ _ => trivial
  apply f values _ := h.applyValue hcall f values _
  property entry span :=
    .ofExcept (by rintro _ ⟨⟩; exact h.property entry span) fun _ _ => trivial

/-- Parameters are declared, so binding them fails as declarations do. -/
theorem bindParameters (h : config.Raises Q) :
    ∀ (names : List String) (values : List Value),
      Run.FailsWith Q Unit (fun _ => True) (TreeScript.bindParameters scope names values)
  | [], _ => h.sequences.pure trivial
  | name :: names, [] =>
      h.sequences.bind (h.declareIn name .null .mutable) fun _ _ => bindParameters h names []
  | name :: names, value :: values =>
      h.sequences.bind (h.declareIn name value .mutable) fun _ _ => bindParameters h names values

/-- **The failures of a call**, whatever its budget, satisfy `Q`. -/
theorem callClosure (h : config.Raises Q) (budget : Nat) :
    ∀ closure values span, Run.FailsWith Q Value (fun _ => True)
      (TreeScript.callClosure config budget closure values span) := by
  induction budget with
  | zero => rintro closure values span s r s' ⟨⟩
  | succ budget ih =>
      intro closure values span
      simp only [TreeScript.callClosure, enterClosure]
      split
      · rename_i harity
        refine .ofExcept ?_ fun _ _ => trivial
        rintro _ ⟨⟩
        exact h.arity harity.1 harity.2
      · have hnew : Run.FailsWith Q ScopeId (fun _ => True)
            (Run.newScope (some closure.scope)) := by
          rintro s r s' ⟨⟩
          exact ⟨by rintro _ ⟨⟩, fun _ _ => trivial⟩
        refine h.sequences.bind hnew fun scope _ => ?_
        refine h.sequences.bind (h.bindParameters closure.parameters values) fun _ _ => ?_
        rw [Run.spread_eq]
        exact .pushFrame_framed h.toPasses (fun _ _ => h.push)
          ((h.inherits ih).evalBlock _ fun _ _ => trivial)

/-- **The failure of a failing evaluation**, whatever its budget, satisfies `Q`. -/
theorem evaluateWithin (h : config.Raises Q) {budget : Nat} {node : Node} {s s' : State}
    {failure : Failure}
    (hrun : TreeScript.evaluateWithin config budget scope node s = some (.error failure, s')) :
    Q failure :=
  ((h.inherits (h.callClosure budget)).evalNode trivial s _ s' hrun).1 failure rfl

end Config.Raises

/-! ### Full stacks -/

/-- The function never reports a full stack. -/
def HostFunction.Shallow (function : HostFunction) : Prop :=
  ∀ (values : List Value) (scope : ScopeId) (world : World) (failure : Failure) (depth : Nat),
    (function values scope world).1 = .error failure → failure.fault ≠ .stackOverflow depth

/-- No function of the host reports a full stack. -/
def Host.Shallow (host : Host) : Prop := ∀ function ∈ host.functions, function.Shallow

/-- Arithmetic leaves the stack alone. -/
theorem BinaryOp.apply_ne_overflow {op : BinaryOp} {policy : Policy} {l r : Value} {depth : Nat} :
    op.apply policy l r ≠ .error (.stackOverflow depth) := by
  intro h
  simp only [BinaryOp.apply] at h
  split at h
  · cases op <;> simp only [BinaryOp.onNumbers] at h <;> (try split at h) <;> cases h
  · cases op <;> cases h
  · split at h <;> cases h

/-- So does a comparison. -/
theorem ComparisonOp.apply_ne_overflow {op : ComparisonOp} {l r : Value} {depth : Nat} :
    op.apply l r ≠ .error (.stackOverflow depth) := by
  intro h
  simp only [ComparisonOp.apply, Value.compare] at h
  split at h <;> (try split at h) <;> cases h

/-- So does access to a property. -/
theorem Value.member_ne_overflow {subject : Value} {key : String} {depth : Nat} :
    subject.member key ≠ .error (.stackOverflow depth) := by
  intro h
  simp only [Value.member] at h
  split at h <;> (try split at h) <;> cases h

/-- A push that is refused names the limit, which has been reached. -/
theorem CallStack.push_eq_error {stack : CallStack} {limit : Nat} {frame : Frame} {fault : Fault}
    (h : stack.push (some limit) frame = .error fault) :
    fault = .stackOverflow limit ∧ limit ≤ stack.depth := by
  simp only [CallStack.push] at h
  split at h <;> cases h
  exact ⟨rfl, ‹_›⟩

/-- A native that fails is a function of the host that fails. -/
theorem Host.call_eq_error {host : Host} {native : Native} {values : List Value} {scope : ScopeId}
    {world : World} {failure : Failure}
    (h : (host.call native values scope world).1 = .error failure) :
    ∃ function ∈ host.functions, (function values scope world).1 = .error failure := by
  simp only [Host.call] at h
  split at h
  · exact ⟨_, Array.mem_of_getElem? ‹_›, h⟩
  · cases h

/-- Only a push reports a full stack, and it names the limit. -/
theorem Config.raises_overflow {config : Config} {limit : Nat}
    (hlimit : config.policy.maxCallDepth = some limit) (hhost : config.host.Shallow) :
    config.Raises fun failure => ∀ depth, failure.fault = .stackOverflow depth → depth = limit where
  toPasses := .of_words fun fault _ => ∀ depth, fault = .stackOverflow depth → depth = limit
  undefined _ := by rintro _ ⟨⟩
  duplicate _ := by rintro _ ⟨⟩
  constant _ := by rintro _ ⟨⟩
  target := by
    rintro node fault h depth rfl
    cases node <;> cases h
  binary := by
    rintro op l r fault h depth rfl
    exact absurd h BinaryOp.apply_ne_overflow
  comparison := by
    rintro op l r fault h depth rfl
    exact absurd h ComparisonOp.apply_ne_overflow
  member := by
    rintro subject key fault h depth rfl
    exact absurd h Value.member_ne_overflow
  condition := by
    rintro value fault h depth rfl
    cases value <;> cases h
  property _ _ := by rintro _ ⟨⟩
  callee _ _ := by rintro _ ⟨⟩
  arity _ _ := by rintro _ ⟨⟩
  push := by
    rintro stack frame fault h depth rfl
    rw [hlimit] at h
    obtain ⟨⟨⟩, -⟩ := CallStack.push_eq_error h
    rfl
  native h depth hdepth := by
    obtain ⟨function, hmem, h⟩ := Host.call_eq_error h
    exact absurd hdepth (hhost function hmem _ _ _ _ depth h)

/-- A full stack is reported with the limit that it has reached. -/
theorem evaluateWithin_overflow {config : Config} {limit : Nat}
    (hlimit : config.policy.maxCallDepth = some limit) (hhost : config.host.Shallow)
    {budget : Nat} {scope : ScopeId} {node : Node} {s s' : State} {failure : Failure} {depth : Nat}
    (hrun : evaluateWithin config budget scope node s = some (.error failure, s'))
    (hdepth : failure.fault = .stackOverflow depth) : depth = limit :=
  (Config.raises_overflow hlimit hhost).evaluateWithin hrun depth hdepth

end TreeScript
