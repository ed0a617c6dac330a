import TreeScript.Proofs.Relaxation

/-!
# Proofs — failures tell the truth

A host decides by the fault of a failure, and by what the fault holds, what to report.  So what a
fault says has to be so: a fault that a setting of the policy guards against is raised only under
that setting, and the types, kinds and numbers that it names are ones that the operation refuses
(`Fault.Truthful`).

Each operation that raises faults raises truthful ones, in their own words, and fault and words are
passed on as they are.  So every failing evaluation ends with a truthful fault and with its wording
(`failures_truthful`).
-/

namespace TreeScript

/-- The names of the kinds of values. -/
def Value.typeNames : List String :=
  ["number", "string", "boolean", "null", "object", "function", "native-function"]

/-- Every value is of one of these kinds. -/
theorem Value.typeName_mem (value : Value) : value.typeName ∈ typeNames := by
  cases value <;> simp [typeName, typeNames]

/-- The numbers are the values of the kind of that name. -/
theorem Value.typeName_eq_number {value : Value} :
    value.typeName = "number" ↔ ∃ x, value = .number x := by
  cases value <;> simp [typeName]

/-- So are the strings. -/
theorem Value.typeName_eq_string {value : Value} :
    value.typeName = "string" ↔ ∃ x, value = .string x := by
  cases value <;> simp [typeName]

/-- So are the truth values. -/
theorem Value.typeName_eq_boolean {value : Value} :
    value.typeName = "boolean" ↔ ∃ x, value = .bool x := by
  cases value <;> simp [typeName]

/-- What the fault says is so, wherever it is raised under the policy. -/
def Fault.Truthful (policy : Policy) : Fault → Prop
  | .duplicateDeclaration _ | .constantAssignment _ | .undefinedVariable _
  | .undefinedProperty _ => True
  | .invalidOperation typeName op => typeName = "string" ∧ op ≠ .add
  | .operandMismatch left right _ =>
    policy.mixedOperands = .strict ∧ left ∈ Value.typeNames ∧ right ∈ Value.typeNames ∧
      ¬ (left = "number" ∧ right = "number") ∧ ¬ (left = "string" ∧ right = "string")
  | .divisionByZero | .moduloByZero => policy.zeroDivision = .error
  | .typeMismatch left right => left ∈ Value.typeNames ∧ right ∈ Value.typeNames ∧ left ≠ right
  | .unsupportedComparison typeName =>
    typeName ∈ ["null", "object", "function", "native-function"]
  | .notAnObject typeName => typeName ∈ Value.typeNames ∧ typeName ≠ "object"
  | .invalidAssignmentTarget kind => ∃ k : Node.Kind, k.name = kind ∧ kind ≠ "Identifier"
  | .notCallable typeName =>
    typeName ∈ Value.typeNames ∧ typeName ≠ "function" ∧ typeName ≠ "native-function"
  | .arityMismatch _ expected got => policy.arity = .strict ∧ expected ≠ got
  | .stackOverflow depth => policy.maxCallDepth = some depth
  | .nonBooleanCondition typeName => typeName ∈ Value.typeNames ∧ typeName ≠ "boolean"
  | .unimplementedNode kind _ => kind = "Property"
  | .native _ => False

/-! ### What operations raise -/

theorem Except.map_eq_error_iff {ε α β : Type} {f : α → β} {x : Except ε α} {e : ε} :
    x.map f = .error e ↔ x = .error e := by
  cases x <;> simp [Except.map]

section

variable {policy : Policy} {fault : Fault}

/-- Two numbers are refused only as a zero divisor. -/
theorem BinaryOp.onNumbers_truthful {op : BinaryOp} {a b : Float}
    (h : op.onNumbers policy.zeroDivision a b = .error fault) : fault.Truthful policy := by
  cases op with
  | add | sub | mul => cases h
  | div | mod =>
      simp only [onNumbers] at h
      split at h <;> cases h
      exact And.left ‹_›

/-- Two strings are refused by all operators but the sum. -/
theorem BinaryOp.onStrings_truthful {op : BinaryOp} {a b : String}
    (h : op.onStrings a b = .error fault) : fault.Truthful policy := by
  cases op with
  | add => cases h
  | _ =>
      cases h
      exact ⟨rfl, nofun⟩

/-- Other operands are refused under the strict policy only, by their types. -/
theorem BinaryOp.apply_truthful {op : BinaryOp} {l r : Value}
    (h : op.apply policy l r = .error fault) : fault.Truthful policy := by
  simp only [apply] at h
  split at h
  · exact onNumbers_truthful (Except.map_eq_error_iff.mp h)
  · exact onStrings_truthful (Except.map_eq_error_iff.mp h)
  · rename_i hnumbers hstrings
    split at h <;> cases h
    refine ⟨‹_›, l.typeName_mem, r.typeName_mem, ?_, ?_⟩
    · rintro ⟨hl, hr⟩
      obtain ⟨a, rfl⟩ := Value.typeName_eq_number.mp hl
      obtain ⟨b, rfl⟩ := Value.typeName_eq_number.mp hr
      exact hnumbers a b rfl rfl
    · rintro ⟨hl, hr⟩
      obtain ⟨a, rfl⟩ := Value.typeName_eq_string.mp hl
      obtain ⟨b, rfl⟩ := Value.typeName_eq_string.mp hr
      exact hstrings a b rfl rfl

/-- Two values of one type can be compared, unless the type is one of four. -/
theorem Value.compare_truthful {l r : Value} (h : l.compare r = .error fault) :
    fault.Truthful policy := by
  simp only [compare] at h
  split at h
  · cases h
  · cases h
  · cases h
  · rename_i hnumbers hbools hstrings
    split at h <;> cases h
    · exact ⟨l.typeName_mem, r.typeName_mem, ‹_›⟩
    · have hsame : l.typeName = r.typeName := not_ne_iff.mp ‹_›
      cases l with
      | number a =>
          obtain ⟨b, rfl⟩ := Value.typeName_eq_number.mp hsame.symm
          cases hnumbers a b rfl rfl
      | bool a =>
          obtain ⟨b, rfl⟩ := Value.typeName_eq_boolean.mp hsame.symm
          cases hbools a b rfl rfl
      | string a =>
          obtain ⟨b, rfl⟩ := Value.typeName_eq_string.mp hsame.symm
          cases hstrings a b rfl rfl
      | null | object | function | native => simp [Fault.Truthful, typeName]

/-- Access to a property is refused to what is not an object, or for want of the property. -/
theorem Value.member_truthful {subject : Value} {key : String}
    (h : subject.member key = .error fault) : fault.Truthful policy := by
  cases subject with
  | object properties =>
      simp only [member] at h
      split at h <;> cases h
      trivial
  | _ =>
      cases h
      exact ⟨typeName_mem _, by simp [typeName]⟩

/-- Only a truth value decides a condition. -/
theorem Value.condition_truthful {value : Value} (h : value.condition = .error fault) :
    fault.Truthful policy := by
  cases value with
  | bool => cases h
  | _ =>
      cases h
      exact ⟨typeName_mem _, by simp [typeName]⟩

/-- Only an identifier can be assigned to. -/
theorem Node.assignable_truthful {node : Node} (h : node.assignable = .error fault) :
    fault.Truthful policy := by
  cases node with
  | identifier => cases h
  | _ =>
      cases h
      exact ⟨_, rfl, by simp [kind, Kind.name]⟩

/-- Without a limit no push is refused, and otherwise the fault names the limit. -/
theorem CallStack.push_truthful {stack : CallStack} {frame : Frame}
    (h : stack.push policy.maxCallDepth frame = .error fault) : fault.Truthful policy := by
  cases hlimit : policy.maxCallDepth with
  | none =>
      rw [hlimit] at h
      cases h
  | some limit =>
      rw [hlimit] at h
      obtain ⟨rfl, -⟩ := CallStack.push_eq_error h
      exact hlimit

end

/-! ### What evaluations fail with -/

/-- All functions of the host print or show the time. -/
def Host.Standard (host : Host) : Prop :=
  ∀ function ∈ host.functions, (∃ sink, function = .print sink) ∨ function = .time

/-- Printing and showing the time always succeed. -/
theorem Host.Standard.call_ne_error {host : Host} (h : host.Standard) {native : Native}
    {values : List Value} {scope : ScopeId} {world : World} {failure : Failure} :
    (host.call native values scope world).1 ≠ .error failure := by
  intro herror
  obtain ⟨function, hmem, hfails⟩ := Host.call_eq_error herror
  rcases h function hmem with ⟨sink, rfl⟩ | rfl <;> cases hfails

/-- Every operation raises truthful faults. -/
theorem Config.raises_truthful {config : Config} (hhost : config.host.Standard) :
    config.Raises fun failure => failure.fault.Truthful config.policy where
  toPasses := .of_words fun fault _ => fault.Truthful config.policy
  undefined _ := trivial
  duplicate _ := trivial
  constant _ := trivial
  target := Node.assignable_truthful
  binary := BinaryOp.apply_truthful
  comparison h := Value.compare_truthful (Except.map_eq_error_iff.mp h)
  member := Value.member_truthful
  condition := Value.condition_truthful
  property _ _ := rfl
  callee {value} hnative hfunction := by
    refine ⟨value.typeName_mem, ?_, ?_⟩
    · intro h
      cases value with
      | function closure => exact hfunction closure rfl
      | _ => simp [Value.typeName] at h
    · intro h
      cases value with
      | native native => exact hnative native rfl
      | _ => simp [Value.typeName] at h
  arity hstrict hne := ⟨hstrict, hne⟩
  push := CallStack.push_truthful
  native h := absurd h hhost.call_ne_error

/-- Every operation words its failures by their faults. -/
theorem Config.raises_worded {config : Config} (hhost : config.host.Standard) :
    config.Raises fun failure => failure.message = failure.fault.message where
  toPasses := .of_words fun fault message => message = fault.message
  undefined _ := rfl
  duplicate _ := rfl
  constant _ := rfl
  target _ := rfl
  binary _ := rfl
  comparison _ := rfl
  member _ := rfl
  condition _ := rfl
  property _ _ := rfl
  callee _ _ := rfl
  arity _ _ := rfl
  push _ := rfl
  native h := absurd h hhost.call_ne_error

/-- **Failures tell the truth.**  Where the functions of the host print and show the time, every
failing evaluation ends with a fault that is as it says, whatever it evaluates and from whatever
state, and with the wording of that fault. -/
theorem failures_truthful (config : Config) (hhost : config.host.Standard) (budget : Nat)
    (scope : ScopeId) (node : Node) (s s' : State) (failure : Failure)
    (h : evaluateWithin config budget scope node s = some (.error failure, s')) :
    failure.fault.Truthful config.policy ∧ failure.message = failure.fault.message :=
  ⟨(Config.raises_truthful hhost).evaluateWithin h, (Config.raises_worded hhost).evaluateWithin h⟩

/-- The functions of a global scope are the standard ones. -/
theorem globalSession_standard (policy : Policy) : (globalSession policy).host.Standard := by
  intro function h
  rcases globalSession_functions h with rfl | rfl
  · exact .inl ⟨.buffer, rfl⟩
  · exact .inr rfl

/-- A sum of a truth value and null fails under the strict policy with its types.  That would not be
so under the default policy, and nothing of the kind is said of two numbers. -/
theorem failures_truthful_sum :
    (globalSession .strict).host.Standard ∧
    (∃ failure s',
      evaluateWithin ⟨.strict, (globalSession .strict).host⟩ 1 0 printingSum
        (globalSession .strict).state = some (.error failure, s') ∧
      failure.fault = .operandMismatch "boolean" "null" .add ∧
      failure.fault.Truthful .strict ∧
      failure.message = "cannot apply `+` to boolean and null") ∧
    ¬ (Fault.operandMismatch "boolean" "null" .add).Truthful .default ∧
    ¬ (Fault.operandMismatch "number" "number" .add).Truthful .strict := by
  have hhost := globalSession_standard .strict
  have hrun : Run.failure? (evaluateWithin ⟨.strict, (globalSession .strict).host⟩ 1 0 printingSum
      (globalSession .strict).state) =
        some { fault := .operandMismatch "boolean" "null" .add } := by
    decide +kernel
  obtain ⟨s', h⟩ := Run.failure?_eq_some.mp hrun
  obtain ⟨htrue, hmessage⟩ :=
    failures_truthful ⟨.strict, (globalSession .strict).host⟩ hhost 1 0 printingSum _ s' _ h
  refine ⟨hhost, ⟨_, s', h, rfl, htrue, hmessage.trans (by decide)⟩, ?_, ?_⟩
  · rintro ⟨⟨⟩, -⟩
  · exact fun hboth => hboth.2.2.2.1 ⟨rfl, rfl⟩

end TreeScript
