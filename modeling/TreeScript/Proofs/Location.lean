import TreeScript.Proofs.Raise
import TreeScript.Proofs.Relaxation

/-!
# Proofs — locations of failures

A failure leaves an evaluation with the first location on its way out: that of the part to blame, if
the node at fault blames one, then those of the nodes under way, from the innermost to the one that
is evaluated, across the calls on the way (`spans_innermost`).  Every node on the way offers its
span, and a failure takes the first that is a location and keeps it.
-/

namespace TreeScript

/-- The failures of the function have no location. -/
def HostFunction.Unlocated (function : HostFunction) : Prop :=
  ∀ (values : List Value) (scope : ScopeId) (world : World) (failure : Failure),
    (function values scope world).1 = .error failure → failure.span = none

/-- No function of the host fails with a location. -/
def Host.Unlocated (host : Host) : Prop := ∀ function ∈ host.functions, function.Unlocated

/-- The span of the part that a node at fault blames: the target of an assignment that can not be
one, and the condition of a conditional that is no boolean. -/
def Node.blames : Node → Fault → Option Span
  | .assignment target _ _, .invalidAssignmentTarget _ => some target.span
  | .conditional condition _ _ _, .nonBooleanCondition _ => some condition.span
  | _, _ => none

theorem Node.Faults.place_eq {config : Config} {scope : ScopeId} {s s' : State} {node : Node}
    {values : List Value} {failure : Failure} {place : Option Span}
    (h : node.Faults config scope s values failure place s') :
    place = node.blames failure.fault := by
  cases h with
  | @target target _ _ fault h =>
      cases target <;> cases h <;> rfl
  | @condition condition _ _ _ value fault h =>
      cases value <;> cases h <;> rfl
  | assignment h => rcases Store.assign_eq_error h with rfl | rfl <;> rfl
  | _ => rfl

/-- The trail of a raise goes from the node at fault, which says what part is to blame, to the node
that is evaluated. -/
theorem Raised.ends {config : Config} {budget : Nat} {scope : ScopeId} {node : Node} {s : State}
    {raise : Raise} (h : Raised config budget scope node s raise) :
    (∃ inner, raise.trail.head? = some (.evaluation inner) ∧
      raise.place = inner.blames raise.failure.fault) ∧
    raise.trail.getLast? = some (.evaluation node) := by
  induction h with
  | here _ hfaults => exact ⟨⟨_, rfl, hfaults.place_eq⟩, rfl⟩
  | short => exact ⟨⟨_, rfl, rfl⟩, rfl⟩
  | rejected => exact ⟨⟨_, rfl, rfl⟩, rfl⟩
  | operand _ _ _ ih | entry _ _ ih | branch _ _ _ _ ih | body _ _ _ _ _ ih =>
      obtain ⟨⟨inner, hhead, hplace⟩, -⟩ := ih
      exact ⟨⟨inner, by simp [Raise.within, hhead], hplace⟩, by simp [Raise.within]⟩

/-- The first location among spans is the first span that is not the dummy one. -/
theorem Span.findSome?_location? (spans : List Span) :
    spans.findSome? Span.location? = spans.find? (· ≠ .dummy) := by
  induction spans with
  | nil => rfl
  | cons span spans ih =>
      by_cases hspan : span = .dummy
      · subst hspan
        have hnone : Span.dummy.location? = none := rfl
        simp [hnone, ih]
      · have hsome : span.location? = some span := Span.location?_eq_some_iff.mpr ⟨rfl, hspan⟩
        simp [hsome, hspan]

/-- **Locations are innermost.**  Let an evaluation fail.  It has a raise, whose trail leads from
the node at fault to the node that is evaluated; and the location of the failure is the first span
that is not the dummy one among that of the part to blame and those of the nodes of the trail,
innermost first.  There is none if all are dummy. -/
theorem spans_innermost (config : Config) (hhost : config.host.Unlocated) (budget : Nat)
    (scope : ScopeId) (node : Node) (s : State) (failure : Failure) (s' : State)
    (h : evaluateWithin config budget scope node s = some (.error failure, s')) :
    (∃ raise, Raised config budget scope node s raise) ∧
    ∀ raise, Raised config budget scope node s raise →
      failure.fault = raise.failure.fault ∧
      (∃ inner, raise.trail.head? = some (.evaluation inner) ∧
        raise.place = inner.blames failure.fault) ∧
      raise.trail.getLast? = some (.evaluation node) ∧
      failure.span = raise.spans.find? (· ≠ .dummy) ∧
      (failure.span = none ↔ ∀ span ∈ raise.spans, span = .dummy) ∧
      failure.span ≠ some .dummy := by
  refine ⟨exists_raised budget scope node _ _ _ h, fun raise hraise => ?_⟩
  obtain ⟨hfails, -⟩ := hraise.fails
  rw [h] at hfails
  cases hfails
  have hbare : raise.failure.span = none := by
    rcases hraise.bare_or_native with hbare | ⟨function, hmem, values, scope, world, hfails⟩
    · rw [hbare]
    · exact hhost function hmem values scope world _ hfails
  have hspan : raise.outcome.span = raise.spans.find? (· ≠ .dummy) := by
    rw [← Span.findSome?_location?]
    simp [Raise.outcome, hbare]
  obtain ⟨hblame, hlast⟩ := hraise.ends
  refine ⟨rfl, hblame, hlast, hspan, ?_, ?_⟩
  · rw [hspan]
    simp
  · rw [hspan]
    intro hdummy
    simpa using List.find?_some hdummy

theorem globalSession_unlocated (policy : Policy) : (globalSession policy).host.Unlocated := by
  intro function h
  rcases globalSession_functions h with rfl | rfl <;> rintro values scope world failure ⟨⟩

/-- `fn f() { if null { } }  f()`, where the conditional and the call have locations. -/
def conditionInCall : Node :=
  .program
    [.function "f" []
        [.conditional (.identifier "null" .dummy) [] none ⟨9, 20⟩] .dummy,
      .call (.identifier "f" .dummy) [] ⟨23, 26⟩] .dummy

/-- The condition is to blame and has no location; the conditional around it has one, and so has the
call. -/
theorem spans_innermost_condition :
    (globalSession .default).host.Unlocated ∧
    ∃ failure s' raise,
      evaluateWithin ⟨.default, (globalSession .default).host⟩ 1 0 conditionInCall
        (globalSession .default).state = some (.error failure, s') ∧
      Raised ⟨.default, (globalSession .default).host⟩ 1 0 conditionInCall
        (globalSession .default).state raise ∧
      failure.fault = .nonBooleanCondition "null" ∧ failure.span = some ⟨9, 20⟩ ∧
      raise.spans.find? (· ≠ .dummy) = some ⟨9, 20⟩ := by
  have hunlocated := globalSession_unlocated .default
  have hrun : Run.failure? (evaluateWithin ⟨.default, (globalSession .default).host⟩ 1 0
      conditionInCall (globalSession .default).state) = some
        { fault := .nonBooleanCondition "null"
          span := some ⟨9, 20⟩
          backtrace := some [⟨"f", some ⟨23, 26⟩⟩] } := by
    decide +kernel
  obtain ⟨s', h⟩ := Run.failure?_eq_some.mp hrun
  obtain ⟨⟨raise, hraise⟩, hinnermost⟩ :=
    spans_innermost ⟨.default, (globalSession .default).host⟩ hunlocated 1 0 conditionInCall _ _ s'
      h
  obtain ⟨-, -, -, hspan, -⟩ := hinnermost raise hraise
  exact ⟨hunlocated, _, s', raise, h, hraise, rfl, rfl, hspan.symm⟩

end TreeScript
