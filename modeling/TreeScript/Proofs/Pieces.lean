import TreeScript.Proofs.Operands
import TreeScript.Proofs.Relaxation

/-!
# Proofs — a program in pieces

A program may be handed over in pieces: evaluating its first statements and then, if that went well,
the others is evaluating the program (`pieces_evaluate_alike`).  The second piece may go to a
session that is built afresh, on the same scopes and output; so nothing of a session but its scopes
and its output passes from one evaluation to the next.

A block is a sequence (`evalBlock_append`), and locating a sequence locates its parts
(`Run.located_bind`).  What is left between the pieces is the stack, and that is as empty after the
first piece as it was before, whatever the piece has called.
-/

namespace TreeScript

/-- A failure of a sequence is located once, whichever part it comes from. -/
theorem Run.located_bind {α β : Type} (span : Span) (x : Run α) (f : α → Run β) :
    Run.located span (x >>= f) = Run.located span x >>= fun a => Run.located span (f a) := by
  funext s
  show Run.located span (Run.bind x f) s = Run.bind (Run.located span x) _ s
  simp only [Run.located, Run.bind]
  rcases x s with _ | ⟨_ | _, _⟩ <;> rfl

section

variable {config : Config} {call : Caller} {scope : ScopeId}

/-- Statements are evaluated one after the other, and each run of them hands its value on. -/
theorem evalBlock_append (first second : List Node) :
    ∀ last, evalBlock config call scope last (first ++ second) =
      evalBlock config call scope last first >>= fun value =>
        evalBlock config call scope value second := by
  induction first with
  | nil => simp [evalBlock]
  | cons node nodes ih => simp [evalBlock, ih]

/-- The value handed to a block matters only where the block has no statements. -/
theorem evalBlock_congr_last {nodes : List Node} (h : nodes ≠ []) (last last' : Value) :
    evalBlock config call scope last nodes = evalBlock config call scope last' nodes := by
  cases nodes with
  | nil => exact absurd rfl h
  | cons node nodes => rw [evalBlock, evalBlock]

end

/-- **A program is its two pieces in sequence**, from any state and within any budget. -/
theorem evaluateWithin_program_append (first : List Node) {second : List Node} (h : second ≠ [])
    (config : Config) (budget : Nat) (scope : ScopeId) (span : Span) :
    evaluateWithin config budget scope (.program (first ++ second) span) =
      evaluateWithin config budget scope (.program first span) >>= fun _ =>
        evaluateWithin config budget scope (.program second span) := by
  simp only [evaluateWithin, evalNode, evalBlock_append, Run.located_bind,
    evalBlock_congr_last h _ .null]

/-- What a session makes of a sequence: it carries out the first part and then, unless that failed,
the second. -/
theorem Session.perform_bind {α β : Type} (session : Session) (x : Run α) (f : α → Run β) :
    session.perform (x >>= f) =
      match session.perform x with
      | none => none
      | some (.error failure, later) => some (.error failure, later)
      | some (.ok a, later) => later.perform (f a) := by
  show session.perform (Run.bind x f) = _
  simp only [Session.perform, Run.bind]
  rcases x session.state with _ | ⟨_ | _, _⟩ <;> rfl

/-- **A program may be evaluated in pieces.**  Let the second piece have a statement.  Evaluating
the program is evaluating the first piece and then, unless that failed, the second, with the same
value or failure and the same state in the end.  Where no call is live at the start, the second
piece may as well be evaluated by a session that is built afresh. -/
theorem pieces_evaluate_alike (first second : List Node) (hsecond : second ≠ []) (scope : ScopeId)
    (span : Span) :
    (∀ config budget, evaluateWithin config budget scope (.program (first ++ second) span) =
      evaluateWithin config budget scope (.program first span) >>= fun _ =>
        evaluateWithin config budget scope (.program second span)) ∧
    ∀ session : Session, session.state.stack = .empty →
      session.evaluate scope (.program (first ++ second) span) =
        match session.evaluate scope (.program first span) with
        | none => none
        | some (.error failure, later) => some (.error failure, later)
        | some (.ok _, later) => later.rebuilt.evaluate scope (.program second span) := by
  have hrun := fun config budget =>
    evaluateWithin_program_append first hsecond config budget scope span
  refine ⟨hrun, fun session hempty => ?_⟩
  rw [Session.evaluate, evaluate, hrun, Session.perform_bind]
  have hperform : session.perform (evaluateWithin session.config session.config.policy.callBudget
      scope (.program first span)) = session.evaluate scope (.program first span) := rfl
  rw [hperform]
  rcases hfirst : session.evaluate scope (.program first span) with _ | ⟨_ | value, later⟩
  · rfl
  · rfl
  · -- the first piece has taken all its calls off the stack
    have hlater : later.state.stack = .empty := (Session.evaluate_stack hfirst).trans hempty
    obtain ⟨s', -, rfl⟩ := Session.perform_eq_some.mp hfirst
    simp only [Session.rebuilt_eq hlater]
    rfl

/-- `let x = "one"  fn f() { print(x) }  f()`. -/
def firstPiece : List Node :=
  [.declaration false "x" (some (.string "one" .dummy)) .dummy,
    .function "f" []
      [.call (.identifier "print" .dummy) [.identifier "x" .dummy] .dummy] .dummy,
    .call (.identifier "f" .dummy) [] .dummy]

/-- `x = "two"  f()  missing`. -/
def secondPiece : List Node :=
  [.assignment (.identifier "x" .dummy) (.string "two" .dummy) .dummy,
    .call (.identifier "f" .dummy) [] .dummy, .identifier "missing" .dummy]

/-- The second piece calls the function of the first, assigns to its variable and fails; it prints
and fails in the same way as part of the whole program and in a session built afresh. -/
theorem pieces_evaluate_alike_counter :
    secondPiece ≠ [] ∧ (globalSession .default).state.stack = .empty ∧
    ∃ value later failure final,
      (globalSession .default).evaluate 0 (.program firstPiece .dummy) = some (.ok value, later) ∧
      later.rebuilt.evaluate 0 (.program secondPiece .dummy) = some (.error failure, final) ∧
      (globalSession .default).evaluate 0 (.program (firstPiece ++ secondPiece) .dummy) =
        some (.error failure, final) ∧
      failure.fault = .undefinedVariable "missing" ∧ later.printed = "one\n" ∧
      final.printed = "one\ntwo\n" := by
  have hpiece : secondPiece ≠ [] := List.cons_ne_nil _ _
  obtain ⟨-, hsession⟩ := pieces_evaluate_alike firstPiece secondPiece hpiece 0 .dummy
  have hwhole := hsession (globalSession .default) rfl
  have hfirst : ((globalSession .default).evaluate 0 (.program firstPiece .dummy)).map
      (fun p => (p.1.toOption.isSome, p.2.printed)) = some (true, "one\n") := by
    cbv
  have hend : Run.failure? (evaluate (globalSession .default).config 0
      (.program (firstPiece ++ secondPiece) .dummy) (globalSession .default).state) =
        some { fault := .undefinedVariable "missing" } := by
    decide +kernel
  have hprinted' : ((globalSession .default).evaluate 0
      (.program (firstPiece ++ secondPiece) .dummy)).map (fun p => p.2.printed) =
        some "one\ntwo\n" := by
    decide +kernel
  obtain ⟨⟨r, later⟩, hlater, hr⟩ := Option.map_eq_some_iff.mp hfirst
  obtain ⟨s', hs⟩ := Run.failure?_eq_some.mp hend
  have hfinal : (globalSession .default).evaluate 0
      (.program (firstPiece ++ secondPiece) .dummy) = some (.error _, _) :=
    Session.perform_eq_some.mpr ⟨s', hs, rfl⟩
  rw [hfinal] at hprinted'
  cases r with
  | error failure => cases hr
  | ok value =>
      obtain ⟨-, hprinted⟩ := Prod.mk.inj hr
      rw [hlater] at hwhole
      exact ⟨hpiece, rfl, value, later, _, _, hlater, hwhole.symm.trans hfinal, hfinal, rfl,
        hprinted, Option.some.inj hprinted'⟩

end TreeScript
