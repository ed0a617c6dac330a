/-!
# Spans

A span is a half-open range of byte offsets into the source a node was read from.  The range
`0..0` stands for "no location": it is what synthesized nodes carry, and no failure is ever
located at it.
-/

namespace TreeScript

/-- The byte range `start..stop`, the end excluded. -/
structure Span where
  start : UInt32
  stop : UInt32
deriving DecidableEq, Repr, Inhabited

namespace Span

/-- The span of a node without a source location. -/
def dummy : Span := ⟨0, 0⟩

/-- Whether the span says nothing about a location. -/
def isDummy (s : Span) : Bool := s.start == 0 && s.stop == 0

/-- The number of bytes covered; a reversed range covers none. -/
def length (s : Span) : Nat := s.stop.toNat - s.start.toNat

/-- Whether the span covers no byte. -/
def isEmpty (s : Span) : Bool := s.stop ≤ s.start

/-- The smallest span that covers both, taken end by end. -/
def merge (s t : Span) : Span :=
  ⟨if s.start < t.start then s.start else t.start, if t.stop < s.stop then s.stop else t.stop⟩

/-- The span, unless it is the dummy one. -/
def location? (s : Span) : Option Span := if s.isDummy then none else some s

/-- The text `start..stop`. -/
def text (s : Span) : String := toString s.start.toNat ++ ".." ++ toString s.stop.toNat

theorem isDummy_iff {s : Span} : s.isDummy = true ↔ s = dummy := by
  cases s; simp [isDummy, dummy]

@[simp] theorem isDummy_dummy : dummy.isDummy = true := rfl

theorem location?_eq_some_iff {s t : Span} : s.location? = some t ↔ s = t ∧ s ≠ dummy := by
  unfold location?
  split <;> simp_all [isDummy_iff, and_comm]

end Span

end TreeScript
