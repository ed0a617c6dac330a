import Mathlib
import TreeScript.Proofs.JsonText

/-!
# Proofs — values that a reader accepts

A value is legible if every number in it has digits after its point and denotes a double, and every
string and name denotes a text.  The text of a legible value reads back (`Legible.read?_render`),
and of the limits on what is read it can break only the one on nesting (`Legible.fits_iff`).

Finite doubles have a spelling, and no others do (`Number.ofFloat?_cases`).
-/

namespace TreeScript

/-! ### Doubles -/

namespace Double

open Float.Model

/-- The exponent that the model of doubles unpacks is the field of the bits. -/
theorem toNat_unpackExponent (x : Float) :
    (@UnpackedFloat.unpackExponent Format.binary64 x.toBits.toBitVec).toNat = exponentField x := by
  simp [UnpackedFloat.unpackExponent, exponentField, BitVec.extractLsb_toNat,
    Nat.shiftRight_eq_div_pow]

/-- A double is finite unless all bits of its exponent are set. -/
theorem isFinite_iff (x : Float) : x.isFinite ↔ exponentField x ≠ 2047 := by
  show (UnpackedFloat.unpack Format.binary64 x.toBits.toBitVec).isFinite = true ↔ _
  rw [← toNat_unpackExponent]
  simp only [UnpackedFloat.unpack]
  split
  · rename_i hones
    rw [hones]
    split <;> simp [UnpackedFloat.isFinite]
  · rename_i hones
    have hne : (@UnpackedFloat.unpackExponent Format.binary64 x.toBits.toBitVec).toNat ≠ 2047 :=
      fun h => hones (BitVec.eq_of_toNat_eq h)
    simp only [hne, ne_eq, not_false_eq_true, iff_true]
    (repeat' split) <;> rfl

end Double

namespace Decimal

/-- The digits of a decimal are digits. -/
def Spelled (d : Decimal) : Prop := ∀ c ∈ d.digits, c.isDigit

/-- A number is spelled by its digits, of which some at the end may be left out. -/
theorem ofNat_spelled (n : Nat) (power : Int) : (ofNat n power).Spelled := by
  intro c hc
  have hsub : (ofNat n power).digits.Sublist (Nat.toDigits 10 n) := by
    rw [← List.reverse_sublist]
    simp only [ofNat, List.reverse_reverse]
    exact List.dropWhile_sublist _
  exact Json.Number.isDigit_toDigits c (hsub.mem hc)

/-- So are the shortest digits of a double. -/
theorem shortest_spelled (tie : Tie) (significand : Nat) (exponent : Int) :
    (shortest tie significand exponent).Spelled := by
  simp only [shortest]
  split <;> exact ofNat_spelled _ _

theorem zero_spelled : zero.Spelled := by
  simp [Spelled, zero]

/-- The digits after the point are digits, with or without zeros before them. -/
theorem Spelled.positional {d : Decimal} (h : d.Spelled) : ∀ c ∈ d.positional.2, c.isDigit := by
  intro c hc
  simp only [Decimal.positional] at hc
  split at hc
  · rcases List.mem_append.mp hc with hc | hc
    · rw [List.eq_of_mem_replicate hc]
      decide
    · exact h c hc
  · exact h c (List.mem_of_mem_drop hc)

end Decimal

namespace Json

namespace Number

/-- What has digits as a decimal has digits as a number of the text. -/
theorem ofDecimal_spelled {d : Decimal} (h : d.Spelled) (negative : Bool) :
    (ofDecimal negative d).Spelled := by
  intro c hc
  simp only [ofDecimal] at hc
  split at hc
  · simp only at hc
    split at hc
    · rw [List.mem_singleton.mp hc]
      decide
    · exact h.positional c hc
  · exact h c (List.mem_of_mem_drop hc)

/-- A finite double has a spelling, and no other double has one. -/
theorem ofFloat?_cases (x : Float) :
    (x.isFinite = true ∧ ∃ n, ofFloat? x = some n ∧ n.Spelled) ∨
      (x.isFinite = false ∧ ofFloat? x = none) := by
  by_cases hones : Double.exponentField x = 2047
  · refine .inr ⟨?_, ?_⟩
    · have := (Double.isFinite_iff x).not.mpr (not_not.mpr hones)
      simpa using this
    · have hm : Double.magnitude x = .infinite ∨ Double.magnitude x = .nan := by
        simp only [Double.magnitude, if_pos hones]
        split
        · exact .inl rfl
        · exact .inr rfl
      rcases hm with hm | hm <;> simp only [ofFloat?, hm]
  · refine .inl ⟨(Double.isFinite_iff x).mpr hones, ?_⟩
    obtain ⟨m, e, hm⟩ : ∃ m e, Double.magnitude x = .finite m e := by
      simp only [Double.magnitude, if_neg hones]
      split <;> exact ⟨_, _, rfl⟩
    simp only [ofFloat?, hm]
    split
    · exact ⟨_, rfl, ofDecimal_spelled Decimal.zero_spelled _⟩
    · exact ⟨_, rfl, ofDecimal_spelled (Decimal.shortest_spelled _ _ _) _⟩
    · simp_all

/-- A natural number that is a significand is read as the double that it rounds to. -/
theorem toFloat?_ofNat {n : Nat} (h : n < significandLimit) :
    (ofNat n).toFloat? = some (Float.ofNat n) := by
  have hdigits : leadingDigits 0 n = (n, 0) := by rw [leadingDigits, if_pos h]
  have hscale : ∀ x, scale? x 0 = some x := fun x => by rw [scale?, if_pos rfl]
  simp [toFloat?, scientific, ofNat, hdigits, appendDigits, hscale]

end Number

/-! ### Nesting -/

mutual

/-- How deep arrays and objects nest in a value. -/
def depth : Json → Nat
  | null | bool _ | number _ | string _ => 0
  | array items => itemsDepth items + 1
  | object members => membersDepth members + 1

/-- How deep they nest in the items. -/
def itemsDepth : List Json → Nat
  | [] => 0
  | item :: items => max (depth item) (itemsDepth items)

/-- How deep they nest in the values of the members. -/
def membersDepth : List (Literal × Json) → Nat
  | [] => 0
  | (_, value) :: members => max (depth value) (membersDepth members)

end

/-- Items nest no deeper than the deepest of them. -/
theorem itemsDepth_le {items : List Json} {d : Nat} :
    itemsDepth items ≤ d ↔ ∀ item ∈ items, item.depth ≤ d := by
  induction items with
  | nil => simp [itemsDepth]
  | cons item items ih => rw [itemsDepth, Nat.max_le, ih, List.forall_mem_cons]

/-- Neither do members. -/
theorem membersDepth_le {members : List (Literal × Json)} {d : Nat} :
    membersDepth members ≤ d ↔ ∀ member ∈ members, member.2.depth ≤ d := by
  induction members with
  | nil => simp [membersDepth]
  | cons member members ih => rw [membersDepth, Nat.max_le, ih, List.forall_mem_cons]

/-- An array nests deeper than its items. -/
theorem depth_lt_array {items : List Json} {item : Json} (h : item ∈ items) :
    item.depth < (array items).depth :=
  Nat.lt_succ_of_le (itemsDepth_le.mp (Nat.le_refl _) item h)

/-- A record nests deeper than the values of its members. -/
theorem depth_lt_record {members : List (String × Json)} (name : String) {value : Json}
    (h : (name, value) ∈ members) : value.depth < (record members).depth := by
  exact Nat.lt_succ_of_le
    (membersDepth_le.mp (Nat.le_refl _) (some name, value) (List.mem_map.mpr ⟨_, h, rfl⟩))

/-- Items fit if each of them does. -/
theorem itemsFit_iff {items : List Json} {d : Nat} :
    itemsFit d items ↔ ∀ item ∈ items, item.fits d := by
  induction items with
  | nil => simp [itemsFit]
  | cons item items ih => simp [itemsFit, ih]

/-- Members fit if each of them has a name that denotes a text, and a value that fits. -/
theorem membersFit_iff {members : List (Literal × Json)} {d : Nat} :
    membersFit d members ↔ ∀ member ∈ members, member.1.isSome ∧ member.2.fits d := by
  induction members with
  | nil => simp [membersFit]
  | cons member members ih =>
      obtain ⟨name, value⟩ := member
      simp [membersFit, ih]

/-- Every number of the value is spelled by digits and denotes a double, and every string and name
denotes a text. -/
abbrev Legible : Json → Prop :=
  Each (fun n => n.Spelled ∧ n.toFloat?.isSome) fun literal => literal.isSome

/-- What keeps a legible value from fitting is its depth. -/
theorem Legible.fits_iff {j : Json} (h : j.Legible) : ∀ d, j.fits d ↔ j.depth ≤ d := by
  induction h with
  | null => simp [fits, depth]
  | bool => simp [fits, depth]
  | number hn => simp [fits, depth, hn.2]
  | string hs => simp [fits, depth, hs]
  | array _ ih =>
      intro d
      cases d with
      | zero => simp [fits, depth]
      | succ d =>
          rw [fits, depth, itemsFit_iff, Nat.add_le_add_iff_right, itemsDepth_le]
          exact forall₂_congr fun item hitem => ih item hitem d
  | object hnames _ ih =>
      intro d
      cases d with
      | zero => simp [fits, depth]
      | succ d =>
          rw [fits, depth, membersFit_iff, Nat.add_le_add_iff_right, membersDepth_le]
          refine forall₂_congr fun member hmember => ?_
          rw [← ih member hmember d]
          exact and_iff_right (hnames member hmember)

/-- An object is legible if its names denote texts and its values are legible. -/
theorem legible_object {members : List (Literal × Json)} :
    (object members).Legible ↔
      (∀ member ∈ members, member.1.isSome) ∧ ∀ member ∈ members, member.2.Legible :=
  ⟨fun h => by cases h with | object hnames h => exact ⟨hnames, h⟩, fun h => .object h.1 h.2⟩

/-- What holds of every number and literal in a value can be weakened. -/
theorem Each.mono {number number' : Number → Prop} {literal literal' : Literal → Prop} {j : Json}
    (h : Each number literal j) (hnumber : ∀ n, number n → number' n)
    (hliteral : ∀ s, literal s → literal' s) : Each number' literal' j := by
  induction h with
  | null => exact .null
  | bool b => exact .bool b
  | number hn => exact .number (hnumber _ hn)
  | string hs => exact .string (hliteral _ hs)
  | array _ ih => exact .array ih
  | object hnames _ ih => exact .object (fun m hm => hliteral _ (hnames m hm)) ih

/-- The text of a legible value reads back. -/
theorem Legible.read?_render {j : Json} (h : j.Legible) : read? j.render = some j :=
  Json.read?_render (h.mono (fun _ hn => hn.1) fun _ _ => trivial)

@[simp] theorem legible_text (s : String) : (text s).Legible := .string rfl

@[simp] theorem legible_bool (b : Bool) : (bool b).Legible := .bool b

/-- Numbers of 32 bits are small enough to be read exactly. -/
@[simp] theorem legible_nat (n : UInt32) : (nat n.toNat).Legible := by
  have hlt : n.toNat < Number.significandLimit := by
    have := n.toNat_lt
    simp only [Number.significandLimit, Nat.pow_eq]
    omega
  refine .number ⟨by rintro c ⟨⟩, ?_⟩
  rw [Number.toFloat?_ofNat hlt]
  rfl

@[simp] theorem legible_array {items : List Json} :
    (array items).Legible ↔ ∀ item ∈ items, item.Legible :=
  ⟨fun h => by cases h with | array h => exact h, .array⟩

@[simp] theorem legible_record {members : List (String × Json)} :
    (record members).Legible ↔ ∀ member ∈ members, member.2.Legible := by
  constructor
  · intro h member hmember
    cases h with
    | object _ h => exact h (some member.1, member.2) (List.mem_map.mpr ⟨member, hmember, rfl⟩)
  · intro h
    refine .object ?_ ?_ <;> intro member hmember <;>
      obtain ⟨field, hfield, rfl⟩ := List.mem_map.mp hmember
    · rfl
    · exact h field hfield

end Json

end TreeScript
