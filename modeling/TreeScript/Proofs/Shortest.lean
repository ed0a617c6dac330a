import Mathlib.Algebra.Order.Field.Power
import Mathlib.Data.List.DropRight
import Mathlib.Data.Nat.Cast.Order.Field
import Mathlib.Data.Rat.Cast.Order
import Mathlib.Tactic.FieldSimp
import Mathlib.Tactic.Linarith
import Mathlib.Tactic.Positivity
import Mathlib.Tactic.Ring
import TreeScript.Decimal.Shortest

/-!
# Proofs — the shortest decimal of a double

The rationals that round to a double make an interval around its value.  The search for the shortest
decimal finds one in the interval, of at most seventeen digits (`Decimal.shortest_spec`), and no
decimal in the interval has fewer (`Decimal.length_shortest_le`).

Seventeen digits suffice because the interval is wider than the distance of two neighbours among the
decimals with that many digits (`Decimal.Interval.lt_width`).  The intervals of different doubles
have nothing in common (`Decimal.Interval.Holds.unique`): they meet at most at an end, and there one
of the significands is odd.
-/

namespace TreeScript

/-! ### Powers -/

theorem two_zpow_eq (e : Int) : (2 : ℚ) ^ e = 2 * 2 ^ (e - 1) := by
  rw [mul_comm, ← zpow_add_one₀ (by norm_num), Int.sub_add_cancel]

theorem ten_pow_mul_zpow (k : Nat) (power : Int) :
    (10 : ℚ) ^ k * 10 ^ power = 10 ^ (k + power) := by
  rw [zpow_add₀ (by norm_num), zpow_natCast]

/-! ### Significands and exponents -/

namespace Double

/-- A significand and an exponent that a double can have: the significand has all its digits, unless
the exponent is the least. -/
structure Canonical (m : Nat) (e : Int) : Prop where
  lt : m < 2 ^ 53
  least_le : -1074 ≤ e
  full : -1074 < e → 2 ^ 52 ≤ m

/-- The value that a significand and an exponent stand for. -/
def unsigned (m : Nat) (e : Int) : ℚ := m * 2 ^ e

/-- The parts of a double are canonical. -/
theorem canonical_of_magnitude {x : Float} {m : Nat} {e : Int}
    (h : magnitude x = .finite m e) : Canonical m e := by
  have hfraction : fractionField x < 2 ^ 52 := Nat.mod_lt _ (by decide)
  simp only [magnitude, Nat.pow_eq] at h
  split at h
  · split at h <;> cases h
  · split at h <;> obtain ⟨rfl, rfl⟩ := Magnitude.finite.inj h <;> constructor <;> omega

/-- The distance to the double below; a power of two has it half as wide as the one above. -/
def gapBelow (m : Nat) (e : Int) : ℚ :=
  if m = 2 ^ 52 ∧ -1074 < e then 2 ^ (e - 1) else 2 ^ e

section

variable {m m' : Nat} {e e' : Int}

theorem gapBelow_pos : 0 < gapBelow m e := by
  unfold gapBelow
  split <;> positivity

theorem gapBelow_le : gapBelow m e ≤ 2 ^ e := by
  unfold gapBelow
  split
  · exact zpow_le_zpow_right₀ (by norm_num) (by omega)
  · exact le_rfl

/-- The order of doubles: by the exponent first. -/
def Before (m : Nat) (e : Int) (m' : Nat) (e' : Int) : Prop := e < e' ∨ e = e' ∧ m < m'

/-- Of two doubles one comes before the other. -/
theorem before_or_before (h : m ≠ m' ∨ e ≠ e') : Before m e m' e' ∨ Before m' e' m e := by
  unfold Before
  omega

theorem two_mul_zpow_le (h : e < e') : (2 : ℚ) * 2 ^ e ≤ 2 ^ e' := by
  rw [two_zpow_eq e']
  gcongr
  · norm_num
  · omega

/-- No double lies between a double and the next one up. -/
theorem Before.unsigned_add_le (h : Before m e m' e') (hm : Canonical m e)
    (hm' : Canonical m' e') : unsigned m e + 2 ^ e ≤ unsigned m' e' := by
  have hpos : (0 : ℚ) < 2 ^ e := by positivity
  unfold unsigned
  rcases h with he | ⟨rfl, hlt⟩
  · have hfull : (2 : ℚ) ^ 52 ≤ m' := by
      exact_mod_cast hm'.full (Int.lt_of_le_of_lt hm.least_le he)
    have hsucc : (m : ℚ) + 1 ≤ 2 ^ 53 := by exact_mod_cast hm.lt
    calc (m : ℚ) * 2 ^ e + 2 ^ e
      _ = (m + 1) * 2 ^ e := by ring
      _ ≤ 2 ^ 53 * 2 ^ e := by gcongr
      _ = 2 ^ 52 * (2 * 2 ^ e) := by ring
      _ ≤ m' * 2 ^ e' := by gcongr; exact two_mul_zpow_le he
  · have hsucc : (m : ℚ) + 1 ≤ m' := by exact_mod_cast hlt
    calc (m : ℚ) * 2 ^ e + 2 ^ e
      _ = (m + 1) * 2 ^ e := by ring
      _ ≤ m' * 2 ^ e := by gcongr

/-- No double lies between a double and the next one down. -/
theorem Before.unsigned_le_sub (h : Before m e m' e') (hm : Canonical m e)
    (hm' : Canonical m' e') : unsigned m e ≤ unsigned m' e' - gapBelow m' e' := by
  by_cases hpower : m' = 2 ^ 52 ∧ -1074 < e'
  · obtain ⟨rfl, hleast⟩ := hpower
    have hpos : (0 : ℚ) < 2 ^ (e' - 1) := by positivity
    rw [gapBelow, if_pos ⟨rfl, hleast⟩, unsigned, unsigned, two_zpow_eq e']
    rcases h with he | ⟨rfl, hlt⟩
    · have hsucc : (m : ℚ) + 1 ≤ 2 ^ 53 := by exact_mod_cast hm.lt
      have hle : (2 : ℚ) ^ e ≤ 2 ^ (e' - 1) := zpow_le_zpow_right₀ (by norm_num) (by omega)
      calc (m : ℚ) * 2 ^ e
        _ ≤ (2 ^ 53 - 1) * 2 ^ (e' - 1) := by gcongr; linarith
        _ = ((2 ^ 52 : ℕ) : ℚ) * (2 * 2 ^ (e' - 1)) - 2 ^ (e' - 1) := by push_cast; ring
    · exact absurd (hm.full hleast) (by omega)
  · rw [gapBelow, if_neg hpower]
    rcases h with he | ⟨rfl, hlt⟩
    · have hfull := hm'.full (Int.lt_of_le_of_lt hm.least_le he)
      have hmore : (2 : ℚ) ^ 52 ≤ m' - 1 := by
        have : 2 ^ 52 + 1 ≤ m' := by have := hm.least_le; omega
        have : (2 : ℚ) ^ 52 + 1 ≤ m' := by exact_mod_cast this
        linarith
      have hlt : (m : ℚ) ≤ 2 ^ 53 := by exact_mod_cast hm.lt.le
      unfold unsigned
      calc (m : ℚ) * 2 ^ e
        _ ≤ 2 ^ 53 * 2 ^ e := by gcongr
        _ = 2 ^ 52 * (2 * 2 ^ e) := by ring
        _ ≤ (m' - 1) * 2 ^ e' := by gcongr; exact two_mul_zpow_le he
        _ = m' * 2 ^ e' - 2 ^ e' := by ring
    · have := Before.unsigned_add_le (.inr ⟨rfl, hlt⟩) hm hm'
      linarith

/-- Of two neighbours one has an odd significand. -/
theorem odd_or_odd (habove : unsigned m e + 2 ^ e = unsigned m' e')
    (hbelow : unsigned m e = unsigned m' e' - gapBelow m' e') : m % 2 = 1 ∨ m' % 2 = 1 := by
  have hgap : (2 : ℚ) ^ e = gapBelow m' e' := by linarith
  unfold gapBelow at hgap
  split at hgap
  · rename_i hpower
    obtain ⟨rfl, -⟩ := hpower
    obtain rfl : e = e' - 1 := zpow_right_injective₀ (by norm_num) (by norm_num) hgap
    have hne : (2 : ℚ) ^ (e' - 1) ≠ 0 := by positivity
    have hsum : ((m : ℚ) + 1) * 2 ^ (e' - 1) = 2 ^ 53 * 2 ^ (e' - 1) := by
      unfold unsigned at habove
      rw [two_zpow_eq e'] at habove
      push_cast at habove
      linarith
    have hsucc : m + 1 = 2 ^ 53 := by exact_mod_cast mul_right_cancel₀ hne hsum
    omega
  · obtain rfl : e = e' := zpow_right_injective₀ (by norm_num) (by norm_num) hgap
    have hne : (2 : ℚ) ^ e ≠ 0 := by positivity
    have hsum : ((m : ℚ) + 1) * 2 ^ e = m' * 2 ^ e := by
      unfold unsigned at habove
      linarith
    have hsucc : m + 1 = m' := by exact_mod_cast mul_right_cancel₀ hne hsum
    omega

end

end Double

/-! ### Fractions -/

namespace Decimal

theorem scale_snd_pos {den : Nat} (h : 0 < den) (num : Nat) (power : Int) :
    0 < (scale num den power).2 :=
  Nat.mul_pos h (Nat.pow_pos (by decide))

/-- Scaling multiplies by a power of ten. -/
theorem scale_div (num den : Nat) (power : Int) :
    ((scale num den power).1 : ℚ) / (scale num den power).2 = num / den * 10 ^ power := by
  have hpower : (10 : ℚ) ^ power = 10 ^ power.toNat / 10 ^ (-power).toNat := by
    rw [← zpow_natCast_sub_natCast₀ (by norm_num)]
    congr 1
    omega
  simp only [scale, Nat.pow_eq]
  push_cast
  rw [hpower, mul_div_mul_comm]

/-- A positive number lies between the powers of ten that the number of its digits says. -/
theorem pow_length_toDigits {n : Nat} (h : 0 < n) :
    10 ^ ((Nat.toDigits 10 n).length - 1) ≤ n ∧ n < 10 ^ (Nat.toDigits 10 n).length := by
  have hpos : 0 < (Nat.toDigits 10 n).length := Nat.length_toDigits_pos
  refine ⟨?_, (Nat.length_toDigits_le_iff (by decide) hpos).mp le_rfl⟩
  by_contra! hlt
  rcases Nat.eq_zero_or_pos ((Nat.toDigits 10 n).length - 1) with hzero | hsome
  · rw [hzero] at hlt
    omega
  · have := (Nat.length_toDigits_le_iff (by decide) hsome).mpr hlt
    omega

/-- The numbers of digits place a fraction between two powers of ten. -/
theorem div_bounds {num den : Nat} (hnum : 0 < num) (hden : 0 < den) :
    let guess : Int := (Nat.toDigits 10 num).length - (Nat.toDigits 10 den).length
    (10 : ℚ) ^ (guess - 1) ≤ num / den ∧ (num / den : ℚ) < 10 ^ (guess + 1) := by
  intro guess
  have hnumPos : 0 < (Nat.toDigits 10 num).length := Nat.length_toDigits_pos
  have hdenPos : 0 < (Nat.toDigits 10 den).length := Nat.length_toDigits_pos
  obtain ⟨hnumLow, hnumHigh⟩ := pow_length_toDigits hnum
  obtain ⟨hdenLow, hdenHigh⟩ := pow_length_toDigits hden
  have hden' : (0 : ℚ) < den := by exact_mod_cast hden
  constructor
  · have hnumLow' : (10 : ℚ) ^ ((Nat.toDigits 10 num).length - 1) ≤ num := by
      exact_mod_cast hnumLow
    have hdenHigh' : (den : ℚ) ≤ 10 ^ (Nat.toDigits 10 den).length := by
      exact_mod_cast hdenHigh.le
    calc (10 : ℚ) ^ (guess - 1)
      _ = 10 ^ ((Nat.toDigits 10 num).length - 1) / 10 ^ (Nat.toDigits 10 den).length := by
          rw [← zpow_natCast_sub_natCast₀ (by norm_num)]
          congr 1
          omega
      _ ≤ num / den := by gcongr
  · have hnumHigh' : (num : ℚ) < 10 ^ (Nat.toDigits 10 num).length := by
      exact_mod_cast hnumHigh
    have hdenLow' : (10 : ℚ) ^ ((Nat.toDigits 10 den).length - 1) ≤ den := by
      exact_mod_cast hdenLow
    calc (num / den : ℚ)
      _ < 10 ^ (Nat.toDigits 10 num).length / 10 ^ ((Nat.toDigits 10 den).length - 1) := by gcongr
      _ = 10 ^ (guess + 1) := by
          rw [← zpow_natCast_sub_natCast₀ (by norm_num)]
          congr 1
          omega

/-- **The leading exponent** places a fraction between two powers of ten that are next to each
other. -/
theorem leadingExponent_spec {num den : Nat} (hnum : 0 < num) (hden : 0 < den) :
    (10 : ℚ) ^ leadingExponent num den ≤ num / den ∧
      (num / den : ℚ) < 10 ^ (leadingExponent num den + 1) := by
  obtain ⟨hlow, hhigh⟩ := div_bounds hnum hden
  simp only [leadingExponent]
  generalize ((Nat.toDigits 10 num).length : Int) - (Nat.toDigits 10 den).length = guess at *
  -- the guess is right or one too high, and the scaled fraction tells which
  have htest : (scale num den (-guess)).2 ≤ (scale num den (-guess)).1 ↔
      (10 : ℚ) ^ guess ≤ num / den := by
    have hpos : (0 : ℚ) < (scale num den (-guess)).2 := by
      exact_mod_cast scale_snd_pos hden num _
    have hten : (0 : ℚ) < 10 ^ guess := by positivity
    rw [← Nat.cast_le (α := ℚ), ← one_le_div hpos, scale_div, zpow_neg, ← div_eq_mul_inv,
      one_le_div hten]
  split
  · rename_i hle
    exact ⟨htest.mp hle, hhigh⟩
  · rename_i hlt
    refine ⟨hlow, ?_⟩
    rw [Int.sub_add_cancel]
    exact lt_of_not_ge (htest.not.mp hlt)

/-! ### Intervals -/

namespace Interval

variable (i : Interval)

/-- The lower end. -/
def lower : ℚ := i.low / i.den

/-- The value of the double. -/
def middle : ℚ := i.value / i.den

/-- The upper end. -/
def upper : ℚ := i.high / i.den

/-- The rationals of the interval. -/
def Holds (q : ℚ) : Prop :=
  if i.closed then i.lower ≤ q ∧ q ≤ i.upper else i.lower < q ∧ q < i.upper

/-- The value lies inside. -/
structure Proper : Prop where
  den_pos : 0 < i.den
  low_pos : 0 < i.low
  low_lt : i.low < i.value
  lt_high : i.value < i.high

variable {i} {q r : ℚ}

/-- What an interval holds lies between its ends. -/
theorem Holds.bounds (h : i.Holds q) : i.lower ≤ q ∧ q ≤ i.upper := by
  unfold Holds at h
  split at h
  · exact h
  · exact ⟨h.1.le, h.2.le⟩

/-- It holds what lies strictly between them. -/
theorem holds_of_lt (hlower : i.lower < q) (hupper : q < i.upper) : i.Holds q := by
  unfold Holds
  split
  · exact ⟨hlower.le, hupper.le⟩
  · exact ⟨hlower, hupper⟩

theorem Holds.pos (h : i.Holds q) (hi : i.Proper) : 0 < q := by
  have hlow : (0 : ℚ) < i.low := by exact_mod_cast hi.low_pos
  have hden : (0 : ℚ) < i.den := by exact_mod_cast hi.den_pos
  exact (div_pos hlow hden).trans_le h.bounds.1

theorem Proper.lower_lt (hi : i.Proper) : i.lower < i.middle := by
  have hden : (0 : ℚ) < i.den := by exact_mod_cast hi.den_pos
  have hlow : (i.low : ℚ) < i.value := by exact_mod_cast hi.low_lt
  exact div_lt_div_of_pos_right hlow hden

theorem Proper.lt_upper (hi : i.Proper) : i.middle < i.upper := by
  have hden : (0 : ℚ) < i.den := by exact_mod_cast hi.den_pos
  have hhigh : (i.value : ℚ) < i.high := by exact_mod_cast hi.lt_high
  exact div_lt_div_of_pos_right hhigh hden

/-- What lies between the value and a number of the interval is in the interval. -/
theorem Holds.between (h : i.Holds q) (hi : i.Proper)
    (hr : q ≤ r ∧ r ≤ i.middle ∨ i.middle ≤ r ∧ r ≤ q) : i.Holds r := by
  have hlower := hi.lower_lt
  have hupper := hi.lt_upper
  unfold Holds at h ⊢
  split at h
  · rw [if_pos ‹_›]
    rcases hr with hr | hr <;> constructor <;> linarith
  · rw [if_neg ‹_›]
    rcases hr with hr | hr <;> constructor <;> linarith

/-- The search looks for decimals that round to the double. -/
theorem contains_iff (hi : i.Proper) (n : Nat) (power : Int) :
    i.contains n power ↔ i.Holds (n * 10 ^ power) := by
  have hden : (0 : ℚ) < i.den := by exact_mod_cast hi.den_pos
  have hpos : (0 : ℚ) < (scale n 1 power).2 := by exact_mod_cast scale_snd_pos one_pos n power
  have hscale := scale_div n 1 power
  rw [Nat.cast_one, div_one] at hscale
  simp only [contains, Holds, lower, upper, ← hscale, div_le_div_iff₀ hden hpos,
    div_le_div_iff₀ hpos hden, div_lt_div_iff₀ hden hpos, div_lt_div_iff₀ hpos hden]
  norm_cast
  split <;> simp

/-- The greatest multiple of a power of ten that does not exceed the value. -/
def floor (i : Interval) (power : Int) : Nat :=
  (scale i.value i.den (-power)).1 / (scale i.value i.den (-power)).2

/-- The floor is the greatest multiple of a power of ten that is not above the middle. -/
theorem floor_bounds (hi : i.Proper) (power : Int) :
    i.floor power * 10 ^ power ≤ i.middle ∧ i.middle < (i.floor power + 1 : ℕ) * 10 ^ power := by
  have hten : (0 : ℚ) < 10 ^ power := by positivity
  have hpos := scale_snd_pos hi.den_pos i.value (-power)
  have hpos' : (0 : ℚ) < (scale i.value i.den (-power)).2 := by exact_mod_cast hpos
  have hscale : ((scale i.value i.den (-power)).1 : ℚ) / (scale i.value i.den (-power)).2 =
      i.middle / 10 ^ power := by
    rw [scale_div, zpow_neg, ← div_eq_mul_inv, middle]
  rw [← le_div_iff₀ hten, ← div_lt_iff₀ hten, ← hscale]
  refine ⟨Nat.cast_div_le, ?_⟩
  rw [div_lt_iff₀ hpos']
  exact_mod_cast Nat.lt_mul_of_div_lt (Nat.lt_succ_self _) hpos

/-- **One step of the search.**  Of the decimals with a power of ten, two are next to the value; the
search takes one of them that is in the interval. -/
theorem candidate_eq_some (hi : i.Proper) {tie : Tie} {power : Int} {n : Nat}
    (h : i.candidate tie power = some n) :
    (n = i.floor power ∨ n = i.floor power + 1) ∧ i.Holds (n * 10 ^ power) := by
  simp only [candidate] at h
  rw [← contains_iff hi]
  split at h <;> cases h
  · split
    · exact ⟨.inr rfl, ‹_›⟩
    · exact ⟨.inl rfl, ‹_›⟩
  · exact ⟨.inl rfl, ‹_›⟩
  · exact ⟨.inr rfl, ‹_›⟩

/-- It takes none only if neither is in the interval. -/
theorem candidate_eq_none (hi : i.Proper) {tie : Tie} {power : Int}
    (h : i.candidate tie power = none) :
    ¬i.Holds (i.floor power * 10 ^ power) ∧ ¬i.Holds ((i.floor power + 1 : ℕ) * 10 ^ power) := by
  simp only [candidate] at h
  rw [← contains_iff hi, ← contains_iff hi]
  split at h <;> cases h
  rename_i hfirst hsecond
  exact ⟨fun hin => Bool.false_ne_true (hfirst.symm.trans hin),
    fun hin => Bool.false_ne_true (hsecond.symm.trans hin)⟩

/-- Where the search finds nothing, no decimal with that power of ten is in the interval. -/
theorem not_holds_of_candidate (hi : i.Proper) {tie : Tie} {power : Int}
    (h : i.candidate tie power = none) (k : Nat) : ¬i.Holds (k * 10 ^ power) := by
  intro hk
  have hten : (0 : ℚ) < 10 ^ power := by positivity
  obtain ⟨hle, hlt⟩ := floor_bounds hi power
  obtain ⟨hfirst, hsecond⟩ := candidate_eq_none hi h
  rcases Nat.lt_or_ge (i.floor power) k with hnk | hkn
  · exact hsecond (hk.between hi (.inr ⟨hlt.le, by gcongr; exact hnk⟩))
  · exact hfirst (hk.between hi (.inl ⟨by gcongr, hle⟩))

section

variable {m m' : Nat} {e e' : Int}

theorem unit_div_den (e : Int) :
    ((2 ^ (e - 2).toNat : ℕ) : ℚ) / (2 ^ (2 - e).toNat : ℕ) = 2 ^ e / 4 := by
  push_cast
  rw [← zpow_natCast_sub_natCast₀ (by norm_num),
    show ((e - 2).toNat : Int) - (2 - e).toNat = e - 2 by omega, zpow_sub₀ (by norm_num)]
  norm_num

theorem middle_ofParts (m : Nat) (e : Int) : (ofParts m e).middle = Double.unsigned m e := by
  simp only [middle, ofParts, Nat.pow_eq]
  rw [Nat.cast_mul, mul_div_assoc, unit_div_den, Double.unsigned]
  push_cast
  ring

theorem upper_ofParts (m : Nat) (e : Int) :
    (ofParts m e).upper = Double.unsigned m e + 2 ^ e / 2 := by
  simp only [upper, ofParts, Nat.pow_eq]
  rw [Nat.cast_mul, mul_div_assoc, unit_div_den, Double.unsigned]
  push_cast
  ring

theorem lower_ofParts (hm : 0 < m) (e : Int) :
    (ofParts m e).lower = Double.unsigned m e - Double.gapBelow m e / 2 := by
  simp only [lower, ofParts, Nat.pow_eq]
  rw [Nat.cast_mul, mul_div_assoc, unit_div_den, Double.unsigned, Double.gapBelow]
  split
  · rw [Nat.cast_sub (by omega), two_zpow_eq e]
    push_cast
    ring
  · rw [Nat.cast_sub (by omega)]
    push_cast
    ring

/-- The interval of a double is one around it. -/
theorem proper_ofParts (hm : 0 < m) (e : Int) : (ofParts m e).Proper := by
  have hunit : 0 < 2 ^ (e - 2).toNat := Nat.two_pow_pos _
  refine ⟨Nat.two_pow_pos _, Nat.mul_pos ?_ hunit, Nat.mul_lt_mul_of_pos_right ?_ hunit,
    Nat.mul_lt_mul_of_pos_right ?_ hunit⟩
  · split <;> omega
  · split <;> omega
  · omega

/-- Its ends belong to it if the significand is even. -/
theorem closed_ofParts : (ofParts m e).closed ↔ m % 2 = 0 := by
  simp [ofParts]

/-- The intervals of two doubles do not overlap. -/
theorem upper_le_lower (hm : Double.Canonical m e) (hm' : Double.Canonical m' e') (hpos : 0 < m')
    (h : Double.Before m e m' e') : (ofParts m e).upper ≤ (ofParts m' e').lower := by
  have habove := h.unsigned_add_le hm hm'
  have hbelow := h.unsigned_le_sub hm hm'
  rw [upper_ofParts, lower_ofParts hpos]
  linarith

/-- Where they meet, one of the significands is odd. -/
theorem odd_of_upper_eq (hm : Double.Canonical m e) (hm' : Double.Canonical m' e') (hpos : 0 < m')
    (h : Double.Before m e m' e') (heq : (ofParts m e).upper = (ofParts m' e').lower) :
    m % 2 = 1 ∨ m' % 2 = 1 := by
  have habove := h.unsigned_add_le hm hm'
  have hbelow := h.unsigned_le_sub hm hm'
  rw [upper_ofParts, lower_ofParts hpos] at heq
  exact Double.odd_or_odd (by linarith) (by linarith)

/-- An end of the interval belongs to it only if the significand is even. -/
theorem Holds.even_of_end (hq : (ofParts m e).Holds q)
    (hend : q = (ofParts m e).lower ∨ q = (ofParts m e).upper) : m % 2 = 0 := by
  rw [← closed_ofParts (e := e)]
  by_contra hopen
  rw [Holds, if_neg hopen] at hq
  rcases hend with rfl | rfl
  · exact hq.1.false
  · exact hq.2.false

/-- It holds no other double. -/
theorem not_holds_of_before (hm : Double.Canonical m e) (hm' : Double.Canonical m' e')
    (hpos : 0 < m') (h : Double.Before m e m' e') (hq : (ofParts m e).Holds q) :
    ¬(ofParts m' e').Holds q := by
  intro hq'
  have hle := upper_le_lower hm hm' hpos h
  have hupper := hq.bounds.2
  have hlower := hq'.bounds.1
  have hend : q = (ofParts m e).upper := by linarith
  have hend' : q = (ofParts m' e').lower := by linarith
  have heven := hq.even_of_end (.inr hend)
  have heven' := hq'.even_of_end (.inl hend')
  have := odd_of_upper_eq hm hm' hpos h (hend.symm.trans hend')
  omega

/-- **No number rounds to two doubles.** -/
theorem Holds.unique (hq : (ofParts m e).Holds q) (hq' : (ofParts m' e').Holds q)
    (hm : Double.Canonical m e) (hm' : Double.Canonical m' e') (hpos : 0 < m) (hpos' : 0 < m') :
    m = m' ∧ e = e' := by
  by_contra hne
  rcases Double.before_or_before (not_and_or.mp hne) with h | h
  · exact not_holds_of_before hm hm' hpos' h hq hq'
  · exact not_holds_of_before hm' hm hpos h hq' hq

/-- **No double is nearer** to a number than the one that it rounds to; one that is as near gives
way to an even significand. -/
theorem Holds.nearest (hq : (ofParts m e).Holds q) (hm : Double.Canonical m e)
    (hm' : Double.Canonical m' e') (hpos : 0 < m) (hne : m' ≠ m ∨ e' ≠ e) :
    |q - Double.unsigned m e| < |q - Double.unsigned m' e'| ∨
      |q - Double.unsigned m e| = |q - Double.unsigned m' e'| ∧ m % 2 = 0 := by
  have hgap := Double.gapBelow_pos (m := m) (e := e)
  have hgap' := Double.gapBelow_le (m := m) (e := e)
  obtain ⟨hlower, hupper⟩ := hq.bounds
  have heven := hq.even_of_end
  rw [lower_ofParts hpos] at hlower heven
  rw [upper_ofParts] at hupper heven
  rcases Double.before_or_before hne with h | h
  · -- the other double lies below, so the lower end is half way to it at most
    have hbelow := h.unsigned_le_sub hm' hm
    rw [abs_of_nonneg (a := q - Double.unsigned m' e') (by linarith)]
    rcases lt_or_eq_of_le hlower with hlt | heq
    · exact .inl (abs_lt.mpr ⟨by linarith, by linarith⟩)
    · refine (lt_or_eq_of_le (abs_le.mpr ⟨by linarith, by linarith⟩)).imp_right fun h => ?_
      exact ⟨h, heven (.inl heq.symm)⟩
  · have habove := h.unsigned_add_le hm hm'
    rw [abs_of_nonpos (a := q - Double.unsigned m' e') (by linarith)]
    rcases lt_or_eq_of_le hupper with hlt | heq
    · exact .inl (abs_lt.mpr ⟨by linarith, by linarith⟩)
    · refine (lt_or_eq_of_le (abs_le.mpr ⟨by linarith, by linarith⟩)).imp_right fun h => ?_
      exact ⟨h, heven (.inr heq)⟩

/-- **The interval is wide.**  It is wider than the distance of two neighbours among the decimals of
seventeen digits. -/
theorem lt_width {E : Int} (hm : Double.Canonical m e) (hpos : 0 < m)
    (hE : 10 ^ E ≤ (ofParts m e).middle) :
    10 ^ (E - 16) < (ofParts m e).upper - (ofParts m e).lower := by
  have htwo : (0 : ℚ) < 2 ^ e := by positivity
  have hten : (10 : ℚ) ^ E = 10 ^ 16 * 10 ^ (E - 16) := by
    rw [ten_pow_mul_zpow]
    congr 1
    omega
  rw [middle_ofParts, hten, Double.unsigned] at hE
  rw [upper_ofParts, lower_ofParts hpos, Double.gapBelow]
  split
  · rename_i hpower
    rw [hpower.1, two_zpow_eq e] at hE
    rw [two_zpow_eq e]
    push_cast at hE
    have : (0 : ℚ) < 2 ^ (e - 1) := by positivity
    linarith
  · have hlt : (m : ℚ) * 2 ^ e < 2 ^ 53 * 2 ^ e := by
      gcongr
      exact_mod_cast hm.lt
    linarith

/-- Seventeen digits suffice. -/
theorem exists_candidate {E : Int} (hm : Double.Canonical m e) (hpos : 0 < m)
    (hE : 10 ^ E ≤ (ofParts m e).middle) (tie : Tie) :
    ∃ k, (ofParts m e).candidate tie (E - 16) = some k := by
  have hi := proper_ofParts hpos e
  have hwidth := lt_width hm hpos hE
  have hlower := hi.lower_lt
  have hupper := hi.lt_upper
  rw [← Option.ne_none_iff_exists']
  intro hnone
  -- both neighbours of the value would lie outside, with the whole interval between them
  obtain ⟨hle, hlt⟩ := floor_bounds hi (E - 16)
  obtain ⟨hfirst, hsecond⟩ := candidate_eq_none hi hnone
  generalize (ofParts m e).floor (E - 16) = n at *
  have hbelow : (n : ℚ) * 10 ^ (E - 16) ≤ (ofParts m e).lower := by
    by_contra! hin
    exact hfirst (holds_of_lt hin (by linarith))
  have habove : (ofParts m e).upper ≤ (n + 1 : ℕ) * 10 ^ (E - 16) := by
    by_contra! hin
    exact hsecond (holds_of_lt (by linarith) hin)
  push_cast at habove
  linarith

end

end Interval

/-! ### Digits -/

/-- The value that the digits and the exponent stand for. -/
def value (d : Decimal) : ℚ :=
  Nat.ofDigitChars 10 d.digits 0 * 10 ^ (d.exponent - d.digits.length + 1)

/-- The digits are those of a number that does not end in zero; so neither the first nor the last
of them is zero. -/
def Reduced (d : Decimal) : Prop := ∃ n, n % 10 ≠ 0 ∧ d.digits = Nat.toDigits 10 n

theorem digitChar_ne_zero : ∀ n < 10, n ≠ 0 → n.digitChar ≠ '0' := by
  decide

theorem ofDigitChars_lt {cs : List Char} (h : ∀ c ∈ cs, c.isDigit) (init : Nat) :
    Nat.ofDigitChars 10 cs init < 10 ^ cs.length * (init + 1) := by
  induction cs generalizing init with
  | nil => simp
  | cons c cs ih =>
      rw [List.forall_mem_cons] at h
      have hc : c.toNat - '0'.toNat ≤ 9 := by
        have hdigit := Char.isDigit_iff_toNat.mp h.1
        simp only [Char.reduceToNat] at hdigit ⊢
        omega
      rw [Nat.ofDigitChars_cons, List.length_cons, pow_succ, mul_assoc]
      refine (ih h.2 _).trans_le (Nat.mul_le_mul_left _ ?_)
      omega

/-- Without the zeros at its end a number is the digits of another. -/
theorem rdropWhile_toDigits {n : Nat} (h : 0 < n) :
    ∃ k zeros, n = k * 10 ^ zeros ∧ k % 10 ≠ 0 ∧
      (Nat.toDigits 10 n).rdropWhile (· == '0') = Nat.toDigits 10 k ∧
      (Nat.toDigits 10 n).length = (Nat.toDigits 10 k).length + zeros := by
  induction n using Nat.strongRecOn with | ind n ih
  by_cases hlast : n % 10 = 0
  · obtain ⟨k, zeros, hk, hreduced, hdigits, hlength⟩ := ih (n / 10) (by omega) (by omega)
    rw [Nat.toDigits_of_base_le (by decide) (by omega), hlast]
    refine ⟨k, zeros + 1, ?_, hreduced, ?_, ?_⟩
    · rw [pow_succ, ← mul_assoc, ← hk]
      omega
    · rw [List.rdropWhile_concat_pos _ _ _ rfl, hdigits]
    · rw [List.length_append, hlength]
      rfl
  · refine ⟨n, 0, by simp, hlast, ?_, rfl⟩
    have hchar := digitChar_ne_zero (n % 10) (by omega) hlast
    rw [Nat.toDigits_eq_if (by decide)]
    split
    · rename_i hlt
      rw [Nat.mod_eq_of_lt hlt] at hchar
      rw [← List.nil_append [n.digitChar], List.rdropWhile_concat_neg _ _ _ (by simpa using hchar)]
    · rw [List.rdropWhile_concat_neg _ _ _ (by simpa using hchar)]

theorem ofNat_eq {n : Nat} (h : 0 < n) (power : Int) :
    ∃ k zeros : Nat, n = k * 10 ^ zeros ∧ k % 10 ≠ 0 ∧
      ofNat n power = ⟨Nat.toDigits 10 k, power + zeros + (Nat.toDigits 10 k).length - 1⟩ := by
  obtain ⟨k, zeros, hk, hreduced, hdigits, hlength⟩ := rdropWhile_toDigits h
  refine ⟨k, zeros, hk, hreduced, ?_⟩
  rw [List.rdropWhile] at hdigits
  simp only [ofNat, hdigits, hlength, Decimal.mk.injEq, true_and]
  push_cast
  ring

/-- Leaving out zeros at the end does not change the value. -/
theorem value_ofNat {n : Nat} (h : 0 < n) (power : Int) :
    (ofNat n power).value = n * 10 ^ power := by
  obtain ⟨k, zeros, hk, -, heq⟩ := ofNat_eq h power
  have hexponent : power + zeros + ((Nat.toDigits 10 k).length : Int) - 1 -
      (Nat.toDigits 10 k).length + 1 = zeros + power := by ring
  rw [heq, value, hexponent, Nat.ofDigitChars_ten_toDigits, hk, ← ten_pow_mul_zpow]
  push_cast
  rw [mul_assoc]

theorem reduced_ofNat {n : Nat} (h : 0 < n) (power : Int) : (ofNat n power).Reduced := by
  obtain ⟨k, _, -, hreduced, heq⟩ := ofNat_eq h power
  exact ⟨k, hreduced, by rw [heq]⟩

/-- A power of ten has one digit when its zeros are gone, so it does not count. -/
theorem length_ofNat_le {n j : Nat} (h : 0 < n) (hle : n ≤ 10 ^ (j + 1)) (power : Int) :
    (ofNat n power).digits.length ≤ j + 1 := by
  obtain ⟨k, zeros, hk, hreduced, heq⟩ := ofNat_eq h power
  rw [heq, Nat.length_toDigits_le_iff (by decide) (Nat.succ_pos j)]
  have hkn : k ≤ n := hk ▸ Nat.le_mul_of_pos_right k (Nat.pow_pos (by decide))
  refine lt_of_le_of_ne (hkn.trans hle) ?_
  rintro rfl
  rw [pow_succ, Nat.mul_mod_left] at hreduced
  exact hreduced rfl

/-! ### The search -/

theorem findSome?_range_eq_some {α : Type} {f : Nat → Option α} {n : Nat} {a : α}
    (h : (List.range n).findSome? f = some a) :
    ∃ k < n, f k = some a ∧ ∀ j < k, f j = none := by
  induction n with
  | zero => cases h
  | succ n ih =>
      rw [List.range_succ, List.findSome?_append, Option.or_eq_some_iff] at h
      rcases h with h | ⟨hnone, h⟩
      · obtain ⟨k, hk, hfound⟩ := ih h
        exact ⟨k, by omega, hfound⟩
      · refine ⟨n, by omega, by simpa using h, fun j hj => ?_⟩
        exact List.findSome?_eq_none_iff.mp hnone j (List.mem_range.mpr hj)

section

variable {m : Nat} {e : Int}

/-- **The search finds a decimal**, with the greatest power of ten that has a candidate, and among
the first seventeen. -/
theorem shortest_eq (hm : Double.Canonical m e) (hpos : 0 < m) (tie : Tie) :
    ∃ (E : Int) (k n : Nat), k < 17 ∧ 10 ^ E ≤ (Interval.ofParts m e).middle ∧
      (Interval.ofParts m e).middle < 10 ^ (E + 1) ∧ shortest tie m e = ofNat n (E - k) ∧
      (Interval.ofParts m e).candidate tie (E - k) = some n ∧
      ∀ j < k, (Interval.ofParts m e).candidate tie (E - (j : Nat)) = none := by
  have hi := Interval.proper_ofParts hpos e
  obtain ⟨hlow, hhigh⟩ := leadingExponent_spec (hi.low_pos.trans hi.low_lt) hi.den_pos
  simp only [shortest, List.findSome?_map]
  generalize leadingExponent _ _ = E at hlow hhigh ⊢
  split
  · rename_i n power hfind
    obtain ⟨k, hk, hfound, hnone⟩ := findSome?_range_eq_some hfind
    obtain ⟨n, hn, hpair⟩ := Option.map_eq_some_iff.mp hfound
    obtain ⟨rfl, rfl⟩ := Prod.mk.inj hpair
    exact ⟨E, k, n, hk, hlow, hhigh, rfl, hn, fun j hj => Option.map_eq_none_iff.mp (hnone j hj)⟩
  · rename_i hfind
    obtain ⟨n, hn⟩ := Interval.exists_candidate hm hpos hlow tie
    have hnone := List.findSome?_eq_none_iff.mp hfind 16 (by decide)
    cases hn.symm.trans (Option.map_eq_none_iff.mp hnone)

/-- A candidate has one digit more than there were powers before its own, or is the power of ten
after those. -/
theorem candidate_bounds {i : Interval} (hi : i.Proper) {tie : Tie} {E : Int} {k n : Nat}
    (hlow : 10 ^ E ≤ i.middle) (hhigh : i.middle < 10 ^ (E + 1))
    (h : i.candidate tie (E - k) = some n) :
    0 < n ∧ n ≤ 10 ^ (k + 1) ∧ i.Holds (n * 10 ^ (E - k)) := by
  have hten : (0 : ℚ) < 10 ^ (E - k) := by positivity
  obtain ⟨hle, hlt⟩ := Interval.floor_bounds hi (E - k)
  obtain ⟨hnext, hholds⟩ := Interval.candidate_eq_some hi h
  generalize i.floor (E - k) = floor at *
  have hsplit : (10 : ℚ) ^ E = 10 ^ k * 10 ^ (E - k) := by
    rw [ten_pow_mul_zpow, add_sub_cancel]
  have hpow : 10 ^ k < floor + 1 := by
    rw [hsplit] at hlow
    exact_mod_cast lt_of_mul_lt_mul_right (hlow.trans_lt hlt) hten.le
  have hpow' : floor < 10 ^ (k + 1) := by
    have hsplit' : (10 : ℚ) ^ (E + 1) = 10 ^ (k + 1) * 10 ^ (E - k) := by
      rw [zpow_add_one₀ (by norm_num), hsplit]
      ring
    rw [hsplit'] at hhigh
    exact_mod_cast lt_of_mul_lt_mul_right (hle.trans_lt hhigh) hten.le
  have : 0 < 10 ^ k := Nat.pow_pos (by decide)
  exact ⟨by omega, by omega, hholds⟩

/-- **What the search gives**: a decimal without zeros at its ends, of at most seventeen digits,
that rounds to the double. -/
theorem shortest_spec (hm : Double.Canonical m e) (hpos : 0 < m) (tie : Tie) :
    (shortest tie m e).Reduced ∧ (shortest tie m e).digits.length ≤ 17 ∧
      (Interval.ofParts m e).Holds (shortest tie m e).value := by
  obtain ⟨E, k, n, hk, hlow, hhigh, heq, hcandidate, -⟩ := shortest_eq hm hpos tie
  obtain ⟨hn, hle, hholds⟩ :=
    candidate_bounds (Interval.proper_ofParts hpos e) hlow hhigh hcandidate
  rw [heq, value_ofNat hn]
  exact ⟨reduced_ofNat hn _, (length_ofNat_le hn hle _).trans (by omega), hholds⟩

/-- **No decimal is shorter** that rounds to the double. -/
theorem length_shortest_le (hm : Double.Canonical m e) (hpos : 0 < m) (tie : Tie) {d : Decimal}
    (hdigits : ∀ c ∈ d.digits, c.isDigit) (hne : d.digits ≠ [])
    (hd : (Interval.ofParts m e).Holds d.value) :
    (shortest tie m e).digits.length ≤ d.digits.length := by
  obtain ⟨E, k, n, -, hlow, hhigh, heq, hcandidate, hnone⟩ := shortest_eq hm hpos tie
  have hi := Interval.proper_ofParts hpos e
  obtain ⟨hn, hle, -⟩ := candidate_bounds hi hlow hhigh hcandidate
  have hlength : (shortest tie m e).digits.length ≤ k + 1 := heq ▸ length_ofNat_le hn hle _
  have hsome : 0 < d.digits.length := List.length_pos_iff.mpr hne
  by_contra! hlt
  have hnumber : (Nat.ofDigitChars 10 d.digits 0 : ℚ) ≤ 10 ^ d.digits.length := by
    have := ofDigitChars_lt hdigits 0
    rw [Nat.zero_add, Nat.mul_one] at this
    exact_mod_cast this.le
  rw [value] at hd
  generalize d.digits.length = length at hd hlt hsome hnumber
  generalize Nat.ofDigitChars 10 d.digits 0 = number at hd hnumber
  rcases lt_or_ge (d.exponent - length + 1) (E - (length - 1 : ℕ)) with hsmall | hlarge
  · -- a smaller decimal has the power of ten below the value between it and the value
    have hbelow : (number : ℚ) * 10 ^ (d.exponent - length + 1) ≤ 10 ^ E := by
      calc (number : ℚ) * 10 ^ (d.exponent - length + 1)
        _ ≤ 10 ^ length * 10 ^ (E - length) := by
            gcongr
            · norm_num
            · omega
        _ = 10 ^ E := by rw [ten_pow_mul_zpow, add_sub_cancel]
    have hpower := hd.between hi (.inl ⟨hbelow, hlow⟩)
    exact Interval.not_holds_of_candidate hi (hnone 0 (by omega)) 1 (by simpa using hpower)
  · -- a multiple of a greater power of ten was passed over
    have hmultiple : (number : ℚ) * 10 ^ (d.exponent - length + 1) =
        (number * 10 ^ (d.exponent - length + 1 - (E - (length - 1 : ℕ))).toNat : ℕ) *
          10 ^ (E - (length - 1 : ℕ)) := by
      push_cast
      rw [mul_assoc, ten_pow_mul_zpow]
      congr 2
      omega
    rw [hmultiple] at hd
    exact Interval.not_holds_of_candidate hi (hnone (length - 1) (by omega)) _ hd

end

end Decimal

end TreeScript
