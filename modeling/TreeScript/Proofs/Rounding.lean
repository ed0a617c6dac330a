import TreeScript.Proofs.Legible

/-!
# Proofs — a number that is read is finite

A number is read as a significand, rounded, times or divided by powers of ten, rounded.  A product
that is too large is refused, and everything else on the way is finite: the significand has 64 bits,
and no quotient exceeds what was divided.  So whatever number is read is finite
(`Json.Number.isFinite_of_toFloat?`).

Only the size of a result matters here, not its digits.  A double below `2 ^ t` has an exponent
field of at most `t + 1022`, and rounding moves a number up to the next power of two at most
(`Double.below_roundWithAccuracy`).
-/

namespace TreeScript

namespace Double

open Float.Model Float.Model.UnpackedFloat

/-! ### Binary logarithms -/

theorem log2_mono {m n : Nat} (h : m ≤ n) : m.log2 ≤ n.log2 := by
  simp only [Nat.log2_eq_log_two]
  exact Nat.log_mono_right h

/-- One more does not make a number two digits longer. -/
theorem log2_succ_le (m : Nat) : (m + 1).log2 ≤ m.log2 + 1 := by
  rcases Nat.eq_zero_or_pos m with rfl | hm
  · decide
  · rw [← Nat.log2_two_mul (by omega)]
    exact log2_mono (by omega)

/-- Dividing by a power of two takes digits away. -/
theorem log2_div_two_pow (m k : Nat) : (m / 2 ^ k).log2 = m.log2 - k := by
  simp only [Nat.log2_eq_log_two]
  exact Nat.log_div_base_pow 2 m k

/-- Dividing takes away at least the digits of the divisor after its first. -/
theorem log2_div_le (m : Nat) {n : Nat} (hn : 0 < n) : (m / n).log2 ≤ m.log2 - n.log2 := by
  rw [← log2_div_two_pow]
  exact log2_mono (Nat.div_le_div_left (Nat.log2_self_le (by omega)) (Nat.two_pow_pos _))

/-- Shifting adds digits. -/
theorem log2_shiftLeft {m : Nat} (hm : 0 < m) (k : Nat) : (m <<< k).log2 = m.log2 + k := by
  rw [Nat.shiftLeft_eq, Nat.log2_eq_iff (Nat.mul_ne_zero hm.ne' (Nat.two_pow_pos k).ne')]
  rw [Nat.pow_add, show m.log2 + k + 1 = (m.log2 + 1) + k by omega, Nat.pow_add]
  exact ⟨Nat.mul_le_mul_right _ (Nat.log2_self_le hm.ne'),
    Nat.mul_lt_mul_of_pos_right Nat.lt_log2_self (Nat.two_pow_pos k)⟩

/-- A product has at most the digits of both factors. -/
theorem log2_mul_le (m n : Nat) : (m * n).log2 ≤ m.log2 + n.log2 + 1 := by
  rcases Nat.eq_zero_or_pos (m * n) with h | h
  · simp [h]
  · have hlt : m * n < 2 ^ (m.log2 + n.log2 + 2) := by
      calc m * n
        _ < 2 ^ (m.log2 + 1) * 2 ^ (n.log2 + 1) :=
            Nat.mul_lt_mul'' Nat.lt_log2_self Nat.lt_log2_self
        _ = 2 ^ (m.log2 + n.log2 + 2) := by rw [← Nat.pow_add]; congr 1; omega
    have := (Nat.log2_lt (by omega)).mpr hlt
    omega

/-! ### Rounding -/

/-- A mantissa that is shifted loses its last digits. -/
theorem mantissa_shiftRight (em : ExtendedMantissa) (k : Nat) :
    (em >>> k).mantissa = em.mantissa / 2 ^ k := by
  induction k with
  | zero => exact (Nat.div_one _).symm
  | succ k ih =>
      show (em >>> k).mantissa / 2 = _
      rw [ih, Nat.div_div_eq_div_mul, Nat.pow_succ]

/-- Rounding moves a mantissa up by at most one. -/
theorem roundedMantissa_bounds (em : ExtendedMantissa) :
    em.mantissa ≤ em.roundedMantissa ∧ em.roundedMantissa ≤ em.mantissa + 1 := by
  obtain ⟨m, roundBit, stickyBit⟩ := em
  cases roundBit <;> cases stickyBit <;>
    simp only [ExtendedMantissa.roundedMantissa, ExtendedMantissa.accuracy,
      Accuracy.roundToNearestEven] <;> omega

/-- The bits that tell how exact a mantissa is are no part of it. -/
theorem mantissa_ofMantissaAndAccuracy (m : Nat) (accuracy : Accuracy) :
    (ExtendedMantissa.ofMantissaAndAccuracy m accuracy).mantissa = m := by
  cases accuracy with
  | exact => rfl
  | inexact order => cases order <;> rfl

/-- A number is rounded by shifting its mantissa, moving that up by at most one, and shifting it
again. -/
theorem roundWithAccuracy_eq (s : Sign) (m : Nat) (e : Int) (accuracy : Accuracy) :
    ∃ k r k' : Nat, m / 2 ^ k ≤ r ∧ r ≤ m / 2 ^ k + 1 ∧
      (k : Int) = max (max (m.log2 + 1 + e - 53) (-1074) - e) 0 ∧
      (k' : Int) = max (max (r.log2 + 1 + (e + k) - 53) (-1074) - (e + k)) 0 ∧
      roundWithAccuracy Format.binary64 s m e accuracy =
        if h : r / 2 ^ k' = 0 then .zero s
        else .finite s (r / 2 ^ k') (e + k + k') (Nat.pos_of_ne_zero h) := by
  let first := shiftToTargetExponent Format.binary64 m e accuracy
  have hbounds := roundedMantissa_bounds first.1
  have hfirst : first.1.mantissa =
      m / 2 ^ (Format.binary64.targetExponent (totalExponent m e) - e).toNat := by
    simp only [first, shiftToTargetExponent, shiftToExponent, mantissa_shiftRight,
      mantissa_ofMantissaAndAccuracy]
  rw [hfirst] at hbounds
  refine ⟨_, first.1.roundedMantissa, _, hbounds.1, hbounds.2, Int.ofNat_toNat _,
    Int.ofNat_toNat _, ?_⟩
  simp only [roundWithAccuracy, shiftToTargetExponent, shiftToExponent, mantissa_shiftRight,
    mantissa_ofMantissaAndAccuracy, first]
  rfl

/-- The number is smaller than `2 ^ t`, and so is the least double with its exponent that has all
its digits. -/
def Below (t : Int) : UnpackedFloat → Prop
  | .zero _ => True
  | .finite _ m e _ => totalExponent m e ≤ t ∧ e + 53 ≤ t
  | .infinity _ | .notANumber => False

/-- **Rounding moves a number up to the next power of two at most.** -/
theorem below_roundWithAccuracy {m : Nat} {e t : Int} (s : Sign) (accuracy : Accuracy)
    (htotal : totalExponent m e ≤ t) (he : e + 53 ≤ t) (ht : -1021 ≤ t) :
    Below (t + 1) (roundWithAccuracy Format.binary64 s m e accuracy) := by
  obtain ⟨k, r, k', -, hhigh, hk, hk', hround⟩ := roundWithAccuracy_eq s m e accuracy
  rw [hround]
  split
  · trivial
  · have hr : r.log2 ≤ m.log2 - k + 1 := by
      rw [← log2_div_two_pow]
      exact (log2_mono hhigh).trans (log2_succ_le _)
    have hlog : (r / 2 ^ k').log2 = r.log2 - k' := log2_div_two_pow r k'
    simp only [totalExponent] at htotal
    simp only [Below, totalExponent]
    omega

/-- The number has all digits of a double, and is not smaller than `2 ^ (t - 1)`. -/
def Normal (t : Int) : UnpackedFloat → Prop
  | .finite _ m e _ => m.log2 = 52 ∧ t ≤ e + 53
  | _ => False

/-- Rounding moves no number that has enough digits below a power of two. -/
theorem normal_roundWithAccuracy {m : Nat} {e t : Int} (s : Sign) (accuracy : Accuracy)
    (hm : 52 ≤ m.log2) (htotal : t ≤ totalExponent m e) (ht : -1021 ≤ t) :
    Normal t (roundWithAccuracy Format.binary64 s m e accuracy) := by
  obtain ⟨k, r, k', hlow, hhigh, hk, hk', hround⟩ := roundWithAccuracy_eq s m e accuracy
  have hr : m.log2 - k ≤ r.log2 ∧ r.log2 ≤ m.log2 - k + 1 := by
    rw [← log2_div_two_pow]
    exact ⟨log2_mono hlow, (log2_mono hhigh).trans (log2_succ_le _)⟩
  have hlog : (r / 2 ^ k').log2 = r.log2 - k' := log2_div_two_pow r k'
  simp only [totalExponent] at htotal
  have hne : r / 2 ^ k' ≠ 0 := by
    intro h
    rw [h, Nat.log2_zero] at hlog
    omega
  rw [hround, dif_neg hne]
  simp only [Normal]
  omega

/-! ### The fields of a double -/

/-- The first digit of a mantissa is left out of the fraction, as it is always one. -/
theorem toNat_implicit (fraction : BitVec 52) :
    (1#1 ++ fraction).toNat = 2 ^ 52 + fraction.toNat := by
  rw [BitVec.toNat_append, ← Nat.shiftLeft_add_eq_or_of_lt fraction.isLt]
  rfl

/-- What the exponent and the fraction of a double stand for. -/
inductive Unpacks (field fraction : Nat) : UnpackedFloat → Prop where
  | infinity {s : Sign} : field = 2047 → Unpacks field fraction (.infinity s)
  | notANumber : field = 2047 → Unpacks field fraction .notANumber
  | zero {s : Sign} : field = 0 → Unpacks field fraction (.zero s)
  | subnormal {s : Sign} {m : Nat} {e : Int} {h : 0 < m} : field = 0 → m = fraction → e = -1074 →
      Unpacks field fraction (.finite s m e h)
  | normal {s : Sign} {m : Nat} {e : Int} {h : 0 < m} : 0 < field → field < 2047 →
      m = 2 ^ 52 + fraction → e = field - 1075 → Unpacks field fraction (.finite s m e h)

/-- Bits are unpacked by their exponent and their fraction. -/
theorem unpacks (bits : BitVec Format.binary64.numBits) :
    Unpacks (unpackExponent bits).toNat (unpackMantissa bits).toNat
      (UnpackedFloat.unpack Format.binary64 bits) := by
  have hlt : (unpackExponent bits).toNat < 2048 := (unpackExponent bits).isLt
  have hones : unpackExponent bits = -1#11 ↔ (unpackExponent bits).toNat = 2047 :=
    ⟨fun h => by rw [h]; rfl, fun h => BitVec.eq_of_toNat_eq h⟩
  have hzero : unpackExponent bits = 0#11 ↔ (unpackExponent bits).toNat = 0 :=
    ⟨fun h => by rw [h]; rfl, fun h => BitVec.eq_of_toNat_eq h⟩
  simp only [UnpackedFloat.unpack]
  split
  · have hfield := hones.mp ‹_›
    split
    · exact .infinity hfield
    · exact .notANumber hfield
  · have hfield := hones.not.mp ‹_›
    split
    · have hfield := hzero.mp ‹_›
      split
      · exact .zero hfield
      · exact .subnormal hfield rfl (by rw [hfield]; rfl)
    · have hsome := hzero.not.mp ‹_›
      exact .normal (by omega) (by omega) (toNat_implicit _) rfl

/-- So is a double. -/
theorem unpacks_float (x : Float) :
    ∃ fraction, fraction < 2 ^ 52 ∧ Unpacks (exponentField x) fraction x.toModel.unpack := by
  rw [← toNat_unpackExponent]
  exact ⟨_, BitVec.isLt _, unpacks x.toBits.toBitVec⟩

/-- With its first digit a mantissa has 53 of them. -/
theorem log2_implicit {fraction : Nat} (h : fraction < 2 ^ 52) : (2 ^ 52 + fraction).log2 = 52 :=
  (Nat.log2_eq_iff (by omega)).mpr ⟨by omega, by omega⟩

/-- A finite double is as small as its exponent field says. -/
theorem below_unpack {x : Float} {t : Int} (hfinite : exponentField x < 2047)
    (h : exponentField x ≤ t + 1022) (ht : -1021 ≤ t) : Below t x.toModel.unpack := by
  obtain ⟨fraction, hlt, hx⟩ := unpacks_float x
  generalize x.toModel.unpack = f at hx
  cases hx with
  | infinity hfield | notANumber hfield => omega
  | zero => trivial
  | @subnormal s m e hpos hfield hm he =>
      have hlog : m.log2 < 52 := (Nat.log2_lt (by omega)).mpr (by omega)
      simp only [Below, totalExponent]
      omega
  | normal _ _ hm he =>
      have hlog := log2_implicit hlt
      simp only [Below, totalExponent, hm, hlog, he]
      omega

/-- A finite double has all its digits, unless its exponent field is zero. -/
theorem normal_unpack {x : Float} {t : Int} (hfinite : exponentField x < 2047)
    (h : t + 1022 ≤ exponentField x) (ht : -1021 ≤ t) : Normal t x.toModel.unpack := by
  obtain ⟨fraction, hlt, hx⟩ := unpacks_float x
  generalize x.toModel.unpack = f at hx
  cases hx with
  | infinity hfield | notANumber hfield | zero hfield | subnormal hfield => omega
  | normal _ _ hm he =>
      refine ⟨hm ▸ log2_implicit hlt, ?_⟩
      omega

/-- The double that a rounded number is packed into. -/
abbrev packed (f : UnpackedFloat) : Float := .ofModel (Float.Model.pack f)

/-- The exponent field of a double is the exponent that it was packed with. -/
theorem exponentField_packed (f : UnpackedFloat) :
    exponentField (packed f) = (unpackExponent (UnpackedFloat.pack Format.binary64 f)).toNat :=
  (toNat_unpackExponent _).symm

/-- A number is packed with its exponent, if that is not too large and all digits are there. -/
theorem exponentField_finite (s : Sign) (m : Nat) (e : Int) (h : 0 < m) (he : e < 972) :
    exponentField (packed (.finite s m e h)) = if m.log2 = 52 then (e + 1075).toNat else 0 := by
  have hbias : (e + Format.binary64.exponentBias + Format.binary64.mantissaBitsWithoutImplicit) =
      e + 1075 := by
    show e + 1023 + 52 = e + 1075
    omega
  have hbits : Format.binary64.mantissaBits = 53 := rfl
  rw [exponentField_packed]
  simp only [UnpackedFloat.pack, hbias, hbits]
  rw [if_neg (by show ¬ 2048 ≤ _; omega)]
  split
  · rw [if_pos (by omega), unpackExponent_packComponents, BitVec.toNat_ofNat, Nat.mod_eq_of_lt]
    show _ < 2048
    omega
  · rw [if_neg (by omega), unpackExponent_packComponents]
    rfl

/-- A number below `2 ^ t` is packed into a double below it. -/
theorem exponentField_of_below {f : UnpackedFloat} {t : Int} (h : Below t f) (hlow : -1021 ≤ t)
    (hhigh : t ≤ 1024) : exponentField (packed f) ≤ t + 1022 := by
  cases f with
  | infinity | notANumber => exact h.elim
  | zero s =>
      rw [exponentField_packed]
      simp only [UnpackedFloat.pack, packedZero, unpackExponent_packComponents]
      show (0 : Int) ≤ t + 1022
      omega
  | finite s m e hpos =>
      simp only [Below] at h
      rw [exponentField_finite s m e hpos (by omega)]
      split <;> omega

/-- What is below the first power of two that is too large is packed into a finite double. -/
theorem isFinite_of_below {f : UnpackedFloat} {t : Int} (h : Below t f) (hlow : -1021 ≤ t)
    (hhigh : t ≤ 1024) : (packed f).isFinite := by
  rw [isFinite_iff]
  have := exponentField_of_below h hlow hhigh
  omega

/-- Packing and unpacking leaves a number below a power of two that it was below. -/
theorem below_packed {f : UnpackedFloat} {t : Int} (h : Below t f) (hlow : -1021 ≤ t)
    (hhigh : t ≤ 1024) : Below t (packed f).toModel.unpack := by
  have := exponentField_of_below h hlow hhigh
  exact below_unpack (by omega) this hlow

/-- A number that is not infinite before it is packed is a number after it. -/
theorem isFinite_or_isInf (s : Sign) (m : Nat) (e : Int) (h : 0 < m) :
    (packed (.finite s m e h)).isFinite ∨ (packed (.finite s m e h)).isInf := by
  by_cases he : e < 972
  · refine .inl ((isFinite_iff _).mpr ?_)
    rw [exponentField_finite s m e h he]
    split <;> omega
  · refine .inr ?_
    show (UnpackedFloat.unpack Format.binary64 (UnpackedFloat.pack Format.binary64 _)).isInf = true
    have hbias : (e + Format.binary64.exponentBias +
        Format.binary64.mantissaBitsWithoutImplicit) = e + 1023 + 52 := rfl
    simp only [UnpackedFloat.pack, hbias]
    rw [if_pos (by show 2048 ≤ _; omega)]
    simp [UnpackedFloat.unpack, packedInfinity, UnpackedFloat.isInf]

/-- The exponent field of a finite double is not the greatest. -/
theorem exponentField_lt {x : Float} (h : x.isFinite) : exponentField x < 2047 := by
  have hlt : exponentField x < 2048 := toNat_unpackExponent x ▸ BitVec.isLt _
  have hne := (isFinite_iff x).mp h
  omega

/-- A number with all digits is packed into a double that is not below the power of two either. -/
theorem exponentField_of_normal {f : UnpackedFloat} {t u : Int} (h : Normal t f)
    (hbelow : Below u f) (hhigh : u ≤ 1024) : t + 1022 ≤ exponentField (packed f) := by
  cases f with
  | infinity | notANumber | zero => exact h.elim
  | finite s m e hpos =>
      simp only [Normal] at h
      simp only [Below] at hbelow
      rw [exponentField_finite s m e hpos (by omega), if_pos h.1]
      omega

/-! ### Products and quotients -/

/-- A product is below twice the product of the bounds. -/
theorem below_mul {f g : UnpackedFloat} {t u : Int} (hf : Below t f) (hg : Below u g)
    (hlow : -1021 ≤ t + u) : Below (t + u + 1) (mul Format.binary64 f g) := by
  cases f with
  | infinity | notANumber => exact hf.elim
  | zero =>
      cases g with
      | infinity | notANumber => exact hg.elim
      | zero | finite => trivial
  | finite s m e h =>
      cases g with
      | infinity | notANumber => exact hg.elim
      | zero => trivial
      | finite s' m' e' h' =>
          simp only [Below, totalExponent] at hf hg
          have hlog := log2_mul_le m m'
          refine below_roundWithAccuracy _ _ ?_ ?_ hlow
          · simp only [totalExponent]
            omega
          · omega

/-- A finite double is below the first power of two that is too large. -/
theorem below_of_isFinite {x : Float} (h : x.isFinite) : Below 1024 x.toModel.unpack := by
  have := exponentField_lt h
  exact below_unpack this (by omega) (by omega)

/-- **The product of two finite doubles is finite or too large.** -/
theorem isFinite_or_isInf_mul {x y : Float} (hx : x.isFinite) (hy : y.isFinite) :
    (x * y).isFinite ∨ (x * y).isInf := by
  have hproduct : x * y = packed (mul Format.binary64 x.toModel.unpack y.toModel.unpack) := rfl
  have hbelow := below_mul (below_of_isFinite hx) (below_of_isFinite hy) (by omega)
  rw [hproduct]
  generalize mul Format.binary64 _ _ = f at hbelow
  cases f with
  | infinity | notANumber => exact hbelow.elim
  | zero s => exact .inl (isFinite_of_below (t := 0) trivial (by omega) (by omega))
  | finite s m e h => exact isFinite_or_isInf s m e h

/-- A quotient is below four times the quotient of the bounds. -/
theorem below_div {f g : UnpackedFloat} {t u : Int} (hf : Below t f) (hg : Normal u g)
    (hlow : -1021 ≤ t - u + 1) : Below (t - u + 2) (div Format.binary64 f g) := by
  cases g with
  | infinity | notANumber | zero => exact hg.elim
  | finite s' m' e' h' =>
      cases f with
      | infinity | notANumber => exact hf.elim
      | zero => trivial
      | finite s m e h =>
          simp only [Below, totalExponent] at hf
          simp only [Normal] at hg
          let target := min (e - e') (max (totalExponent m e - totalExponent m' e' - 53) (-1074))
          let shift := (e - e' - target).toNat
          have hlog : ((m <<< shift) / m').log2 ≤ m.log2 + shift - m'.log2 := by
            rw [← log2_shiftLeft h]
            exact log2_div_le _ h'
          have hshift : (shift : Int) = e - e' - target := by omega
          have htarget : target ≤ t - u - 53 ∨ target ≤ -1074 := by
            simp only [target, totalExponent]
            omega
          rw [show t - u + 2 = t - u + 1 + 1 by omega]
          refine below_roundWithAccuracy (m := (m <<< shift) / m') (e := target) _ _ ?_ ?_ hlow
          · simp only [totalExponent]
            omega
          · omega

/-- **A finite double divided by two or more is finite.** -/
theorem isFinite_div {x y : Float} (hx : x.isFinite) (hy : y.isFinite)
    (hlow : 1024 ≤ exponentField y) : (x / y).isFinite := by
  have hquotient := below_div (below_of_isFinite hx)
    (normal_unpack (t := 2) (exponentField_lt hy) (by omega) (by omega)) (by omega)
  exact isFinite_of_below hquotient (by omega) (by omega)

theorem below_neg {f : UnpackedFloat} {t : Int} (h : Below t f) : Below t f.neg := by
  cases f <;> exact h

/-- The negative of a finite double is finite. -/
theorem isFinite_neg {x : Float} (h : x.isFinite) : (-x).isFinite :=
  isFinite_of_below (below_neg (below_of_isFinite h)) (by omega) (by omega)

/-! ### Integers and powers of ten -/

/-- An integer is rounded up to the next power of two at most. -/
theorem below_round {m : Nat} {e t : Int} (s : Sign) (h : 0 < m) (htotal : totalExponent m e ≤ t)
    (he : e + 53 ≤ t) (ht : -1021 ≤ t) : Below (t + 1) (round Format.binary64 s m e) := by
  refine below_roundWithAccuracy s .exact ?_ ?_ ht
  · simp only [totalExponent, log2_shiftLeft h] at htotal ⊢
    omega
  · omega

/-- So is a number of 64 bits. -/
theorem below_ofUInt64 (n : UInt64) : Below 65 (UnpackedFloat.ofUInt64 Format.binary64 n) := by
  simp only [UnpackedFloat.ofUInt64, UnpackedFloat.ofNat, UnpackedFloat.ofInt,
    UnpackedFloat.normalize]
  split
  · have := Int.compare_eq_lt.mp ‹_›
    omega
  · trivial
  · have hpos : 0 < n.toNat := by
      have := Int.compare_eq_gt.mp ‹_›
      omega
    have hlog : n.toNat.log2 < 64 := (Nat.log2_lt hpos.ne').mpr n.toNat_lt
    refine below_round (t := 64) _ hpos ?_ (by omega) (by omega)
    simp only [totalExponent, Int.toNat_natCast]
    omega

/-- A factor times a power of ten is rounded once, with 53 more digits than it has. -/
theorem ofScientific_eq {m p : Nat} (hm : 0 < m) (hp : p ≤ 2048) :
    ∃ n : Nat, n.log2 = (m * 10 ^ p).log2 + 53 ∧
      UnpackedFloat.ofScientific Format.binary64 m p =
        roundWithAccuracy Format.binary64 .positive n (-53) .exact := by
  refine ⟨(m <<< 53) * 10 ^ p, ?_, ?_⟩
  · rw [Nat.shiftLeft_eq, Nat.mul_right_comm, ← Nat.shiftLeft_eq,
      log2_shiftLeft (Nat.mul_pos hm (Nat.pow_pos (by decide)))]
  · have hbits : Format.binary64.exponentBits = 11 := rfl
    rw [UnpackedFloat.ofScientific, dif_neg hm.ne', hbits, if_neg (by omega), if_neg (by omega),
      if_pos (by omega)]
    rfl

/-- A number times a power of ten is below twice its bound, once it is rounded. -/
theorem below_ofScientific {m p t : Nat} (hp : p ≤ 2048) (h : m * 10 ^ p < 2 ^ t) :
    Below (t + 1) (UnpackedFloat.ofScientific Format.binary64 m p) := by
  rcases Nat.eq_zero_or_pos m with rfl | hm
  · trivial
  · have hpos : 0 < m * 10 ^ p := Nat.mul_pos hm (Nat.pow_pos (by decide))
    have hlog : (m * 10 ^ p).log2 < t := (Nat.log2_lt hpos.ne').mpr h
    obtain ⟨n, hn, heq⟩ := ofScientific_eq hm hp
    rw [heq]
    refine below_roundWithAccuracy _ _ ?_ (by omega) (by omega)
    rw [totalExponent]
    omega

/-- It is not below a power of two that it was not below, and has all its digits. -/
theorem normal_ofScientific {m p t : Nat} (hp : p ≤ 2048) (h : 2 ^ t ≤ m * 10 ^ p) :
    Normal (t + 1) (UnpackedFloat.ofScientific Format.binary64 m p) := by
  have hpos : 0 < m * 10 ^ p := Nat.lt_of_lt_of_le (Nat.two_pow_pos t) h
  have hlog : t ≤ (m * 10 ^ p).log2 := (Nat.le_log2 hpos.ne').mpr h
  obtain ⟨n, hn, heq⟩ := ofScientific_eq (Nat.pos_of_mul_pos_right hpos) hp
  rw [heq]
  refine normal_roundWithAccuracy _ _ (by omega) ?_ (by omega)
  rw [totalExponent]
  omega

/-- An integer of 64 bits is far from too large for a double. -/
theorem isFinite_ofNat {n : Nat} (h : n < 2 ^ 64) : (Float.ofNat n).isFinite := by
  show (Float.ofScientific n false 0).isFinite
  unfold Float.ofScientific
  split
  · have hn : Below 65 n.toUInt64.toFloat.toModel.unpack :=
      below_packed (below_ofUInt64 n.toUInt64) (by omega) (by omega)
    have hone : Below 1 (Float.ofBits 0x3FF0000000000000).toModel.unpack :=
      below_unpack (by decide +kernel) (by decide +kernel) (by omega)
    exact isFinite_of_below (below_mul hn hone (by omega)) (by omega) (by omega)
  · exact isFinite_of_below (t := 65) (below_ofScientific (by omega) (by omega)) (by omega)
      (by omega)

end Double

namespace Json.Number

open Double

/-- A power of ten that a number is scaled by is at least two, and finite. -/
theorem exponentField_powerOfTen {p : Nat} (hpos : 0 < p) (hp : p ≤ greatestPower) :
    1024 ≤ exponentField (powerOfTen p) ∧ exponentField (powerOfTen p) < 2047 := by
  have hexact : ∀ q < 23, 0 < q →
      1024 ≤ exponentField (powerOfTen q) ∧ exponentField (powerOfTen q) < 2047 := by
    decide +kernel
  -- The greatest power is rounded to less than `2 ^ 1024`, which its digits decide.
  have hgreatest : 1024 ≤ exponentField (powerOfTen greatestPower) ∧
      exponentField (powerOfTen greatestPower) < 2047 := by
    decide +kernel
  rcases Nat.lt_or_ge p 23 with hlt | hge
  · exact hexact p hlt hpos
  · rcases Nat.lt_or_ge p greatestPower with hlt | hge'
    · simp only [greatestPower] at hlt
      have hmodel : powerOfTen p = packed (.ofScientific .binary64 1 p) := by
        rw [powerOfTen, Float.ofScientific, dif_neg (by omega)]
        rfl
      have hlow : 2 ^ 1 ≤ 1 * 10 ^ p := by
        have : 10 ^ 1 ≤ 10 ^ p := Nat.pow_le_pow_right (by decide) hpos
        omega
      have hhigh : 1 * 10 ^ p < 2 ^ 1021 := by
        rw [Nat.one_mul]
        exact Nat.lt_of_le_of_lt (Nat.pow_le_pow_right (by decide) (by omega : p ≤ 307))
          (by decide +kernel)
      have hbelow := below_ofScientific (by omega) hhigh
      have hnormal := normal_ofScientific (by omega) hlow
      have := exponentField_of_below hbelow (by omega) (by omega)
      have := exponentField_of_normal hnormal hbelow (by omega)
      rw [hmodel]
      omega
    · rwa [Nat.le_antisymm hp hge']

/-- The powers of ten that numbers are scaled by are finite. -/
theorem isFinite_powerOfTen {p : Nat} (hpos : 0 < p) (hp : p ≤ greatestPower) :
    (powerOfTen p).isFinite :=
  (isFinite_iff _).mpr (exponentField_powerOfTen hpos hp).2.ne

/-- Dividing a finite double by one of them gives a finite one. -/
theorem isFinite_div_powerOfTen {x : Float} {p : Nat} (hx : x.isFinite) (hpos : 0 < p)
    (hp : p ≤ greatestPower) : (x / powerOfTen p).isFinite :=
  isFinite_div hx (isFinite_powerOfTen hpos hp) (exponentField_powerOfTen hpos hp).1

/-- Scaling a finite double by a power of ten gives a finite one, if any. -/
theorem isFinite_of_scale? {x y : Float} {power : Int} (hx : x.isFinite)
    (h : scale? x power = some y) : y.isFinite := by
  fun_induction scale? x power with
  | case1 x => exact Option.some.inj h ▸ hx
  | case2 => cases h
  | case3 x power hne hle hnonneg product hinf =>
      obtain rfl := Option.some.inj h
      have hp := isFinite_powerOfTen (by omega) hle
      exact (isFinite_or_isInf_mul hx hp).resolve_right hinf
  | case4 x power hne hle =>
      exact Option.some.inj h ▸ isFinite_div_powerOfTen hx (by omega) hle
  | case5 => exact Option.some.inj h ▸ hx
  | case6 => cases h
  | case7 x power hne hlt hnonzero hneg ih =>
      exact ih (isFinite_div_powerOfTen hx (by decide) (Nat.le_refl _)) h

/-- The leading digits of a number stay below the limit on significands. -/
theorem leadingDigits_lt (dropped n : Nat) : (leadingDigits dropped n).1 < significandLimit := by
  fun_induction leadingDigits dropped n with
  | case1 dropped n h => exact h
  | case2 dropped n h ih => exact ih

/-- So they do when digits after the point are appended. -/
theorem appendDigits_lt {significand : Nat} (h : significand < significandLimit) (appended : Nat)
    (cs : List Char) : (appendDigits significand appended cs).1 < significandLimit := by
  fun_induction appendDigits significand appended cs with
  | case1 | case3 => exact h
  | case2 significand appended c cs longer hlt ih => exact ih hlt

/-- **A number that is read is finite.** -/
theorem isFinite_of_toFloat? {n : Number} {x : Float} (h : n.toFloat? = some x) : x.isFinite := by
  have hlt : n.scientific.1 < significandLimit := appendDigits_lt (leadingDigits_lt 0 n.whole) 0 _
  obtain ⟨y, hy, rfl⟩ := Option.map_eq_some_iff.mp h
  have hfinite := isFinite_of_scale? (isFinite_ofNat hlt) hy
  split
  · exact isFinite_neg hfinite
  · exact hfinite

end Json.Number

end TreeScript
