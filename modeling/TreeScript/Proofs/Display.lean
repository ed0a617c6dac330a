import TreeScript.Proofs.Rounding
import TreeScript.Proofs.Shortest
import TreeScript.Value.Text

/-!
# Proofs — numbers are displayed exactly

A number other than zero is displayed by the digits of its shortest decimal, in one of four layouts
(`Decimal.Laid`).  Each of them spells a number, as a reader would read it, of just the decimal's
value (`Decimal.Laid.reads`); so the text of a number can be taken back to the decimal's value, and
the value belongs to no other double.  Two numbers are therefore displayed alike only if they are
equal, or neither is a number (`number_display_exact`).
-/

namespace TreeScript

/-! ### Equality of doubles -/

namespace Double

open Float.Model Float.Model.UnpackedFloat

/-- The sign of a double. -/
def sign (x : Float) : Sign := if isNegative x then .negative else .positive

theorem toNat_unpackMantissa (x : Float) :
    (@unpackMantissa Format.binary64 x.toBits.toBitVec).toNat = fractionField x := by
  simp [unpackMantissa, fractionField, BitVec.extractLsb_toNat]

theorem toNat_unpackSign (x : Float) :
    (@unpackSign Format.binary64 x.toBits.toBitVec).toNat = x.toBits.toNat / 2 ^ 63 := by
  have hlt : x.toBits.toNat / 2 ^ 63 ≤ 1 := by
    have := x.toBits.toNat_lt
    omega
  simpa [unpackSign, BitVec.extractLsb_toNat, Nat.shiftRight_eq_div_pow] using hlt

theorem unpackSign_eq_zero (x : Float) :
    @unpackSign Format.binary64 x.toBits.toBitVec = 0#1 ↔ isNegative x = false := by
  have hlt := x.toBits.toNat_lt
  rw [BitVec.toNat_eq, toNat_unpackSign, isNegative, beq_eq_false_iff_ne, Nat.pow_eq]
  show _ = 0 ↔ _
  omega

theorem ofBitVec_unpackSign (x : Float) :
    Sign.ofBitVec (@unpackSign Format.binary64 x.toBits.toBitVec) = sign x := by
  simp only [Sign.ofBitVec, unpackSign_eq_zero, sign]
  cases isNegative x <;> rfl

/-- A magnitude with a sign, and the unpacked double that it is. -/
inductive Signed (s : Sign) : Magnitude → UnpackedFloat → Prop where
  | nan : Signed s .nan .notANumber
  | infinite : Signed s .infinite (.infinity s)
  | zero : Signed s (.finite 0 (-1074)) (.zero s)
  | finite {m : Nat} {e : Int} (h : 0 < m) : Signed s (.finite m e) (.finite s m e h)

/-- Taking a double apart gives what unpacking it gives. -/
theorem signed_unpack (x : Float) : Signed (sign x) (magnitude x) x.toModel.unpack := by
  have hones : @unpackExponent Format.binary64 x.toBits.toBitVec = -1#_ ↔
      exponentField x = 2047 := by
    rw [BitVec.toNat_eq, toNat_unpackExponent]
    rfl
  have hleast : @unpackExponent Format.binary64 x.toBits.toBitVec = 0#_ ↔
      exponentField x = 0 := by
    rw [BitVec.toNat_eq, toNat_unpackExponent]
    rfl
  have hnone : @unpackMantissa Format.binary64 x.toBits.toBitVec = 0#_ ↔
      fractionField x = 0 := by
    rw [BitVec.toNat_eq, toNat_unpackMantissa]
    rfl
  show Signed _ _ (UnpackedFloat.unpack Format.binary64 x.toBits.toBitVec)
  simp only [UnpackedFloat.unpack, magnitude, ofBitVec_unpackSign, hones, hleast, hnone]
  split
  · split
    · exact .infinite
    · exact .nan
  · split
    · rename_i hfield
      split
      · rename_i hfraction
        rw [hfraction]
        exact .zero
      · simp only [toNat_unpackMantissa, toNat_unpackExponent, hfield]
        exact .finite _
    · simp only [toNat_unpackExponent]
      have hm : (1#1 ++ @unpackMantissa Format.binary64 x.toBits.toBitVec).toNat =
          Nat.pow 2 52 + fractionField x := by
        rw [← toNat_unpackMantissa]
        exact toNat_implicit _
      simp only [hm]
      exact .finite _

/-- A double is finite if it has a significand and an exponent. -/
theorem isFinite_iff_magnitude (x : Float) : x.isFinite ↔ ∃ m e, magnitude x = .finite m e := by
  have hx := signed_unpack x
  show x.toModel.unpack.isFinite ↔ _
  generalize x.toModel.unpack = f at hx
  generalize magnitude x = m at hx ⊢
  cases hx <;> simp [UnpackedFloat.isFinite]

/-- It is not a number if its magnitude says so. -/
theorem isNaN_iff (x : Float) : x.isNaN ↔ magnitude x = .nan := by
  have hx := signed_unpack x
  show x.toModel.unpack.isNaN ↔ _
  generalize x.toModel.unpack = f at hx
  generalize magnitude x = m at hx ⊢
  cases hx <;> simp [UnpackedFloat.isNaN]

/-- **Doubles are equal** if they are numbers of the same magnitude and sign; the sign of zero does
not count. -/
theorem beq_iff (x y : Float) :
    (x == y) = true ↔ magnitude x ≠ .nan ∧ magnitude x = magnitude y ∧
      (isNegative x = isNegative y ∨ magnitude x = .finite 0 (-1074)) := by
  have hx := signed_unpack x
  have hy := signed_unpack y
  have hbeq : (x == y) = (x.toModel.unpack.compare y.toModel.unpack == some .eq) := rfl
  rw [hbeq]
  unfold sign at hx hy
  generalize x.toModel.unpack = f at hx
  generalize y.toModel.unpack = g at hy
  generalize magnitude x = m at hx ⊢
  generalize magnitude y = n at hy ⊢
  generalize isNegative x = a at hx ⊢
  generalize isNegative y = b at hy ⊢
  -- of two infinities the signs decide, of two numbers the exponent and then the significand
  cases hx with
  | nan => simp [UnpackedFloat.compare]
  | infinite =>
      cases hy <;> cases a <;> cases b <;> simp [UnpackedFloat.compare, compare]
  | zero =>
      cases hy <;> cases b <;> simp [UnpackedFloat.compare] <;> omega
  | finite =>
      cases hy <;> cases a <;> cases b <;> simp [UnpackedFloat.compare] <;> omega

end Double

/-! ### Digits -/

namespace Json.Number

/-- The value that a number stands for. -/
def value (n : Number) : ℚ :=
  let unsigned : ℚ :=
    Nat.ofDigitChars 10 n.fraction n.whole * 10 ^ (n.exponent.getD 0 - n.fraction.length)
  if n.negative then -unsigned else unsigned

theorem digitChar_toNat_sub {c : Char} (h : c.isDigit) :
    c.toNat - '0'.toNat < 10 ∧ (c.toNat - '0'.toNat).digitChar = c := by
  have hdigits : ∀ n < 10, n.digitChar = Char.ofNat (n + '0'.toNat) := by decide
  have hbounds := Char.isDigit_iff_toNat.mp h
  simp only [Char.reduceToNat] at hbounds hdigits ⊢
  refine ⟨by omega, ?_⟩
  rw [hdigits _ (by omega), Nat.sub_add_cancel hbounds.1, Char.ofNat_toNat]

/-- Digits that do not start with zero are those of the number that they spell. -/
theorem toDigits_ofDigitChars {cs : List Char} (hdigits : ∀ c ∈ cs, c.isDigit) (hne : cs ≠ [])
    (hhead : cs.head? ≠ some '0') : Nat.toDigits 10 (Nat.ofDigitChars 10 cs 0) = cs := by
  induction cs using List.reverseRecOn with
  | nil => exact absurd rfl hne
  | append_singleton cs c ih =>
      obtain ⟨hlt, hchar⟩ := digitChar_toNat_sub (hdigits c (by simp))
      rw [Nat.ofDigitChars_append, Nat.ofDigitChars_cons, Nat.ofDigitChars_nil]
      by_cases hcs : cs = []
      · rw [hcs, Nat.ofDigitChars_nil, Nat.mul_zero, Nat.zero_add, Nat.toDigits_of_lt_base hlt,
          hchar]
        rfl
      · have hhead' : cs.head? ≠ some '0' := by
          rwa [List.head?_append_of_ne_nil _ hcs] at hhead
        have hinit := ih (fun d hd => hdigits d (List.mem_append_left _ hd)) hcs hhead'
        have hpos : 0 < Nat.ofDigitChars 10 cs 0 := by
          rcases Nat.eq_zero_or_pos (Nat.ofDigitChars 10 cs 0) with hzero | hpos
          · rw [hzero, Nat.toDigits_zero] at hinit
            rw [← hinit] at hhead'
            exact absurd rfl hhead'
          · exact hpos
        rw [← Nat.toDigits_append_toDigits (by decide) hpos hlt, hinit,
          Nat.toDigits_of_lt_base hlt, hchar]

/-- The digits before the point of a number: a single zero, or digits that do not start with
zero. -/
def Whole (cs : List Char) : Prop :=
  cs = ['0'] ∨ (∀ c ∈ cs, c.isDigit) ∧ cs ≠ [] ∧ cs.head? ≠ some '0'

/-- The number by the digits before and after its point. -/
def ofDigits (negative : Bool) (whole fraction : List Char) (exponent : Option Int) : Number :=
  ⟨negative, Nat.ofDigitChars 10 whole 0, fraction, exponent⟩

/-- Digits with a point between them are read as the number. -/
theorem read?_ofDigits {whole fraction : List Char} (hwhole : Whole whole)
    (hfraction : ∀ c ∈ fraction, c.isDigit) (negative : Bool) (exponent : Option Int) :
    read? ((if negative then ['-'] else []) ++ (Decimal.Layout.pointed whole fraction ++
      (ofDigits negative whole fraction exponent).exponentText)) =
        some (ofDigits negative whole fraction exponent) := by
  have hdigits : Nat.toDigits 10 (Nat.ofDigitChars 10 whole 0) = whole := by
    rcases hwhole with rfl | ⟨hdigits, hne, hhead⟩
    · decide
    · exact toDigits_ofDigitChars hdigits hne hhead
  have hpointed : Decimal.Layout.pointed whole fraction =
      Nat.toDigits 10 (Nat.ofDigitChars 10 whole 0) ++
        (ofDigits negative whole fraction exponent).fractionText := by
    rw [hdigits]
    cases fraction with
    | nil => exact (List.append_nil whole).symm
    | cons c cs => rfl
  have hread := read?_writeNumber (n := ofDigits negative whole fraction exponent) hfraction
  rw [writeNumber_eq] at hread
  rw [hpointed, List.append_assoc]
  exact hread

end Json.Number

/-! ### Layouts -/

namespace Decimal

/-- The digits are digits, the first is there and is not zero, and the last is not zero. -/
structure Clean (d : Decimal) : Prop where
  spelled : d.Spelled
  head_ne : d.digits.head? ≠ some '0'
  last_ne : d.digits.getLast? ≠ some '0'
  ne_nil : d.digits ≠ []

theorem Reduced.clean {d : Decimal} (h : d.Reduced) : d.Clean := by
  obtain ⟨n, hn, hdigits⟩ := h
  refine ⟨?_, ?_, ?_, ?_⟩
  · rw [Spelled, hdigits]
    exact Json.Number.isDigit_toDigits
  · rw [hdigits]
    intro hhead
    rw [Json.Number.eq_zero_of_head?_toDigits hhead] at hn
    exact hn rfl
  · have hlast := digitChar_ne_zero (n % 10) (by omega) hn
    rw [hdigits, Nat.toDigits_eq_if (by decide)]
    split
    · rename_i hlt
      rw [Nat.mod_eq_of_lt hlt] at hlast
      simpa using hlast
    · simpa using hlast
  · rw [hdigits]
    exact Nat.toDigits_ne_nil

/-- How a decimal is displayed.  Wherever the digits are split, both parts are there. -/
inductive Laid (d : Decimal) : List Char → Prop where
  /-- The point is not before the end of the digits: zeros fill up to it. -/
  | whole (zeros : Nat) : d.exponent + 1 = d.digits.length + zeros → d.exponent ≤ 20 →
      Laid d (d.digits ++ List.replicate zeros '0')
  /-- The point is among the digits. -/
  | split (before after : List Char) : d.digits = before ++ after → before ≠ [] → after ≠ [] →
      d.exponent + 1 = before.length → d.exponent ≤ 20 → Laid d (before ++ '.' :: after)
  /-- The point is before the digits, with zeros between. -/
  | small (zeros : Nat) : d.exponent + 1 + zeros = 0 → -6 ≤ d.exponent →
      Laid d ('0' :: '.' :: (List.replicate zeros '0' ++ d.digits))
  /-- The point is too far away: the exponent tells where. -/
  | far (first : Char) (rest : List Char) : d.digits = first :: rest →
      (d.exponent < -6 ∨ 20 < d.exponent) →
      Laid d (Layout.pointed [first] rest ++
        'e' :: (if d.exponent < 0 then '-' else '+') :: Nat.toDigits 10 d.exponent.natAbs)

/-- Numbers are laid out with all their digits between two powers of ten. -/
theorem isPositional_displayLayout (d : Decimal) :
    Value.displayLayout.isPositional d = true ↔ -6 ≤ d.exponent ∧ d.exponent ≤ 20 := by
  rw [Layout.isPositional, Bool.and_eq_true, decide_eq_true_iff, decide_eq_true_iff]
  rfl

/-- Between the two, the text is the digits, with a point or zeros where they are due. -/
theorem decimalText_positional {d : Decimal} (h : -6 ≤ d.exponent ∧ d.exponent ≤ 20) :
    Value.displayLayout.decimalText d = Layout.pointed d.positional.1 d.positional.2 := by
  rw [Layout.decimalText, if_pos ((isPositional_displayLayout d).mpr h)]
  simp only [Value.displayLayout, Bool.and_false, Bool.false_eq_true, if_false]

/-- Elsewhere it is the digits with an exponent. -/
theorem decimalText_normalized {d : Decimal} (h : d.exponent < -6 ∨ 20 < d.exponent) :
    Value.displayLayout.decimalText d = Layout.pointed (d.digits.take 1) (d.digits.drop 1) ++
      'e' :: (if d.exponent < 0 then '-' else '+') :: Nat.toDigits 10 d.exponent.natAbs := by
  rw [Layout.decimalText, if_neg fun hnear => by
    have := (isPositional_displayLayout d).mp hnear
    omega]
  simp only [normalized, Layout.exponentText, Value.displayLayout, if_true]
  split <;> rfl

/-- **Every decimal is laid out in one of the four ways.** -/
theorem laid_decimalText {d : Decimal} (h : d.digits ≠ []) :
    d.Laid (Value.displayLayout.decimalText d) := by
  by_cases hnear : -6 ≤ d.exponent ∧ d.exponent ≤ 20
  · rw [decimalText_positional hnear]
    by_cases hneg : d.exponent < 0
    · have hsome : (List.replicate (-d.exponent - 1).toNat '0' ++ d.digits).isEmpty = false := by
        simp [h]
      rw [positional, if_pos hneg, Layout.pointed, hsome]
      exact .small _ (by omega) hnear.1
    · simp only [positional, if_neg hneg]
      generalize hpoint : d.exponent.toNat + 1 = point
      by_cases hlength : d.digits.length ≤ point
      · rw [List.take_of_length_le hlength, List.drop_of_length_le hlength]
        exact .whole _ (by omega) hnear.2
      · rw [Nat.sub_eq_zero_of_le (by omega), List.replicate_zero, List.append_nil]
        have hdrop : d.digits.drop point ≠ [] := by
          simpa using hlength
        have htake : d.digits.take point ≠ [] := by
          rw [ne_eq, List.take_eq_nil_iff, not_or]
          exact ⟨by omega, h⟩
        rw [Layout.pointed, if_neg (by simpa using hlength)]
        refine .split _ _ (List.take_append_drop ..).symm htake hdrop ?_ hnear.2
        rw [List.length_take]
        omega
  · have hfar : d.exponent < -6 ∨ 20 < d.exponent := by omega
    obtain ⟨first, rest, hdigits⟩ := List.exists_cons_of_ne_nil h
    rw [decimalText_normalized hfar, hdigits]
    exact .far first rest hdigits hfar

/-- Digits before and after a point that, with the exponent, stand for the decimal. -/
structure Spells (d : Decimal) (whole fraction : List Char) (exponent : Option Int) : Prop where
  isWhole : Json.Number.Whole whole
  isDigit : ∀ c ∈ fraction, c.isDigit
  last_ne : fraction.getLast? ≠ some '0'
  value_eq : (Nat.ofDigitChars 10 (whole ++ fraction) 0 : ℚ) *
    10 ^ (exponent.getD 0 - fraction.length) = d.value
  near : exponent = none ↔ -6 ≤ d.exponent ∧ d.exponent ≤ 20

theorem isDigit_of_mem_replicate {n : Nat} {c : Char} (h : c ∈ List.replicate n '0') :
    c.isDigit := by
  rw [List.eq_of_mem_replicate h]
  decide

/-- **Each layout spells the decimal.** -/
theorem Laid.spells {d : Decimal} {text : List Char} (h : d.Laid text) (hd : d.Clean)
    (negative : Bool) :
    ∃ whole fraction exponent, d.Spells whole fraction exponent ∧
      text = Layout.pointed whole fraction ++
        (Json.Number.ofDigits negative whole fraction exponent).exponentText := by
  obtain ⟨hspelled, hhead, hlast, hne⟩ := hd
  cases h with
  | whole zeros hpoint hhigh =>
      refine ⟨d.digits ++ List.replicate zeros '0', [], none, ⟨?_, ?_, ?_, ?_, ?_⟩, ?_⟩
      · refine .inr ⟨?_, by simp [hne], by rwa [List.head?_append_of_ne_nil _ hne]⟩
        exact List.forall_mem_append.mpr ⟨hspelled, fun c hc => isDigit_of_mem_replicate hc⟩
      · simp
      · simp
      · have hexponent : d.exponent - d.digits.length + 1 = zeros := by omega
        rw [value, hexponent, List.append_nil, Nat.ofDigitChars_append,
          Nat.ofDigitChars_replicate_zero]
        simp [mul_comm]
      · simp only [true_iff]
        omega
      · exact (List.append_nil _).symm
  | split before after hdigits hbefore hafter hpoint hhigh =>
      rw [Spelled, hdigits, List.forall_mem_append] at hspelled
      rw [hdigits, List.head?_append_of_ne_nil _ hbefore] at hhead
      rw [hdigits, List.getLast?_append_of_ne_nil _ hafter] at hlast
      refine ⟨before, after, none, ⟨.inr ⟨hspelled.1, hbefore, hhead⟩, hspelled.2, hlast, ?_, ?_⟩,
        ?_⟩
      · have hexponent : d.exponent - (before ++ after).length + 1 = 0 - after.length := by
          rw [List.length_append]
          omega
        rw [value, hdigits, hexponent]
        rfl
      · simp only [true_iff]
        omega
      · simp [Layout.pointed, hafter, Json.Number.exponentText, Json.Number.ofDigits]
  | small zeros hpoint hlow =>
      refine ⟨['0'], List.replicate zeros '0' ++ d.digits, none, ⟨.inl rfl, ?_, ?_, ?_, ?_⟩, ?_⟩
      · exact List.forall_mem_append.mpr ⟨fun c hc => isDigit_of_mem_replicate hc, hspelled⟩
      · rwa [List.getLast?_append_of_ne_nil _ hne]
      · have hexponent : d.exponent - d.digits.length + 1 =
            0 - (List.replicate zeros '0' ++ d.digits).length := by
          rw [List.length_append, List.length_replicate]
          omega
        have hzero : Nat.ofDigitChars 10 ['0'] 0 = 0 := rfl
        rw [value, hexponent, Nat.ofDigitChars_append, hzero, Nat.ofDigitChars_append,
          Nat.ofDigitChars_replicate_zero, Nat.mul_zero]
        rfl
      · simp only [true_iff]
        omega
      · simp [Layout.pointed, hne, Json.Number.exponentText, Json.Number.ofDigits]
  | far first rest hdigits hfar =>
      rw [Spelled, hdigits, List.forall_mem_cons] at hspelled
      refine ⟨[first], rest, some d.exponent, ⟨.inr ⟨?_, by simp, ?_⟩, hspelled.2, ?_, ?_, ?_⟩, rfl⟩
      · exact List.forall_mem_singleton.mpr hspelled.1
      · rwa [hdigits] at hhead
      · intro hrest
        rw [hdigits, List.getLast?_cons, hrest] at hlast
        exact hlast rfl
      · have hexponent : d.exponent - (first :: rest).length + 1 = d.exponent - rest.length := by
          rw [List.length_cons]
          omega
        rw [value, hdigits, hexponent]
        rfl
      · simp only [reduceCtorEq, false_iff]
        omega

/-- **What is displayed is read as the decimal's value**, with an exponent just where the point is
too far away, and without zeros at the end of the fraction. -/
theorem Laid.reads {d : Decimal} {text : List Char} (h : d.Laid text) (hd : d.Clean)
    (negative : Bool) :
    ∃ n : Json.Number,
      Json.Number.read? ((if negative then ['-'] else []) ++ text) = some n ∧
      n.value = (if negative then -d.value else d.value) ∧
      (n.exponent = none ↔ -6 ≤ d.exponent ∧ d.exponent ≤ 20) ∧
      n.fraction.getLast? ≠ some '0' := by
  obtain ⟨whole, fraction, exponent, hspells, rfl⟩ := h.spells hd negative
  refine ⟨.ofDigits negative whole fraction exponent,
    Json.Number.read?_ofDigits hspells.isWhole hspells.isDigit negative exponent, ?_, hspells.near,
    hspells.last_ne⟩
  rw [← hspells.value_eq, Nat.ofDigitChars_append]
  rfl

end Decimal

/-! ### Rounding back -/

namespace Double

theorem magnitude_of_zero {x : Float} {e : Int} (h : magnitude x = .finite 0 e) :
    magnitude x = .finite 0 (-1074) := by
  have hcanonical := canonical_of_magnitude h
  have hfull := hcanonical.full
  have hleast := hcanonical.least_le
  obtain rfl : e = -1074 := by omega
  exact h

/-- The rational rounds to the double. -/
inductive Rounds (q : ℚ) (x : Float) : Prop where
  | zero : magnitude x = .finite 0 (-1074) → q = 0 → Rounds q x
  | nonzero {m : Nat} {e : Int} : magnitude x = .finite m e → 0 < m →
      (Decimal.Interval.ofParts m e).Holds |q| → (isNegative x ↔ q < 0) → Rounds q x

/-- **A rational rounds to one double**, up to the sign of zero. -/
theorem Rounds.beq {q : ℚ} {x y : Float} (hx : Rounds q x) (hy : Rounds q y) :
    (x == y) = true := by
  rw [beq_iff]
  cases hx with
  | zero hmx hq =>
      cases hy with
      | zero hmy => simp [hmx, hmy]
      | nonzero _ hm hholds =>
          have := hholds.pos (Decimal.Interval.proper_ofParts hm _)
          simp [hq] at this
  | nonzero hmx hm hholds hsign =>
      cases hy with
      | zero _ hq =>
          have := hholds.pos (Decimal.Interval.proper_ofParts hm _)
          simp [hq] at this
      | nonzero hmy hm' hholds' hsign' =>
          obtain ⟨rfl, rfl⟩ := hholds.unique hholds' (canonical_of_magnitude hmx)
            (canonical_of_magnitude hmy) hm hm'
          have hsame : isNegative x = isNegative y := Bool.eq_iff_iff.mpr (hsign.trans hsign'.symm)
          simp [hmx, hmy, hsame]

end Double

/-! ### The display form -/

section

variable {x y : Float} {m : Nat} {e : Int}

/-- What is finite and not zero is displayed by its shortest digits. -/
theorem display_of_finite (h : Double.magnitude x = .finite m e) (hm : 0 < m) :
    (Value.number x).display = String.ofList ((if Double.isNegative x then ['-'] else []) ++
      Value.displayLayout.decimalText (Decimal.shortest .up m e)) := by
  obtain ⟨m, rfl⟩ := Nat.exists_eq_succ_of_ne_zero hm.ne'
  simp only [Value.display, Decimal.Layout.text, h]
  rfl

/-- Zero is displayed without a sign. -/
theorem display_of_zero (h : Double.magnitude x = .finite 0 e) :
    (Value.number x).display = "0" := by
  simp only [Value.display, Decimal.Layout.text, h]
  rfl

theorem display_of_nan (h : Double.magnitude x = .nan) : (Value.number x).display = "NaN" := by
  simp only [Value.display, Decimal.Layout.text, h]
  rfl

theorem display_of_infinite (h : Double.magnitude x = .infinite) :
    (Value.number x).display = if Double.isNegative x then "-Infinity" else "Infinity" := by
  simp only [Value.display, Decimal.Layout.text, h]
  split <;> rfl

/-- What makes a decimal the shortest one of a double.  Its value is in the interval of the double:
no other double is nearer, and one that is as near gives way to an even significand.  No decimal in
the interval has fewer digits. -/
structure Decimal.Represents (d : Decimal) (m : Nat) (e : Int) : Prop where
  clean : d.Clean
  length_le : d.digits.length ≤ 17
  holds : (Interval.ofParts m e).Holds d.value
  nearest : ∀ m' e', Double.Canonical m' e' → (m' ≠ m ∨ e' ≠ e) →
    |d.value - Double.unsigned m e| < |d.value - Double.unsigned m' e'| ∨
      |d.value - Double.unsigned m e| = |d.value - Double.unsigned m' e'| ∧ m % 2 = 0
  shortest : ∀ d' : Decimal, d'.Spelled → d'.digits ≠ [] →
    (Interval.ofParts m e).Holds d'.value → d.digits.length ≤ d'.digits.length

theorem Decimal.shortest_represents (hm : Double.Canonical m e) (hpos : 0 < m) (tie : Tie) :
    (shortest tie m e).Represents m e := by
  obtain ⟨hreduced, hlength, hholds⟩ := shortest_spec hm hpos tie
  exact ⟨hreduced.clean, hlength, hholds, fun m' e' hm' hne => hholds.nearest hm hm' hpos hne,
    fun d' hdigits hne hd' => length_shortest_le hm hpos tie hdigits hne hd'⟩

/-- **A finite double is displayed as a number that rounds to it.** -/
theorem display_rounds (h : Double.magnitude x = .finite m e) :
    ∃ n, Json.Number.read? (Value.number x).display.toList = some n ∧ Double.Rounds n.value x := by
  rcases Nat.eq_zero_or_pos m with rfl | hm
  · rw [display_of_zero h]
    exact ⟨{ whole := 0 }, rfl, .zero (Double.magnitude_of_zero h) (by simp [Json.Number.value])⟩
  · obtain ⟨hclean, -, hholds, -, -⟩ :=
      Decimal.shortest_represents (Double.canonical_of_magnitude h) hm .up
    have hpos := hholds.pos (Decimal.Interval.proper_ofParts hm e)
    obtain ⟨n, hread, hvalue, -⟩ :=
      (Decimal.laid_decimalText hclean.ne_nil).reads hclean (Double.isNegative x)
    rw [display_of_finite h hm, String.toList_ofList]
    refine ⟨n, hread, .nonzero h hm ?_ ?_⟩ <;> rw [hvalue]
    · split
      · rwa [abs_neg, abs_of_pos hpos]
      · rwa [abs_of_pos hpos]
    · cases Double.isNegative x
      · simp [hpos.le]
      · simp [hpos]

theorem read?_display_of_not_finite
    (h : Double.magnitude x = .nan ∨ Double.magnitude x = .infinite) :
    Json.Number.read? (Value.number x).display.toList = none := by
  rcases h with h | h
  · rw [display_of_nan h]
    rfl
  · rw [display_of_infinite h]
    split <;> rfl

/-- Equal doubles are displayed alike. -/
theorem display_eq_of_beq (h : (x == y) = true) :
    (Value.number x).display = (Value.number y).display := by
  obtain ⟨-, hmagnitude, hsign | hzero⟩ := (Double.beq_iff x y).mp h
  · simp only [Value.display, Decimal.Layout.text, hmagnitude, hsign]
  · rw [display_of_zero hzero, display_of_zero (hmagnitude ▸ hzero)]

/-- A double that is displayed like a finite one is finite. -/
theorem finite_of_display_eq (h : (Value.number x).display = (Value.number y).display)
    (hx : Double.magnitude x = .finite m e) : ∃ m' e', Double.magnitude y = .finite m' e' := by
  obtain ⟨n, hn, -⟩ := display_rounds hx
  cases hy : Double.magnitude y with
  | finite m' e' => exact ⟨m', e', rfl⟩
  | nan =>
      rw [h, read?_display_of_not_finite (.inl hy)] at hn
      cases hn
  | infinite =>
      rw [h, read?_display_of_not_finite (.inr hy)] at hn
      cases hn

/-- Doubles that are displayed alike are equal, unless they are no numbers. -/
theorem beq_of_display_eq (h : (Value.number x).display = (Value.number y).display) :
    (x == y) = true ∨ x.isNaN ∧ y.isNaN := by
  cases hx : Double.magnitude x with
  | finite m e =>
      obtain ⟨m', e', hy⟩ := finite_of_display_eq h hx
      obtain ⟨n, hn, hrounds⟩ := display_rounds hx
      obtain ⟨n', hn', hrounds'⟩ := display_rounds hy
      rw [h, hn'] at hn
      exact .inl (hrounds.beq (Option.some.inj hn ▸ hrounds'))
  | nan =>
      cases hy : Double.magnitude y with
      | finite m e =>
          obtain ⟨_, _, hfinite⟩ := finite_of_display_eq h.symm hy
          cases hx.symm.trans hfinite
      | nan => exact .inr ⟨(Double.isNaN_iff x).mpr hx, (Double.isNaN_iff y).mpr hy⟩
      | infinite =>
          rw [display_of_nan hx, display_of_infinite hy] at h
          split at h <;> exact absurd h (by decide)
  | infinite =>
      cases hy : Double.magnitude y with
      | finite m e =>
          obtain ⟨_, _, hfinite⟩ := finite_of_display_eq h.symm hy
          cases hx.symm.trans hfinite
      | nan =>
          rw [display_of_infinite hx, display_of_nan hy] at h
          split at h <;> exact absurd h (by decide)
      | infinite =>
          have hsign : Double.isNegative x = Double.isNegative y := by
            rw [display_of_infinite hx, display_of_infinite hy] at h
            cases hneg : Double.isNegative x <;> cases hneg' : Double.isNegative y <;>
              simp [hneg, hneg'] at h ⊢
          exact .inl ((Double.beq_iff x y).mpr ⟨by simp [hx], hx.trans hy.symm, .inl hsign⟩)

end

/-- **Numbers are displayed exactly, and no two alike.**  Let `d` be the shortest decimal of a
finite double other than zero.  The double's text is its sign and then one of the four layouts of
`d`, and is read as a number of just the value of `d`, with the sign; the number has no exponent if
that of `d` lies from `-6` to `20`, and only then, and no zero at the end of its fraction.  Two
doubles are displayed alike if they are equal or both are no numbers, and only then. -/
theorem number_display_exact (x : Float) :
    (x.isFinite → (x == 0.0) = false →
      ∃ m e d text n, Double.magnitude x = .finite m e ∧ d = Decimal.shortest .up m e ∧
        d.Represents m e ∧
        (Value.number x).display =
          String.ofList ((if Double.isNegative x then ['-'] else []) ++ text) ∧
        d.Laid text ∧ Json.Number.read? (Value.number x).display.toList = some n ∧
        n.value = (if Double.isNegative x then -d.value else d.value) ∧
        (n.exponent = none ↔ -6 ≤ d.exponent ∧ d.exponent ≤ 20) ∧
        n.fraction.getLast? ≠ some '0') ∧
    ∀ y : Float, (Value.number x).display = (Value.number y).display ↔
      (x == y) = true ∨ x.isNaN ∧ y.isNaN := by
  refine ⟨fun hfinite hnonzero => ?_, fun y => ⟨beq_of_display_eq, ?_⟩⟩
  · obtain ⟨m, e, hx⟩ := (Double.isFinite_iff_magnitude x).mp hfinite
    have hm : 0 < m := by
      rcases Nat.eq_zero_or_pos m with rfl | hm
      · have hzero := Double.magnitude_of_zero hx
        have hbeq : (x == 0.0) = true :=
          (Double.beq_iff x 0.0).mpr ⟨by simp [hzero], hzero, .inr hzero⟩
        cases hbeq.symm.trans hnonzero
      · exact hm
    have hrepresents := Decimal.shortest_represents (Double.canonical_of_magnitude hx) hm .up
    have hlaid := Decimal.laid_decimalText hrepresents.clean.ne_nil
    obtain ⟨n, hread, hn⟩ := hlaid.reads hrepresents.clean (Double.isNegative x)
    have hdisplay := display_of_finite hx hm
    refine ⟨m, e, _, _, n, hx, rfl, hrepresents, hdisplay, hlaid, ?_, hn⟩
    rwa [hdisplay, String.toList_ofList]
  · rintro (hbeq | ⟨hx, hy⟩)
    · exact display_eq_of_beq hbeq
    · rw [display_of_nan ((Double.isNaN_iff x).mp hx), display_of_nan ((Double.isNaN_iff y).mp hy)]

/-- The least power of ten that is written out is `1e-6`; the next below it is written with an
exponent, and so the two are different doubles. -/
theorem number_display_exact_millionth :
    (1e-6 : Float).isFinite ∧ ((1e-6 : Float) == 0.0) = false ∧
    (Value.number 1e-6).display = "0.000001" ∧ (Value.number 1e-7).display = "1e-7" ∧
    ((1e-6 : Float) == 1e-7) = false ∧
    ∃ d : Decimal, d.value = 1 / 10 ^ 6 ∧ -6 ≤ d.exponent ∧ d.Laid "0.000001".toList := by
  have hfinite : (1e-6 : Float).isFinite := by decide +kernel
  have hnonzero : ((1e-6 : Float) == 0.0) = false := by decide +kernel
  have hsmall : (Value.number 1e-6).display = "0.000001" := by decide +kernel
  have hfar : (Value.number 1e-7).display = "1e-7" := by decide +kernel
  obtain ⟨hexact, halike⟩ := number_display_exact 1e-6
  obtain ⟨m, e, d, text, n, hm, hd, -, htext, hlaid, hread, hvalue, hexponent, -⟩ :=
    hexact hfinite hnonzero
  have hsign : Double.isNegative 1e-6 = false := by decide +kernel
  rw [hsign, hsmall] at htext
  rw [hsmall] at hread
  obtain rfl : n = { whole := 0, fraction := "000001".toList } :=
    Option.some.inj (hread.symm.trans rfl)
  refine ⟨hfinite, hnonzero, hsmall, hfar, ?_, d, ?_, (hexponent.mp rfl).1, ?_⟩
  · rw [Bool.eq_false_iff]
    intro hbeq
    have := (halike 1e-7).mpr (.inl hbeq)
    rw [hsmall, hfar] at this
    exact absurd this (by decide)
  · rw [hsign] at hvalue
    refine hvalue.symm.trans ?_
    simp [Json.Number.value, Nat.ofDigitChars_cons]
  · rw [htext, String.toList_ofList]
    exact hlaid

end TreeScript
