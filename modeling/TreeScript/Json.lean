import TreeScript.Decimal.Layout

/-!
# JSON values

A JSON value as its text spells it: numbers keep their digits, and the members of an object keep
their order and their repetitions.  Rounding a number and looking up a member are left to whoever
reads the value.
-/

namespace TreeScript

namespace Json

/-- A number as it is spelled: sign, whole part, digits after the point, exponent. -/
structure Number where
  negative : Bool := false
  whole : Nat
  fraction : List Char := []
  exponent : Option Int := none
deriving DecidableEq, Repr, Inhabited

/-- What a string literal denotes; `none` if its escapes leave a surrogate unpaired, since then it
is well formed and denotes no text. -/
abbrev Literal := Option String

end Json

/-- A JSON value. -/
inductive Json where
  | null
  | bool (value : Bool)
  | number (value : Json.Number)
  | string (value : Json.Literal)
  | array (items : List Json)
  | object (members : List (Json.Literal × Json))
deriving Inhabited

namespace Json

namespace Number

/-- The number spelled by a natural number's digits. -/
def ofNat (n : Nat) : Number := { whole := n }

/-- The natural number, if the spelling has neither sign nor point nor exponent. -/
def toNat? (n : Number) : Option Nat :=
  if n.negative || !n.fraction.isEmpty || n.exponent.isSome then none else some n.whole

/-! ### Reading a double

A number is read as a significand of 64 bits and a power of ten, so one with more digits loses the
last of them.  The double is the significand, rounded, times or divided by the power, rounded; it is
within a few units in the last place of the number, and often the nearest. -/

/-- Significands are smaller than this. -/
def significandLimit : Nat := Nat.pow 2 64

/-- The most leading digits of a natural number that make a significand, and the number of digits
after them, of which `dropped` are gone already. -/
def leadingDigits (dropped n : Nat) : Nat × Nat :=
  if n < significandLimit then (n, dropped) else leadingDigits (dropped + 1) (n / 10)
termination_by n
decreasing_by simp only [significandLimit, Nat.pow_eq] at *; omega

/-- A significand with the next digits appended while it stays one, and the number of digits
appended, `appended` of them before. -/
def appendDigits (significand appended : Nat) : List Char → Nat × Nat
  | [] => (significand, appended)
  | c :: cs =>
    let longer := significand * 10 + (c.toNat - '0'.toNat)
    if longer < significandLimit then appendDigits longer (appended + 1) cs
    else (significand, appended)

/-- The significand and the power of ten that stand for the number without its sign. -/
def scientific (n : Number) : Nat × Int :=
  let (whole, dropped) := leadingDigits 0 n.whole
  let (significand, appended) := appendDigits whole 0 n.fraction
  (significand, dropped - appended + n.exponent.getD 0)

/-- The greatest power of ten that is a double. -/
def greatestPower : Nat := 308

/-- A power of ten, up to the greatest. -/
def powerOfTen (power : Nat) : Float := Float.ofScientific 1 false power

/-- A double times a power of ten, or none if that is too large.  Dividing by more than the greatest
power of ten takes several divisions. -/
def scale? (x : Float) (power : Int) : Option Float :=
  if power = 0 then some x
  else if power.natAbs ≤ greatestPower then
    if 0 ≤ power then
      let product := x * powerOfTen power.natAbs
      if product.isInf then none else some product
    else some (x / powerOfTen power.natAbs)
  else if x == 0.0 then some x
  else if 0 ≤ power then none
  else scale? (x / powerOfTen greatestPower) (power + greatestPower)
termination_by power.natAbs
decreasing_by simp only [greatestPower] at *; omega

/-- The double that the number is read as, or none if the number is too large for one. -/
def toFloat? (n : Number) : Option Float :=
  let (significand, power) := n.scientific
  (scale? (Float.ofNat significand) power).map fun x => if n.negative then -x else x

/-! ### Spelling a double -/

/-- Doubles are spelled positionally from `1e-5` up to `1e16` and always show that they are not
integers; elsewhere the exponent has its sign. -/
def layout : Decimal.Layout where
  lowest := -5
  highest := 15
  keepsPoint := true
  signsExponent := true
  signsZero := true
  tie := .toEven
  nan := "null"
  infinity := "null"

/-- The spelling of a decimal. -/
def ofDecimal (negative : Bool) (d : Decimal) : Number :=
  if layout.isPositional d then
    let (whole, fraction) := d.positional
    { negative, whole := Nat.ofDigitChars 10 whole 0
      fraction := if fraction.isEmpty then ['0'] else fraction }
  else
    let (whole, fraction) := d.normalized
    { negative, whole := Nat.ofDigitChars 10 whole 0, fraction, exponent := some d.exponent }

/-- The spelling of a double; only finite doubles have one. -/
def ofFloat? (x : Float) : Option Number :=
  match Double.magnitude x with
  | .finite 0 _ => some (ofDecimal (Double.isNegative x) Decimal.zero)
  | .finite m e => some (ofDecimal (Double.isNegative x) (Decimal.shortest layout.tie m e))
  | _ => none

end Number

/-- A natural number as a value. -/
def nat (n : Nat) : Json := number (.ofNat n)

/-- A text as a value. -/
def text (s : String) : Json := string (some s)

/-- An object with texts as names. -/
def record (members : List (String × Json)) : Json :=
  object (members.map fun (name, value) => (some name, value))

/-- A double as a value; one that is not finite becomes null. -/
def float (x : Float) : Json :=
  match Number.ofFloat? x with
  | some n => number n
  | none => null

mutual

/-- Whether the value nests at most `depth` arrays and objects, denotes a text by every string and
name, and a double by every number. -/
def fits (depth : Nat) : Json → Bool
  | null | bool _ => true
  | number n => n.toFloat?.isSome
  | string s => s.isSome
  | array items =>
    match depth with
    | 0 => false
    | depth + 1 => itemsFit depth items
  | object members =>
    match depth with
    | 0 => false
    | depth + 1 => membersFit depth members

/-- Whether every item fits. -/
def itemsFit (depth : Nat) : List Json → Bool
  | [] => true
  | item :: items => fits depth item && itemsFit depth items

/-- Whether every member fits, name and value. -/
def membersFit (depth : Nat) : List (Literal × Json) → Bool
  | [] => true
  | (name, value) :: members => name.isSome && fits depth value && membersFit depth members

end

end Json

end TreeScript
