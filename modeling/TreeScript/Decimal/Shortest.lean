import TreeScript.Double

/-!
# The shortest decimal of a double

A double stands for every real number that rounds to it.  Its shortest decimal is the one of fewest
digits among them, and of several that short the nearest to the double's own value.  The search
compares exactly, over the natural numbers: for one digit, then two, and so on, it looks at the two
neighbours of the value among the decimals with that many digits.
-/

namespace TreeScript

/-- The decimal `d₁.d₂…dₖ * 10 ^ exponent`, by its digits. -/
structure Decimal where
  digits : List Char
  exponent : Int
deriving DecidableEq, Repr, Inhabited

namespace Decimal

/-- Zero, written with its one digit. -/
def zero : Decimal := ⟨['0'], 0⟩

/-- Which of two equally near decimals is taken. -/
inductive Tie where
  | up
  | toEven
deriving DecidableEq, Repr, Inhabited

/-- Whether `n + rest / den` with `rest < den` is nearer to `n + 1` than to `n`, a tie decided. -/
def Tie.roundsUp (tie : Tie) (n rest den : Nat) : Bool :=
  match compare (2 * rest) den with
  | .lt => false
  | .gt => true
  | .eq => tie == .up || n % 2 == 1

/-- The fraction `num / den` scaled by a power of ten, `num / den * 10 ^ power`. -/
def scale (num den : Nat) (power : Int) : Nat × Nat :=
  (num * Nat.pow 10 power.toNat, den * Nat.pow 10 (-power).toNat)

/-- The exponent `e` for which `10 ^ e ≤ num / den < 10 ^ (e + 1)`. -/
def leadingExponent (num den : Nat) : Int :=
  let guess : Int := (Nat.toDigits 10 num).length - (Nat.toDigits 10 den).length
  let (n, d) := scale num den (-guess)
  if d ≤ n then guess else guess - 1

/-- The positive double `significand * 2 ^ exponent` and the interval of reals that round to it, as
fractions over one denominator. -/
structure Interval where
  low : Nat
  value : Nat
  high : Nat
  den : Nat
  /-- Whether the ends themselves round to the double. -/
  closed : Bool

/-- The interval reaches half way to the next double on either side.  Below a power of two the
doubles lie twice as dense, and a tie goes to the even significand. -/
def Interval.ofParts (significand : Nat) (exponent : Int) : Interval :=
  let unit := Nat.pow 2 (exponent - 2).toNat
  let below := if significand = Nat.pow 2 52 ∧ -1074 < exponent then 1 else 2
  { low := (4 * significand - below) * unit
    value := 4 * significand * unit
    high := (4 * significand + 2) * unit
    den := Nat.pow 2 (2 - exponent).toNat
    closed := significand % 2 == 0 }

/-- Whether `n * 10 ^ power` rounds to the double. -/
def Interval.contains (i : Interval) (n : Nat) (power : Int) : Bool :=
  let (a, b) := scale n 1 power
  if i.closed then i.low * b ≤ a * i.den && a * i.den ≤ i.high * b
  else i.low * b < a * i.den && a * i.den < i.high * b

/-- The best decimal `n * 10 ^ power` for the double, if there is one for this power. -/
def Interval.candidate (i : Interval) (tie : Tie) (power : Int) : Option Nat :=
  let (num, den) := scale i.value i.den (-power)
  let n := num / den
  match i.contains n power, i.contains (n + 1) power with
  | true, true => some (if tie.roundsUp n (num % den) den then n + 1 else n)
  | true, false => some n
  | false, true => some (n + 1)
  | false, false => none

/-- The decimal `n * 10 ^ power` by its digits, without zeros at the end. -/
def ofNat (n : Nat) (power : Int) : Decimal :=
  let digits := Nat.toDigits 10 n
  { digits := (digits.reverse.dropWhile (· == '0')).reverse
    exponent := power + digits.length - 1 }

/-- The shortest decimal of the positive double `significand * 2 ^ exponent`.  Seventeen digits
always suffice. -/
def shortest (tie : Tie) (significand : Nat) (exponent : Int) : Decimal :=
  let i := Interval.ofParts significand exponent
  let e := leadingExponent i.value i.den
  let powers := (List.range 17).map fun (k : Nat) => e - (k : Int)
  match powers.findSome? fun power => (i.candidate tie power).map (·, power) with
  | some (n, power) => ofNat n power
  | none => ofNat (i.value * Nat.pow 10 20 / i.den) (-20)

end Decimal

end TreeScript
