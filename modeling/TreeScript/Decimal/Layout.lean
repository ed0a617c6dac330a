import TreeScript.Decimal.Shortest

/-!
# Laying out a decimal

A decimal is written positionally while its exponent lies in a range that the format chooses, and
with an exponent outside it.  A format is one `Layout`; the texts of the values that are not finite
belong to it too.
-/

namespace TreeScript

namespace Decimal

/-- The decisions of a number format. -/
structure Layout where
  /-- The least exponent written positionally. -/
  lowest : Int
  /-- The greatest exponent written positionally. -/
  highest : Int
  /-- Whether a whole number written positionally ends in `.0`. -/
  keepsPoint : Bool
  /-- Whether a positive exponent has its sign written. -/
  signsExponent : Bool
  /-- Whether negative zero has its sign written. -/
  signsZero : Bool
  tie : Tie
  nan : String
  infinity : String

/-- The digits before and after the point when the decimal is written out. -/
def positional (d : Decimal) : List Char × List Char :=
  if d.exponent < 0 then
    (['0'], List.replicate (-d.exponent - 1).toNat '0' ++ d.digits)
  else
    let point := d.exponent.toNat + 1
    (d.digits.take point ++ List.replicate (point - d.digits.length) '0', d.digits.drop point)

/-- The digits before and after the point when the decimal is written with an exponent. -/
def normalized (d : Decimal) : List Char × List Char := (d.digits.take 1, d.digits.drop 1)

namespace Layout

/-- Whether the decimal is written positionally. -/
def isPositional (l : Layout) (d : Decimal) : Bool :=
  l.lowest ≤ d.exponent && d.exponent ≤ l.highest

/-- Digits with a point between, and no point where nothing follows it. -/
def pointed (whole fraction : List Char) : List Char :=
  if fraction.isEmpty then whole else whole ++ '.' :: fraction

/-- The exponent part of a text. -/
def exponentText (l : Layout) (e : Int) : List Char :=
  let sign := if e < 0 then ['-'] else if l.signsExponent then ['+'] else []
  'e' :: sign ++ Nat.toDigits 10 e.natAbs

/-- The text of a decimal. -/
def decimalText (l : Layout) (d : Decimal) : List Char :=
  if l.isPositional d then
    let (whole, fraction) := d.positional
    pointed whole (if fraction.isEmpty && l.keepsPoint then ['0'] else fraction)
  else
    let (whole, fraction) := d.normalized
    pointed whole fraction ++ l.exponentText d.exponent

/-- The text of a double. -/
def text (l : Layout) (x : Float) : String :=
  let sign := if Double.isNegative x then ['-'] else []
  match Double.magnitude x with
  | .nan => l.nan
  | .infinite => String.ofList sign ++ l.infinity
  | .finite 0 _ => String.ofList ((if l.signsZero then sign else []) ++ l.decimalText zero)
  | .finite m e => String.ofList (sign ++ l.decimalText (shortest l.tie m e))

end Layout

end Decimal

end TreeScript
