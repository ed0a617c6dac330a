/-!
# Doubles taken apart

A finite double is a sign and a magnitude `significand * 2 ^ exponent`, with a significand below
`2 ^ 53` and an exponent of at least `-1074`.  This module reads the two parts off the bits, puts a
magnitude back together, and on top of that computes the remainder of a truncated division, which
is always exact.
-/

namespace TreeScript

namespace Double

/-- What a double's bits say apart from its sign. -/
inductive Magnitude where
  | nan
  | infinite
  /-- The value `significand * 2 ^ exponent`. -/
  | finite (significand : Nat) (exponent : Int)
deriving DecidableEq, Repr, Inhabited

/-- The eleven bits of the exponent. -/
def exponentField (x : Float) : Nat := x.toBits.toNat / Nat.pow 2 52 % Nat.pow 2 11

/-- The fifty-two bits of the fraction. -/
def fractionField (x : Float) : Nat := x.toBits.toNat % Nat.pow 2 52

/-- Whether the sign bit is set; it is for `-0.0`. -/
def isNegative (x : Float) : Bool := x.toBits.toNat / Nat.pow 2 63 == 1

/-- The magnitude of a double. -/
def magnitude (x : Float) : Magnitude :=
  if exponentField x = 2047 then
    if fractionField x = 0 then .infinite else .nan
  else if exponentField x = 0 then .finite (fractionField x) (-1074)
  else .finite (Nat.pow 2 52 + fractionField x) ((exponentField x : Int) - 1075)

/-- The double of magnitude `significand * 2 ^ exponent` with the given sign, for a significand
below `2 ^ 53` and an exponent from `-1074` on that together stay in range. -/
def ofParts (negative : Bool) (significand : Nat) (exponent : Int) : Float :=
  let shift := min (52 - significand.log2) (exponent + 1074).toNat
  let scaled := significand * Nat.pow 2 shift
  let field :=
    if scaled < Nat.pow 2 52 then scaled
    else (exponent - shift + 1075).toNat * Nat.pow 2 52 + (scaled - Nat.pow 2 52)
  Float.ofBits (UInt64.ofNat ((if negative then Nat.pow 2 63 else 0) + field))

/-- The double that is not a number. -/
def nan : Float := Float.ofBits 0x7ff8000000000000

/-- The remainder of dividing `a` by `b` with the quotient truncated.  It has the sign of `a`, also
where it is zero; an infinite `a`, a zero `b` and a double that is not a number have none. -/
def remainder (a b : Float) : Float :=
  match magnitude a, magnitude b with
  | .finite m p, .finite n q =>
    if n = 0 then nan
    else
      let e := min p q
      ofParts (isNegative a) (m * Nat.pow 2 (p - e).toNat % (n * Nat.pow 2 (q - e).toNat)) e
  | .finite _ _, .infinite => a
  | _, _ => nan

end Double

end TreeScript
