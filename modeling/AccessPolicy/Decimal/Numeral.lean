import AccessPolicy.Positional

/-!
# Decimal numerals and their values

A numeral is what a number is written as: a sign, digits before and after the point, an exponent. Two readings of
a numeral as a double are in use, and they differ in the last bits:

* `Numeral.nearest` — the double nearest to the written value, ties to even;
* `Numeral.scaled?` — as many leading digits as fit 64 bits are taken as a whole number, which is then multiplied or
  divided once by a power of ten. Quick to compute, but rounded twice, so that a number written with the fewest
  digits that identify it may be read as its neighbour.
-/

namespace AccessPolicy.Decimal

/-- A number as it is written: `whole.fraction` times ten to the `exponent`. -/
structure Numeral where
  negative : Bool
  whole : List Nat
  fraction : List Nat
  exponent : Int
  deriving DecidableEq, Repr

/-- The value of a digit, from `0` to `9`. -/
def digit? (c : Char) : Option Nat :=
  if '0' ≤ c ∧ c ≤ '9' then some (c.toNat - '0'.toNat) else none

/-- The digits a text starts with, and what follows them. -/
def takeDigits (cs : List Char) : List Nat × List Char :=
  ((cs.takeWhile (digit? · |>.isSome)).filterMap digit?, cs.dropWhile (digit? · |>.isSome))

/-- The whole number that digits write. -/
def ofDigits (ds : List Nat) : Nat :=
  Positional.valueOf 10 ds

/-- The exponent that digits write, for the nearest reading: from the first value of 2¹⁶ or more on, digits are passed
    over. Such an exponent is beyond the range of doubles, unless tens of thousands of digits make up for it. -/
def ofExponentDigits (ds : List Nat) : Nat :=
  ds.foldl (fun n d => if n < 0x10000 then 10 * n + d else n) 0

/-- The digits of a whole number, at least one. -/
def digitsOf (n : Nat) : List Char :=
  Nat.toDigits 10 n

/-- The sign of a numeral, put on a magnitude. -/
def signed (negative : Bool) (magnitude : Float) : Float :=
  if negative then -magnitude else magnitude

/-- The double nearest to ten to the `k`. -/
def powerOfTen (k : Nat) : Float :=
  Float.ofScientific 1 false k

/-- Positive infinity. -/
def infinity : Float := Float.ofBits 0x7FF0000000000000

/-- The value that stands for no number. -/
def notANumber : Float := Float.ofBits 0x7FF8000000000000

/-! ## The nearest double -/

/-- The double nearest to the number that digits write, times ten to the `scale`. Far outside the range of doubles
    the answer is infinite, or zero, whatever the digits. -/
def nearestOf (digits : List Nat) (scale : Int) : Float :=
  let significant := digits.dropWhile (· == 0)
  let magnitude := significant.length + scale
  if significant.isEmpty || magnitude < -400 then 0.0
  else if magnitude > 400 then infinity
  else Float.ofScientific (ofDigits significant) (scale < 0) scale.natAbs

/-- The double nearest to the written value. -/
def Numeral.nearest (n : Numeral) : Float :=
  signed n.negative (nearestOf (n.whole ++ n.fraction) (n.exponent - n.fraction.length))

/-! ## The scaled reading -/

/-- The largest significand of 64 bits. -/
def maxSignificand : Nat := 0xFFFFFFFFFFFFFFFF

/-- Takes digits before the point into a 64-bit significand; from the first that does not fit, digits only raise
    the exponent. -/
def absorbWhole : Nat → Int → List Nat → Nat × Int
  | significand, exponent, [] => (significand, exponent)
  | significand, exponent, d :: ds =>
    if 10 * significand + d ≤ maxSignificand then absorbWhole (10 * significand + d) exponent ds
    else (significand, exponent + (ds.length + 1))

/-- Takes digits after the point into a 64-bit significand, each lowering the exponent, up to the first that does
    not fit. -/
def absorbFraction : Nat → Int → List Nat → Nat × Int
  | significand, exponent, [] => (significand, exponent)
  | significand, exponent, d :: ds =>
    if 10 * significand + d ≤ maxSignificand then absorbFraction (10 * significand + d) (exponent - 1) ds
    else (significand, exponent)

/-- A significand scaled by a power of ten, or nothing when that leaves the range of doubles. Powers below
    10⁻³⁰⁸ are applied in two steps; below 10⁻⁶¹⁶ no significand of 64 bits is left with any digit. -/
def scale? (significand : Nat) (exponent : Int) : Option Float :=
  let x := Float.ofNat significand
  if significand = 0 || exponent < -616 then some 0.0
  -- Each step rounds; two of them because 10³⁰⁸ is the largest power of ten among doubles.
  else if exponent < -308 then some (x / powerOfTen 308 / powerOfTen (-exponent - 308).toNat)
  else if exponent < 0 then some (x / powerOfTen (-exponent).toNat)
  else if exponent > 308 then none
  else
    let y := x * powerOfTen exponent.toNat
    if y == infinity then none else some y

/-- The scaled reading of a numeral, or nothing when it leaves the range of doubles. -/
def Numeral.scaled? (n : Numeral) : Option Float :=
  let (leading, raised) := absorbWhole 0 n.exponent n.whole
  let (significand, exponent) := absorbFraction leading raised n.fraction
  (scale? significand exponent).map (signed n.negative)

end AccessPolicy.Decimal
