import AccessPolicy.Decimal.Numeral
import AccessPolicy.Decimal.Shortest

/-!
# Number texts

How a double is written: the fewest digits that identify it, laid out by a `Layout`. Two layouts are in use, `json`
for documents and `plain` for texts that numbers are put into; they are records, so that what they share is
written once and what they differ in can be read off.
-/

namespace AccessPolicy.Decimal

/-- The decisions that lay out a finite number. -/
structure Layout where
  /-- Which of two equally near decimals of the fewest digits is written. -/
  tie : Tie
  /-- Whether digits with the point at this place are written without an exponent. -/
  positional : Int → Bool
  /-- What follows a whole number that is written without an exponent. -/
  afterWhole : List Char

/-- In documents whole numbers keep a point, and magnitudes from 10⁻⁵ up to 10¹⁶ have no exponent. -/
def Layout.json : Layout where
  tie := .even
  positional := fun point => -4 ≤ point && point ≤ 16
  afterWhole := ['.', '0']

/-- In plain texts there is never an exponent, and whole numbers have no point. -/
def Layout.plain : Layout where
  tie := .up
  positional := fun _ => true
  afterWhole := []

/-- Digits written without an exponent. -/
def Layout.spread (l : Layout) (d : Digits) : List Char :=
  if d.point ≤ 0 then '0' :: '.' :: (List.replicate (-d.point).toNat '0' ++ d.digits)
  else if d.point < d.digits.length then
    d.digits.take d.point.toNat ++ '.' :: d.digits.drop d.point.toNat
  else
    d.digits ++ List.replicate (d.point - d.digits.length).toNat '0' ++ l.afterWhole

/-- Digits written with one of them before the point, and an exponent with its sign. -/
def scientific (d : Digits) : List Char :=
  let exponent := d.point - 1
  let mantissa :=
    match d.digits with
    | [] => []
    | [c] => [c]
    | c :: rest => c :: '.' :: rest
  mantissa ++ 'e' :: (if exponent < 0 then '-' else '+') :: digitsOf exponent.natAbs

/-- The text of a finite double. -/
def Layout.write (l : Layout) (x : Float) : List Char :=
  let d := shortest l.tie x
  let magnitude :=
    if x == 0.0 then '0' :: l.afterWhole
    else if l.positional d.point then l.spread d
    else scientific d
  if x.toBits ≥ 0x8000000000000000 then '-' :: magnitude else magnitude

/-- The plain text of any double. -/
def plainText (x : Float) : String :=
  if x.isNaN then "NaN"
  else if x == infinity then "inf"
  else if x == -infinity then "-inf"
  else String.ofList (Layout.plain.write x)

/-- The text of a double in a document, which has none for what is not a finite number. -/
def jsonText? (x : Float) : Option (List Char) :=
  if x.isFinite then some (Layout.json.write x) else none

end AccessPolicy.Decimal
