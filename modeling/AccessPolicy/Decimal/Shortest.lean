/-!
# The fewest digits that identify a double

Every double stands for the interval of reals that round to it; its ends belong to it exactly when the mantissa is
even. Among the decimals in that interval those with the fewest digits are preferred, and of these the nearest.

Whether some decimal of `n` digits lies in the interval is settled by two of them, the neighbours of the value on
the grid of `n`-digit decimals: of the points of a grid that lie in an interval around a value, the nearest below
or the nearest above the value is one. So the first grid on which a neighbour lies in the interval gives the answer.

Contents:
* `Binary` — a positive double as a mantissa and a power of two;
* `Interval` — value and ends, over a common denominator;
* `Digits`, `shortest` — the answer, as digits and the place of the point.
-/

namespace AccessPolicy.Decimal

/-- Which of two equally near decimals is taken. -/
inductive Tie where
  /-- The one whose last digit is even. -/
  | even
  /-- The larger one. -/
  | up
  deriving DecidableEq, Repr

/-- A magnitude written in base two: `mantissa` times two to the `exponent`. -/
structure Binary where
  mantissa : Nat
  exponent : Int
  deriving DecidableEq, Repr

/-- The leading bit of a mantissa of full length, 2⁵², which is left out when a double is stored. -/
def hiddenBit : Nat := 0x10000000000000

/-- The magnitude of a finite double. -/
def Binary.ofFloat (x : Float) : Binary :=
  let bits := x.toBits.toNat
  let fraction : Nat := bits % hiddenBit
  let biased : Nat := bits / hiddenBit % 2048
  if biased = 0 then ⟨fraction, -1074⟩ else ⟨hiddenBit + fraction, (biased : Int) - 1075⟩

/-- A value and the ends of the interval that rounds to it, over a common denominator. -/
structure Interval where
  low : Nat
  value : Nat
  high : Nat
  denominator : Nat
  /-- Whether the ends belong to the interval. -/
  closed : Bool
  deriving Repr

/-- The interval that rounds to a magnitude. Below a power of two doubles are twice as dense as above it, so there
    the lower end is half as far away. -/
def Binary.interval (b : Binary) : Interval :=
  let below := if b.mantissa = hiddenBit ∧ b.exponent > -1074 then 1 else 2
  let unit := Nat.pow 2 (b.exponent - 2).toNat
  ⟨(4 * b.mantissa - below) * unit, 4 * b.mantissa * unit, (4 * b.mantissa + 2) * unit,
    Nat.pow 2 (2 - b.exponent).toNat, b.mantissa % 2 = 0⟩

/-- The value seen on the grid of multiples of ten to the `k`: the same interval, with that power as the unit. -/
def Interval.inUnits (i : Interval) (k : Int) : Interval :=
  let up := Nat.pow 10 (-k).toNat
  ⟨i.low * up, i.value * up, i.high * up, i.denominator * Nat.pow 10 k.toNat, i.closed⟩

/-- Whether a whole number of units lies in the interval. -/
def Interval.holds (i : Interval) (n : Nat) : Bool :=
  let x := n * i.denominator
  if i.closed then i.low ≤ x && x ≤ i.high else i.low < x && x < i.high

/-- The whole number of units next to the value that lies in the interval; of two such, the nearer one. -/
def Interval.candidate? (tie : Tie) (i : Interval) : Option Nat :=
  let n := i.value / i.denominator
  let down := i.value - n * i.denominator
  let up := (n + 1) * i.denominator - i.value
  -- `n` and `n + 1` are the neighbours of the value on the grid of whole units.
  match i.holds n, i.holds (n + 1) with
  | false, false => none
  | true, false => some n
  | false, true => some (n + 1)
  | true, true =>
    if down < up then some n
    else if up < down then some (n + 1)
    else
      match tie with
      | .even => some (if n % 2 = 0 then n else n + 1)
      | .up => some (n + 1)

/-- Digits with the place of the point: `0.digits` times ten to the `point`. -/
structure Digits where
  digits : List Char
  point : Int
  deriving DecidableEq, Repr

/-- How often a number can be multiplied by ten and stay below a bound, up to `fuel` times. -/
def zerosBelow (bound : Nat) : (fuel n : Nat) → Nat
  | 0, _ => 0
  | fuel + 1, n => if 10 * n < bound then zerosBelow bound fuel (10 * n) + 1 else 0

/-- The `p` for which a positive value is below ten to the `p` and not below ten to the `p - 1`. The length of the
    whole part tells, or, where there is none, the zeros behind the point, of which no double has as many as 400. -/
def Interval.magnitude (i : Interval) : Int :=
  if i.denominator ≤ i.value then (Nat.toDigits 10 (i.value / i.denominator)).length
  else -(zerosBelow i.denominator 400 i.value)

/-- The first grid with a candidate, starting with that of `count` digits; `magnitude` is that of the value. -/
def Interval.search (tie : Tie) (i : Interval) (magnitude : Int) : (fuel count : Nat) → Digits
  | 0, _ => ⟨[], 0⟩
  | fuel + 1, count =>
    let k := magnitude - count
    match (i.inUnits k).candidate? tie with
    | none => i.search tie magnitude fuel (count + 1)
    | some n =>
      let ds := Nat.toDigits 10 n
      -- A carry may have made `n` a power of ten, with zeros at its end that identify nothing.
      ⟨(ds.reverse.dropWhile (· == '0')).reverse, k + ds.length⟩

/-- The fewest digits that identify a finite double other than zero, sign left out. Seventeen always do. -/
def shortest (tie : Tie) (x : Float) : Digits :=
  let i := (Binary.ofFloat x).interval
  i.search tie i.magnitude 17 1

end AccessPolicy.Decimal
