import AccessPolicy.Calendar.Reader
import AccessPolicy.Datum.Basic
import AccessPolicy.Text.Hex

/-!
# TOML: numbers, truth values, dates and times

The values that are written without delimiters. Dates and times become records of one entry that holds their text
in a normal form.
-/

namespace AccessPolicy.Toml

open Calendar (takeNumber? skip?)

/-! ## Dates and times -/

/-- A number with at least `width` digits. -/
def padded (width n : Nat) : List Char :=
  let ds := Decimal.digitsOf n
  List.replicate (width - ds.length) '0' ++ ds

/-- A date, in its normal form. -/
def date? (cs : List Char) : Option (List Char × List Char) := do
  let (year, cs) ← takeNumber? 4 cs
  let cs ← skip? '-' cs
  let (month, cs) ← takeNumber? 2 cs
  let cs ← skip? '-' cs
  let (day, cs) ← takeNumber? 2 cs
  let date : Calendar.Date := ⟨year, month, day⟩
  if date.isValid then some (padded 4 year ++ '-' :: padded 2 month ++ '-' :: padded 2 day, cs) else none

/-- The fraction of a second, in its normal form: nine digits at most, without zeros at the end. -/
def fraction (cs : List Char) : List Char × List Char :=
  match cs with
  | '.' :: rest =>
    match Decimal.takeDigits rest with
    | ([], _) => ([], cs)
    | (ds, rest) =>
      match ((padded 9 (Calendar.nanoseconds ds)).reverse.dropWhile (· == '0')).reverse with
      | [] => ([], rest)
      | kept => ('.' :: kept, rest)
  | cs => ([], cs)

/-- A time of day, in its normal form. -/
def time? (cs : List Char) : Option (List Char × List Char) := do
  let (hour, cs) ← takeNumber? 2 cs
  let cs ← skip? ':' cs
  let (minute, cs) ← takeNumber? 2 cs
  let cs ← skip? ':' cs
  let (second, cs) ← takeNumber? 2 cs
  let (fraction, cs) := fraction cs
  if hour ≤ 23 && minute ≤ 59 && second ≤ 60 then
    some (padded 2 hour ++ ':' :: padded 2 minute ++ ':' :: padded 2 second ++ fraction, cs)
  else none

/-- An offset, in its normal form: no minus sign before zero. -/
def offset? (cs : List Char) : Option (List Char × List Char) :=
  match cs with
  | 'Z' :: rest | 'z' :: rest => some (['Z'], rest)
  | sign :: rest => do
    let negative ← if sign = '+' then some false else if sign = '-' then some true else none
    let (hours, rest) ← takeNumber? 2 rest
    let rest ← skip? ':' rest
    let (minutes, rest) ← takeNumber? 2 rest
    let sign := if negative && !(hours = 0 && minutes = 0) then '-' else '+'
    if hours ≤ 23 && minutes ≤ 59 then some (sign :: padded 2 hours ++ ':' :: padded 2 minutes, rest) else none
  | [] => none

/-- A date, a date with a time and perhaps an offset, or a time, in normal form. -/
def moment? (cs : List Char) : Option (List Char × List Char) :=
  match date? cs with
  | none => time? cs
  | some (date, rest) =>
    let time :=
      match rest with
      | 'T' :: rest | 't' :: rest | ' ' :: rest => time? rest
      | _ => none
    match time with
    | none => some (date, rest)
    | some (time, rest) =>
      match offset? rest with
      | none => some (date ++ 'T' :: time, rest)
      | some (offset, rest) => some (date ++ 'T' :: time ++ offset, rest)

/-- The key under which the text of a date or time is kept. -/
def momentKey : String := "$__toml_private_datetime"

/-! ## Numbers -/

/-- Digits of a base, with underscores allowed between two of them; at least one digit. `due` says that a digit
    must come, and `read` holds the digits so far, last first. -/
def digits? (value? : Char → Option Nat) : (due : Bool) → (read : List Nat) → List Char → Option (List Nat × List Char)
  | due, read, [] => if due then none else some (read.reverse, [])
  | due, read, c :: cs =>
    match value? c with
    | some d => digits? value? false (d :: read) cs
    | none =>
      if due then none
      else if c = '_' then digits? value? true read cs
      else some (read.reverse, c :: cs)

/-- The value of a digit in a base up to sixteen. -/
def digitBelow? (base : Nat) (c : Char) : Option Nat :=
  (Text.hexValue? c).filter (· < base)

/-- Decimal digits with underscores between them. -/
def decimalDigits? (cs : List Char) : Option (List Nat × List Char) :=
  digits? Decimal.digit? true [] cs

/-- The digits of a whole number: without leading zeros. -/
def wholeDigits? (cs : List Char) : Option (List Nat × List Char) :=
  match cs with
  | '0' :: rest => some ([0], rest)
  | cs => decimalDigits? cs

/-- A sign, if there is one. -/
def takeSign : List Char → Bool × List Char
  | '-' :: rest => (true, rest)
  | '+' :: rest => (false, rest)
  | cs => (false, cs)

/-- An exponent, if there is one: zero if not. Nothing if it is begun and has no digits. -/
def takeExponent? (cs : List Char) : Option (Int × List Char) :=
  match cs with
  | 'e' :: rest | 'E' :: rest =>
    let (negative, rest) := takeSign rest
    (decimalDigits? rest).map fun (ds, rest) =>
      let n : Int := Decimal.ofExponentDigits ds
      (if negative then -n else n, rest)
  | cs => some (0, cs)

/-- A number that must not exceed the range of doubles upwards. -/
def bounded? (x : Float) : Option Float :=
  if x == Decimal.infinity then none else some x

/-- A number in base ten: a whole number of 64 bits with sign, or one with a point or an exponent. -/
def decimal? (cs : List Char) : Option (Float × List Char) := do
  let (negative, unsigned) := takeSign cs
  let (whole, rest) ← wholeDigits? unsigned
  match rest with
  | '.' :: rest => do
    let (fraction, rest) ← decimalDigits? rest
    let (exponent, rest) ← takeExponent? rest
    let x ← bounded? (Decimal.Numeral.nearest ⟨negative, whole, fraction, exponent⟩)
    return (x, rest)
  | 'e' :: _ | 'E' :: _ => do
    let (exponent, rest) ← takeExponent? rest
    let x ← bounded? (Decimal.Numeral.nearest ⟨negative, whole, [], exponent⟩)
    return (x, rest)
  | rest =>
    let n : Int := Decimal.ofDigits whole
    let i := if negative then -n else n
    if -0x8000000000000000 ≤ i && i ≤ 0x7FFFFFFFFFFFFFFF then return (Float.ofInt i, rest) else none

/-- A whole number in another base. -/
def based? (base : Nat) (cs : List Char) : Option (Float × List Char) :=
  match digits? (digitBelow? base) true [] cs with
  | none => none
  | some (ds, rest) =>
    let n := Positional.valueOf base ds
    if n ≤ 0x7FFFFFFFFFFFFFFF then some (Float.ofNat n, rest) else none

/-- Infinity or no number, with or without a sign. -/
def special? (cs : List Char) : Option (Float × List Char) :=
  match takeSign cs with
  | (negative, 'i' :: 'n' :: 'f' :: rest) => some (Decimal.signed negative Decimal.infinity, rest)
  | (_, 'n' :: 'a' :: 'n' :: rest) => some (Decimal.notANumber, rest)
  | _ => none

/-- A number of any kind. -/
def number? (cs : List Char) : Option (Float × List Char) :=
  match special? cs with
  | some found => some found
  | none =>
    match cs with
    | '0' :: 'x' :: rest => based? 16 rest
    | '0' :: 'o' :: rest => based? 8 rest
    | '0' :: 'b' :: rest => based? 2 rest
    | cs => decimal? cs

/-! ## Any of them -/

/-- A value written without delimiters. -/
def scalar? (cs : List Char) : Option (Datum × List Char) :=
  match cs with
  | 't' :: 'r' :: 'u' :: 'e' :: rest => some (.bool true, rest)
  | 'f' :: 'a' :: 'l' :: 's' :: 'e' :: rest => some (.bool false, rest)
  | cs =>
    -- Dates come first, because every date starts like a number.
    match moment? cs with
    | some (text, rest) => some (.record [(momentKey, .text (String.ofList text))], rest)
    | none => (number? cs).map fun (x, rest) => (.number x, rest)

end AccessPolicy.Toml
