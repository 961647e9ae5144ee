import AccessPolicy.Calendar.Instant
import AccessPolicy.Decimal.Numeral
import AccessPolicy.Text.Blank

/-!
# Timestamps in texts

A text writes a timestamp in full, as a date with a time of day and an offset (RFC 3339), or as a date alone, which
means midnight on a clock without offset. The first form is strict; the second allows blanks before its numbers, and
numbers with fewer digits, or, in a year with a sign, more.

Contents:
* `takeNumber?`, `skip?` — the parts both forms are made of;
* `fullTimestamp?`, `plainDate?` — the two forms;
* `Timestamp.ofText?`, `Instant.ofText?`.
-/

namespace AccessPolicy.Calendar

/-! ## Parts of a text -/

/-- Exactly `count` digits, and what follows them. -/
def takeNumber? (count : Nat) (cs : List Char) : Option (Nat × List Char) :=
  match Decimal.takeDigits (cs.take count) with
  | (ds, []) => if ds.length = count then some (Decimal.ofDigits ds, cs.drop count) else none
  | _ => none

/-- At least one and at most `most` digits, and what follows them. -/
def takeShort? (most : Nat) (cs : List Char) : Option (Nat × List Char) :=
  match Decimal.takeDigits (cs.take most) with
  | ([], _) => none
  | (ds, _) => some (Decimal.ofDigits ds, cs.drop ds.length)

/-- What follows a character that must come. -/
def skip? (c : Char) (cs : List Char) : Option (List Char) :=
  match cs with
  | d :: rest => if d = c then some rest else none
  | [] => none

/-! ## Dates with times -/

/-- Nanoseconds, from the digits after the point of a second; digits past the ninth are dropped. -/
def nanoseconds (ds : List Nat) : Nat :=
  let kept := ds.take 9
  Decimal.ofDigits kept * Nat.pow 10 (9 - kept.length)

/-- The fraction of a second, if there is one. -/
def takeFraction? (cs : List Char) : Option (Nat × List Char) :=
  match cs with
  | '.' :: rest =>
    match Decimal.takeDigits rest with
    | ([], _) => none
    | (ds, rest) => some (nanoseconds ds, rest)
  | cs => some (0, cs)

/-- The letter or the space between a date and a time. -/
def skipTimeMark? (cs : List Char) : Option (List Char) :=
  match cs with
  | 'T' :: rest | 't' :: rest | ' ' :: rest => some rest
  | _ => none

/-- An offset in seconds that makes up the rest of a text. The minus sign may also be the mathematical one. -/
def offset? (cs : List Char) : Option Int :=
  match cs with
  | [c] => if c = 'Z' ∨ c = 'z' then some 0 else none
  | sign :: rest => do
    let negative ← if sign = '+' then some false else if sign = '-' ∨ sign = '−' then some true else none
    let (hours, rest) ← takeNumber? 2 rest
    let rest ← skip? ':' rest
    let (minutes, rest) ← takeNumber? 2 rest
    if rest.isEmpty && hours ≤ 23 && minutes ≤ 59 then
      let seconds : Int := 3600 * hours + 60 * minutes
      some (if negative then -seconds else seconds)
    else none
  | [] => none

/-- `YYYY-MM-DD`, then `T`, `t` or a space, then `HH:MM:SS` with or without a fraction, then an offset. -/
def fullTimestamp? (cs : List Char) : Option Timestamp := do
  let (year, cs) ← takeNumber? 4 cs
  let cs ← skip? '-' cs
  let (month, cs) ← takeNumber? 2 cs
  let cs ← skip? '-' cs
  let (day, cs) ← takeNumber? 2 cs
  let cs ← skipTimeMark? cs
  let (hour, cs) ← takeNumber? 2 cs
  let cs ← skip? ':' cs
  let (minute, cs) ← takeNumber? 2 cs
  let cs ← skip? ':' cs
  let (second, cs) ← takeNumber? 2 cs
  let (nanosecond, cs) ← takeFraction? cs
  let offset ← offset? cs
  let t : Timestamp := ⟨⟨year, month, day⟩, hour, minute, second, nanosecond, offset⟩
  if t.isValid then some t else none

/-! ## Dates alone -/

/-- A year: a sign and any number of digits, or up to four digits without a sign. -/
def takeYear? (cs : List Char) : Option (Int × List Char) :=
  match cs with
  | '-' :: rest => (takeShort? rest.length rest).map fun (n, rest) => (-(n : Int), rest)
  | '+' :: rest => (takeShort? rest.length rest).map fun (n, rest) => ((n : Int), rest)
  | cs => (takeShort? 4 cs).map fun (n, rest) => ((n : Int), rest)

/-- The earliest year that can be told. -/
def firstYear : Int := -262143

/-- The latest year that can be told. -/
def lastYear : Int := 262142

/-- A year, a month and a day with hyphens between them, blanks being allowed before each. -/
def plainDate? (cs : List Char) : Option Timestamp := do
  let (year, cs) ← takeYear? (Text.trimStart cs)
  let cs ← skip? '-' cs
  let (month, cs) ← takeShort? 2 (Text.trimStart cs)
  let cs ← skip? '-' cs
  let (day, cs) ← takeShort? 2 (Text.trimStart cs)
  let date : Date := ⟨year, month, day⟩
  if cs.isEmpty && date.isValid && firstYear ≤ year && year ≤ lastYear then some (.midnight date) else none

/-! ## Either -/

/-- The timestamp that a text writes, in full or as a date alone. -/
def Timestamp.ofText? (text : String) : Option Timestamp :=
  let cs := text.toList
  match fullTimestamp? cs with
  | some t => some t
  | none => plainDate? cs

/-- The instant that a text writes. -/
def Instant.ofText? (text : String) : Option Instant :=
  (Timestamp.ofText? text).map Timestamp.instant

end AccessPolicy.Calendar
