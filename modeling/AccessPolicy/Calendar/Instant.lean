import AccessPolicy.Calendar.Date

/-!
# Timestamps and instants

A timestamp says when something happens in the way people write it: a date, a time of day, and the offset of the
clock it was read from. The instant it denotes does without the offset, so that instants can be compared: by the
second they fall in, then by the nanosecond. The nanoseconds of a leap second run on past those of the second it is
added to.
-/

namespace AccessPolicy.Calendar

/-- A point in time, on a clock without offset. -/
structure Instant where
  /-- Seconds, counted from the start of the last day of year 0. -/
  second : Int
  /-- Nanoseconds within the second; from 10⁹ on within the leap second after it. -/
  nanosecond : Nat
  deriving DecidableEq, Repr

/-- Whether an instant comes before another. -/
def Instant.before (a b : Instant) : Bool :=
  a.second < b.second || (a.second == b.second && a.nanosecond < b.nanosecond)

/-- A date with a time of day and an offset. -/
structure Timestamp where
  date : Date
  hour : Nat
  minute : Nat
  /-- From 0 to 59, or 60 for a leap second. -/
  second : Nat
  nanosecond : Nat
  /-- How far the clock is ahead, in seconds. -/
  offset : Int
  deriving DecidableEq, Repr

namespace Timestamp

/-- Whether there are such a date and such a time of day. -/
def isValid (t : Timestamp) : Bool :=
  t.date.isValid && t.hour ≤ 23 && t.minute ≤ 59 && t.second ≤ 60

/-- The start of a day, on a clock without offset. -/
def midnight (date : Date) : Timestamp :=
  ⟨date, 0, 0, 0, 0, 0⟩

/-- The second of the day. A leap second belongs to the one before it. -/
def secondOfDay (t : Timestamp) : Nat :=
  3600 * t.hour + 60 * t.minute + min t.second 59

/-- The instant that a timestamp denotes. -/
def instant (t : Timestamp) : Instant :=
  -- Offsets are whole minutes, so a leap second stays one on every clock.
  ⟨86400 * t.date.dayNumber + t.secondOfDay - t.offset,
    if t.second = 60 then 1000000000 + t.nanosecond else t.nanosecond⟩

end Timestamp

end AccessPolicy.Calendar
