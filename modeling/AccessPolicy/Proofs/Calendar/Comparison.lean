import AccessPolicy.Condition.Operator
import AccessPolicy.Proofs.Calendar.Order
import AccessPolicy.Proofs.Decimal.Digits
import AccessPolicy.Proofs.Text.Tidy
import Mathlib.Algebra.Order.Group.Nat

/-!
# Dates in conditions follow the calendar

A condition compares dates that texts write: a date alone, or a date with a time of day and an offset. Such texts are
taken here by what they are made of (`DateText`), so that each of them is there and no other: which numbers, how many
digits of a fraction, which of the signs, letters and marks that mean the same. What a text is made of also says,
without reading it, what stands on the calendar and on the clock (`DateText.timestamp`).

Reading gets that back from the text (`DateText.ofText?_write`). A date alone goes through both forms: the full one
breaks off where the time should come, and the plain one, which is free with blanks and digits, has no freedom where
every number fills its field. With the order of instants this settles how conditions compare dates.

Contents:
* `field` — numbers in a text; `nanoseconds_eq` — how a fraction is cut;
* `OffsetText`, `TimeText`, `DateText` — the texts, with `spell`, and what they say;
* **`DateText.ofText?_write`**;
* `Operator.neither_holds_iff_sameMoment`, **`Operator.dates_compared_by_calendar`**.
-/

namespace AccessPolicy.Calendar

open Decimal (figures padded ofDigits takeDigits)

/-- A text is read part by part. -/
theorem bind_of_eq_some {α β : Type} {x : Option α} {a : α} {f : α → Option β} (h : x = some a) : (x >>= f) = f a := by
  rw [h]
  rfl

/-! ## Numbers in a text -/

/-- A number in a field of some width. -/
def field (width n : Nat) : List Char :=
  figures (padded width n)

theorem length_field (width n : Nat) : (field width n).length = width := by
  rw [field, Decimal.length_figures, Decimal.length_padded]

theorem takeDigits_field (width n : Nat) : takeDigits (field width n) = (padded width n, []) :=
  Decimal.takeDigits_figures (Decimal.padded_lt width n)

theorem takeNumber?_field {width n : Nat} (h : n < 10 ^ width) (rest : List Char) :
    takeNumber? width (field width n ++ rest) = some (n, rest) := by
  have hlength := length_field width n
  rw [takeNumber?, List.take_left' hlength, List.drop_left' hlength, takeDigits_field]
  simp [Decimal.ofDigits_padded h]

/-- A field that is not empty starts with a digit. -/
theorem exists_field_succ (width n : Nat) : ∃ d cs, d < 10 ∧ field (width + 1) n = Nat.digitChar d :: cs :=
  ⟨n / 10 ^ width % 10, field width n, Nat.mod_lt _ (by decide), rfl⟩

theorem takeShort?_field {width n : Nat} (h : n < 10 ^ (width + 1)) (rest : List Char) :
    takeShort? (width + 1) (field (width + 1) n ++ rest) = some (n, rest) := by
  have hlength := length_field (width + 1) n
  have hread := takeDigits_field (width + 1) n
  have hvalue := Decimal.ofDigits_padded h
  rw [padded] at hread hvalue
  rw [takeShort?, List.take_left' hlength, hread]
  simp [hvalue, List.drop_left' hlength]

theorem trimStart_field (width n : Nat) (rest : List Char) :
    Text.trimStart (field (width + 1) n ++ rest) = field (width + 1) n ++ rest := by
  obtain ⟨d, cs, hd, hcs⟩ := exists_field_succ width n
  have hblank : ∀ d < 10, Text.isBlank (Nat.digitChar d) = false := by decide
  apply Text.dropWhile_of_first
  simp [hcs, hblank d hd]

/-- A year that starts with a digit has no sign. -/
theorem takeYear?_field {n : Nat} (h : n < 10 ^ 4) (rest : List Char) :
    takeYear? (field 4 n ++ rest) = some ((n : Int), rest) := by
  obtain ⟨d, cs, hd, hcs⟩ := exists_field_succ 3 n
  have hsign : ∀ d < 10, Nat.digitChar d ≠ '-' ∧ Nat.digitChar d ≠ '+' := by decide
  have hread := takeShort?_field h rest
  rw [hcs, List.cons_append] at hread ⊢
  rw [takeYear?, hread]
  · rfl
  · simp [hsign d hd]
  · simp [hsign d hd]

theorem skip?_cons (c : Char) (rest : List Char) : skip? c (c :: rest) = some rest :=
  if_pos rfl

/-- **A fraction is cut to nanoseconds**: it is multiplied by 10⁹ and rounded down. -/
theorem nanoseconds_eq {ds : List Nat} (h : ∀ d ∈ ds, d < 10) :
    nanoseconds ds = ofDigits ds * 10 ^ 9 / 10 ^ ds.length := by
  have hsplit : ofDigits ds = ofDigits (ds.take 9) * 10 ^ (ds.length - 9) + ofDigits (ds.drop 9) := by
    rw [← List.length_drop, ← Decimal.ofDigits_append, List.take_append_drop]
  have hdropped : ofDigits (ds.drop 9) < 10 ^ (ds.length - 9) := by
    rw [← List.length_drop]
    exact Decimal.ofDigits_lt fun d hd => h d (List.mem_of_mem_drop hd)
  rcases Nat.le_total ds.length 9 with hshort | hlong
  · -- Nothing is dropped.
    have hpow : 10 ^ 9 = 10 ^ (9 - ds.length) * 10 ^ ds.length := by
      rw [← Nat.pow_add, Nat.sub_add_cancel hshort]
    rw [nanoseconds, List.take_of_length_le hshort, hpow, ← Nat.mul_assoc,
      Nat.mul_div_cancel _ (Nat.pow_pos Nat.ofNat_pos)]
    rfl
  · have hpow : 10 ^ ds.length = 10 ^ (ds.length - 9) * 10 ^ 9 := by
      rw [← Nat.pow_add, Nat.sub_add_cancel hlong]
    rw [hpow, Nat.mul_div_mul_right _ _ (Nat.pow_pos Nat.ofNat_pos), hsplit, Nat.mul_comm,
      Nat.mul_add_div (Nat.pow_pos Nat.ofNat_pos), Nat.div_eq_of_lt hdropped]
    simp [nanoseconds, Nat.min_eq_left hlong]

/-- The digits of a fraction behind a point, or nothing if there are none. -/
def spellFraction : List Nat → List Char
  | [] => []
  | d :: ds => '.' :: figures (d :: ds)

theorem skipTimeMark?_cons {mark : Char} (h : mark = 'T' ∨ mark = 't' ∨ mark = ' ') (rest : List Char) :
    skipTimeMark? (mark :: rest) = some rest := by
  rcases h with rfl | rfl | rfl <;> rfl

theorem takeFraction?_spellFraction {ds : List Nat} (hds : ∀ d ∈ ds, d < 10) {rest : List Char}
    (hrest : ∀ c ∈ rest.head?, Decimal.digit? c = none ∧ c ≠ '.') :
    takeFraction? (spellFraction ds ++ rest) = some (nanoseconds ds, rest) := by
  cases ds with
  | nil =>
      cases rest with
      | nil => rfl
      | cons c rest => simp [spellFraction, takeFraction?, (hrest c rfl).2]; rfl
  | cons d ds =>
      have hread := Decimal.takeDigits_figures_append hds fun c hc => (hrest c hc).1
      rw [spellFraction, List.cons_append, takeFraction?, hread]

/-! ## Offsets -/

/-- How an offset is written: by a letter if there is none, or else by its sign, its hours and its minutes. -/
inductive OffsetText where
  | utc (letter : Char) (spelled : letter = 'Z' ∨ letter = 'z')
  | ahead (hours : Fin 24) (minutes : Fin 60)
  | behind (sign : Char) (spelled : sign = '-' ∨ sign = '−') (hours : Fin 24) (minutes : Fin 60)

namespace OffsetText

/-- Hours and minutes, two digits each. -/
def hourMinute (hours : Fin 24) (minutes : Fin 60) : List Char :=
  field 2 hours ++ ':' :: field 2 minutes

def spell : OffsetText → List Char
  | utc letter _ => [letter]
  | ahead hours minutes => '+' :: hourMinute hours minutes
  | behind sign _ hours minutes => sign :: hourMinute hours minutes

/-- The offset in seconds. -/
def seconds : OffsetText → Int
  | utc _ _ => 0
  | ahead hours minutes => 3600 * hours + 60 * minutes
  | behind _ _ hours minutes => -(3600 * hours + 60 * minutes)

/-- Behind a sign, hours and minutes are read in full. -/
theorem offset?_sign (sign : Char) (hours : Fin 24) (minutes : Fin 60) :
    offset? (sign :: hourMinute hours minutes) =
      (if sign = '+' then some false else if sign = '-' ∨ sign = '−' then some true else none).map
        fun negative => if negative then -(3600 * hours + 60 * minutes : Int) else 3600 * hours + 60 * minutes := by
  have hhoursLt : (hours : Nat) < 10 ^ 2 := by omega
  have hminutesLt : (minutes : Nat) < 10 ^ 2 := by omega
  have hhours := takeNumber?_field hhoursLt (':' :: field 2 minutes)
  have hminutes := takeNumber?_field hminutesLt []
  rw [List.append_nil] at hminutes
  obtain ⟨c, cs, hcs⟩ : ∃ c cs, hourMinute hours minutes = c :: cs := ⟨_, _, rfl⟩
  rw [← hourMinute, hcs] at hhours
  have hfits : (hours : Nat) ≤ 23 ∧ (minutes : Nat) ≤ 59 := by omega
  -- There is more than one character, so this is no letter.
  rw [hcs, offset?]
  case x => exact List.cons_ne_nil c cs
  simp only [Option.bind_eq_bind, hhours, hminutes, Option.bind_some, skip?_cons, hfits, List.isEmpty_nil, decide_true,
    Bool.and_self, if_true]
  by_cases hplus : sign = '+'
  · simp [hplus]
  · by_cases hminus : sign = '-' ∨ sign = '−'
    · simp [hplus, hminus]
    · simp [hplus, hminus]

theorem offset?_spell (x : OffsetText) : offset? x.spell = some x.seconds := by
  cases x with
  | utc letter spelled => exact if_pos spelled
  | ahead hours minutes => exact offset?_sign '+' hours minutes
  | behind sign spelled hours minutes =>
      rw [spell, offset?_sign, if_neg (by rcases spelled with rfl | rfl <;> decide), if_pos spelled]
      rfl

/-- An offset does not start as a fraction does, or with one more digit of it. -/
theorem first_spell (x : OffsetText) : ∀ c ∈ x.spell.head?, Decimal.digit? c = none ∧ c ≠ '.' := by
  have hfirst : ∀ c ∈ ['Z', 'z', '+', '-', '−'], Decimal.digit? c = none ∧ c ≠ '.' := by simp [Decimal.digit?]
  intro c hc
  apply hfirst
  cases x with
  | utc letter spelled =>
      obtain rfl : letter = c := Option.some.inj hc
      rcases spelled with rfl | rfl <;> simp
  | ahead hours minutes =>
      obtain rfl : '+' = c := Option.some.inj hc
      simp
  | behind sign spelled hours minutes =>
      obtain rfl : sign = c := Option.some.inj hc
      rcases spelled with rfl | rfl <;> simp

theorem dvd_seconds (x : OffsetText) : 60 ∣ x.seconds := by
  cases x with
  | utc letter spelled => exact Int.dvd_zero 60
  | ahead hours minutes => simp only [seconds]; omega
  | behind sign spelled hours minutes => simp only [seconds]; omega

end OffsetText

/-! ## Times of day -/

/-- How a time of day is written: hours, minutes and seconds, perhaps a fraction of a second, then the offset. -/
structure TimeText where
  /-- What stands between the date and the time. -/
  mark : Char
  spelled : mark = 'T' ∨ mark = 't' ∨ mark = ' '
  hour : Fin 24
  minute : Fin 60
  /-- The sixtieth is a leap second. -/
  second : Fin 61
  /-- The digits after the point, which is left out if there are none. -/
  fraction : List (Fin 10)
  offset : OffsetText

namespace TimeText

/-- The digits of the fraction. -/
def digits (x : TimeText) : List Nat :=
  x.fraction.map Fin.val

def spell (x : TimeText) : List Char :=
  x.mark :: field 2 x.hour ++ ':' :: (field 2 x.minute ++ ':' ::
    (field 2 x.second ++ (spellFraction x.digits ++ x.offset.spell)))

/-- The nanoseconds of the fraction; what is less than one of them is cut off. -/
def nanosecond (x : TimeText) : Nat :=
  ofDigits x.digits * 10 ^ 9 / 10 ^ x.digits.length

theorem digits_lt (x : TimeText) : ∀ d ∈ x.digits, d < 10 := by
  simp [digits]

theorem nanosecond_lt (x : TimeText) : x.nanosecond < 10 ^ 9 := by
  rw [nanosecond, Nat.div_lt_iff_lt_mul (Nat.pow_pos Nat.ofNat_pos), Nat.mul_comm]
  exact Nat.mul_lt_mul_of_pos_left (Decimal.ofDigits_lt x.digits_lt) (Nat.pow_pos Nat.ofNat_pos)

end TimeText

/-! ## Dates, alone or with a time -/

/-- How a date is written, alone or with a time of day. There is such a date, in a year of four digits. -/
structure DateText where
  date : Date
  valid : date.isValid = true
  fits : 0 ≤ date.year ∧ date.year < 10000
  time : Option TimeText

namespace DateText

/-- Year, month and day, with hyphens between them. -/
def spellDate (date : Date) : List Char :=
  field 4 date.year.toNat ++ '-' :: (field 2 date.month ++ '-' :: field 2 date.day)

def spell (x : DateText) : List Char :=
  spellDate x.date ++ match x.time with
    | none => []
    | some time => time.spell

/-- The text. -/
def write (x : DateText) : String :=
  String.ofList x.spell

/-- What the text says, on the clock that it names; a date alone means midnight, on a clock without offset. -/
def timestamp (x : DateText) : Timestamp :=
  match x.time with
  | none => .midnight x.date
  | some time => ⟨x.date, time.hour, time.minute, time.second, time.nanosecond, time.offset.seconds⟩

theorem proper_timestamp (x : DateText) : x.timestamp.Proper := by
  unfold timestamp
  split
  case h_1 => exact ⟨by simp [Timestamp.isValid, Timestamp.midnight, x.valid], Nat.zero_lt_succ _, Int.dvd_zero 60⟩
  case h_2 time _ =>
      refine ⟨Timestamp.isValid_iff.mpr ⟨x.valid, ?_, ?_, ?_⟩, time.nanosecond_lt, time.offset.dvd_seconds⟩
      · show (time.hour : Nat) ≤ 23; omega
      · show (time.minute : Nat) ≤ 59; omega
      · show (time.second : Nat) ≤ 60; omega

/-- Every number of a date fits its field. -/
theorem numbers_lt (x : DateText) :
    x.date.year.toNat < 10 ^ 4 ∧ x.date.month < 10 ^ 2 ∧ x.date.day < 10 ^ 2 := by
  obtain ⟨_, hmonth, _, hday⟩ := Date.isValid_iff.mp x.valid
  have hlength := daysInMonth_le x.date.year x.date.month
  have hfits := x.fits
  omega

theorem fullTimestamp?_spell {x : DateText} {time : TimeText} (h : x.time = some time) :
    fullTimestamp? x.spell = some x.timestamp := by
  obtain ⟨hyear, hmonth, hday⟩ := x.numbers_lt
  have hhour : (time.hour : Nat) < 10 ^ 2 := by omega
  have hminute : (time.minute : Nat) < 10 ^ 2 := by omega
  have hsecond : (time.second : Nat) < 10 ^ 2 := by omega
  have hfraction := takeFraction?_spellFraction time.digits_lt time.offset.first_spell
  rw [nanoseconds_eq time.digits_lt, ← TimeText.nanosecond] at hfraction
  have hvalid := x.proper_timestamp.valid
  simp only [timestamp, h] at hvalid ⊢
  -- Each part is followed by the rest of the text, and read up to there.
  simp only [spell, h, spellDate, TimeText.spell, List.append_assoc, List.cons_append]
  refine (bind_of_eq_some (takeNumber?_field hyear _)).trans ?_
  refine (bind_of_eq_some (skip?_cons '-' _)).trans ?_
  refine (bind_of_eq_some (takeNumber?_field hmonth _)).trans ?_
  refine (bind_of_eq_some (skip?_cons '-' _)).trans ?_
  refine (bind_of_eq_some (takeNumber?_field hday _)).trans ?_
  refine (bind_of_eq_some (skipTimeMark?_cons time.spelled _)).trans ?_
  refine (bind_of_eq_some (takeNumber?_field hhour _)).trans ?_
  refine (bind_of_eq_some (skip?_cons ':' _)).trans ?_
  refine (bind_of_eq_some (takeNumber?_field hminute _)).trans ?_
  refine (bind_of_eq_some (skip?_cons ':' _)).trans ?_
  refine (bind_of_eq_some (takeNumber?_field hsecond _)).trans ?_
  refine (bind_of_eq_some hfraction).trans ?_
  refine (bind_of_eq_some time.offset.offset?_spell).trans ?_
  rw [Int.toNat_of_nonneg x.fits.1]
  exact if_pos hvalid

/-- The full form does without a date alone: no time follows. -/
theorem fullTimestamp?_spell_none {x : DateText} (h : x.time = none) : fullTimestamp? x.spell = none := by
  obtain ⟨hyear, hmonth, hday⟩ := x.numbers_lt
  simp only [spell, h, spellDate, List.append_assoc, List.cons_append]
  refine (bind_of_eq_some (takeNumber?_field hyear _)).trans ?_
  refine (bind_of_eq_some (skip?_cons '-' _)).trans ?_
  refine (bind_of_eq_some (takeNumber?_field hmonth _)).trans ?_
  refine (bind_of_eq_some (skip?_cons '-' _)).trans ?_
  exact bind_of_eq_some (takeNumber?_field hday _)

theorem plainDate?_spell {x : DateText} (h : x.time = none) : plainDate? x.spell = some x.timestamp := by
  obtain ⟨hyear, hmonth, hday⟩ := x.numbers_lt
  have hrange : firstYear ≤ x.date.year ∧ x.date.year ≤ lastYear := by
    have := x.fits
    unfold firstYear lastYear
    omega
  simp only [timestamp, h]
  simp only [spell, h, spellDate, List.append_assoc, List.cons_append]
  simp only [plainDate?, Option.bind_eq_bind, takeYear?_field hyear, takeShort?_field hmonth, takeShort?_field hday,
    skip?_cons, Option.bind_some, trimStart_field, Int.toNat_of_nonneg x.fits.1, x.valid, hrange]
  simp

/-- **A text of either form is read as what it says.** -/
theorem ofText?_write (x : DateText) : Timestamp.ofText? x.write = some x.timestamp := by
  rw [Timestamp.ofText?, write, String.toList_ofList]
  cases h : x.time with
  | none => rw [fullTimestamp?_spell_none h, plainDate?_spell h]
  | some time => rw [fullTimestamp?_spell h]

end DateText

end AccessPolicy.Calendar

/-! ## Conditions on dates -/

namespace AccessPolicy.Operator

open Calendar (DateText)

theorem instantOf?_write (x : DateText) : instantOf? (.text x.write) = some x.timestamp.instant := by
  rw [instantOf?, Calendar.Instant.ofText?, x.ofText?_write]
  rfl

theorem earlier_holds (a b : DateText) :
    earlier.holds (some (.text a.write)) (.text b.write) = a.timestamp.instant.before b.timestamp.instant := by
  simp [holds, choices, compare, instantOf?_write]

theorem later_holds (a b : DateText) :
    later.holds (some (.text a.write)) (.text b.write) = b.timestamp.instant.before a.timestamp.instant := by
  simp [holds, choices, compare, instantOf?_write]

/-- A date is neither earlier nor later than one of the same moment, and than no other. -/
theorem neither_holds_iff_sameMoment (a b : DateText) :
    earlier.holds (some (.text a.write)) (.text b.write) = false ∧
      later.holds (some (.text a.write)) (.text b.write) = false ↔ a.timestamp.SameMoment b.timestamp := by
  rw [earlier_holds, later_holds, Calendar.Instant.neither_before_iff]
  exact Calendar.Timestamp.instant_eq_iff_sameMoment a.proper_timestamp b.proper_timestamp

/-- **Dates are compared as the calendar has them.** Where two texts name one offset, the found date is earlier just if
    its fields come first, from the year down to the nanosecond; it is later just if the other is earlier; and a date
    may be written as it is on any other clock, in either place. -/
theorem dates_compared_by_calendar (a b : DateText) :
    (a.timestamp.offset = b.timestamp.offset →
      (earlier.holds (some (.text a.write)) (.text b.write) = true ↔ a.timestamp.fields < b.timestamp.fields)) ∧
    later.holds (some (.text a.write)) (.text b.write) = earlier.holds (some (.text b.write)) (.text a.write) ∧
    ∀ a' : DateText, a.timestamp.SameMoment a'.timestamp → ∀ op ∈ [earlier, later],
      op.holds (some (.text a'.write)) (.text b.write) = op.holds (some (.text a.write)) (.text b.write) ∧
      op.holds (some (.text b.write)) (.text a'.write) = op.holds (some (.text b.write)) (.text a.write) := by
  refine ⟨?fields, ?later, ?clocks⟩
  case fields =>
      intro hoffset
      rw [earlier_holds]
      exact Calendar.Timestamp.before_iff_fields_lt a.proper_timestamp b.proper_timestamp hoffset
  case later => rw [later_holds, earlier_holds]
  case clocks =>
      intro a' hmoment op hop
      have hinstant : a.timestamp.instant = a'.timestamp.instant :=
        (Calendar.Timestamp.instant_eq_iff_sameMoment a.proper_timestamp a'.proper_timestamp).mpr hmoment
      rw [List.mem_pair] at hop
      rcases hop with rfl | rfl
      · simp only [earlier_holds, hinstant, and_self]
      · simp only [later_holds, hinstant, and_self]

/-- A leap second at the end of a year, as it is written without offset. -/
def leapSecond : DateText where
  date := ⟨2016, 12, 31⟩
  valid := rfl
  fits := by decide
  time := some ⟨'T', .inl rfl, 23, 59, 60, [1, 2, 3, 4, 5, 6, 7, 8, 9, 9], .utc 'Z' (.inl rfl)⟩

/-- The same leap second on a clock that is in the new year already. -/
def leapSecondAhead : DateText where
  date := ⟨2017, 1, 1⟩
  valid := rfl
  fits := by decide
  time := some ⟨'T', .inl rfl, 0, 59, 60, [1, 2, 3, 4, 5, 6, 7, 8, 9], .ahead 1 0⟩

/-- The first day of the new year. -/
def newYear : DateText where
  date := ⟨2017, 1, 1⟩
  valid := rfl
  fits := by decide
  time := none

theorem dates_compared_by_calendar_leapSecond :
    leapSecond.write = "2016-12-31T23:59:60.1234567899Z" ∧
    leapSecondAhead.write = "2017-01-01T00:59:60.123456789+01:00" ∧ newYear.write = "2017-01-01" ∧
    earlier.holds (some (.text leapSecond.write)) (.text newYear.write) = true ∧
    later.holds (some (.text newYear.write)) (.text leapSecond.write) = true ∧
    earlier.holds (some (.text leapSecondAhead.write)) (.text newYear.write) = true := by
  obtain ⟨hfields, _, hclocks⟩ := dates_compared_by_calendar leapSecond newYear
  obtain ⟨_, hlater, _⟩ := dates_compared_by_calendar newYear leapSecond
  have hearlier := (hfields (by decide)).mpr (by decide)
  have hmoment : leapSecond.timestamp.SameMoment leapSecondAhead.timestamp :=
    (Calendar.Timestamp.instant_eq_iff_sameMoment leapSecond.proper_timestamp leapSecondAhead.proper_timestamp).mp
      (by decide)
  have hahead := (hclocks leapSecondAhead hmoment earlier (by decide)).1
  exact ⟨by decide, by decide, by decide, hearlier, hlater.trans hearlier, hahead.trans hearlier⟩

end AccessPolicy.Operator
