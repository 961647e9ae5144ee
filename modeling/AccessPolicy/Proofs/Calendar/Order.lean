import AccessPolicy.Calendar.Instant
import Mathlib.Data.Int.CharZero
import Mathlib.Data.List.Lex
import Mathlib.Logic.Function.Iterate
import Mathlib.Order.Monotone.Basic

/-!
# Instants follow the calendar

Timestamps are compared by the instants they denote, and these are numbers: of a day, of a second, of a nanosecond. Here
the numbers are tied to what stands on the calendar and on the clock.

On clocks with one offset, earlier means that the *fields* come first in the order of dictionaries: the years are
compared, then the months, and so on down to the nanoseconds. Years and months differ in length, so this rests on every
month ending before the next begins, and every year (`Date.dayNumber_lt_dayNumber`); and a leap second, the sixtieth,
has to come after all of the second that it is added to.

On clocks with different offsets, one moment has different fields. They are got from each other a minute at a time: a
clock that is one minute further ahead shows the next minute, and where that ends an hour or a day it shows the next of
these (`Timestamp.ahead`). Timestamps denote one instant just if some number of such minutes leads from one to the
other.

Contents:
* `Date.fields`, `Date.next` — a date in parts, and the day after it;
* `Timestamp.fields`, `Timestamp.ahead`, `Timestamp.SameMoment`;
* **`Timestamp.before_iff_fields_lt`**, **`Timestamp.instant_eq_iff_sameMoment`**.
-/

namespace AccessPolicy.Calendar

/-! ## Dates -/

theorem daysInMonth_le (year : Int) (month : Nat) : daysInMonth year month ≤ 31 := by
  unfold daysInMonth
  split
  · split <;> decide
  · split <;> decide

theorem one_le_daysInMonth (year : Int) (month : Nat) : 1 ≤ daysInMonth year month := by
  unfold daysInMonth
  split
  · split <;> decide
  · split <;> decide

namespace Date

variable {a b d : Date}

/-- The parts of a date, the largest first. -/
def fields (d : Date) : List Int :=
  [d.year, d.month, d.day]

theorem isValid_iff :
    d.isValid = true ↔ 1 ≤ d.month ∧ d.month ≤ 12 ∧ 1 ≤ d.day ∧ d.day ≤ daysInMonth d.year d.month := by
  simp [isValid, and_assoc]

theorem fields_injective : Function.Injective fields := by
  rintro ⟨_, _, _⟩ ⟨_, _, _⟩ h
  simpa [fields] using h

theorem fields_lt_iff :
    a.fields < b.fields ↔
      a.year < b.year ∨ a.year = b.year ∧ (a.month < b.month ∨ a.month = b.month ∧ a.day < b.day) := by
  simp [fields, List.cons_lt_cons_iff]

theorem daysBeforeMonth_succ (year : Int) {month : Nat} (h : 1 ≤ month) :
    daysBeforeMonth year (month + 1) = daysBeforeMonth year month + daysInMonth year month := by
  rw [daysBeforeMonth, if_neg (by omega)]

theorem daysBeforeMonth_mono (year : Int) {m n : Nat} (h : m ≤ n) : daysBeforeMonth year m ≤ daysBeforeMonth year n :=
  monotone_nat_of_le_succ (fun _ => Nat.le_add_right _ _) h

theorem daysBeforeMonth_one (year : Int) : daysBeforeMonth year 1 = 0 :=
  rfl

/-- Twelve months make a year. -/
theorem daysBeforeYear_succ_eq (year : Int) :
    daysBeforeYear (year + 1) = daysBeforeYear year + daysBeforeMonth year 13 := by
  rw [daysBeforeYear_succ]
  cases h : isLeap year <;> simp [daysBeforeMonth, daysInMonth, h]

theorem daysBeforeYear_mono {y z : Int} (h : y ≤ z) : daysBeforeYear y ≤ daysBeforeYear z := by
  have hsucc : ∀ year, daysBeforeYear year ≤ daysBeforeYear (year + 1) := by
    intro year
    rw [daysBeforeYear_succ_eq]
    exact Int.le_add_of_nonneg_right (Int.natCast_nonneg _)
  exact monotone_int_of_le_succ hsucc h

/-- A day comes before the month after its own. -/
theorem daysBeforeMonth_add_day_le (h : d.isValid = true) {month : Nat} (hmonth : d.month < month) :
    daysBeforeMonth d.year d.month + d.day ≤ daysBeforeMonth d.year month := by
  obtain ⟨hfirst, _, _, hday⟩ := isValid_iff.mp h
  calc daysBeforeMonth d.year d.month + d.day
      ≤ daysBeforeMonth d.year d.month + daysInMonth d.year d.month := Nat.add_le_add_left hday _
    _ = daysBeforeMonth d.year (d.month + 1) := (daysBeforeMonth_succ d.year hfirst).symm
    _ ≤ daysBeforeMonth d.year month := daysBeforeMonth_mono d.year hmonth

/-- A day comes before the year after its own. -/
theorem dayNumber_le_daysBeforeYear (h : d.isValid = true) {year : Int} (hyear : d.year < year) :
    d.dayNumber ≤ daysBeforeYear year := by
  have hlast : daysBeforeMonth d.year d.month + d.day ≤ daysBeforeMonth d.year 13 :=
    daysBeforeMonth_add_day_le h (by have := (isValid_iff.mp h).2.1; omega)
  calc d.dayNumber = daysBeforeYear d.year + (daysBeforeMonth d.year d.month + d.day : Nat) := by
        simp [dayNumber, Int.add_assoc]
    _ ≤ daysBeforeYear d.year + daysBeforeMonth d.year 13 := by omega
    _ = daysBeforeYear (d.year + 1) := (daysBeforeYear_succ_eq d.year).symm
    _ ≤ daysBeforeYear year := daysBeforeYear_mono hyear

/-- Days are numbered in the order of the calendar. -/
theorem dayNumber_lt_dayNumber (ha : a.isValid = true) (hb : b.isValid = true) (h : a.fields < b.fields) :
    a.dayNumber < b.dayNumber := by
  have hfirst : 1 ≤ b.day := (isValid_iff.mp hb).2.2.1
  rcases fields_lt_iff.mp h with hyear | ⟨hyear, hmonth | ⟨hmonth, hday⟩⟩
  · have hle := dayNumber_le_daysBeforeYear ha hyear
    unfold dayNumber at hle ⊢
    omega
  · have hle := daysBeforeMonth_add_day_le ha hmonth
    rw [hyear] at hle
    unfold dayNumber
    rw [hyear]
    omega
  · unfold dayNumber
    rw [hyear, hmonth]
    omega

/-! ### The day after -/

/-- The day after: the next of the month, or else the first of the next month, or else the first of the next year. -/
def next (d : Date) : Date :=
  if d.day < daysInMonth d.year d.month then ⟨d.year, d.month, d.day + 1⟩
  else if d.month < 12 then ⟨d.year, d.month + 1, 1⟩
  else ⟨d.year + 1, 1, 1⟩

theorem isValid_next (h : d.isValid = true) : d.next.isValid = true := by
  obtain ⟨hfirst, hlast, hday, _⟩ := isValid_iff.mp h
  unfold next
  split
  · exact isValid_iff.mpr ⟨hfirst, hlast, Nat.le_add_left _ _, by assumption⟩
  · split
    · exact isValid_iff.mpr ⟨Nat.le_add_left _ _, by assumption, Nat.le_refl _, one_le_daysInMonth _ _⟩
    · exact isValid_iff.mpr ⟨Nat.le_refl _, by simp, Nat.le_refl _, one_le_daysInMonth _ _⟩

theorem dayNumber_next (h : d.isValid = true) : d.next.dayNumber = d.dayNumber + 1 := by
  obtain ⟨hfirst, hlast, _, hday⟩ := isValid_iff.mp h
  unfold next
  split
  case isTrue => simp only [dayNumber]; omega
  case isFalse hmore =>
      -- The day is the last of its month.
      have hend : d.day = daysInMonth d.year d.month := by omega
      have hmonth := daysBeforeMonth_succ d.year hfirst
      split
      case isTrue => simp only [dayNumber]; omega
      case isFalse hlater =>
          have hyear := daysBeforeYear_succ_eq d.year
          have htwelve : d.month = 12 := by omega
          simp only [dayNumber, htwelve, daysBeforeMonth_one] at hmonth ⊢
          rw [hend, hyear, hmonth, htwelve]
          omega

end Date

/-! ## Timestamps -/

namespace Timestamp

variable {t u : Timestamp}

/-- A timestamp as texts can write it: a date and a time that there are, less than a second of nanoseconds, and an
    offset of whole minutes. -/
structure Proper (t : Timestamp) : Prop where
  valid : t.isValid = true
  nanosecond_lt : t.nanosecond < 1000000000
  dvd_offset : 60 ∣ t.offset

/-- The parts of the time of day, the largest first. -/
def clock (t : Timestamp) : List Int :=
  [t.hour, t.minute, t.second, t.nanosecond]

/-- What a timestamp shows of the calendar and of the clock, the largest first. -/
def fields (t : Timestamp) : List Int :=
  t.date.fields ++ t.clock

theorem isValid_iff :
    t.isValid = true ↔ t.date.isValid = true ∧ t.hour ≤ 23 ∧ t.minute ≤ 59 ∧ t.second ≤ 60 := by
  simp [isValid, and_assoc]

theorem clock_lt_iff :
    t.clock < u.clock ↔
      t.hour < u.hour ∨ t.hour = u.hour ∧ (t.minute < u.minute ∨ t.minute = u.minute ∧
        (t.second < u.second ∨ t.second = u.second ∧ t.nanosecond < u.nanosecond)) := by
  simp [clock, List.cons_lt_cons_iff]

theorem fields_lt_iff :
    t.fields < u.fields ↔ t.date.fields < u.date.fields ∨ t.date = u.date ∧ t.clock < u.clock := by
  rw [← Date.fields_injective.eq_iff, Date.fields_lt_iff]
  simp only [fields, Date.fields, List.cons_append, List.nil_append, List.cons_lt_cons_iff, List.cons.injEq]
  grind

/-- Fields and offset are all there is to a timestamp. -/
theorem eq_of_fields_eq (h : t.fields = u.fields) (hoffset : t.offset = u.offset) : t = u := by
  obtain ⟨⟨_, _, _⟩, _, _, _, _, _⟩ := t
  obtain ⟨⟨_, _, _⟩, _, _, _, _, _⟩ := u
  simp_all [fields, clock, Date.fields]

theorem secondOfDay_lt (h : t.isValid = true) : t.secondOfDay < 86400 := by
  obtain ⟨_, hhour, hminute, _⟩ := isValid_iff.mp h
  unfold secondOfDay
  omega

end Timestamp

/-! ## The order of instants -/

theorem Instant.before_iff {a b : Instant} :
    a.before b = true ↔ a.second < b.second ∨ a.second = b.second ∧ a.nanosecond < b.nanosecond := by
  simp [before]

theorem Instant.not_before_self (a : Instant) : a.before a = false := by
  simp [before]

theorem Instant.not_before_of_before {a b : Instant} (h : a.before b = true) : b.before a = false := by
  rw [Instant.before_iff] at h
  rw [Bool.eq_false_iff, ne_eq, Instant.before_iff]
  omega

/-- Of two different instants, one comes before the other. -/
theorem Instant.neither_before_iff {a b : Instant} : a.before b = false ∧ b.before a = false ↔ a = b := by
  obtain ⟨_, _⟩ := a
  obtain ⟨_, _⟩ := b
  simp only [Bool.eq_false_iff, ne_eq, Instant.before_iff, Instant.mk.injEq]
  omega

namespace Timestamp

variable {t u : Timestamp}

theorem before_of_fields_lt (ht : t.Proper) (hu : u.Proper) (hoffset : t.offset = u.offset) (h : t.fields < u.fields) :
    t.instant.before u.instant = true := by
  rw [Instant.before_iff]
  rcases fields_lt_iff.mp h with hdate | ⟨hdate, hclock⟩
  · have hday := Date.dayNumber_lt_dayNumber (isValid_iff.mp ht.valid).1 (isValid_iff.mp hu.valid).1 hdate
    have hsecond := secondOfDay_lt ht.valid
    left
    simp only [instant]
    omega
  · obtain ⟨_, _, htminute, htsecond⟩ := isValid_iff.mp ht.valid
    obtain ⟨_, _, huminute, husecond⟩ := isValid_iff.mp hu.valid
    have htns := ht.nanosecond_lt
    rw [clock_lt_iff] at hclock
    simp only [instant, secondOfDay, hdate, hoffset]
    -- A leap second counts as the second before it, and differs from that by its nanoseconds only.
    split <;> split <;> omega

/-- **On clocks with one offset, instants are ordered as the fields are**, from the year down to the nanosecond. -/
theorem before_iff_fields_lt (ht : t.Proper) (hu : u.Proper) (hoffset : t.offset = u.offset) :
    t.instant.before u.instant = true ↔ t.fields < u.fields := by
  constructor
  case mpr => exact before_of_fields_lt ht hu hoffset
  case mp =>
      intro h
      rcases lt_trichotomy t.fields u.fields with hlt | heq | hgt
      · exact hlt
      · rw [eq_of_fields_eq heq hoffset, Instant.not_before_self] at h
        contradiction
      · rw [Instant.not_before_of_before (before_of_fields_lt hu ht hoffset.symm hgt)] at h
        contradiction

/-- On clocks with one offset, an instant is shown in one way. -/
theorem eq_of_instant_eq (ht : t.Proper) (hu : u.Proper) (hoffset : t.offset = u.offset)
    (h : t.instant = u.instant) : t = u := by
  refine eq_of_fields_eq (le_antisymm (not_lt.mp ?_) (not_lt.mp ?_)) hoffset
  · rw [← before_iff_fields_lt hu ht hoffset.symm, h, Instant.not_before_self]
    exact Bool.false_ne_true
  · rw [← before_iff_fields_lt ht hu hoffset, h, Instant.not_before_self]
    exact Bool.false_ne_true

/-! ## One moment on different clocks -/

/-- What is shown at the same moment on a clock that is one minute further ahead. -/
def ahead (t : Timestamp) : Timestamp :=
  if t.minute < 59 then ⟨t.date, t.hour, t.minute + 1, t.second, t.nanosecond, t.offset + 60⟩
  else if t.hour < 23 then ⟨t.date, t.hour + 1, 0, t.second, t.nanosecond, t.offset + 60⟩
  else ⟨t.date.next, 0, 0, t.second, t.nanosecond, t.offset + 60⟩

/-- Two timestamps show the same moment: by turning the clock of one of them ahead, its offset with it, one gets to the
    other. -/
def SameMoment (t u : Timestamp) : Prop :=
  ∃ minutes, ahead^[minutes] t = u ∨ ahead^[minutes] u = t

@[simp] theorem ahead_offset (t : Timestamp) : t.ahead.offset = t.offset + 60 := by
  unfold ahead
  split
  · rfl
  · split <;> rfl

@[simp] theorem ahead_nanosecond (t : Timestamp) : t.ahead.nanosecond = t.nanosecond := by
  unfold ahead
  split
  · rfl
  · split <;> rfl

theorem Proper.ahead (h : t.Proper) : t.ahead.Proper := by
  obtain ⟨hdate, hhour, hminute, hsecond⟩ := isValid_iff.mp h.valid
  refine ⟨?_, by simpa using h.nanosecond_lt, by simpa using Int.dvd_add h.dvd_offset (Int.dvd_refl 60)⟩
  unfold Timestamp.ahead
  rw [isValid_iff]
  split
  case isTrue => exact ⟨hdate, hhour, by assumption, hsecond⟩
  case isFalse =>
      split
      case isTrue => exact ⟨hdate, by assumption, Nat.zero_le _, hsecond⟩
      case isFalse => exact ⟨Date.isValid_next hdate, Nat.zero_le _, Nat.zero_le _, hsecond⟩

theorem instant_ahead (h : t.isValid = true) : t.ahead.instant = t.instant := by
  obtain ⟨hdate, hhour, hminute, _⟩ := isValid_iff.mp h
  have hnext := Date.dayNumber_next hdate
  unfold ahead
  split
  case isTrue => simp only [instant, secondOfDay, Instant.mk.injEq, and_true]; omega
  case isFalse =>
      split
      case isTrue => simp only [instant, secondOfDay, Instant.mk.injEq, and_true]; omega
      case isFalse => simp only [instant, secondOfDay, hnext, Instant.mk.injEq, and_true]; omega

/-- Turning a clock ahead any number of minutes leaves the instant as it is. -/
theorem iterate_ahead (h : t.Proper) (minutes : Nat) :
    (ahead^[minutes] t).Proper ∧ (ahead^[minutes] t).instant = t.instant ∧
      (ahead^[minutes] t).offset = t.offset + 60 * minutes := by
  induction minutes with
  | zero => exact ⟨h, rfl, by simp⟩
  | succ minutes ih =>
      obtain ⟨hproper, hinstant, hoffset⟩ := ih
      rw [Function.iterate_succ_apply']
      refine ⟨hproper.ahead, (instant_ahead hproper.valid).trans hinstant, ?_⟩
      rw [ahead_offset, hoffset]
      omega

theorem exists_iterate_ahead (ht : t.Proper) (hu : u.Proper) (hoffset : t.offset ≤ u.offset)
    (h : t.instant = u.instant) : ∃ minutes, ahead^[minutes] t = u := by
  -- With both offsets in whole minutes, the way from one to the other is some number of them.
  obtain ⟨minutes, hminutes⟩ : ∃ minutes : Nat, u.offset = t.offset + 60 * minutes := by
    obtain ⟨⟨m, hm⟩, ⟨n, hn⟩⟩ := And.intro ht.dvd_offset hu.dvd_offset
    exact ⟨(n - m).toNat, by omega⟩
  obtain ⟨hproper, hinstant, hahead⟩ := iterate_ahead ht minutes
  exact ⟨minutes, eq_of_instant_eq hproper hu (hahead.trans hminutes.symm) (hinstant.trans h)⟩

/-- **Timestamps denote one instant just if they show the same moment**, on whatever clocks. -/
theorem instant_eq_iff_sameMoment (ht : t.Proper) (hu : u.Proper) : t.instant = u.instant ↔ SameMoment t u := by
  constructor
  · intro h
    rcases Int.le_total t.offset u.offset with hle | hle
    · obtain ⟨minutes, hminutes⟩ := exists_iterate_ahead ht hu hle h
      exact ⟨minutes, .inl hminutes⟩
    · obtain ⟨minutes, hminutes⟩ := exists_iterate_ahead hu ht hle h.symm
      exact ⟨minutes, .inr hminutes⟩
  · rintro ⟨minutes, rfl | rfl⟩
    · exact (iterate_ahead ht minutes).2.1.symm
    · exact (iterate_ahead hu minutes).2.1

end Timestamp

end AccessPolicy.Calendar
