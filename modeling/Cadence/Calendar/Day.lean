import Cadence.Calendar.Month
import Cadence.Weekday

/-!
# Days

A day of the calendar, from the first of January of year 1 to the last of December of year 9999. Days
are numbered from 1 in order (`Day.ordinal`); `Day.ofOrdinal?` is the day with a number, and moving
by days is addition on numbers. The first day is a Monday.
-/

namespace Cadence

/-- The last year of the calendar. -/
def lastYear : Nat := 9999

/-- The three numbers name a day of the calendar. -/
def IsDate (year month day : Nat) : Prop :=
  1 ≤ year ∧ year ≤ lastYear ∧ 1 ≤ month ∧ month ≤ 12 ∧ 1 ≤ day ∧ day ≤ daysInMonth year month

instance (year month day : Nat) : Decidable (IsDate year month day) := by
  unfold IsDate; infer_instance

/-- A day of the calendar. -/
structure Day where
  year : Nat
  month : Nat
  day : Nat
  valid : IsDate year month day
  deriving DecidableEq

namespace Day

/-- The day with this year, month and day of the month, if the calendar has it. -/
def of? (year month day : Nat) : Option Day :=
  if h : IsDate year month day then some ⟨year, month, day, h⟩ else none

/-- The number of the day: one for the first day of the calendar. -/
def ordinal (d : Day) : Nat :=
  daysBeforeYear d.year + daysBeforeMonth d.year d.month + d.day

/-- The number of the last day of the calendar. -/
def lastOrdinal : Nat := 3652059

/-- The month and the day of the month of the day that comes `n` days after the first of `month`. -/
def monthDay (year : Nat) (month n : Nat) : Nat → Nat × Nat
  | 0 => (month, n + 1)
  | fuel + 1 =>
    if n < daysInMonth year month then (month, n + 1)
    else monthDay year (month + 1) (n - daysInMonth year month) fuel

/-- The day with a number, if the calendar has it: whole cycles of 400, 100, 4 and 1 years are taken
    off first, then whole months. -/
def ofOrdinal? (number : Nat) : Option Day :=
  match number with
  | 0 => none
  | n + 1 =>
    let (n400, r400) := (n / 146097, n % 146097)
    let (n100, r100) := (r400 / 36524, r400 % 36524)
    let (n4, r4) := (r100 / 1461, r100 % 1461)
    let (n1, r1) := (r4 / 365, r4 % 365)
    let year := 400 * n400 + 100 * n100 + 4 * n4 + n1 + 1
    if n100 = 4 ∨ n1 = 4 then of? (year - 1) 12 31
    else
      let (month, day) := monthDay year 1 r1 11
      of? year month day

/-- The weekday of a day number. -/
def weekdayOf (number : Nat) : Weekday := Weekday.ofIndex (number + 6)

/-- The weekday of a day. -/
def weekday (d : Day) : Weekday := weekdayOf d.ordinal

/-- The day `n` days later, or earlier for a negative `n`, if the calendar has it. -/
def addDays? (d : Day) (n : Int) : Option Day :=
  let number := (d.ordinal : Int) + n
  if number < 0 then none else ofOrdinal? number.toNat

/-- The day comes before the other. -/
def before (a b : Day) : Bool := a.ordinal < b.ordinal

@[simp] theorem of?_eq_some {year month day : Nat} {d : Day} :
    of? year month day = some d ↔ d.year = year ∧ d.month = month ∧ d.day = day := by
  unfold of?
  constructor
  · split
    · rintro ⟨⟩; exact ⟨rfl, rfl, rfl⟩
    · simp
  · rintro ⟨rfl, rfl, rfl⟩
    rw [dif_pos d.valid]

theorem of?_isSome {year month day : Nat} : (of? year month day).isSome ↔ IsDate year month day := by
  unfold of?; split <;> simp_all

end Day

end Cadence
