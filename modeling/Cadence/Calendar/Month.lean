import Cadence.Text.Basic

/-!
# Months

Month lengths and names of the Gregorian calendar. Years are numbers from 1; the rule for leap years
is kept for every number, so that lengths of months next to the calendar's ends are known too.
-/

namespace Cadence

/-- A leap year: a multiple of four, a multiple of a hundred only if one of four hundred. -/
def isLeap (year : Nat) : Bool := year % 4 = 0 && (year % 100 ≠ 0 || year % 400 = 0)

/-- The number of days of a year. -/
def daysInYear (year : Nat) : Nat := if isLeap year then 366 else 365

/-- The number of days of a month, zero for a number that names no month. -/
def daysInMonth (year month : Nat) : Nat :=
  match month with
  | 1 | 3 | 5 | 7 | 8 | 10 | 12 => 31
  | 4 | 6 | 9 | 11 => 30
  | 2 => if isLeap year then 29 else 28
  | _ => 0

/-- The number of days of a year before a month begins; for month 13, all of them. -/
def daysBeforeMonth (year month : Nat) : Nat :=
  match month with
  | 0 | 1 => 0
  | m + 1 => daysBeforeMonth year m + daysInMonth year m

/-- The number of days from the first of January of year 1 to that of `year`. -/
def daysBeforeYear (year : Nat) : Nat :=
  let y := year - 1
  365 * y + y / 4 - y / 100 + y / 400

/-- The names of the months, January first. -/
def monthNames : List Text :=
  ["January", "February", "March", "April", "May", "June", "July", "August", "September", "October", "November",
    "December"]

/-- The name of a month, empty for a number that names none. -/
def monthName (month : Nat) : Text :=
  match month with
  | 0 => ""
  | m + 1 => (monthNames[m]?).getD ""

/-- The first three letters of a month's name. -/
def monthAbbreviation (month : Nat) : Text := (monthName month).take 3

theorem daysInMonth_pos {year month : Nat} (h₁ : 1 ≤ month) (h₂ : month ≤ 12) : 28 ≤ daysInMonth year month := by
  match month, h₁, h₂ with
  | 1, _, _ | 2, _, _ | 3, _, _ | 4, _, _ | 5, _, _ | 6, _, _ | 7, _, _ | 8, _, _ | 9, _, _ | 10, _, _
  | 11, _, _ | 12, _, _ => simp [daysInMonth]; try split <;> omega

theorem daysInMonth_le (year month : Nat) : daysInMonth year month ≤ 31 := by
  unfold daysInMonth; split <;> (try split) <;> omega

theorem daysBeforeMonth_thirteen (year : Nat) : daysBeforeMonth year 13 = daysInYear year := by
  cases h : isLeap year <;> simp [daysBeforeMonth, daysInMonth, daysInYear, h]

end Cadence
