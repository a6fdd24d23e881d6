import Cadence.Calendar.Stamp

/-!
# Moving by months and years

A move by months or years keeps the time of day and the day of the month, or takes the month's last
day when it is too short. The target year is a number that may lie outside the calendar; how far
outside decides which of two failures it is, so the outcome tells them apart.
-/

namespace Cadence

/-- What a move by months or years leads to. -/
inductive Shifted where
  /-- A timestamp of the calendar. -/
  | to (s : Stamp)
  /-- A year that the calendar does not have. -/
  | offCalendar
  /-- A year beyond the numbers that are read as years at all. -/
  | offScale
  deriving DecidableEq

/-- A number that fits a signed word of 32 bits. -/
def fitsWord (n : Int) : Bool := -2147483648 ≤ n && n ≤ 2147483647

/-- The timestamp moved into a month of a year, on its day of the month or the month's last one. -/
def Stamp.moveTo (s : Stamp) (year : Int) (month : Nat) : Shifted :=
  if ! fitsWord year then .offScale
  else if year < 0 then .offCalendar
  else
    match Day.of? year.toNat month (min s.day.day (daysInMonth year.toNat month)) with
    | some day => .to { s with day }
    | none => .offCalendar

/-- The timestamp so many months later. -/
def Stamp.addMonths (s : Stamp) (months : Int) : Shifted :=
  let count := (s.day.year : Int) * 12 + (s.day.month - 1) + months
  s.moveTo (count / 12) ((count % 12).toNat + 1)

/-- The timestamp so many years later. -/
def Stamp.addYears (s : Stamp) (years : Int) : Shifted :=
  s.moveTo ((s.day.year : Int) + years) s.day.month

end Cadence
