import Cadence.Calendar.Day

/-!
# Weekday positions

The place of a day among the days of its month with the same weekday. A day is the last of them when
the same weekday a week later falls in another month; otherwise it is one of the first four.
-/

namespace Cadence.Day

/-- How many days of the month up to this one, itself included, have its weekday. -/
def weekdayOrdinal (d : Day) : Nat :=
  (List.range d.day).countP fun k =>
    match Day.of? d.year d.month (k + 1) with
    | some e => e.weekday = d.weekday
    | none => false

/-- No later day of the month has the weekday. Unknown in the calendar's last week, which has no week
    after it. -/
def isLastOfWeekday? (d : Day) : Option Bool :=
  (d.addDays? 7).map fun next => next.month ≠ d.month

/-- The position that a rule names: -1 for the last day with its weekday, otherwise its ordinal. -/
def weekdayPosition? (d : Day) : Option Int :=
  d.isLastOfWeekday?.map fun last => if last then -1 else d.weekdayOrdinal

end Cadence.Day
