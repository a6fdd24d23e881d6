import Cadence.Rule.Schedule

/-!
# Days of a year under a rule

A rule restricts the days of a year by their month, day of the month, day of the year, week, weekday
and position, and distance from Easter Sunday. A year is looked at together with the first days of the
next one, since its last week may reach into it.
-/

namespace Cadence

/-- A year of the calendar. -/
structure RuleYear where
  year : Nat
  deriving DecidableEq, Repr

/-- A day of a year or of the first week of the next: its place counted from zero, its month and day of
    the month, and the length of the month. -/
structure YearDay where
  index : Nat
  month : Nat
  day : Nat
  monthLength : Nat
  deriving DecidableEq, Repr

namespace RuleYear

/-- The number of days. -/
def length (y : RuleYear) : Nat := daysInYear y.year

/-- The number of days of the next year. -/
def nextLength (y : RuleYear) : Nat := daysInYear (y.year + 1)

/-- The number of the first day. -/
def firstOrdinal (y : RuleYear) : Nat := daysBeforeYear y.year + 1

/-- The weekday at a place. -/
def weekdayAt (y : RuleYear) (index : Nat) : Weekday := Day.weekdayOf (y.firstOrdinal + index)

/-- The days of a month. -/
def monthDays (y : RuleYear) (month : Nat) : List YearDay :=
  let before := daysBeforeMonth y.year month
  let monthLength := daysInMonth y.year month
  (List.range monthLength).map fun k => { index := before + k, month, day := k + 1, monthLength }

/-- All days. -/
def days (y : RuleYear) : List YearDay := ((List.range 12).map (· + 1)).flatMap y.monthDays

/-- The day at a place, which may lie in the first week of the next year. -/
def dayAt (y : RuleYear) (index : Nat) : YearDay :=
  if index < y.length then
    let (month, day) := Day.monthDay y.year 1 index 11
    { index, month, day, monthLength := daysInMonth y.year month }
  else { index, month := 1, day := index - y.length + 1, monthLength := 31 }

/-! ### Weeks -/

/-- The place after the week that begins at a place, the week ending before the next day with which
    weeks begin. -/
def weekEnd (y : RuleYear) (weekStart : Weekday) (index : Nat) : Nat :=
  index + 1 + (weekStart.index + 7 - (y.weekdayAt (index + 1)).index) % 7

/-- How the weeks of a year are numbered. -/
structure Weeks where
  /-- The place of the first day with which weeks begin. -/
  firstStart : Nat
  /-- The place of the first week, which is zero if that week began in the year before. -/
  first : Nat
  /-- How many weeks are numbered. -/
  count : Nat

/-- The first day with which weeks begin comes so many days after the first of the year. -/
def weekOffset (y : RuleYear) (weekStart : Weekday) : Nat := (7 - (y.weekdayAt 0).index + weekStart.index) % 7

/-- The number of days by which a week began before the first of the year. -/
def daysBeforeFirst (y : RuleYear) (weekStart : Weekday) : Nat :=
  ((y.weekdayAt 0).index + 7 - weekStart.index) % 7

/-- The first week is the first one with at least four days in the year. -/
def weeks (y : RuleYear) (weekStart : Weekday) : Weeks :=
  let firstStart := y.weekOffset weekStart
  let (first, size) :=
    if 4 ≤ firstStart then (0, y.length + y.daysBeforeFirst weekStart) else (firstStart, y.length - firstStart)
  { firstStart, first, count := size / 7 + size % 7 / 4 }

/-- The place where a week begins. -/
def Weeks.place (w : Weeks) (number : Nat) : Nat :=
  if number ≤ 1 then w.first
  else w.first + (number - 1) * 7 - (if w.first ≠ w.firstStart then 7 - w.firstStart else 0)

/-- The number of the last week of the year before, minus one standing for it if the rule names weeks
    from the end. There is no year before the first. -/
def lastWeekBefore (y : RuleYear) (weekStart : Weekday) (first : Nat) (numbers : List Int) : Except Fault Int :=
  if numbers.contains (-1) then .ok (-1)
  else if y.year ≤ 1 then .error .value
  else
    let last : RuleYear := ⟨y.year - 1⟩
    let size :=
      if 4 ≤ last.weekOffset weekStart then last.length + last.daysBeforeFirst weekStart else y.length - first
    .ok (52 + size % 7 / 4 : Nat)

/-- The spans of places that the numbered weeks take, each without its end. -/
def weekSpans (y : RuleYear) (weekStart : Weekday) (numbers : List Int) : Except Fault (List (Nat × Nat)) := do
  if numbers.isEmpty then return []
  let w := y.weeks weekStart
  let span := fun place => (place, y.weekEnd weekStart place)
  let own := numbers.filterMap fun (n : Int) =>
    let number : Int := if n < 0 then n + w.count + 1 else n
    if 0 < number ∧ number ≤ w.count then some (span (w.place number.toNat)) else none
  let beyond := w.first + w.count * 7 - (if w.first ≠ w.firstStart then 7 - w.firstStart else 0)
  let next := if numbers.contains 1 && beyond < y.length then [span beyond] else []
  let last ←
    if w.first = 0 then .ok []
    else
      (y.lastWeekBefore weekStart w.first numbers).map fun n => if numbers.contains n then [(0, w.first)] else []
  return own ++ next ++ last

/-! ### Weekdays at a position -/

/-- How many days are looked at together with a year, from its first weekday on. -/
def horizon (y : RuleYear) : Nat := 385 - (y.weekdayAt 0).index

/-- The place of a weekday at a position in a span of days. Positions far outside the year are faults. -/
def placeOf (y : RuleYear) (first last : Nat) (item : Weekday × Int) : Except Fault (Option Nat) :=
  let (day, n) := item
  let base : Int := if n < 0 then (last : Int) + (n + 1) * 7 else (first : Int) + (n - 1) * 7
  if base < -(y.horizon : Int) ∨ (y.horizon : Int) ≤ base then .error .index
  else if base < 0 then .ok none
  else
    let found := (y.weekdayAt base.toNat).index
    let place : Int :=
      if n < 0 then base - ((found + 7 - day.index) % 7 : Nat) else base + ((7 - found + day.index) % 7 : Nat)
    .ok (if first ≤ place ∧ place ≤ last then some place.toNat else none)

/-- The first and the last place of a month. A number that names no month is a fault. -/
def monthSpan (y : RuleYear) (month : Int) : Except Fault (Option (Nat × Nat)) :=
  if 1 ≤ month ∧ month ≤ 12 then
    let before := daysBeforeMonth y.year month.toNat
    .ok (some (before, before + daysInMonth y.year month.toNat - 1))
  else if -12 ≤ month ∧ month ≤ -2 then .ok none
  else .error .value

/-- The spans in which positions are counted: the months of a yearly rule, its year, or the month of a
    monthly rule. -/
def spans (y : RuleYear) (s : Schedule) (month : Nat) : Except Fault (List (Nat × Nat)) :=
  if s.frequency = .yearly then
    if s.months.isEmpty then .ok [(0, y.length - 1)]
    else (s.months.mapM y.monthSpan).map (·.filterMap id)
  else (y.monthSpan month).map fun span => span.toList

/-- The places of the weekdays that a rule names with their positions. -/
def nthPlaces (y : RuleYear) (s : Schedule) (month : Nat) : Except Fault (List Nat) := do
  if s.nthWeekdays.isEmpty then return []
  let spans ← y.spans s month
  let places ← spans.mapM fun (first, last) => s.nthWeekdays.mapM (y.placeOf first last)
  return places.flatten.filterMap id

/-! ### Easter -/

/-- Easter Sunday in the Western calendar, as month and day: the Sunday after the full moon that the
    church reckons from the year's place in the cycle of the moon and from its century. -/
def easter (year : Nat) : Nat × Nat :=
  let y : Int := year
  let golden := y % 19
  let century := y / 100
  let epact := (century - century / 4 - (8 * century + 13) / 25 + 19 * golden + 15) % 30
  let moon := epact - epact / 28 * (1 - epact / 28 * (29 / (epact + 1)) * ((21 - golden) / 11))
  let weekday := (y + y / 4 + moon + 2 - century + century / 4) % 7
  let sunday := moon - weekday
  ((3 + (sunday + 26) / 30).toNat, (1 + (sunday + 27 + (sunday + 6) / 40) % 31).toNat)

/-- The places that lie so many days from Easter Sunday. Places are counted round from the end of the
    days looked at; a place outside of them is a fault. -/
def easterPlaces (y : RuleYear) (days : List Int) : Except Fault (List Nat) :=
  let (month, day) := easter y.year
  let sunday : Int := daysBeforeMonth y.year month + day - 1
  let size : Int := y.length + 7
  days.mapM fun n =>
    let place := sunday + n
    if place < -size ∨ size ≤ place then .error .index
    else .ok (if place < 0 then place + size else place).toNat

/-! ### All restrictions -/

/-- The places that a rule picks out by week, by position and by distance from Easter. -/
structure Marks where
  weeks : List (Nat × Nat)
  nth : List Nat
  easter : List Nat

/-- The marks of a rule in a year; a monthly rule counts positions in the given month. -/
def marks (y : RuleYear) (s : Schedule) (month : Nat) : Except Fault Marks := do
  let weeks ← y.weekSpans s.weekStart s.weekNumbers
  let nth ← y.nthPlaces s month
  let easter ← y.easterPlaces s.easterDays
  return { weeks, nth, easter }

/-- A day of the year counts by its place from the start of its year or from its end. -/
def inYearDays (y : RuleYear) (numbers : List Int) (index : Nat) : Bool :=
  if index < y.length then numbers.contains ((index : Int) + 1) || numbers.contains ((index : Int) - y.length)
  else
    numbers.contains ((index : Int) + 1 - y.length) ||
      numbers.contains ((index : Int) - y.length - y.nextLength)

/-- A rule admits a day. -/
def admits (y : RuleYear) (s : Schedule) (m : Marks) (d : YearDay) : Bool :=
  (s.months.isEmpty || s.months.contains (d.month : Int)) &&
  (s.weekNumbers.isEmpty || m.weeks.any fun (first, last) => first ≤ d.index && d.index < last) &&
  (s.weekdays.isEmpty || s.weekdays.contains (y.weekdayAt d.index)) &&
  (s.nthWeekdays.isEmpty || m.nth.contains d.index) &&
  (s.easterDays.isEmpty || m.easter.contains d.index) &&
  (s.monthDays.isEmpty || s.monthDays.contains (d.day : Int) ||
    s.monthDays.contains ((d.day : Int) - d.monthLength - 1)) &&
  (s.yearDays.isEmpty || y.inYearDays s.yearDays d.index)

end RuleYear

end Cadence
