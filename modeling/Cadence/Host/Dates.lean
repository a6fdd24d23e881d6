import Cadence.Calendar.Position
import Cadence.Calendar.Shift
import Cadence.Rule.Query

/-!
# Dates of hosts

The operations on dates when these are values that a host gives: checks, comparisons, moves, and the
positions of weekdays. Moves and days read texts in the British format.
-/

namespace Cadence.Host

/-- The value stands for a date. -/
def isValidDate (c : Setting) (value : Datum) : Result Bool :=
  match c.stamp value with
  | .ok _ => .ok true
  | .error e => if e.isDate then .ok false else .error e

/-- The first date comes before the second. -/
def isBefore (c : Setting) (first second : Datum) : Result Bool := do
  let a ← c.stamp first
  let b ← c.stamp second
  orderedBefore a b

/-- The day of a date is not before a reference day, which is the current day unless one is given. -/
def isTodayOrLater (c : Setting) (value reference : Datum) : Result Bool := do
  let stamp ← c.stamp value
  if ! reference.truthy then return ! stamp.day.before c.today.day
  match reference with
  | .day d => return ! stamp.day.before d
  | _ => throw (.fault .kind)

/-- The start of a date's day. -/
def startOfDay (c : Setting) (value : Datum) : Result Stamp := (c.plain.stamp value).map (·.startOfDay)

/-- The last microsecond of a date's day. -/
def endOfDay (c : Setting) (value : Datum) : Result Stamp := do dayEnd (← c.plain.stamp value)

/-- What a move by months or years leads to. -/
def moved : Shifted → Result Stamp
  | .to s => .ok s
  | .offCalendar => .error (.fault .value)
  | .offScale => .error (.fault .range)

/-- A whole number of months or years. -/
def wholeNumber : Datum → Except Fault Int
  | .bool b => .ok (if b then 1 else 0)
  | .int n => .ok n
  | .real .nan => .error .value
  | .real x =>
    match x.truncate? with
    | some n => if x.isWhole then .ok n else .error .value
    | none => .error .range
  | .text _ => .error .value
  | _ => .error .kind

/-- A date so many years later. -/
def addYears (c : Setting) (value years : Datum) : Result Stamp := do
  let stamp ← c.plain.stamp value
  let years ← liftFault (wholeNumber years)
  moved (stamp.addYears years)

/-- A date so many months later. -/
def addMonths (c : Setting) (value months : Datum) : Result Stamp := do
  let stamp ← c.plain.stamp value
  let months ← liftFault (wholeNumber months)
  moved (stamp.addMonths months)

/-- The day of a value that is a day or a timestamp. -/
def dayOr (f : Fault) : Datum → Result Day
  | .day d => .ok d
  | .stamp s => .ok s.day
  | _ => .error (.fault f)

/-- How many days of the month up to this one have its weekday. -/
def weekdayOrdinal (value : Datum) : Result Nat := (dayOr .member value).map (·.weekdayOrdinal)

/-- The day is the last one of its month with its weekday. -/
def isLastOfWeekday (value : Datum) : Result Bool := do
  let day ← dayOr .kind value
  orFault .range day.isLastOfWeekday?

/-- The position of the day's weekday in the month as a rule names it. -/
def weekdayPosition (value : Datum) : Result Int := do
  let day ← dayOr .kind value
  orFault .range day.weekdayPosition?

/-- The day's weekday with its position as a rule names them. -/
def positionText (value : Datum) : Result Text := do
  let day ← dayOr .kind value
  let n ← orFault .range day.weekdayPosition?
  return Text.ofInt n ++ day.weekday.symbol

end Cadence.Host
