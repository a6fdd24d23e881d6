import Cadence.Phrase
import Cadence.Repetition

/-!
# Summary of a recurrence

The sentence that stands in front of the end date of a recurrence, such as "Occurs every Monday and
Friday until". It is made from the choices and the start date alone. A pattern that there is not reads
like the yearly one as long as its unit is not named.
-/

namespace Cadence.Choices

/-- The interval is one. -/
def isSingle (c : Choices) : Bool := c.every.same (.int 1)

/-- What is wrong with a pattern that there is not, when its unit is to be named. -/
def unitFault : Datum → Fault
  | .list _ | .object _ => .kind
  | _ => .key

/-- How often the recurrence repeats. -/
def interval (c : Choices) : Except Fault Text :=
  match c.pattern? with
  | some pattern => .ok (Phrase.intervalOf pattern c.every)
  | none => .error (unitFault c.pattern)

/-- The interval behind a phrase, left out when it is one. -/
def intervalBehind (c : Choices) : Except Fault Text :=
  if c.isSingle then .ok [] else c.interval.map (' ' :: ·)

/-- A phrase for the position of a day's weekday in its month. A fault in the last week of the
    calendar. -/
def positioned (start : Day) : Except Fault Text :=
  match start.weekdayPosition? with
  | some n => .ok ("on " ++ Phrase.weekday n start.weekday)
  | none => .error .range

/-- What is said of a weekly recurrence. -/
def weeklyClause (c : Choices) : Except Fault Text :=
  match (Weekday.sorted c.selectedDays).map (·.name) with
  | [] => c.interval
  | names =>
    if c.isSingle then .ok ("every " ++ Phrase.listed names)
    else c.interval.map (· ++ " on " ++ Phrase.listed names)

/-- What is said of a monthly recurrence, with its interval behind. -/
def monthlyClause (c : Choices) (start : Day) (interval : Text) : Except Fault Text :=
  if c.monthlyOption? = some .day then .ok ("on day " ++ Text.ofNat start.day ++ interval)
  else (positioned start).map (· ++ interval)

/-- What is said of a yearly recurrence, with its interval behind. -/
def yearlyClause (c : Choices) (start : Day) (interval : Text) : Except Fault Text :=
  if c.yearlyOption? = some .date then
    let date := monthName start.month ++ ' ' :: Text.ofNat start.day
    .ok (if c.isSingle then "every " ++ date else "on " ++ date ++ interval)
  else (positioned start).map (· ++ " of " ++ monthName start.month ++ interval)

/-- What the sentence says between its first word and its last one. -/
def clause (c : Choices) (start : Except Fault Day) : Except Fault Text :=
  match c.pattern? with
  | some .day => c.interval
  | some .week => c.weeklyClause
  | other => do
    let start ← start
    let interval ← c.intervalBehind
    if other = some .month then c.monthlyClause start interval else c.yearlyClause start interval

/-- The sentence in front of the end date. The start may be unknown, or no date. -/
def summary (c : Choices) (start : Option (Except Fault Day)) (hasEnd : Bool) : Except Fault Text := do
  let clause ← match start with
    | none => .ok []
    | some start => (c.clause start).map (' ' :: ·)
  return "Occurs" ++ clause ++ (if hasEnd then " until".toList else [])

end Cadence.Choices
