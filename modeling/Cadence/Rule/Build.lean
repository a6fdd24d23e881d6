import Cadence.Calendar.Position
import Cadence.Description
import Cadence.Rule.Query

/-!
# Rules from fields

The rule text of a recurrence: its frequency and interval, its end as the last second of a day, and the
weekdays, the day of the month or the weekday position that the start and the options give. The rule is
evaluated once before its text is given out. The fields may be a host's own values (`Draft`), which are
resolved first.
-/

namespace Cadence

namespace Day

/-- A weekday and its position in the month as a rule names them. -/
def positionText? (d : Day) : Option Text :=
  d.weekdayPosition?.map fun n => Text.ofInt n ++ d.weekday.symbol

end Day

/-- The fields of a recurrence when they have been resolved. -/
structure RuleFields where
  start : Stamp
  pattern : Pattern
  interval : Text
  selectedDays : List Weekday
  monthlyOption : MonthlyOption
  yearlyOption : YearlyOption
  finish : Option Stamp

namespace RuleFields

/-- The last second of a day. None in the last day of the calendar. -/
def lastSecond (s : Stamp) : Result Stamp := (dayEnd s).map (·.wholeSecond)

/-- The weekdays of a weekly rule, of which there must be fewer than seven. -/
def weekParts (f : RuleFields) : Result (List (RuleKey × Text)) :=
  let days := Weekday.sorted f.selectedDays
  if days.length = 7 then .error (.cannotBuild .allWeekdays)
  else if days.isEmpty then .ok []
  else .ok [(.byDay, Text.joinWith [','] (days.map (·.symbol)))]

/-- The weekday and position of the start. -/
def positionPart (f : RuleFields) : Result (RuleKey × Text) :=
  (orFault .range f.start.day.positionText?).map fun text => (.byDay, text)

/-- The start's day of the month. -/
def dayPart (f : RuleFields) : RuleKey × Text := (.byMonthDay, Text.ofNat f.start.day.day)

/-- The start's month. -/
def monthPart (f : RuleFields) : RuleKey × Text := (.byMonth, Text.ofNat f.start.day.month)

/-- The parts that say on which days a recurrence falls. -/
def dayParts (f : RuleFields) : Result (List (RuleKey × Text)) :=
  match f.pattern with
  | .day => .ok []
  | .week => f.weekParts
  | .month =>
    match f.monthlyOption with
    | .day => .ok [f.dayPart]
    | .weekday => (f.positionPart).map fun part => [part]
  | .year =>
    match f.yearlyOption with
    | .date => .ok [f.dayPart, f.monthPart]
    | .weekday => (f.positionPart).map fun part => [part, f.monthPart]

/-- The end as a part of the rule. -/
def finishParts (f : RuleFields) : List (RuleKey × Text) :=
  match f.finish with
  | some finish => [(.until, Compact.text finish)]
  | none => []

/-- The rule that the fields make. -/
def rule (f : RuleFields) : Result RuleText :=
  (f.dayParts).map fun parts =>
    { parts := [(.freq, f.pattern.frequency), (.interval, f.interval)] ++ f.finishParts ++ parts }

/-- The text of the rule, provided that it can be evaluated. -/
def ruleText (f : RuleFields) (today : Stamp) : Result Text := do
  let rule ← f.rule
  match rule.recurrenceFrom today f.start with
  | .ok _ => return rule.body
  | .error (.badRule text flaw) => throw (.cannotBuild (.refused text flaw))
  | .error e => throw e

end RuleFields

namespace Draft

/-- A date of the draft, a failure to read it being reported as given. -/
def dateOr (c : Setting) (flaw : BuildFlaw) (value : Datum) : Result Stamp :=
  match c.stamp value with
  | .ok s => .ok s
  | .error e => if e.isDate then .error (.cannotBuild flaw) else .error e

/-- The interval as it is written into the rule, for a positive number or the truth value. -/
def intervalText? (d : Draft) : Option Text :=
  match d.every with
  | .int n => if 1 ≤ n then some (Text.ofInt n) else none
  | .bool true => some (Datum.boolShown true)
  | _ => none

/-- The end of the recurrence, as the last second of its day. -/
def lastMoment (d : Draft) (c : Setting) : Result (Option Stamp) :=
  if d.hasEnd.truthy then do
    let finish ← dateOr c (.endUnresolved d.finish) d.finish
    return some (← RuleFields.lastSecond finish)
  else .ok none

/-- The draft with its fields resolved. -/
def resolve (d : Draft) (c : Setting) : Result RuleFields := do
  let start ← dateOr c (.startUnresolved d.start) d.start
  match d.pattern? with
  | none => throw (.cannotBuild (.unknownPattern d.pattern))
  | some pattern =>
    match d.intervalText? with
    | none => throw (.cannotBuild (.badInterval d.every))
    | some interval =>
      let finish ← d.lastMoment c
      return {
        start, pattern, interval, finish
        selectedDays := d.selectedDays
        monthlyOption := d.monthlyOption?.getD .day
        yearlyOption := d.yearlyOption?.getD .date }

/-- The rule text that the draft makes. -/
def ruleText (d : Draft) (c : Setting) : Result Text := do
  (← d.resolve c).ruleText c.today

end Draft

/-- The rule text that the fields of a description make. -/
def Description.ruleText (d : Description) (c : Setting) : Result Text := d.draft.ruleText c

end Cadence
