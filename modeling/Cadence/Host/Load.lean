import Cadence.DateText.Reader
import Cadence.Description
import Cadence.Rule.Query

/-!
# Descriptions from hosts

`Description.ofHost` reads the object that hosts exchange. What the object leaves open takes its
default; dates may be written in any way that a locale reads; tokens that there are not are failures.
-/

namespace Cadence

/-- The weekday that a token stands for. -/
def weekdayOf : Datum → Result Weekday
  | .text s =>
    match Weekday.ofToken? s with
    | some day => .ok day
    | none => .error (.unknownWeekday s)
  | other => .error (.weekdayNotText other)

/-- The items of a value that has items: those of a list, the characters of a text, the names of an
    object. -/
def itemsOf : Datum → Result (List Datum)
  | .list items => .ok items
  | .text s => .ok (s.map fun c => .text [c])
  | .object members => .ok (members.map fun member => .text member.1)
  | _ => .error (.fault .kind)

/-- A choice by its token, with a token for a value that does not count as given. -/
def choiceOf {α : Type} (ofToken? : Text → Option α) (default : α) (value : Datum) : Result α :=
  if ! value.truthy then .ok default
  else
    match value with
    | .text s => orFault .value (ofToken? s)
    | _ => .error (.fault .value)

/-- The weekdays that a value lists. -/
def weekdaysOf (value : Datum) : Result (List Weekday) :=
  if value.truthy then do
    let days ← (← itemsOf value).mapM weekdayOf
    return Weekday.sorted days
  else .ok []

namespace Description

/-- The fields of an object. -/
def ofMembers (c : Setting) (members : List (Text × Datum)) : Result Description := do
  let get := fun name => Datum.lookup name members
  let startGiven := get "startDate"
  let start ← if startGiven.truthy then c.stamp startGiven else .ok c.dayStart
  let finishGiven := get "endDate"
  let finish ← if finishGiven.truthy then (c.stamp finishGiven).map some else .ok none
  let everyGiven := get "every"
  let every ← liftFault (if everyGiven.truthy then everyGiven.toInt else .ok 1)
  let pattern ← choiceOf Pattern.ofToken? .day (get "pattern")
  let selectedDays ← weekdaysOf (get "selectedDays")
  let monthlyOption ← choiceOf MonthlyOption.ofToken? .day (get "monthlyOption")
  let yearlyOption ← choiceOf YearlyOption.ofToken? .date (get "yearlyOption")
  let wantsEnd := if Datum.hasMember "hasEndDate" members then (get "hasEndDate").truthy else finish.isSome
  return {
    start, finish, pattern, selectedDays, monthlyOption, yearlyOption
    every := max 1 every
    hasEnd := wantsEnd && finish.isSome
    rule := (get "rrule").orNull
    sentence := (get "description").orNull }

/-- The fields of a value that is an object. -/
def ofHost (c : Setting) : Datum → Result Description
  | .object members => ofMembers c members
  | _ => .error (.fault .member)

end Description

end Cadence
