import Cadence.Datum
import Cadence.Pattern

/-!
# How a recurrence repeats

`Repetition` holds the fields of a recurrence apart from its dates. `Choices` holds the same fields as a
host gives them, when each may be a value that is no choice; `Choices.repetition?_choices` says that
choices made from a repetition stand for it.
-/

namespace Cadence

/-- The fields of a recurrence apart from its dates. -/
structure Repetition where
  pattern : Pattern := .day
  every : Int := 1
  selectedDays : List Weekday := []
  monthlyOption : MonthlyOption := .day
  yearlyOption : YearlyOption := .date
  deriving DecidableEq, Repr

/-- The fields of a recurrence apart from its dates, as a host gives them. -/
structure Choices where
  pattern : Datum := .text Pattern.day.token
  every : Datum := .int 1
  selectedDays : List Weekday := []
  monthlyOption : Datum := .text MonthlyOption.day.token
  yearlyOption : Datum := .text YearlyOption.date.token

/-- A repetition as choices. -/
def Repetition.choices (r : Repetition) : Choices where
  pattern := .text r.pattern.token
  every := .int r.every
  selectedDays := r.selectedDays
  monthlyOption := .text r.monthlyOption.token
  yearlyOption := .text r.yearlyOption.token

namespace Choices

/-- The choice that a value is the token of. -/
def chosen? {α : Type} (ofToken? : Text → Option α) : Datum → Option α
  | .text s => ofToken? s
  | _ => none

/-- The pattern, if there is such a pattern. -/
def pattern? (c : Choices) : Option Pattern := chosen? Pattern.ofToken? c.pattern

/-- The monthly option, if there is such an option. -/
def monthlyOption? (c : Choices) : Option MonthlyOption := chosen? MonthlyOption.ofToken? c.monthlyOption

/-- The yearly option, if there is such an option. -/
def yearlyOption? (c : Choices) : Option YearlyOption := chosen? YearlyOption.ofToken? c.yearlyOption

/-- The repetition that choices stand for, if all of them are choices. -/
def repetition? (c : Choices) : Option Repetition := do
  let pattern ← c.pattern?
  let every ← match c.every with
    | .int n => some n
    | _ => none
  let monthlyOption ← c.monthlyOption?
  let yearlyOption ← c.yearlyOption?
  some { pattern, every, selectedDays := c.selectedDays, monthlyOption, yearlyOption }

theorem repetition?_choices (r : Repetition) : r.choices.repetition? = some r := by
  simp [repetition?, pattern?, monthlyOption?, yearlyOption?, chosen?, Repetition.choices,
    Pattern.ofToken?_token, MonthlyOption.ofToken?_token, YearlyOption.ofToken?_token]

end Choices

end Cadence
