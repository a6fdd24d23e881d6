import Cadence.Text.Case

/-!
# Patterns and options

How a recurrence repeats: by days, weeks, months or years. A monthly recurrence falls on a day of
the month or on a weekday at a position in the month, a yearly one on a date or on a weekday of a
month. Each choice has a token.
-/

namespace Cadence

/-- The unit in which a recurrence repeats. -/
inductive Pattern where
  | day | week | month | year
  deriving DecidableEq, Repr, Inhabited

namespace Pattern

/-- The patterns from days to years. -/
def all : List Pattern := [day, week, month, year]

/-- The token of a pattern. -/
def token : Pattern → Text
  | day => "day" | week => "week" | month => "month" | year => "year"

/-- The pattern with a token. -/
def ofToken? (s : Text) : Option Pattern := all.find? (·.token = s)

/-- The name of the pattern's frequency in rule text. -/
def frequency : Pattern → Text
  | day => "DAILY" | week => "WEEKLY" | month => "MONTHLY" | year => "YEARLY"

/-- The pattern with a frequency, written in any case. -/
def ofFrequency? (s : Text) : Option Pattern := all.find? (·.frequency = Text.upper s)

/-- The name of one unit. -/
def unit : Pattern → Text
  | day => "day" | week => "week" | month => "month" | year => "year"

/-- The name of several units. -/
def units (p : Pattern) : Text := p.unit ++ "s"

theorem ofToken?_token (p : Pattern) : ofToken? p.token = some p := by cases p <;> decide

theorem ofFrequency?_frequency (p : Pattern) : ofFrequency? p.frequency = some p := by cases p <;> decide

end Pattern

/-- What a monthly recurrence keeps: the day of the month, or the weekday and its position. -/
inductive MonthlyOption where
  | day | weekday
  deriving DecidableEq, Repr, Inhabited

namespace MonthlyOption

/-- The token of an option. -/
def token : MonthlyOption → Text
  | day => "day" | weekday => "weekday"

/-- The option with a token. -/
def ofToken? (s : Text) : Option MonthlyOption := [day, weekday].find? (·.token = s)

theorem ofToken?_token (o : MonthlyOption) : ofToken? o.token = some o := by cases o <;> decide

end MonthlyOption

/-- What a yearly recurrence keeps: the date, or the month, the weekday and its position. -/
inductive YearlyOption where
  | date | weekday
  deriving DecidableEq, Repr, Inhabited

namespace YearlyOption

/-- The token of an option. -/
def token : YearlyOption → Text
  | date => "date" | weekday => "weekday"

/-- The option with a token. -/
def ofToken? (s : Text) : Option YearlyOption := [date, weekday].find? (·.token = s)

theorem ofToken?_token (o : YearlyOption) : ofToken? o.token = some o := by cases o <;> decide

end YearlyOption

end Cadence
