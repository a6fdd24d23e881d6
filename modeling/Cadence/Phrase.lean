import Cadence.Calendar.Position
import Cadence.Datum
import Cadence.Pattern
import Cadence.Text.Numeral

/-!
# Phrases

The parts that sentences about recurrences are made of: ordinal numbers, lists of names, positions
counted from either end, intervals, and the labels of the choices that a start date offers.
-/

namespace Cadence.Phrase

/-- The ending of an ordinal number. -/
def ordinalEnding (n : Nat) : Text :=
  if n % 100 = 11 ∨ n % 100 = 12 ∨ n % 100 = 13 then "th"
  else match n % 10 with
    | 1 => "st"
    | 2 => "nd"
    | 3 => "rd"
    | _ => "th"

/-- An ordinal number, such as 1st or 12th. -/
def ordinal (n : Nat) : Text := Text.ofNat n ++ ordinalEnding n

/-- Names with commas between them and a conjunction before the last one. -/
def joinNames (conjunction : Text) : List Text → Text
  | [] => []
  | [name] => name
  | names => Text.joinWith ", " names.dropLast ++ ' ' :: conjunction ++ ' ' :: names.getLastD []

/-- Names joined by "and". -/
def listed (names : List Text) : Text := joinNames "and" names

/-- A position counted from the start, or from the end when it is negative. -/
def position (n : Int) : Text :=
  if n = -1 then "last" else if n < 0 then ordinal n.natAbs ++ " to last" else ordinal n.natAbs

/-- A weekday at a position. -/
def weekday (n : Int) (day : Weekday) : Text := "the " ++ position n ++ ' ' :: day.name

/-- A day of the month, counted from its end when negative. -/
def monthDay (n : Int) : Text :=
  if n = -1 then "the last day"
  else if n < 0 then "the " ++ ordinal n.natAbs ++ " to last day"
  else "the " ++ ordinal n.natAbs

/-- One unit of a pattern. -/
def single (pattern : Pattern) : Text := "every " ++ pattern.unit

/-- A number of units of a pattern. -/
def several (pattern : Pattern) (number : Text) : Text := "every " ++ number ++ ' ' :: pattern.units

/-- How often something recurs. -/
def interval (pattern : Pattern) (every : Int) : Text :=
  if every = 1 then single pattern else several pattern (Text.ofInt every)

/-- How often something recurs, the number being any value. -/
def intervalOf (pattern : Pattern) (every : Datum) : Text :=
  if every.same (.int 1) then single pattern else several pattern every.plain

/-! ### Choices that a start date offers -/

/-- A monthly recurrence on the day of the month. -/
def monthlyDayLabel (start : Day) : Text := "On day " ++ Text.ofNat start.day

/-- A monthly recurrence on the weekday at its position. None in the last week of the calendar. -/
def monthlyWeekdayLabel? (start : Day) : Option Text :=
  start.weekdayPosition?.map fun n => "On " ++ weekday n start.weekday

/-- A yearly recurrence on the date. -/
def yearlyDateLabel (start : Day) : Text := "On " ++ monthName start.month ++ ' ' :: Text.ofNat start.day

/-- A yearly recurrence on the weekday at its position in the month. None in the last week of the
    calendar. -/
def yearlyWeekdayLabel? (start : Day) : Option Text :=
  start.weekdayPosition?.map fun n => "On " ++ weekday n start.weekday ++ " of " ++ monthName start.month

theorem intervalOf_int (pattern : Pattern) (n : Int) : intervalOf pattern (.int n) = interval pattern n := by
  simp [intervalOf, interval, Datum.same, Datum.number?, Datum.sameNumber, Datum.plain, Datum.shown]

theorem joinNames_singleton (conjunction name : Text) : joinNames conjunction [name] = name := rfl

end Cadence.Phrase
