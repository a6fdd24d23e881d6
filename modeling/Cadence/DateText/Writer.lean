import Cadence.Calendar.Stamp
import Cadence.Failure
import Cadence.Locale

/-!
# Writing dates

A date is written in numbers, or with the name of its month, in the order of a locale, and with its
time of day if that is asked for. The year has four digits among numbers and as many as it needs beside
a name.
-/

namespace Cadence

/-- How much of a date is written. -/
inductive DateStyle where
  /-- Numbers alone. -/
  | short
  /-- The month's name in three letters. -/
  | medium
  /-- The month's full name. -/
  | long
  deriving DecidableEq, Repr

namespace DateStyle

/-- The token of a style. -/
def token : DateStyle → Text
  | short => "short" | medium => "medium" | long => "long"

/-- The style with a token. -/
def ofToken? (s : Text) : Option DateStyle := [short, medium, long].find? (·.token = s)

end DateStyle

/-- Whether the time of day is written. -/
inductive DateMode where
  | date | dateTime
  deriving DecidableEq, Repr

namespace DateMode

/-- The token of a mode. -/
def token : DateMode → Text
  | date => "date" | dateTime => "datetime"

/-- The mode with a token. -/
def ofToken? (s : Text) : Option DateMode := [date, dateTime].find? (·.token = s)

end DateMode

namespace Day

/-- A day in numbers. -/
def numericText (d : Day) (format : LocaleFormat) : Text :=
  let width := if format.zeroPad then 2 else 1
  let day := Text.ofNatPadded width d.day
  let month := Text.ofNatPadded width d.month
  let year := Text.ofNatPadded 4 d.year
  Text.joinWith [format.separator] <|
    match format.order with
    | .monthDayYear => [month, day, year]
    | .dayMonthYear => [day, month, year]
    | .yearMonthDay => [year, month, day]

/-- A day with a name for its month. -/
def namedText (d : Day) (format : LocaleFormat) (month : Text) : Text :=
  let day := Text.ofNat d.day
  let year := Text.ofNat d.year
  match format.order with
  | .monthDayYear => month ++ ' ' :: day ++ ", " ++ year
  | .dayMonthYear => day ++ ' ' :: month ++ ' ' :: year
  | .yearMonthDay => year ++ ' ' :: month ++ ' ' :: day

/-- A day in a style. -/
def textIn (d : Day) (format : LocaleFormat) : DateStyle → Text
  | .short => d.numericText format
  | .medium => d.namedText format (monthAbbreviation d.month)
  | .long => d.namedText format (monthName d.month)

end Day

/-- A time of day without its seconds when these are zero. -/
def Clock.briefText (c : Clock) : Text := if c.second = 0 then c.minuteText else c.secondText

/-- A timestamp in a style, with or without its time of day. -/
def Stamp.textIn (s : Stamp) (format : LocaleFormat) (mode : DateMode) (style : DateStyle) : Text :=
  match mode with
  | .date => s.day.textIn format style
  | .dateTime => s.day.textIn format style ++ ' ' :: s.clock.briefText

/-- A timestamp in numbers, with its time of day unless that is midnight to the second. -/
def Stamp.fieldText (s : Stamp) (format : LocaleFormat) : Text :=
  let atMidnight := s.clock.hour = 0 ∧ s.clock.minute = 0 ∧ s.clock.second = 0
  s.textIn format (if atMidnight then .date else .dateTime) .short

/-- The text of a given value as a date, style and mode being given by their tokens. -/
def Datum.dateText (value : Datum) (format : Except Fault LocaleFormat) (mode style : Datum) : Result Text := do
  let stamp ← match value with
    | .stamp s => .ok s
    | .day d => .ok (Stamp.ofDay d)
    | other => .error (.invalidDate other)
  let format ← liftFault format
  let named? : Option DateStyle := match style with
    | .text s => DateStyle.ofToken? s
    | _ => none
  match named? with
  | none => .error (.unknownStyle style)
  | some named =>
    let mode? : Option DateMode := match mode with
      | .text s => DateMode.ofToken? s
      | _ => none
    match mode? with
    | none => .error (.unknownMode mode)
    | some mode => .ok (stamp.textIn format mode named)

end Cadence
