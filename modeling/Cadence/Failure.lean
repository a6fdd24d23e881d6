import Cadence.Datum

/-!
# Failures

Why an operation of the library fails. A failure that the library states has a message
(`Failure.message?`); the others are faults of a value that an operation could not work with. The
classes matter to callers that recover: from failures about dates, about rule texts, about fields
that make no rule, or from any failure about a value (`Failure.isValue`).
-/

namespace Cadence

/-- Why the text of a rule cannot be evaluated as it stands. -/
inductive LineFlaw where
  /-- The value of a part cannot be read. -/
  | invalidPart (key value : Text)
  /-- A part has a name that no part has. -/
  | unknownPart (key : Text)
  /-- A rule begins with a name of its own. -/
  | unknownName
  /-- A part or line has more pieces than two. -/
  | tooManyPieces
  /-- A part has no value. -/
  | tooFewPieces
  /-- A rule has no frequency. -/
  | noFrequency
  /-- A line has a name that no line has. -/
  | unknownProperty (name : Text)
  /-- The name of a line, shown if not empty, is followed by a parameter. -/
  | parameterOf (name parameter : Text)
  /-- A line names more than one start. -/
  | manyStarts (value : Text)
  /-- A date cannot be read. -/
  | unknownDate (value : Text)
  /-- A text has no date in it. -/
  | noDate (value : Text)
  /-- The last day is asked for of a month that there is not. -/
  | noMonth (month : Nat) (value : Text)
  /-- The numbers of a date are no date. -/
  | offCalendar (flaw : Stamp.Flaw) (value : Text)
  /-- The end has no zone and the start has one. -/
  | localEnd
  /-- A position in the set of a period is out of range. -/
  | badSetPosition
  /-- No number of a list of hours, minutes or seconds is ever reached. -/
  | emptySet
  /-- An hour, minute or second is out of range. -/
  | offClock (unit : Text) (last : Nat)
  deriving DecidableEq

namespace LineFlaw

/-- The number that is out of range, in words. -/
def rangeMessage : Stamp.Flaw → Text
  | .year year => "year " ++ Text.ofNat year ++ " is out of range"
  | .month => "month must be in 1..12"
  | .day => "day is out of range for month"
  | .hour => "hour must be in 0..23"
  | .minute => "minute must be in 0..59"
  | .second => "second must be in 0..59"

/-- The reason in words. -/
def message : LineFlaw → Text
  | invalidPart key value => "invalid '" ++ key ++ "': " ++ value
  | unknownPart key => "unknown parameter '" ++ key ++ "'"
  | unknownName => "unknown parameter name"
  | tooManyPieces => "too many values to unpack (expected 2)"
  | tooFewPieces => "not enough values to unpack (expected 2, got 1)"
  | noFrequency => "rrule.__init__() missing 1 required positional argument: 'freq'"
  | unknownProperty name => "unsupported property: " ++ name
  | parameterOf name parameter =>
    "unsupported " ++ (if name.isEmpty then [] else name ++ [' ']) ++ "parm: " ++ parameter
  | manyStarts value => "Multiple DTSTART values specified:" ++ value
  | unknownDate value => "Unknown string format: " ++ value
  | noDate value => "String does not contain a date: " ++ value
  | noMonth month value => "bad month number " ++ Text.ofNat month ++ "; must be 1-12: " ++ value
  | offCalendar flaw value => rangeMessage flaw ++ ": " ++ value
  | localEnd => "RRULE UNTIL values must be specified in UTC when DTSTART is timezone-aware"
  | badSetPosition => "bysetpos must be between 1 and 366, or between -366 and -1"
  | emptySet => "Invalid rrule byxxx generates an empty set."
  | offClock unit last => unit ++ " must be in 0.." ++ Text.ofNat last

end LineFlaw

/-- Why a text is no rule, or none that the fields of a recurrence can express. -/
inductive RuleFlaw where
  /-- There is no text. -/
  | empty
  /-- A date and time is not written as rule text writes them. -/
  | badMoment (value : Text)
  /-- There are two rules. -/
  | manyRules
  /-- A line is neither a rule nor a start. -/
  | unexpectedLine (line : Text)
  /-- No line is a rule. -/
  | missingRule
  /-- A part has no value. -/
  | malformedPart (chunk : Text)
  /-- A part has a name that no part has. -/
  | unknownPart (key : Text)
  /-- A part is there twice. -/
  | duplicatePart (key : Text)
  /-- There is no frequency. -/
  | missingFrequency
  /-- The interval is no positive number. -/
  | badInterval
  /-- An item of the weekday list is no weekday. -/
  | badWeekday (token : Text)
  /-- The position of a weekday is out of range. -/
  | positionOutOfRange (token : Text)
  /-- An item of a list of numbers is no short number. -/
  | badNumber (key value : Text)
  /-- A number of a list is out of range. -/
  | numberOutOfRange (key value : Text)
  /-- None of the days of the month is in any of the months. -/
  | neverInMonth
  /-- There are parts that the fields of a recurrence cannot express. -/
  | unsupportedParts (keys : List Text)
  /-- The fields of a recurrence cannot express the frequency. -/
  | unsupportedFrequency (frequency : Text)
  /-- The start cannot be read. -/
  | badStart (start : Datum)
  /-- The rule cannot be evaluated. -/
  | unusable (flaw : LineFlaw)

namespace RuleFlaw

/-- The reason in words. -/
def message : RuleFlaw → Text
  | empty => "empty rule"
  | badMoment value => "bad date-time " ++ Text.quoted value
  | manyRules => "more than one RRULE"
  | unexpectedLine line => "unexpected line " ++ Text.quoted line
  | missingRule => "missing RRULE"
  | malformedPart chunk => "malformed part " ++ Text.quoted chunk
  | unknownPart key => "unknown part " ++ key
  | duplicatePart key => "duplicate part " ++ key
  | missingFrequency => "missing FREQ"
  | badInterval => "INTERVAL must be a positive integer"
  | badWeekday token => "bad BYDAY value " ++ Text.quoted token
  | positionOutOfRange token => "BYDAY position out of range in " ++ Text.quoted token
  | badNumber key value => "bad " ++ key ++ " value " ++ Text.quoted value
  | numberOutOfRange key value => key ++ " value " ++ Text.quoted value ++ " out of range"
  | neverInMonth => "BYMONTHDAY never falls inside BYMONTH"
  | unsupportedParts keys => "unsupported parts " ++ Text.joinWith ", " keys
  | unsupportedFrequency frequency => "unsupported frequency " ++ frequency
  | badStart start => "bad start date " ++ start.shown
  | unusable flaw => flaw.message

end RuleFlaw

/-- The message about a rule text: the text and the reason. -/
def ruleMessage (rule : Datum) (flaw : RuleFlaw) : Text :=
  "Invalid recurrence rule " ++ rule.shown ++ ": " ++ flaw.message

/-- Why the fields of a recurrence make no rule. -/
inductive BuildFlaw where
  /-- The start cannot be read. -/
  | startUnresolved (start : Datum)
  /-- There is no such pattern. -/
  | unknownPattern (pattern : Datum)
  /-- The interval is no positive number. -/
  | badInterval (every : Datum)
  /-- The end cannot be read. -/
  | endUnresolved (finish : Datum)
  /-- All weekdays are selected, which is a daily recurrence. -/
  | allWeekdays
  /-- The rule that the fields make is refused. -/
  | refused (rule : Datum) (flaw : RuleFlaw)

namespace BuildFlaw

/-- The reason in words. -/
def message : BuildFlaw → Text
  | startUnresolved start => "Cannot resolve start date " ++ start.shown
  | unknownPattern pattern => "Unknown pattern " ++ pattern.shown
  | badInterval every => "Interval must be a positive integer, got " ++ every.shown
  | endUnresolved finish => "Cannot resolve end date " ++ finish.shown
  | allWeekdays => "All seven weekdays selected; normalise to a daily pattern first"
  | refused rule flaw => ruleMessage rule flaw

end BuildFlaw

/-- Why an operation fails. -/
inductive Failure where
  /-- A value that is no date and no text. -/
  | invalidDate (value : Datum)
  /-- A text that is no date. -/
  | unparseableDate (text : Text)
  /-- A text that is no rule, or not one of the rules an operation takes. -/
  | badRule (rule : Datum) (flaw : RuleFlaw)
  /-- Fields that make no rule. -/
  | cannotBuild (flaw : BuildFlaw)
  /-- A token that is no text. -/
  | weekdayNotText (token : Datum)
  /-- A token that stands for no weekday. -/
  | unknownWeekday (token : Text)
  /-- A frequency that no pattern has. -/
  | unknownFrequency (frequency : Text)
  /-- A date style that there is not. -/
  | unknownStyle (style : Datum)
  /-- A date mode that there is not. -/
  | unknownMode (mode : Datum)
  /-- A setting that should be a whole number and is not. -/
  | settingNotInteger (name raw : Text)
  /-- A value that the operation could not work with. -/
  | fault (f : Fault)

namespace Failure

/-- The failure in words, for those that the library states itself. -/
def message? : Failure → Option Text
  | invalidDate value => some ("Invalid date value: " ++ value.shown)
  | unparseableDate text => some ("Unable to parse date: " ++ Text.quoted text)
  | badRule rule flaw => some (ruleMessage rule flaw)
  | cannotBuild flaw => some flaw.message
  | weekdayNotText token => some ("Weekday token must be text, got " ++ token.shown)
  | unknownWeekday token => some ("Unknown weekday: " ++ token)
  | unknownFrequency frequency => some ("Unsupported frequency: " ++ frequency)
  | unknownStyle style => some ("Unknown date style: " ++ style.plain)
  | unknownMode mode => some ("Unknown format mode: " ++ mode.plain)
  | settingNotInteger name raw => some (name ++ " must be an integer, got " ++ Text.quoted raw)
  | fault _ => none

/-- A failure to read a date. -/
def isDate : Failure → Bool
  | invalidDate _ | unparseableDate _ => true
  | _ => false

/-- A failure to read a rule. -/
def isRule : Failure → Bool
  | badRule .. => true
  | _ => false

/-- A failure to make a rule from fields. -/
def isBuild : Failure → Bool
  | cannotBuild _ => true
  | _ => false

/-- A failure about a value: of any stated kind but for settings, or a plain fault of a value. -/
def isValue : Failure → Bool
  | settingNotInteger .. => false
  | fault f => f = .value
  | _ => true

/-- A failure about a value or about the range of the calendar, from which the queries recover. -/
def isValueOrRange : Failure → Bool
  | fault f => f = .value || f = .range
  | other => other.isValue

/-- A failure about a value or its kind, from which loading and exporting recover. -/
def isValueOrKind : Failure → Bool
  | fault f => f = .value || f = .kind
  | other => other.isValue

end Failure

/-- What an operation returns: a value, or why there is none. -/
abbrev Result (α : Type) := Except Failure α

/-- The value of a result, or a fallback in place of a failure of one of the classes that `recovers`
    names. Other failures stay. -/
def Result.recover {α : Type} (r : Result α) (recovers : Failure → Bool) (fallback : α) : Result α :=
  match r with
  | .ok a => .ok a
  | .error e => if recovers e then .ok fallback else .error e

/-- A fault in place of a result. -/
def liftFault {α : Type} (r : Except Fault α) : Result α := r.mapError .fault

/-- The value that is there, or a fault. -/
def orFault {α : Type} (f : Fault) : Option α → Result α
  | some a => .ok a
  | none => .error (.fault f)

end Cadence
