import Cadence.DateText.FreeForm
import Cadence.Failure
import Cadence.Rule.Key

/-!
# Reading the parts of a rule

A rule is read part by part into numbers, weekdays and dates. A value that cannot be read is reported
with its part. Dates are read as dates in words, which digits without separators are as well.
-/

namespace Cadence

/-- Why a rule cannot be evaluated: a stated reason, or a number beyond the range of dates or digits. -/
inductive LineFailure where
  | flaw (reason : LineFlaw)
  | fault (f : Fault)

/-- A weekday with its position in the month or year, if it has one. -/
abbrev NthWeekday := Weekday × Option Int

/-- The parts of a rule as they have been read. -/
structure RuleSpec where
  frequency : Option Frequency := none
  every : Int := 1
  count : Option Int := none
  finish : Option Stamp := none
  weekStart : Weekday := .monday
  weekdays : Option (List NthWeekday) := none
  setPositions : Option (List Int) := none
  months : Option (List Int) := none
  monthDays : Option (List Int) := none
  yearDays : Option (List Int) := none
  weekNumbers : Option (List Int) := none
  easterDays : Option (List Int) := none
  hours : Option (List Int) := none
  minutes : Option (List Int) := none
  seconds : Option (List Int) := none

namespace RuleSpec

/-- A list of numbers with commas between them. -/
def integers? (value : Text) : Option (List Int) := (Text.splitOn ',' value).mapM Text.readInt?

/-- A character of a signed number. -/
def isSigned (c : Char) : Bool := c = '+' || c = '-' || ('0' ≤ c && c ≤ '9')

/-- A position other than zero, written in full. -/
def position? (s : Text) : Option Int := (Text.readInt? s).bind fun n => if n = 0 then none else some n

/-- A weekday with its position before it, or in brackets behind it. -/
def weekday? (item : Text) : Option NthWeekday :=
  if item.contains '(' then
    match Text.splitOn '(' item with
    | symbol :: position :: _ => do
      some (← Weekday.ofSymbol? symbol, some (← position? position.dropLast))
    | _ => none
  else
    let signed := item.takeWhile isSigned
    let size := min signed.length (item.length - 1)
    if item.isEmpty then none
    else if size = 0 then (Weekday.ofSymbol? item).map fun day => (day, none)
    else do
      some (← Weekday.ofSymbol? (item.drop size), some (← position? (item.take size)))

/-- A list of weekdays. -/
def weekdays? (value : Text) : Option (List NthWeekday) := (Text.splitOn ',' value).mapM weekday?

/-- The value of a part that could be read, or the reason that it could not. -/
def readable {α : Type} (key value : Text) : Option α → Except LineFailure α
  | some a => .ok a
  | none => .error (.flaw (.invalidPart key value))

/-- The end of a rule. Its zone, if it has one, does not count. -/
def finishOf (today : Stamp) (key value : Text) : Except LineFailure Stamp :=
  match FreeForm.readLocal today.day.year (.ofDay today.day) value with
  | .ok stamp => .ok stamp
  | .error .offScale => .error (.fault .range)
  | .error .offPrecision => .error (.fault .precision)
  | .error _ => .error (.flaw (.invalidPart key value))

/-- The rule with one more part. A name may stand for the part in more than one way. -/
def set (spec : RuleSpec) (today : Stamp) (key value : Text) : Except LineFailure RuleSpec :=
  let integers := readable key value (integers? value)
  let weekdays := (readable key value (weekdays? value)).map fun l => { spec with weekdays := some l }
  match RuleKey.ofName? key with
  | some .freq => (readable key value (Frequency.ofName? value)).map fun f => { spec with frequency := some f }
  | some .until => (finishOf today key value).map fun s => { spec with finish := some s }
  | some .count => (readable key value (Text.readInt? value)).map fun n => { spec with count := some n }
  | some .interval => (readable key value (Text.readInt? value)).map fun n => { spec with every := n }
  | some .weekStart => (readable key value (Weekday.ofSymbol? value)).map fun d => { spec with weekStart := d }
  | some .byDay => weekdays
  | some .byMonthDay => integers.map fun l => { spec with monthDays := some l }
  | some .byMonth => integers.map fun l => { spec with months := some l }
  | some .byHour => integers.map fun l => { spec with hours := some l }
  | some .byMinute => integers.map fun l => { spec with minutes := some l }
  | some .bySecond => integers.map fun l => { spec with seconds := some l }
  | some .bySetPos => integers.map fun l => { spec with setPositions := some l }
  | some .byWeekNo => integers.map fun l => { spec with weekNumbers := some l }
  | some .byYearDay => integers.map fun l => { spec with yearDays := some l }
  | none =>
    if key = "BYWEEKDAY".toList then weekdays
    else if key = "BYEASTER".toList then integers.map fun l => { spec with easterDays := some l }
    else .error (.flaw (.unknownPart key))

/-- The rule with one more part as it is written. -/
def add (today : Stamp) (spec : RuleSpec) (pair : Text) : Except LineFailure RuleSpec :=
  match Text.splitOn '=' pair with
  | [key, value] => spec.set today (Text.upper key) (Text.upper value)
  | [_] => .error (.flaw .tooFewPieces)
  | _ => .error (.flaw .tooManyPieces)

/-- The parts of a rule, which may begin with its own name and a colon. -/
def partsText (line : Text) : Except LineFailure Text :=
  match Text.splitOn ':' line with
  | [parts] => .ok parts
  | [name, parts] => if name = "RRULE".toList then .ok parts else .error (.flaw .unknownName)
  | _ => .error (.flaw .tooManyPieces)

/-- The rule that a line writes. -/
def read (today : Stamp) (line : Text) : Except LineFailure RuleSpec := do
  (Text.splitOn ';' (← partsText line)).foldlM (add today) {}

end RuleSpec

end Cadence
