import Cadence.DateText.Compact
import Cadence.Failure
import Cadence.Rule.Key

/-!
# Rule texts

A rule text is one line of parts, with `RRULE:` before it or not, and perhaps a line with the start of
the rule. `RuleText.read` checks the parts as far as they matter to a picker: names, the interval, the
weekdays, the months and days of the month. `RuleText.body` writes the parts in their own order.
-/

namespace Cadence

/-- The parts of a rule, each at most once, and its start if the text gives one. -/
structure RuleText where
  parts : List (RuleKey × Text)
  start : Option Stamp := none

namespace RuleText

/-! ### Parts -/

/-- The value of a part. -/
def get? (r : RuleText) (key : RuleKey) : Option Text := (r.parts.find? (·.1 = key)).map (·.2)

/-- The rule has a part. -/
def has (r : RuleText) (key : RuleKey) : Bool := (r.get? key).isSome

/-- The value of a part, empty when there is none. -/
def value (r : RuleText) (key : RuleKey) : Text := (r.get? key).getD []

/-- The parts in the order of the given list. -/
def inOrder (r : RuleText) (keys : List RuleKey) : List (RuleKey × Text) :=
  keys.filterMap fun key => (r.get? key).map fun value => (key, value)

/-- A part as it is written. -/
def partText (part : RuleKey × Text) : Text := part.1.name ++ '=' :: part.2

/-- The parts written in their own order. -/
def body (r : RuleText) : Text := Text.joinWith [';'] ((r.inOrder RuleKey.all).map partText)

/-- The line of a rule. -/
def line (body : Text) : Text := "RRULE:" ++ body

/-! ### Values -/

/-- A weekday with the position that stands before it. -/
abbrev WeekdayItem := Option Int × Weekday

/-- An item of a weekday list: an optional signed number of one or two digits, and a symbol. -/
def weekdayItem? (token : Text) : Option WeekdayItem :=
  let sign := token.takeWhile fun c => c = '+' || c = '-'
  let rest := token.drop sign.length
  let digits := rest.takeWhile Text.isDecimal
  match Weekday.ofSymbol? (rest.drop digits.length) with
  | none => none
  | some day =>
    if sign.isEmpty ∧ digits.isEmpty then some (none, day)
    else if 1 < sign.length ∨ digits.isEmpty ∨ 2 < digits.length then none
    else (Text.readInt? (sign ++ digits)).map fun n => (some n, day)

/-- A signed number of one to three digits. -/
def shortInt? (s : Text) : Option Int :=
  let sign := s.takeWhile fun c => c = '+' || c = '-'
  let digits := s.drop sign.length
  if 1 < sign.length ∨ digits.isEmpty ∨ 3 < digits.length ∨ ¬ digits.all Text.isDecimal then none
  else Text.readInt? s

/-- The items of the weekday list. -/
def weekdays (r : RuleText) : List WeekdayItem := (Text.nonEmptyItems (r.value .byDay)).filterMap weekdayItem?

/-- The numbers of a list. -/
def integers (r : RuleText) (key : RuleKey) : List Int :=
  (Text.nonEmptyItems (r.value key)).filterMap Text.readInt?

/-- The interval, one when there is none. -/
def interval (r : RuleText) : Int :=
  match r.get? .interval with
  | none => 1
  | some value => (Text.readInt? value).getD 1

/-! ### Checks -/

/-- The greatest position of a weekday. -/
def maxPosition : Nat := 53

/-- The interval is a positive number. A text of digits without a place value is a fault. -/
def checkInterval (r : RuleText) : Except (RuleFlaw ⊕ Fault) Unit :=
  match r.get? .interval with
  | none => .ok ()
  | some value =>
    if value.isEmpty ∨ ¬ value.all Text.isDigit then .error (.inl .badInterval)
    else
      match Text.readInt? value with
      | none => .error (.inr .value)
      | some n => if n < 1 then .error (.inl .badInterval) else .ok ()

/-- An item of the weekday list is a weekday whose position is in range. -/
def checkWeekday (token : Text) : Except RuleFlaw Unit :=
  match weekdayItem? token with
  | none => .error (.badWeekday token)
  | some (none, _) => .ok ()
  | some (some n, _) => if 1 ≤ n.natAbs ∧ n.natAbs ≤ maxPosition then .ok () else .error (.positionOutOfRange token)

/-- The items of the weekday list are in order. -/
def checkWeekdays (r : RuleText) : Except RuleFlaw Unit :=
  (Text.nonEmptyItems (r.value .byDay)).forM checkWeekday

/-- The items of a list of numbers are short numbers between one and a limit, or their negatives. -/
def checkNumbers (r : RuleText) (key : RuleKey) (limit : Nat) (signed : Bool) : Except RuleFlaw Unit :=
  (Text.nonEmptyItems (r.value key)).forM fun value =>
    match shortInt? value with
    | none => .error (.badNumber key.name value)
    | some n =>
      if 1 ≤ n.natAbs ∧ n.natAbs ≤ limit ∧ (0 ≤ n ∨ signed) then .ok ()
      else .error (.numberOutOfRange key.name value)

/-- Some day of the month is in some of the months, in a leap year. -/
def fallsInMonth (months days : List Int) : Bool :=
  months.any fun month => days.any fun day => day.natAbs ≤ daysInMonth 2000 month.toNat

/-- Days of the month, if both they and months are given, can be met. -/
def checkMonthDays (r : RuleText) : Except RuleFlaw Unit :=
  let months := r.integers .byMonth
  let days := r.integers .byMonthDay
  if months.isEmpty || days.isEmpty || fallsInMonth months days then .ok () else .error .neverInMonth

/-- All checks in order. -/
def check (r : RuleText) : Except (RuleFlaw ⊕ Fault) Unit := do
  if ! r.has .freq then throw (.inl .missingFrequency)
  r.checkInterval
  (r.checkWeekdays).mapError .inl
  (r.checkNumbers .byMonth 12 false).mapError .inl
  (r.checkNumbers .byMonthDay 31 true).mapError .inl
  (r.checkMonthDays).mapError .inl

/-! ### Reading -/

/-- What the lines of a rule text have given so far. -/
structure Lines where
  body : Option Text := none
  start : Option Stamp := none

/-- A date and time in rule text. -/
def moment (value : Text) : Except RuleFlaw Stamp :=
  match Compact.read? value with
  | some stamp => .ok stamp
  | none => .error (.badMoment value)

/-- One more line with a rule. There can be only one. -/
def Lines.addBody (l : Lines) (body : Text) : Except RuleFlaw Lines :=
  if l.body.isSome then .error .manyRules else .ok { l with body := some body }

/-- One more line. -/
def Lines.add (l : Lines) (line : Text) : Except RuleFlaw Lines :=
  let line := Text.trim line
  if line.isEmpty then .ok l
  else if Text.startsWith "DTSTART" (Text.upper line) then
    (moment (Text.afterLast ':' line)).map fun start => { l with start := some start }
  else if Text.startsWith "RRULE:" (Text.upper line) then l.addBody (line.drop 6)
  else if line.contains '=' ∧ ¬ line.contains ':' then l.addBody line
  else .error (.unexpectedLine line)

/-- One more part of a rule. -/
def addPart (parts : List (RuleKey × Text)) (chunk : Text) : Except RuleFlaw (List (RuleKey × Text)) :=
  if (Text.trim chunk).isEmpty then .ok parts
  else
    match Text.cut? '=' chunk with
    | none => .error (.malformedPart chunk)
    | some (key, value) =>
      let name := Text.upper (Text.trim key)
      let value := Text.upper (Text.trim value)
      if value.isEmpty then .error (.malformedPart chunk)
      else
        match RuleKey.ofName? name with
        | none => .error (.unknownPart name)
        | some key =>
          if parts.any (·.1 = key) then .error (.duplicatePart name) else .ok (parts ++ [(key, value)])

/-- The parts of a line, unchecked. -/
def partsOf (body : Text) : Except RuleFlaw (List (RuleKey × Text)) :=
  (Text.splitOn ';' body).foldlM addPart []

/-- The rule that a text writes. -/
def parse (s : Text) : Except (RuleFlaw ⊕ Fault) RuleText := do
  if (Text.trim s).isEmpty then throw (.inl .empty)
  let lines ← ((Text.lines (Text.trim s)).foldlM Lines.add {}).mapError .inl
  match lines.body with
  | none => throw (.inl .missingRule)
  | some body =>
    let rule : RuleText := { parts := ← (partsOf body).mapError .inl, start := lines.start }
    rule.check
    return rule

/-- The rule that a value writes. A failure shows the value. -/
def read (value : Datum) : Result RuleText :=
  match value with
  | .text s =>
    match parse s with
    | .ok rule => .ok rule
    | .error (.inl flaw) => .error (.badRule value flaw)
    | .error (.inr f) => .error (.fault f)
  | _ => .error (.badRule value .empty)

end RuleText

end Cadence
