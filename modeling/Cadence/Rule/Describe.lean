import Cadence.DateText.Writer
import Cadence.Phrase
import Cadence.Rule.Query

/-!
# Rules in words

The sentence that describes a rule: its interval, its days, and its count and end. Weekdays with
positions are spelled out where the months or years are the periods. A text that is no rule gives a
message instead.
-/

namespace Cadence

/-- The sentence for a rule that is not there. -/
def noRuleMessage : Text := "No recurrence rule"

/-- The sentence for a text that is no rule. -/
def invalidRuleMessage : Text := "Invalid recurrence rule"

namespace RuleText

/-- The pattern of the rule's frequency. -/
def pattern? (r : RuleText) : Option Pattern := Pattern.ofFrequency? (r.value .freq)

/-- How often the rule falls. -/
def intervalPhrase (r : RuleText) : Text :=
  match r.pattern? with
  | some pattern => Phrase.interval pattern r.interval
  | none => "every " ++ Text.ofInt r.interval ++ ' ' :: Text.lower (r.value .freq)

/-- A weekday with its position if it has one. -/
def weekdayPhrase (item : WeekdayItem) : Text :=
  match item with
  | (some n, day) => Phrase.weekday n day
  | (none, day) => day.name

/-- The months after a word. -/
def monthsAfter (word : Text) (months : List Text) : List Text :=
  if months.isEmpty then [] else [word ++ ' ' :: Phrase.listed months]

/-- On which days the rule falls. -/
def dayPhrases (r : RuleText) : List Text :=
  let weekdays := r.weekdays
  let days := r.integers .byMonthDay
  let months := (r.integers .byMonth).map fun month => monthName month.toNat
  let placed := r.pattern? = some .month ∨ r.pattern? = some .year
  if ! weekdays.isEmpty then
    if weekdays.any (·.1.isSome) ∧ placed then
      ("on " ++ Phrase.listed (weekdays.map weekdayPhrase)) :: monthsAfter "of" months
    else ("on " ++ Text.joinWith ", " (weekdays.map (·.2.name))) :: monthsAfter "in" months
  else if days.isEmpty then monthsAfter "in" months
  else if months.isEmpty then ["on " ++ Phrase.listed (days.map Phrase.monthDay)]
  else
    ["on " ++ Phrase.listed (months.flatMap fun month => days.map fun day => month ++ ' ' :: Text.ofInt day)]

/-- How many times the rule falls. -/
def countPhrase (r : RuleText) : Result (List Text) :=
  match r.get? .count with
  | none => .ok []
  | some value =>
    match Text.readInt? value with
    | none => .error (.fault .value)
    | some n => .ok [if n = 1 then "for 1 time" else "for " ++ Text.ofInt n ++ " times"]

/-- Until when the rule falls. -/
def finishPhrase (r : RuleText) (format : Except Fault LocaleFormat) : Result (List Text) :=
  match r.get? .until with
  | none => .ok []
  | some value =>
    match moment value with
    | .error flaw => .error (.badRule (.text r.body) flaw)
    | .ok finish => (liftFault format).map fun format => ["until " ++ finish.textIn format .date .medium]

/-- The sentence that describes the rule. -/
def sentence (r : RuleText) (format : Except Fault LocaleFormat) : Result Text := do
  let count ← r.countPhrase
  let finish ← r.finishPhrase format
  return Text.joinWith [' '] (r.intervalPhrase :: r.dayPhrases ++ count ++ finish)

end RuleText

/-- The sentence for a rule text that can be evaluated. -/
def describeRule (c : Setting) (rule : Datum) : Result Text := do
  let parsed ← RuleText.read rule
  let _ ← parsed.recurrence c.plain .null
  parsed.sentence c.format

/-- The sentence for a value: that of a rule text, or a message where there is none or it cannot be
    evaluated. -/
def describe (c : Setting) (rule : Datum) : Result Text :=
  if ! rule.truthy then .ok noRuleMessage
  else
    match rule with
    | .text s =>
      if (Text.trim s).isEmpty then .ok noRuleMessage
      else (describeRule c rule).recover Failure.isValue invalidRuleMessage
    | _ => .error (.fault .member)

end Cadence
