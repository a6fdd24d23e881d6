import Cadence.DateText.Reader
import Cadence.Rule.Lines
import Cadence.Rule.Parts

/-!
# Queries

A rule text is evaluated from its own start, else from a given one, else from the start of the current
day. The queries list the first occurrences or those between two dates, tell whether a day has one,
and find the next. They answer with nothing where a rule or a date cannot be used.
-/

namespace Cadence

/-- When and where dates are read: the current time, and the format of a locale or why there is none.
    With them goes an identity that nothing else has, for events that are given none. -/
structure Setting where
  today : Stamp
  format : Except Fault LocaleFormat := .ok .british
  identity : Text := []

namespace Setting

/-- The current day's start. -/
def dayStart (c : Setting) : Stamp := .ofDay c.today.day

/-- The timestamp that a value stands for. -/
def stamp (c : Setting) (value : Datum) : Result Stamp := value.stampIn c.today.day.year c.format

/-- The same time with dates in the British format. -/
def plain (c : Setting) : Setting := { c with format := .ok .british }

end Setting

namespace RuleText

/-- Where a rule starts: at its own start, at the given one unless that is null, or today. -/
def anchor (r : RuleText) (c : Setting) (start : Datum) : Result Stamp :=
  match r.start, start with
  | some own, _ => .ok own
  | none, .null => .ok c.dayStart
  | none, given => c.stamp given

/-- The rule evaluated from a start. -/
def recurrenceFrom (r : RuleText) (today start : Stamp) : Result Recurrence :=
  match Recurrence.read today start (line r.body) with
  | .ok recurrence => .ok recurrence
  | .error (.flaw flaw) => .error (.badRule (.text r.body) (.unusable flaw))
  | .error (.fault f) => .error (.fault f)

/-- The rule evaluated from where it starts. -/
def recurrence (r : RuleText) (c : Setting) (start : Datum) : Result Recurrence := do
  r.recurrenceFrom c.today (← r.anchor c start)

end RuleText

/-! ### Operations on rule texts -/

/-- What a rule text says. -/
def recurrenceOf (c : Setting) (rule start : Datum) : Result Recurrence := do
  (← RuleText.read rule).recurrence c start

/-- Where a rule text starts. -/
def ruleAnchor (c : Setting) (rule start : Datum) : Result Stamp := do
  (← RuleText.read rule).anchor c start

/-- The text of a rule together with its start. -/
def anchoredText (start : Stamp) (body : Text) : Text :=
  "DTSTART:" ++ Compact.text start ++ '\n' :: RuleText.line body

/-- A rule text with a start put in front. -/
def anchorRuleText (c : Setting) (rule start : Datum) : Result Text := do
  let parsed ← RuleText.read rule
  return anchoredText (← c.stamp start) parsed.body

/-- A rule text can be used. -/
def validateRule (c : Setting) (rule : Datum) : Result Bool :=
  match recurrenceOf c.plain rule .null with
  | .ok _ => .ok true
  | .error e => if e.isRule || e.isBuild then .ok false else .error e

/-- How many occurrences a value asks for; none when the value cannot count, a fault when it is no
    number. -/
def limitOf (limit : Datum) : Result (Option Nat) :=
  match limit with
  | .bool b => .ok (some (if b then 1 else 0))
  | .int n => if n ≤ 0 then .ok (some 0) else if n ≤ 9223372036854775807 then .ok (some n.toNat) else .ok none
  | .real x =>
    match x with
    | .nan => .ok none
    | .infinity negative => .ok (if negative then some 0 else none)
    | .finite negative m _ => .ok (if negative ∨ m = 0 then some 0 else none)
  | _ => .error (.fault .kind)

/-- The first occurrences, at most so many. -/
def occurrences (c : Setting) (rule limit start : Datum) : Result (List Stamp) := do
  match ← limitOf limit with
  | some 0 => return []
  | limit =>
    let found := do
      let recurrence ← recurrenceOf c.plain rule start
      match limit with
      | some n => liftFault (recurrence.trace.take n)
      | none => .error (.fault .value)
    found.recover Failure.isValueOrRange []

/-- One timestamp comes before another; a fault when only one of them has a zone. -/
def orderedBefore (a b : Stamp) : Result Bool :=
  if a.comparable b then .ok (a.before b) else .error (.fault .kind)

/-- The occurrences between two dates, both included. -/
def occurrencesBetween (c : Setting) (rule low high start : Datum) : Result (List Stamp) :=
  Result.recover (do
    let low ← c.stamp low
    let high ← c.stamp high
    if ← orderedBefore high low then return []
    let recurrence ← recurrenceOf c rule start
    liftFault (recurrence.trace.between low high)) Failure.isValueOrRange []

/-- The last moment of a timestamp's day, a fault in the last day of the calendar. -/
def dayEnd (s : Stamp) : Result Stamp := orFault .range s.endOfDay?

/-- The day asked about, and the first occurrence on it or after it. -/
def firstFrom (c : Setting) (rule day start : Datum) : Result (Stamp × Option Stamp) := do
  let reference ← c.stamp day
  let recurrence ← recurrenceOf c rule start
  return (reference, ← liftFault (recurrence.trace.after reference.startOfDay true))

/-- There is an occurrence on a day. -/
def occursOn (c : Setting) (rule day start : Datum) : Result Bool :=
  match firstFrom c rule day start with
  | .ok (_, none) => .ok false
  | .ok (reference, some hit) => (dayEnd reference).map fun last => ! last.before hit
  | .error e => if e.isValueOrRange then .ok false else .error e

/-- The first occurrence after a date. -/
def nextOccurrence (c : Setting) (rule after start : Datum) : Result (Option Stamp) :=
  Result.recover (do
    let recurrence ← recurrenceOf c rule start
    let low ← c.stamp after
    liftFault (recurrence.trace.after low false)) Failure.isValueOrRange none

end Cadence
