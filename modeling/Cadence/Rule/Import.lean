import Cadence.Rule.Build

/-!
# Fields from rules

A rule text is turned back into the fields of a recurrence. Only parts that the fields can express are
accepted. Where the text has no start of its own, a monthly or yearly rule moves the start to its first
occurrence at one of the named positions, so that the options are those of a matching date. When the
rule built from the fields says something else than the text, the text is kept.
-/

namespace Cadence

namespace RuleText

/-- How many occurrences are looked at for one at a named position. -/
def alignLimit : Nat := 120

/-- The positions named with weekdays. -/
def positions (r : RuleText) : List Int := r.weekdays.filterMap (·.1)

/-- The first timestamp at one of the positions that a trace finds before a limit, else its first one.
    Nothing is looked for behind it. -/
def alignedIn (positions : List Int) (first : Option Stamp) : Nat → Trace → Except Fault (Option Stamp)
  | 0, _ => .ok first
  | _ + 1, .done => .ok first
  | _ + 1, .failed f => .error f
  | limit + 1, .item s rest =>
    if positions.isEmpty then .ok (some s)
    else
      match s.day.weekdayPosition? with
      | none => .error .range
      | some n =>
        if positions.contains n then .ok (some s)
        else alignedIn positions (first <|> some s) limit (rest ())

/-- The weekdays with their positions, zero for none, in order. -/
def weekdayKeys (r : RuleText) : List (Int × Nat) :=
  (r.weekdays.map fun (position, day) => (position.getD 0, day.index)).mergeSort
    fun a b => a.1 < b.1 || (a.1 = b.1 && a.2 ≤ b.2)

/-- The numbers of a list in order. -/
def sortedIntegers (r : RuleText) (key : RuleKey) : List Int :=
  (r.integers key).mergeSort fun a b => decide (a ≤ b)

/-- The other rule has the same restrictions as far as this one has any. -/
def sameConstraints (r other : RuleText) : Bool :=
  (! r.has .byMonthDay || r.sortedIntegers .byMonthDay = other.sortedIntegers .byMonthDay) &&
  (! r.has .byMonth || r.sortedIntegers .byMonth = other.sortedIntegers .byMonth) &&
  (! r.has .byDay || r.weekdayKeys = other.weekdayKeys)

/-- The names of the parts that the fields cannot express. -/
def unsupported (r : RuleText) : List Text :=
  (RuleKey.byName.filter fun key => r.has key && ! key.isImportable).map (·.name)

/-- The fields that the weekdays of a rule give to a pattern. All seven weekdays every week are a daily
    recurrence. -/
def repetition (r : RuleText) (pattern : Pattern) : Repetition :=
  let days := r.weekdays
  let plain : Repetition := { pattern, every := r.interval }
  match pattern with
  | .day => plain
  | .week =>
    let selectedDays := Weekday.sorted (days.map (·.2))
    if selectedDays.length = 7 ∧ r.interval = 1 then { plain with pattern := .day }
    else { plain with selectedDays }
  | .month => if days.isEmpty then plain else { plain with monthlyOption := .weekday }
  | .year => if days.isEmpty then plain else { plain with yearlyOption := .weekday }

/-- The last day on which a rule falls: the day of its end, or the day before when the end is earlier in
    the day than the start. -/
def lastDay (start finish : Stamp) : Result Stamp :=
  let day := finish.startOfDay
  if finish.clock.before start.clock then orFault .range (day.addDays? (-1)) else .ok day

/-- The text that stands for the fields: the one built from them when it says the same. -/
def keptText (r : RuleText) (c : Setting) (pattern : Pattern) (d : Description) : Result Text :=
  match d.ruleText c.plain with
  | .error e => if e.isBuild then .ok r.body else .error e
  | .ok rebuilt => do
    if d.pattern = pattern then
      let other ← RuleText.read (.text rebuilt)
      return if r.sameConstraints other then rebuilt else r.body
    else return rebuilt

/-- The start of the fields. -/
def alignedStart (r : RuleText) (recurrence : Recurrence) (pattern : Pattern) (start : Stamp) : Result Stamp :=
  if r.start.isNone ∧ (pattern = .month ∨ pattern = .year) then
    (liftFault (alignedIn r.positions none alignLimit recurrence.trace)).map (·.getD start)
  else .ok start

/-- The end of the fields. -/
def finishOf (r : RuleText) (rule : Datum) (start : Stamp) : Result (Option Stamp) :=
  match r.get? .until with
  | none => .ok none
  | some value =>
    match moment value with
    | .error flaw => .error (.badRule rule flaw)
    | .ok finish => (lastDay start finish).map some

/-- The fields of a rule that has been read from a value. -/
def description (r : RuleText) (c : Setting) (rule fallback : Datum) : Result Description := do
  if ! r.unsupported.isEmpty then throw (.badRule rule (.unsupportedParts r.unsupported))
  match Pattern.ofFrequency? (r.value .freq) with
  | none => throw (.badRule rule (.unsupportedFrequency (r.value .freq)))
  | some pattern =>
    let anchor ← match r.anchor c fallback with
      | .ok s => .ok s
      | .error e => if e.isDate then .error (.badRule rule (.badStart fallback)) else .error e
    let recurrence ← r.recurrenceFrom c.today anchor
    let start ← r.alignedStart recurrence pattern anchor
    let finish ← r.finishOf rule start
    let d : Description := { r.repetition pattern with start, finish, hasEnd := finish.isSome }
    let text ← r.keptText c pattern d
    return { d with rule := .text text }

end RuleText

/-- The fields of a rule text. -/
def Description.ofRule (c : Setting) (rule fallback : Datum) : Result Description := do
  (← RuleText.read rule).description c rule fallback

/-- A daily recurrence without an end. -/
def Description.daily (start : Stamp) : Description := { start }

/-- The fields of a rule text, or a daily recurrence when the text is no rule that they can express. -/
def Description.ofRuleOrDaily (c : Setting) (rule fallback : Datum) : Result Description :=
  match Description.ofRule c rule fallback with
  | .ok d => .ok d
  | .error e =>
    if e.isRule then
      match fallback with
      | .null => .ok (.daily c.dayStart)
      | given =>
        match c.stamp given with
        | .ok start => .ok (.daily start)
        | .error e => if e.isDate then .ok (.daily c.dayStart) else .error e
    else .error e

end Cadence
