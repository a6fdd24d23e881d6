import Cadence.Rule.Occurrence
import Cadence.Text.Blank

/-!
# Rules of several lines

The text that is evaluated is broken at blanks. One line is a rule. Several lines may be rules, rules
that exclude, dates, excluded dates, or another start; together they make one set of timestamps. A line
without a name is a rule.
-/

namespace Cadence

/-- What is evaluated: one schedule, or a set made of several. -/
inductive Recurrence where
  | single (s : Schedule)
  | combined (rules : List Schedule) (dates : List Stamp) (exceptRules : List Schedule) (exceptDates : List Stamp)

namespace Recurrence

/-- The dates and the occurrences of the schedules in order. -/
def union (dates : List Stamp) (schedules : List Schedule) : Trace :=
  schedules.foldl (fun t s => t.merge s.trace) (Trace.ofList (Schedule.inOrder dates))

/-- The occurrences of one schedule, or of a set in order and without repetitions. -/
def trace : Recurrence → Trace
  | single s => s.trace
  | combined rules dates exceptRules exceptDates =>
    (union dates rules).distinct.without (union exceptDates exceptRules)

/-! ### Lines -/

/-- What the lines have given so far. -/
structure Lines where
  start : Stamp
  rules : List Text := []
  dates : List Text := []
  exceptRules : List Text := []
  exceptDates : List Stamp := []

/-- A date on a line. Its zone, if it has one, does not count. -/
def dateOn (today : Stamp) (value : Text) : Except LineFailure Stamp :=
  match FreeForm.readLocal today.day.year (.ofDay today.day) value with
  | .ok stamp => .ok stamp
  | .error .unknown => .error (.flaw (.unknownDate value))
  | .error .noDate => .error (.flaw (.noDate value))
  | .error (.noMonth month) => .error (.flaw (.noMonth month value))
  | .error (.offCalendar flaw) => .error (.flaw (.offCalendar flaw value))
  | .error .offScale => .error (.fault .range)
  | .error .offPrecision => .error (.fault .precision)

/-- The dates of a list. -/
def datesOn (today : Stamp) (value : Text) : Except LineFailure (List Stamp) :=
  (Text.splitOn ',' value).mapM (dateOn today)

/-- The name and the parameters before a colon, and the text after it. -/
def splitName (line : Text) : Text × List Text × Text :=
  match Text.cut? ':' line with
  | none => ("RRULE", [], line)
  | some (named, value) =>
    match Text.splitOn ';' named with
    | name :: parameters => (name, parameters, value)
    | [] => ([], [], value)

/-- A name may have no parameters. -/
def plain (shown : Text) : List Text → Except LineFailure Unit
  | [] => .ok ()
  | parameter :: _ => .error (.flaw (.parameterOf shown parameter))

/-- One more line. -/
def Lines.add (today : Stamp) (l : Lines) (line : Text) : Except LineFailure Lines := do
  let (name, parameters, value) := splitName line
  if name = "RRULE".toList then
    plain name parameters
    return { l with rules := l.rules ++ [value] }
  else if name = "RDATE".toList then
    plain name parameters
    return { l with dates := l.dates ++ [value] }
  else if name = "EXRULE".toList then
    plain name parameters
    return { l with exceptRules := l.exceptRules ++ [value] }
  else if name = "EXDATE".toList then
    plain [] parameters
    return { l with exceptDates := l.exceptDates ++ (← datesOn today value) }
  else if name = "DTSTART".toList then
    plain [] parameters
    match ← datesOn today value with
    | [start] => return { l with start }
    | _ => throw (.flaw (.manyStarts value))
  else throw (.flaw (.unknownProperty name))

/-- The schedule that a line writes. -/
def schedule (today start : Stamp) (line : Text) : Except LineFailure Schedule := do
  Schedule.of (← RuleSpec.read today line) start

/-- What the lines say together. -/
def ofLines (today : Stamp) (l : Lines) : Except LineFailure Recurrence :=
  match l.rules, l.dates, l.exceptRules, l.exceptDates with
  | [rule], [], [], [] => (schedule today l.start rule).map .single
  | rules, dates, exceptRules, exceptDates => do
    let rules ← rules.mapM (schedule today l.start)
    let dates ← dates.mapM (datesOn today)
    let exceptRules ← exceptRules.mapM (schedule today l.start)
    return .combined rules dates.flatten exceptRules exceptDates

/-- What a text says about a start. -/
def read (today start : Stamp) (s : Text) : Except LineFailure Recurrence :=
  match Text.words (Text.upper s) with
  | [line] => (schedule today start line).map .single
  | lines => do ofLines today (← lines.foldlM (Lines.add today) { start })

end Recurrence

end Cadence
