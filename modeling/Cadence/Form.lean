import Cadence.Host.Dates
import Cadence.Host.Load
import Cadence.Rule.Describe
import Cadence.Rule.Import
import Cadence.Settings
import Cadence.Summary

/-!
# The form

The form holds the fields of one recurrence while they are edited, dates being texts as they were typed.
Every edit changes the values first and works out the preview after that, so a preview that cannot be
worked out stays as it was. Saving hands out a description only when nothing is wrong with the dates and
the preview has a rule; discarding goes back to what was opened or saved last. The choices are values
of a host, which the first ones may be in any way; an edit puts in a choice that there is.
-/

namespace Cadence

/-- What the fields of a form hold. -/
structure FormValues extends Choices where
  startText : Text
  finishText : Option Text
  hasEnd : Datum := .bool true

/-- What a form shows about its values. -/
structure Preview where
  ruleText : Option Text := none
  description : Text := noRuleMessage
  occurrences : List Stamp := []
  summary : Text := []
  deriving DecidableEq

/-- What is wrong with the dates of a form. -/
structure FormErrors where
  start : Option Text := none
  finish : Option Text := none
  deriving DecidableEq

/-- Nothing is wrong. -/
def FormErrors.isEmpty (e : FormErrors) : Bool := e.start.isNone && e.finish.isNone

/-- A form in the middle of its session. -/
structure Form where
  format : LocaleFormat
  settings : Settings
  values : FormValues
  opened : FormValues
  saved : Option Draft := none
  preview : Preview := {}

namespace Form

/-! ### Messages -/

/-- The start is no date. -/
def invalidStart : Text := "Enter a valid start date."

/-- The start is before the current day. -/
def startInPast : Text := "Start date cannot be in the past."

/-- The end is no date. -/
def invalidFinish : Text := "Enter a valid end date."

/-- The end is not after the start. -/
def finishBeforeStart : Text := "End date must be after the start date."

/-! ### Values -/

/-- The current time with the form's format. -/
def setting (f : Form) (today : Stamp) : Setting := { today, format := .ok f.format }

/-- The timestamp in a field, none when the field is empty or no date. -/
def read (today : Stamp) (format : LocaleFormat) (s : Text) : Except Fault (Option Stamp) :=
  if s.isEmpty then .ok none else DateText.resolve today.day.year (.ok format) s

/-- The start, if its field holds a date. -/
def start (f : Form) (today : Stamp) : Except Fault (Option Stamp) := read today f.format f.values.startText

/-- The end, if its field holds a date. -/
def finish (f : Form) (today : Stamp) : Except Fault (Option Stamp) :=
  match f.values.finishText with
  | none => .ok none
  | some s => read today f.format s

/-- A date of a host as the text of a field. -/
def fieldText (format : Except Fault LocaleFormat) : Datum → Result Text
  | .stamp s => (liftFault format).map s.fieldText
  | _ => .error (.fault .member)

/-- The values of a new recurrence: from the current day on, for as many months as are set. -/
def freshValues (c : Setting) (settings : Settings) : Result FormValues := do
  let start := Datum.stamp c.dayStart
  let finish ← Host.addMonths c start settings.endMonths
  return { startText := ← fieldText c.format start, finishText := some (← fieldText c.format (.stamp finish)) }

/-- The values of a recurrence as a host gives it. -/
def valuesOf (format : Except Fault LocaleFormat) (d : Draft) : Result FormValues := do
  let startText ← fieldText format d.start
  let finishText ← if d.finish.truthy then (fieldText format d.finish).map some else .ok none
  return { d.toChoices with
    selectedDays := Weekday.sorted d.selectedDays
    startText, finishText
    hasEnd := d.hasEnd }

/-- There is an end, whether or not its field holds a date. -/
def wantsFinish (f : Form) : Bool := f.values.hasEnd.truthy

/-- The fields of the values with a start. -/
def draftFrom (f : Form) (today start : Stamp) : Except Fault Draft := do
  let finish ← if f.wantsFinish then f.finish today else .ok none
  return { f.values.toChoices with
    selectedDays := if f.values.pattern? = some .week then Weekday.sorted f.values.selectedDays else []
    start := .stamp start
    finish := .ofStamp? finish
    hasEnd := f.values.hasEnd }

/-- The fields of the values, if the start is a date. -/
def draft (f : Form) (today : Stamp) : Except Fault (Option Draft) := do
  match ← f.start today with
  | none => return none
  | some start => return some (← f.draftFrom today start)

/-- What is wrong with a start. -/
def startError (today : Stamp) : Option Stamp → Option Text
  | none => some invalidStart
  | some start => if start.day.before today.day then some startInPast else none

/-- What is wrong with an end. -/
def finishError : Option Stamp → Option Stamp → Option Text
  | _, none => some invalidFinish
  | some start, some finish => if start.before finish then none else some finishBeforeStart
  | none, some _ => none

/-- What is wrong with the dates. -/
def errors (f : Form) (today : Stamp) : Except Fault FormErrors := do
  let start ← f.start today
  let finish ← if f.wantsFinish then (f.finish today).map (finishError start) else .ok none
  return { start := startError today start, finish }

/-- The day whose labels are shown: the start's, or the current one. -/
def labelDay (f : Form) (today : Stamp) : Except Fault Day :=
  (f.start today).map fun start => (start.map (·.day)).getD today.day

/-- The labels of the monthly options. -/
def monthlyLabels (f : Form) (today : Stamp) : Result (Text × Text) := do
  let day ← liftFault (f.labelDay today)
  return (Phrase.monthlyDayLabel day, ← orFault .range (Phrase.monthlyWeekdayLabel? day))

/-- The labels of the yearly options. -/
def yearlyLabels (f : Form) (today : Stamp) : Result (Text × Text) := do
  let day ← liftFault (f.labelDay today)
  return (Phrase.yearlyDateLabel day, ← orFault .range (Phrase.yearlyWeekdayLabel? day))

/-! ### Preview -/

/-- What is shown about a rule made from a start. -/
def ruleShown (f : Form) (today start : Stamp) (summary rule : Text) : Result Preview := do
  let c := f.setting today
  let description ← describe c (.text rule)
  let anchored ← anchorRuleText c.plain (.text rule) (.stamp start)
  let occurrences ← occurrences c (.text anchored) f.settings.previewCount .null
  return { ruleText := some rule, description, occurrences, summary }

/-- What is shown about the values. Where they make no rule, only the summary is. -/
def shown (f : Form) (today : Stamp) : Result Preview := do
  let start ← liftFault (f.start today)
  let summary ← liftFault (f.values.summary (start.map fun start => .ok start.day) f.wantsFinish)
  match start with
  | none => return { summary }
  | some start =>
    let draft ← liftFault (f.draftFrom today start)
    if f.wantsFinish && ! draft.finish.truthy then return { summary }
    match draft.ruleText (f.setting today) with
    | .ok rule => f.ruleShown today start summary rule
    | .error e => if e.isBuild then return { summary } else throw e

/-- The outcome of an operation on a form: the form as it then is, and a result. -/
abbrev Outcome (α : Type) := Form × Result α

/-- The form with its preview worked out again. -/
def refresh (f : Form) (today : Stamp) : Outcome Unit :=
  match f.shown today with
  | .ok preview => ({ f with preview }, .ok ())
  | .error e => (f, .error e)

/-- A form for a recurrence as a host gives it, or for a new one. -/
def open? (c : Setting) (settings : Settings) (initial : Option Draft) : Result Form := do
  let values ← match initial with
    | some d => valuesOf c.format d
    | none => freshValues c settings
  let form : Form := { format := ← liftFault c.format, settings, values, opened := values }
  match form.refresh c.today with
  | (form, .ok ()) => return form
  | (_, .error e) => throw e

/-! ### Edits -/

/-- The form with other values and its preview worked out again. -/
def change (f : Form) (today : Stamp) (edit : FormValues → FormValues) : Outcome Unit :=
  { f with values := edit f.values }.refresh today

/-- The end one year after the day of a start. -/
def yearAfter (f : Form) (start : Stamp) : Result Text :=
  (Host.moved (start.startOfDay.addYears 1)).map (·.fieldText f.format)

/-- The form with its end one year after a start. -/
def endYearAfter (f : Form) (today start : Stamp) : Outcome Unit :=
  match f.yearAfter start with
  | .ok text => f.change today fun v => { v with finishText := some text }
  | .error e => (f, .error e)

/-- Another start. An end that is in use moves with it. -/
def setStart (f : Form) (today : Stamp) (s : Text) : Outcome Unit :=
  let f := { f with values := { f.values with startText := Text.trim s } }
  match f.start today with
  | .error e => (f, .error (.fault e))
  | .ok none => f.refresh today
  | .ok (some start) =>
    if f.wantsFinish && f.values.finishText.any (! ·.isEmpty) then f.endYearAfter today start
    else f.refresh today

/-- Another end. -/
def setFinish (f : Form) (today : Stamp) (s : Text) : Outcome Unit :=
  f.change today fun v => { v with finishText := some (Text.trim s) }

/-- There is an end. One that is not after the start is moved. -/
def chooseFinish (f : Form) (today : Stamp) : Outcome Unit :=
  let f := { f with values := { f.values with hasEnd := .bool true } }
  match f.start today, f.finish today with
  | .error e, _ | .ok _, .error e => (f, .error (.fault e))
  | .ok none, .ok _ => f.refresh today
  | .ok (some start), .ok finish =>
    if finish.any start.before then f.refresh today else f.endYearAfter today start

/-- There is no end. -/
def removeFinish (f : Form) (today : Stamp) : Outcome Unit :=
  f.change today fun v => { v with hasEnd := .bool false }

/-- Another pattern. -/
def setPattern (f : Form) (today : Stamp) (pattern : Pattern) : Outcome Unit :=
  f.change today fun v => { v with pattern := .text pattern.token }

/-- Another interval, at least one. -/
def setEvery (f : Form) (today : Stamp) (every : Int) : Outcome Unit :=
  f.change today fun v => { v with every := .int (max 1 every) }

/-- A weekday more or less. When all are selected, the recurrence is a daily one. -/
def toggleDay (f : Form) (today : Stamp) (day : Weekday) : Outcome Unit :=
  f.change today fun v =>
    let selected :=
      if v.selectedDays.contains day then v.selectedDays.filter (· ≠ day) else day :: v.selectedDays
    let selectedDays := Weekday.sorted selected
    if selectedDays.length = 7 then
      { v with pattern := .text Pattern.day.token, every := .int 1, selectedDays := [] }
    else { v with selectedDays }

/-- Another monthly option. -/
def setMonthlyOption (f : Form) (today : Stamp) (option : MonthlyOption) : Outcome Unit :=
  f.change today fun v => { v with monthlyOption := .text option.token }

/-- Another yearly option. -/
def setYearlyOption (f : Form) (today : Stamp) (option : YearlyOption) : Outcome Unit :=
  f.change today fun v => { v with yearlyOption := .text option.token }

/-- The values that a rule text stands for, the start being that of the form where the text has none. -/
def imported (f : Form) (today : Stamp) (rule : Datum) : Result FormValues := do
  let start ← liftFault (f.start today)
  let description ← Description.ofRule (f.setting today) rule (.ofStamp? start)
  valuesOf (.ok f.format) description.draft

/-- The values of a rule text in place of the form's. -/
def importRule (f : Form) (today : Stamp) (rule : Datum) : Outcome Unit :=
  match f.imported today rule with
  | .ok values => f.change today fun _ => values
  | .error e => (f, .error e)

/-! ### Sessions -/

/-- What saving hands out: the fields of the values with their rule and sentence, if nothing is wrong. -/
def savable (f : Form) (today : Stamp) : Except Fault (Option Draft) := do
  let errors ← f.errors today
  match errors.isEmpty, f.preview.ruleText, ← f.draft today with
  | true, some rule, some d => return some { d with rule := .text rule, sentence := .text f.preview.description }
  | _, _, _ => return none

/-- The fields of the values are handed out and kept, if nothing is wrong with them. -/
def save (f : Form) (today : Stamp) : Outcome (Option Draft) :=
  match f.savable today with
  | .ok (some d) => ({ f with saved := some d, opened := f.values }, .ok (some d))
  | .ok none => (f, .ok none)
  | .error e => (f, .error (.fault e))

/-- The values are again those that were opened or saved last. -/
def discard (f : Form) (today : Stamp) : Outcome Unit := f.change today fun _ => f.opened

/-- The recurrence is given up for a new one without an end. -/
def remove (f : Form) (today : Stamp) : Outcome Draft :=
  match freshValues (f.setting today) f.settings with
  | .error e => (f, .error e)
  | .ok values =>
    let values := { values with hasEnd := .bool false }
    match { f with values, opened := values, saved := none }.refresh today with
    | (f, .error e) => (f, .error e)
    | (f, .ok ()) =>
      (f, do
        match ← liftFault (f.draft today) with
        | some d => return d
        | none => throw (.fault .member))

end Form

end Cadence
