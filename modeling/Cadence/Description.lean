import Cadence.Repetition

/-!
# Descriptions of recurrences

A description holds the fields of a recurrence: its start, how it repeats, and its end if it has one.
With them it carries the rule text and the sentence made from the fields, which a host may also fill
with values of its own. `Description.toDatum` is the object that hosts exchange. A draft holds the same
fields when each may be any value of a host; `Draft.description?_draft` says that a description's draft
stands for it.
-/

namespace Cadence

/-- The fields of a recurrence, with its rule text and sentence. -/
structure Description extends Repetition where
  start : Stamp
  finish : Option Stamp := none
  hasEnd : Bool := false
  rule : Datum := .null
  sentence : Datum := .null

/-- The fields of a recurrence as a host gives them. -/
structure Draft extends Choices where
  start : Datum
  finish : Datum := .null
  hasEnd : Datum := .bool false
  rule : Datum := .null
  sentence : Datum := .null

/-- A timestamp, or null in place of none. -/
def Datum.ofStamp? : Option Stamp → Datum
  | some s => .stamp s
  | none => .null

/-- The fields of a description as a host gives them. -/
def Description.draft (d : Description) : Draft where
  toChoices := d.toRepetition.choices
  start := .stamp d.start
  finish := Datum.ofStamp? d.finish
  hasEnd := .bool d.hasEnd
  rule := d.rule
  sentence := d.sentence

namespace Draft

/-- The text of a value that is a date. -/
def dateText? : Datum → Option Text
  | .stamp s => some s.text
  | .day d => some d.text
  | _ => none

/-- The end that is shown: null unless the recurrence has one. -/
def shownFinish? (d : Draft) : Option Datum :=
  if d.hasEnd.truthy && d.finish.truthy then (dateText? d.finish).map .text else some .null

/-- The fields in the order in which hosts exchange them, start and end being written as given. -/
def objectOf (d : Draft) (start : Text) (finish : Datum) : Datum :=
  .object
    [("startDate", .text start),
     ("pattern", d.pattern),
     ("every", d.every),
     ("selectedDays", .list ((Weekday.sorted d.selectedDays).map fun day => .text day.token)),
     ("monthlyOption", d.monthlyOption),
     ("yearlyOption", d.yearlyOption),
     ("endDate", finish),
     ("hasEndDate", d.hasEnd),
     ("rrule", d.rule),
     ("description", d.sentence)]

/-- The object that hosts exchange. None unless all choices are choices and the dates are dates. -/
def toDatum? (d : Draft) : Option Datum := do
  let start ← dateText? d.start
  let _ ← d.pattern?
  let _ ← d.monthlyOption?
  let _ ← d.yearlyOption?
  let finish ← d.shownFinish?
  some (d.objectOf start finish)

/-- The description that a draft stands for, if its fields are such as a description has. -/
def description? (d : Draft) : Option Description := do
  let repetition ← d.repetition?
  let start ← match d.start with
    | .stamp s => some s
    | _ => none
  let finish ← match d.finish with
    | .stamp s => some (some s)
    | .null => some none
    | _ => none
  let hasEnd ← match d.hasEnd with
    | .bool b => some b
    | _ => none
  some { repetition with start, finish, hasEnd, rule := d.rule, sentence := d.sentence }

theorem description?_draft (d : Description) : d.draft.description? = some d := by
  have h := Choices.repetition?_choices d.toRepetition
  cases hf : d.finish <;> simp [description?, Description.draft, Datum.ofStamp?, h, hf] <;> cases d <;> simp_all

end Draft

namespace Description

/-- The end that is shown: none unless the recurrence has one. -/
def shownFinish (d : Description) : Datum :=
  match d.hasEnd, d.finish with
  | true, some finish => .text finish.text
  | _, _ => .null

/-- The object with the fields in their order, the start being written as given. -/
def objectFrom (start : Text) (d : Description) : Datum := d.draft.objectOf start d.shownFinish

/-- The object that hosts exchange. -/
def toDatum (d : Description) : Datum := d.objectFrom d.start.text

/-- The descriptions make equal objects. -/
def sameObject (a b : Description) : Bool := a.toDatum.same b.toDatum

end Description

end Cadence
