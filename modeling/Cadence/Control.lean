import Cadence.Form
import Cadence.Json.Reader
import Cadence.Json.Writer

/-!
# The control

The control stands between a host and the form. The host hands in a recurrence as JSON text with a flag
and a locale, and reads the same back; every change that it should know of is counted. Data that cannot
be loaded leaves the control without a recurrence at first and with the one it has later on.
-/

namespace Cadence

/-- What a control holds. -/
structure Control where
  settings : Settings
  locale : Datum
  recurrence : Option Description := none
  isVisible : Bool := false
  form : Option Form := none
  changes : Nat := 0

/-- What a host reads from a control. -/
structure Outputs where
  recurrenceData : Text
  isVisible : Bool
  recurrenceDescription : Datum

namespace Control

/-- A control with settings. -/
def ofSettings (settings : Settings) : Control := { settings, locale := settings.locale }

/-- The outcome of an operation on a control: the control as it then is, and a result. -/
abbrev Outcome (α : Type) := Control × Result α

/-- The setting of the control's locale. -/
def setting (k : Control) (c : Setting) : Setting := { c with format := LocaleFormat.ofDatum k.locale }

/-- What the host reads. -/
def outputs (k : Control) : Outputs where
  recurrenceData :=
    match k.recurrence with
    | some d => d.toDatum.json
    | none => []
  isVisible := k.isVisible
  recurrenceDescription :=
    match k.recurrence with
    | some d => if d.sentence.truthy then d.sentence else .text []
    | none => .text []

/-! ### Data of the host -/

/-- The description that an object of the host stands for: that of its rule text when it has no pattern,
    else its fields. -/
def loadMembers (c : Setting) (members : List (Text × Datum)) : Result (Option Description) :=
  let rule := Datum.lookup "rrule" members
  if rule.truthy && ! Datum.hasMember "pattern" members then do
    let d ← Description.ofRuleOrDaily c rule (Datum.lookup "startDate" members)
    let sentence ← if d.rule.truthy then (describe c d.rule).map .text else .ok .null
    return some { d with sentence }
  else Result.recover ((Description.ofMembers c members).map some) Failure.isValueOrKind none

/-- The description that a text of the host stands for, none when it cannot be loaded. -/
def load (c : Setting) (data : Datum) : Result (Option Description) :=
  match data with
  | .text s =>
    match Json.read s with
    | .ok (.object members) => loadMembers c members
    | .ok _ => .ok none
    | .error .malformed => .ok none
    | .error .longNumber => .error (.fault .value)
    | .error .tooDeep => .error (.fault .depth)
  | _ => .error (.fault .kind)

/-- The control with a flag and, if one is given, a locale of the host. -/
def receive (k : Control) (isVisible locale : Datum) : Control :=
  { k with isVisible := isVisible.truthy, locale := if locale.truthy then locale else k.locale }

/-- The first data of the host. -/
def init (k : Control) (c : Setting) (data isVisible locale : Datum) : Outcome Unit :=
  let k := k.receive isVisible locale
  if data.truthy then
    match load (k.setting c) data with
    | .ok recurrence => ({ k with recurrence }, .ok ())
    | .error e => (k, .error e)
  else ({ k with recurrence := none }, .ok ())

/-- Later data of the host. A recurrence that is equal to the present one does not replace it. -/
def updateView (k : Control) (c : Setting) (data isVisible locale : Datum) : Outcome Unit :=
  let k := k.receive isVisible locale
  if data.truthy then
    match load (k.setting c) data with
    | .ok (some d) =>
      if k.recurrence.any d.sameObject then (k, .ok ()) else ({ k with recurrence := some d }, .ok ())
    | .ok none => (k, .ok ())
    | .error e => (k, .error e)
  else (k, .ok ())

/-! ### The form -/

/-- The form is opened for the present recurrence, or for a new one. -/
def openForm (k : Control) (c : Setting) : Outcome Unit :=
  match Form.open? (k.setting c) k.settings (k.recurrence.map (·.draft)) with
  | .ok form => ({ k with form := some form }, .ok ())
  | .error e => (k, .error e)

/-- The host is told of a change. -/
def notify (k : Control) : Control := { k with changes := k.changes + 1 }

/-- An operation on the form. There must be one. -/
def onForm {α : Type} (k : Control) (edit : Form → Form.Outcome α) : Outcome α :=
  match k.form with
  | none => (k, .error (.fault .member))
  | some form =>
    let (form, result) := edit form
    ({ k with form := some form }, result)

/-- The form is saved and closed. True if there was something to save. The form of a control holds only
    choices that there are, so that what it saves is a description. -/
def handleSet (k : Control) (c : Setting) : Outcome Bool :=
  match k.form with
  | none => (k, .ok false)
  | some form =>
    match form.save c.today with
    | (form, .error e) => ({ k with form := some form }, .error e)
    | (form, .ok none) => ({ k with form := some form }, .ok false)
    | (form, .ok (some d)) =>
      match d.description? with
      | none => ({ k with form := some form }, .error (.fault .member))
      | some d => (notify { k with form := some form, recurrence := some d, isVisible := false }, .ok true)

/-- The control is hidden. -/
def hide (k : Control) : Control := notify { k with isVisible := false }

/-- The edits of the form are given up. -/
def handleCancel (k : Control) (c : Setting) : Outcome Unit :=
  match k.form with
  | none => (k.hide, .ok ())
  | some form =>
    match form.discard c.today with
    | (form, .ok ()) => (hide { k with form := some form }, .ok ())
    | (form, .error e) => ({ k with form := some form }, .error e)

/-- The control is shown or hidden. -/
def handleToggle (k : Control) : Outcome Unit := (notify { k with isVisible := ! k.isVisible }, .ok ())

/-- The recurrence is given up. -/
def handleRemove (k : Control) (c : Setting) : Outcome Unit :=
  match k.form with
  | none => (hide { k with recurrence := none }, .ok ())
  | some form =>
    match form.remove c.today with
    | (form, .ok _) => (hide { k with form := some form, recurrence := none }, .ok ())
    | (form, .error e) => ({ k with form := some form }, .error e)

/-! ### Operations offered to the host -/

/-- A start of the host in the control's locale, null for none. -/
def anchor (k : Control) (c : Setting) (start : Datum) : Result Datum :=
  match start with
  | .null => .ok .null
  | given => ((k.setting c).stamp given).map .stamp

/-- An operation that needs a start, with a fallback where the start is no date. -/
def withAnchor {α : Type} (k : Control) (c : Setting) (start : Datum) (fallback : α) (use : Datum → Result α) :
    Result α :=
  match k.anchor c start with
  | .ok start => use start
  | .error e => if e.isDate then .ok fallback else .error e

/-- The first occurrences of a rule, as many as a preview shows unless a number is given. -/
def listOccurrences (k : Control) (c : Setting) (rule limit start : Datum) : Result (List Stamp) :=
  k.withAnchor c start [] fun start =>
    occurrences c rule (if limit.truthy then limit else k.settings.previewCount) start

/-- The document of a rule. -/
def exportToCalendar (k : Control) (c : Setting) (rule title start : Datum) : Result Text :=
  k.withAnchor c start [] fun start => exportDocument c rule title start .null k.settings.product

/-- The rule text of a draft. -/
def convertToRule (k : Control) (c : Setting) (d : Draft) : Result Text := d.ruleText (k.setting c)

/-- The fields of a rule text. -/
def convertFromRule (k : Control) (c : Setting) (rule fallback : Datum) : Result Description :=
  Description.ofRule (k.setting c) rule fallback

/-- The sentence for a rule text. -/
def describeRule (k : Control) (c : Setting) (rule : Datum) : Result Text := describe (k.setting c) rule

end Control

end Cadence
