import Cadence.Proofs.Control.Reopened
import Cadence.Proofs.Form.Edited

/-!
# What a host is told

A host does things with a control and asks it questions. The recurrence that it reads back changes at few of these steps,
and never at one that fails; the changes that it is told of are counted at others. What a form has saved is read back as
the form saved it.
-/

namespace Cadence

/-! ### Saved drafts -/

namespace Draft

variable {d : Draft} {s : Description}

end Draft

namespace Control

/-! ### Steps -/

/-- What a host asks a control. -/
inductive Query where
  | describeRule (rule : Datum)
  | listOccurrences (rule limit start : Datum)
  | validateRule (rule : Datum)
  | exportToCalendar (rule title start : Datum)
  | convertToRule (d : Draft)
  | convertFromRule (rule fallback : Datum)

/-- What a host does with a control in one step. -/
inductive Step where
  | operation (op : Operation)
  | query (q : Query)

variable {α : Type}

/-- An outcome of which only matters whether it returns. -/
def returning (outcome : Outcome α) : Outcome Bool := (outcome.1, outcome.2.map fun _ => true)

/-- The control after an operation, and what the operation returns, true where it returns nothing that tells. -/
def Operation.outcome (op : Operation) (k : Control) (c : Setting) : Outcome Bool :=
  match op with
  | init data isVisible locale => returning (k.init c data isVisible locale)
  | updateView data isVisible locale => returning (k.updateView c data isVisible locale)
  | openForm => returning (k.openForm c)
  | edit op => returning (k.onForm fun form => (op.after form c.today, op.result form c.today))
  | handleSet => k.handleSet c
  | handleCancel => returning (k.handleCancel c)
  | handleToggle => returning k.handleToggle
  | handleRemove => returning (k.handleRemove c)

/-- A question leaves the control as it is. -/
def Query.outcome (q : Query) (k : Control) (c : Setting) : Outcome Bool :=
  match q with
  | describeRule rule => returning (k, k.describeRule c rule)
  | listOccurrences rule limit start => returning (k, k.listOccurrences c rule limit start)
  | validateRule rule => returning (k, Cadence.validateRule c rule)
  | exportToCalendar rule title start => returning (k, k.exportToCalendar c rule title start)
  | convertToRule d => returning (k, k.convertToRule c d)
  | convertFromRule rule fallback => returning (k, k.convertFromRule c rule fallback)

/-- The control after a step, and what the step returns. -/
def Step.outcome (step : Step) (k : Control) (c : Setting) : Outcome Bool :=
  match step with
  | operation op => op.outcome k c
  | query q => q.outcome k c

/-- The data stand for a recurrence. -/
def Loads (k : Control) (c : Setting) (data : Datum) : Prop := data.truthy = true ∧ ∃ d, load (k.setting c) data = .ok (some d)

/-- The step may put another recurrence in the place of the present one. -/
def Step.Replaces (step : Step) (k : Control) (c : Setting) : Prop :=
  match step with
  | operation (.init _ _ _) | operation .handleRemove => True
  | operation (.updateView data isVisible locale) => (k.receive isVisible locale).Loads c data
  | operation .handleSet => (k.handleSet c).2 = .ok true
  | _ => False

/-- The host is told of the step. -/
def Step.tells (step : Step) (k : Control) (c : Setting) : Bool :=
  match step with
  | operation .handleSet => (k.handleSet c).2.toOption.getD false
  | operation .handleCancel => (k.handleCancel c).2.isOk
  | operation .handleToggle => k.handleToggle.2.isOk
  | operation .handleRemove => (k.handleRemove c).2.isOk
  | _ => false

/-! ### One step -/

variable {k : Control} {c : Setting} {settings : Settings}

/-- An outcome keeps the recurrence of a control unless it returns and may replace it, and counts one change if the host is
    told of it. -/
structure Frames (k : Control) (outcome : Outcome α) (replaces : Prop) (tells : Bool) : Prop where
  recurrence : outcome.1.recurrence = k.recurrence ∨ replaces ∧ outcome.2.isOk = true
  changes : outcome.1.changes = k.changes + if tells then 1 else 0

theorem Frames.returning {outcome : Outcome α} {replaces : Prop} {tells : Bool} (frames : Frames k outcome replaces tells) :
    Frames k (returning outcome) replaces tells := by
  refine ⟨frames.recurrence.imp_right fun ⟨may, returns⟩ => ⟨may, ?_⟩, frames.changes⟩
  obtain ⟨k', result⟩ := outcome
  cases result with
  | ok a => rfl
  | error e => cases returns

theorem frames_self (result : Result α) (replaces : Prop) : Frames k (k, result) replaces false := ⟨.inl rfl, rfl⟩

theorem frames_init (data isVisible locale : Datum) : Frames k (k.init c data isVisible locale) True false := by
  unfold init
  dsimp only
  split
  · split
    · exact ⟨.inr ⟨trivial, rfl⟩, rfl⟩
    · exact ⟨.inl rfl, rfl⟩
  · exact ⟨.inr ⟨trivial, rfl⟩, rfl⟩

theorem frames_updateView (data isVisible locale : Datum) :
    Frames k (k.updateView c data isVisible locale) ((k.receive isVisible locale).Loads c data) false := by
  unfold updateView Loads
  dsimp only
  split
  · rename_i given
    split
    · rename_i d loaded
      split
      · exact ⟨.inl rfl, rfl⟩
      · exact ⟨.inr ⟨⟨given, d, loaded⟩, rfl⟩, rfl⟩
    · exact ⟨.inl rfl, rfl⟩
    · exact ⟨.inl rfl, rfl⟩
  · exact ⟨.inl rfl, rfl⟩

theorem frames_openForm : Frames k (k.openForm c) False false := by
  unfold openForm
  split <;> exact ⟨.inl rfl, rfl⟩

theorem frames_onForm (edit : Form → Form.Outcome α) : Frames k (k.onForm edit) False false := by
  unfold onForm
  split <;> exact ⟨.inl rfl, rfl⟩

/-- Saving replaces the recurrence, and tells the host, just if there is something to save. -/
theorem frames_handleSet :
    Frames k (k.handleSet c) ((k.handleSet c).2 = .ok true) ((k.handleSet c).2.toOption.getD false) := by
  unfold handleSet
  cases k.form with
  | none => exact ⟨.inl rfl, rfl⟩
  | some f =>
    dsimp only
    rcases f.save c.today with ⟨g, e | (_ | d)⟩
    · exact ⟨.inl rfl, rfl⟩
    · exact ⟨.inl rfl, rfl⟩
    · dsimp only
      cases d.description? with
      | none => exact ⟨.inl rfl, rfl⟩
      | some s => exact ⟨.inr ⟨rfl, rfl⟩, rfl⟩

theorem frames_handleCancel : Frames k (k.handleCancel c) False (k.handleCancel c).2.isOk := by
  unfold handleCancel
  split
  · exact ⟨.inl rfl, rfl⟩
  · split <;> exact ⟨.inl rfl, rfl⟩

theorem frames_handleToggle : Frames k k.handleToggle False true := ⟨.inl rfl, rfl⟩

theorem frames_handleRemove : Frames k (k.handleRemove c) True (k.handleRemove c).2.isOk := by
  unfold handleRemove
  split
  · exact ⟨.inr ⟨trivial, rfl⟩, rfl⟩
  · split
    · exact ⟨.inr ⟨trivial, rfl⟩, rfl⟩
    · exact ⟨.inl rfl, rfl⟩

/-- One step. -/
theorem Step.frames (step : Step) (k : Control) (c : Setting) :
    Frames k (step.outcome k c) (step.Replaces k c) (step.tells k c) := by
  cases step with
  | query q => cases q <;> exact (frames_self _ _).returning
  | operation op =>
    cases op with
    | init data isVisible locale => exact (frames_init data isVisible locale).returning
    | updateView data isVisible locale => exact (frames_updateView data isVisible locale).returning
    | openForm => exact frames_openForm.returning
    | edit op => exact (frames_onForm _).returning
    | handleSet => exact frames_handleSet
    | handleCancel => exact frames_handleCancel.returning
    | handleToggle => exact frames_handleToggle.returning
    | handleRemove => exact frames_handleRemove.returning

/-! ### Runs -/

/-- The control after several steps, each at its own time. -/
def run (k : Control) (steps : List (Step × Setting)) : Control := steps.foldl (fun k step => (step.1.outcome k step.2).1) k

/-- How many of several steps the host is told of. -/
def told (k : Control) : List (Step × Setting) → Nat
  | [] => 0
  | (step, c) :: steps => (if step.tells k c then 1 else 0) + told (step.outcome k c).1 steps

end Control

end Cadence
