import Cadence.Control
import Cadence.Proofs.Form.Saved

/-!
# Runs of a control

A control is reached by a run of operations of its host, each at its own time: data that is handed in, edits of the
form, and buttons. Whatever they are, the recurrence of a control that has been reached is settled. It comes from a
JSON text, or a form has saved it; and the form is one of a session, in which the interval never falls below one.
-/

namespace Cadence

namespace Control

/-! ### Runs -/

/-- What a host does with a control. -/
inductive Operation where
  | init (data isVisible locale : Datum)
  | updateView (data isVisible locale : Datum)
  | openForm
  | edit (op : Form.Operation)
  | handleSet
  | handleCancel
  | handleToggle
  | handleRemove

/-- The control after an operation, whether or not the operation failed. -/
def Operation.after (op : Operation) (k : Control) (c : Setting) : Control :=
  match op with
  | init data isVisible locale => (k.init c data isVisible locale).1
  | updateView data isVisible locale => (k.updateView c data isVisible locale).1
  | openForm => (k.openForm c).1
  | edit op => (k.onForm fun form => (op.after form c.today, (.ok () : Result Unit))).1
  | handleSet => (k.handleSet c).1
  | handleCancel => (k.handleCancel c).1
  | handleToggle => k.handleToggle.1
  | handleRemove => (k.handleRemove c).1

/-- A control that a run of operations leads to, each at its own time. -/
inductive Reached (settings : Settings) : Control → Prop where
  | new : Reached settings (ofSettings settings)
  | after {k : Control} (op : Operation) (c : Setting) (reached : Reached settings k) : Reached settings (op.after k c)

/-- The form of a control is one of a session that counts in positive numbers, and its recurrence is settled. -/
structure IsSettled (k : Control) : Prop where
  recurrence : ∀ d, k.recurrence = some d → d.IsSettled
  form : ∀ f, k.form = some f → f.IsCounted ∧ ∃ c settings initial v t, Form.Session c settings initial f v t

variable {k : Control} {c : Setting} {settings : Settings} {f : Form} {d : Description}

/-! ### Data of the host -/

theorem isSettled_of_loadMembers {members : List (Text × Datum)} (json : ∀ m ∈ members, m.2.IsJson (Json.maxDepth - 1))
    (loaded : loadMembers c members = .ok (some d)) : d.IsSettled := by
  have value (name : Text) : (Datum.lookup name members).IsJson (Json.maxDepth - 1) := Datum.IsJson.lookup json name
  unfold loadMembers at loaded
  dsimp only at loaded
  split at loaded
  · obtain ⟨d', found, loaded⟩ := bind_eq_ok.mp loaded
    have given {sentence : Datum}
        (described : (if d'.rule.truthy then (describe c d'.rule).map .text else .ok .null) = (.ok sentence : Result Datum)) :
        sentence.IsGiven := by
      split at described
      · obtain ⟨text, said, same⟩ := map_eq_ok.mp described
        rw [same]
        exact Datum.isGiven_text (describe_ne_nil said)
      · cases described
        exact ⟨.null _, rfl⟩
    have sentence : ∃ sentence, sentence.IsGiven ∧ d = { d' with sentence } := by
      split at loaded
      · rename_i truthy
        obtain ⟨sentence, described, loaded⟩ := bind_eq_ok.mp loaded
        cases loaded
        exact ⟨sentence, given (by rw [if_pos truthy]; exact described), rfl⟩
      · cases loaded
        exact ⟨.null, ⟨.null _, rfl⟩, rfl⟩
    obtain ⟨sentence, given, rfl⟩ := sentence
    exact Description.isSettled_of_ofRuleOrDaily (value _).ne_stamp given found
  · unfold Result.recover at loaded
    split at loaded
    · rename_i found
      obtain ⟨d', read, same⟩ := map_eq_ok.mp found
      cases loaded
      cases same
      exact Description.isSettled_of_ofMembers json read
    · split at loaded <;> cases loaded

/-- Whatever text a host hands in, the recurrence that it stands for is settled. -/
theorem isSettled_of_load {data : Datum} (loaded : load c data = .ok (some d)) : d.IsSettled := by
  unfold load at loaded
  split at loaded
  · split at loaded
    · rename_i read
      exact isSettled_of_loadMembers (Json.isJson_of_read read).members loaded
    all_goals cases loaded
  · cases loaded

theorem IsSettled.receive (settled : k.IsSettled) (isVisible locale : Datum) : (k.receive isVisible locale).IsSettled :=
  ⟨settled.recurrence, settled.form⟩

theorem IsSettled.init (settled : k.IsSettled) (c : Setting) (data isVisible locale : Datum) :
    (k.init c data isVisible locale).1.IsSettled := by
  unfold Control.init
  dsimp only
  split
  · split
    · rename_i loaded
      exact ⟨fun d found => isSettled_of_load (loaded.trans (congrArg _ found)), settled.form⟩
    · exact settled.receive isVisible locale
  · exact ⟨fun _ found => (nomatch found), settled.form⟩

theorem IsSettled.updateView (settled : k.IsSettled) (c : Setting) (data isVisible locale : Datum) :
    (k.updateView c data isVisible locale).1.IsSettled := by
  have received := settled.receive isVisible locale
  unfold Control.updateView
  dsimp only
  split
  · split
    · rename_i d loaded
      split
      · exact received
      · refine ⟨fun d' found => ?_, settled.form⟩
        cases found
        exact isSettled_of_load loaded
    · exact received
    · exact received
  · exact received

/-! ### The form -/

theorem IsSettled.openForm (settled : k.IsSettled) (c : Setting) : (k.openForm c).1.IsSettled := by
  unfold Control.openForm
  split
  · rename_i form opens
    refine ⟨settled.recurrence, fun f found => ?_⟩
    cases found
    exact ⟨Form.isCounted_of_open (fun d there => (settled.recurrence d there).every_pos) opens, _, _, _, _, _, .opened opens⟩
  · exact settled

/-- The form after an operation is one of its session. -/
theorem IsSettled.afterForm (settled : k.IsSettled) (there : k.form = some f) (op : Form.Operation) (today : Stamp) :
    { k with form := some (op.after f today) }.IsSettled := by
  obtain ⟨counted, c, settings, initial, v, t, session⟩ := settled.form f there
  refine ⟨settled.recurrence, fun g found => ?_⟩
  cases found
  obtain ⟨v', t', session⟩ := session.after op today
  exact ⟨counted.after op today, c, settings, initial, v', t', session⟩

theorem IsSettled.edit (settled : k.IsSettled) (c : Setting) (op : Form.Operation) :
    ((Control.Operation.edit op).after k c).IsSettled := by
  unfold Operation.after onForm
  dsimp only
  split
  · exact settled
  · rename_i form there
    exact settled.afterForm there op c.today

theorem IsSettled.handleSet (settled : k.IsSettled) (c : Setting) : (k.handleSet c).1.IsSettled := by
  unfold Control.handleSet
  split
  · exact settled
  · rename_i form there
    have after := settled.afterForm there .save c.today
    have kept {g : Form} {result : Result (Option Draft)} (saved : form.save c.today = (g, result)) :
        { k with form := some g }.IsSettled := by
      have same : (Form.Operation.save).after form c.today = g := congrArg Prod.fst saved
      rwa [same] at after
    split
    · rename_i saved
      exact kept saved
    · rename_i saved
      exact kept saved
    · rename_i d saved
      split
      · exact kept saved
      · rename_i s whole
        refine ⟨fun d' found => ?_, (kept saved).form⟩
        cases found
        obtain ⟨counted, c', settings, initial, v, t, session⟩ := settled.form form there
        exact Form.isSettled_of_save session counted (by rw [saved]) whole

theorem IsSettled.handleCancel (settled : k.IsSettled) (c : Setting) : (k.handleCancel c).1.IsSettled := by
  unfold Control.handleCancel
  split
  · exact ⟨settled.recurrence, settled.form⟩
  · rename_i form there
    have after := settled.afterForm there .discard c.today
    split
    · rename_i g discarded
      have same : (Form.Operation.discard).after form c.today = g := congrArg Prod.fst discarded
      rw [same] at after
      exact ⟨after.recurrence, after.form⟩
    · rename_i g e discarded
      have same : (Form.Operation.discard).after form c.today = g := congrArg Prod.fst discarded
      rwa [same] at after

theorem IsSettled.handleRemove (settled : k.IsSettled) (c : Setting) : (k.handleRemove c).1.IsSettled := by
  unfold Control.handleRemove
  split
  · exact ⟨fun _ found => (nomatch found), settled.form⟩
  · rename_i form there
    have after := settled.afterForm there .remove c.today
    split
    · rename_i g _ removed
      have same : (Form.Operation.remove).after form c.today = g := congrArg Prod.fst removed
      rw [same] at after
      exact ⟨fun _ found => (nomatch found), after.form⟩
    · rename_i g e removed
      have same : (Form.Operation.remove).after form c.today = g := congrArg Prod.fst removed
      rwa [same] at after

/-! ### Every control that is reached -/

/-- One operation. -/
theorem IsSettled.after (settled : k.IsSettled) (op : Operation) (c : Setting) : (op.after k c).IsSettled := by
  cases op with
  | init data isVisible locale => exact settled.init c data isVisible locale
  | updateView data isVisible locale => exact settled.updateView c data isVisible locale
  | openForm => exact settled.openForm c
  | edit op => exact settled.edit c op
  | handleSet => exact settled.handleSet c
  | handleCancel => exact settled.handleCancel c
  | handleToggle => exact ⟨settled.recurrence, settled.form⟩
  | handleRemove => exact settled.handleRemove c

/-- Whatever a host does, the recurrence of the control is settled. -/
theorem Reached.isSettled (reached : Reached settings k) : k.IsSettled := by
  induction reached with
  | new => exact ⟨fun d found => (by cases found), fun f found => (by cases found)⟩
  | after op c _ ih => exact ih.after op c

end Control

end Cadence
