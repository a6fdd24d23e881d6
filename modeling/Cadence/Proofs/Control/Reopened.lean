import Cadence.Proofs.Control.Run

/-!
# Forms that are set as they were opened

A form that is opened for the recurrence of a control and set without an edit gives the control a recurrence with the
same fields. Its dates are written in the format of the control's locale and read back from it; its end stays only
where it is in use, and its weekdays only where the pattern is the weekly one.
-/

namespace Cadence

variable {k : Control} {c now : Setting} {settings : Settings} {d : Description} {f : Form}

theorem LocaleFormat.isSeparator_of_ofDatum {locale : Datum} {format : LocaleFormat} (known : ofDatum locale = .ok format) :
    NumericDate.isSeparator format.separator = true := by
  unfold ofDatum at known
  split at known
  · cases known
    rfl
  · split at known <;> cases known
    exact isSeparator_ofTag _

namespace Form

/-- A form that is opened for a description holds its fields as they are typed. -/
theorem values_of_open (opens : open? c settings (some d.draft) = .ok f) :
    c.format = .ok f.format ∧ f.values = held f.format d := by
  obtain ⟨values, made, opens⟩ := bind_eq_ok.mp opens
  obtain ⟨format, known, opens⟩ := bind_eq_ok.mp opens
  have known := liftFault_eq_ok.mp known
  rw [known, valuesOf_draft] at made
  cases made
  dsimp only at opens
  split at opens
  · rename_i g refreshed
    cases opens
    unfold refresh at refreshed
    split at refreshed <;> cases refreshed
    exact ⟨known, rfl⟩
  · cases opens

section Held
variable (values : f.values = held f.format d) (hsep : NumericDate.isSeparator f.format.separator = true)
include values hsep

theorem start_of_held (plain : d.start.plain = d.start) (today : Stamp) : f.start today = .ok (some d.start) := by
  rw [start, values]
  exact read_fieldText hsep plain today

theorem shownFinish_of_held (plain : ∀ e, d.finish = some e → e.plain = e) (today : Stamp) :
    f.shownFinish today = .ok (if d.hasEnd then d.finish else none) := by
  rw [shownFinish, wantsFinish_held values]
  split
  · rw [finish, values]
    cases found : d.finish with
    | none => simp [held, found]
    | some e =>
      simp only [held, found, Option.map_some]
      exact read_fieldText hsep (plain e found) today
  · rfl

omit hsep in
theorem selection_of_held (sorted : Weekday.sorted d.selectedDays = d.selectedDays) :
    f.selection = if d.pattern = .week then d.selectedDays else [] := by
  have same : f.values.selectedDays = Weekday.sorted d.selectedDays := by rw [values]; rfl
  rw [selection, pattern?_held values, same, sorted, sorted]
  simp only [Option.some.injEq]

end Held

end Form

namespace Control

theorem of_openForm (present : k.recurrence = some d) (opens : (k.openForm c).2 = .ok ()) : ∃ f, (k.openForm c).1.form = some f ∧
    NumericDate.isSeparator f.format.separator = true ∧ f.values = Form.held f.format d := by
  unfold openForm at opens ⊢
  rw [present] at opens ⊢
  split at opens
  · rename_i f opened
    obtain ⟨known, values⟩ := Form.values_of_open opened
    exact ⟨f, rfl, LocaleFormat.isSeparator_of_ofDatum known, values⟩
  · cases opens

/-- What a control takes over from its form is what the form saves. -/
theorem of_handleSet (there : k.form = some f) (set : (k.handleSet now).2 = .ok true) :
    ∃ saved s, (f.save now.today).2 = .ok (some saved) ∧ saved.description? = some s ∧ (k.handleSet now).1.recurrence = some s := by
  unfold handleSet at set ⊢
  rw [there] at set ⊢
  dsimp only at set ⊢
  rcases outcome : f.save now.today with ⟨g, result⟩
  rw [outcome] at set
  cases result with
  | error e => cases set
  | ok result =>
    cases result with
    | none => cases set
    | some saved =>
      dsimp only at set ⊢
      cases whole : saved.description? with
      | none =>
        rw [whole] at set
        cases set
      | some s => exact ⟨saved, s, rfl, whole, rfl⟩

/-- Setting a form right after it was opened keeps the fields of the recurrence, whatever the locale: its start, how it
    repeats, and its end where it has one. Weekdays are kept where the pattern uses them. -/
theorem keeps_fields_of_set (reached : Reached settings k) (present : k.recurrence = some d)
    (start : d.start.clock.micro = 0) (finish : ∀ e, d.finish = some e → e.clock.micro = 0)
    (opens : (k.openForm c).2 = .ok ()) (set : ((k.openForm c).1.handleSet now).2 = .ok true) :
    ∃ s, ((k.openForm c).1.handleSet now).1.recurrence = some s ∧ s.start = d.start ∧
      s.toRepetition = { d.toRepetition with selectedDays := if d.pattern = .week then d.selectedDays else [] } ∧
      s.hasEnd = d.hasEnd ∧ s.finish = if d.hasEnd then d.finish else none := by
  have settled := reached.isSettled.recurrence d present
  obtain ⟨f, there, hsep, values⟩ := of_openForm present opens
  obtain ⟨saved, s, outcome, whole, recurrence⟩ := of_handleSet there set
  have stands := Draft.standsFor_of_description? whole
  obtain ⟨own, rule, drafted, -, rfl⟩ := Form.save_eq_ok outcome
  obtain ⟨start', finish', read, ended, rfl⟩ := Form.draft_eq_ok drafted
  have plain := Stamp.plain_eq_self settled.start start
  cases read.symm.trans (Form.start_of_held values hsep plain now.today)
  have finishes : ∀ e, d.finish = some e → e.plain = e := fun e found =>
    Stamp.plain_eq_self (settled.finish e found) (finish e found)
  cases ended.symm.trans (Form.shownFinish_of_held values hsep finishes now.today)
  have every : Datum.int d.every = .int s.every := (congrArg (·.every) values).symm.trans stands.every
  have pattern := (Form.pattern?_held values).symm.trans stands.pattern
  have monthlyOption := (Form.monthlyOption?_held values).symm.trans stands.monthlyOption
  have yearlyOption := (Form.yearlyOption?_held values).symm.trans stands.yearlyOption
  have hasEnd : Datum.bool d.hasEnd = .bool s.hasEnd := (congrArg (·.hasEnd) values).symm.trans stands.hasEnd
  have selectedDays := (Form.selection_of_held values settled.selectedDays).symm.trans stands.selectedDays
  have ends : (if d.hasEnd then d.finish else none) = s.finish := Datum.ofStamp?_injective stands.finish
  refine ⟨s, recurrence, (Datum.stamp.inj stands.start).symm, ?_, (Datum.bool.inj hasEnd).symm, ?_⟩
  · show s.toRepetition = ⟨d.pattern, d.every, if d.pattern = .week then d.selectedDays else [], d.monthlyOption, d.yearlyOption⟩
    rw [selectedDays, Option.some.inj pattern, Datum.int.inj every, Option.some.inj monthlyOption, Option.some.inj yearlyOption]
  · exact ends.symm

/-! ### A control with a weekly recurrence -/

/-- Mondays and Wednesdays of every other week from half past nine on the twenty-third of June, until the end of August. -/
def fortnightlyData : Text :=
  "\x7b\"startDate\": \"2025-06-23T09:30:00\", \"pattern\": \"week\", \"every\": 2, \"selectedDays\": [\"M\", \"W\"], \"endDate\": \"31 August 2025\"\x7d".toList

/-- A control in Germany that has been given a weekly recurrence. -/
def germanControl : Control :=
  ((ofSettings {}).init Description.newYear2025 (.text fortnightlyData) (.bool true) (.text "de-DE".toList)).1

theorem recurrence_germanControl : germanControl.recurrence.map (fun d => (d.toRepetition, d.start, d.finish, d.hasEnd)) =
    some ({ pattern := .week, every := 2, selectedDays := [.monday, .wednesday] },
      ⟨⟨2025, 6, 23, by decide⟩, ⟨9, 30, 0, 0, by decide⟩, none⟩, some (.ofDay ⟨2025, 8, 31, by decide⟩), true) := by
  decide +kernel

theorem set_germanControl : (germanControl.openForm Description.newYear2025).2.toOption = some () ∧
    ((germanControl.openForm Description.newYear2025).1.handleSet Description.newYear2025).2.toOption = some true := by
  decide +kernel

theorem keeps_fields_of_set_germanControl : ∃ d s, Reached {} germanControl ∧ germanControl.recurrence = some d ∧
    d.start.clock.micro = 0 ∧ (∀ e, d.finish = some e → e.clock.micro = 0) ∧
    (germanControl.openForm Description.newYear2025).2 = .ok () ∧
    ((germanControl.openForm Description.newYear2025).1.handleSet Description.newYear2025).2 = .ok true ∧
    ((germanControl.openForm Description.newYear2025).1.handleSet Description.newYear2025).1.recurrence = some s ∧
    s.selectedDays = [.monday, .wednesday] ∧ s.finish = some (.ofDay ⟨2025, 8, 31, by decide⟩) := by
  obtain ⟨d, present, fields⟩ := Option.map_eq_some_iff.mp recurrence_germanControl
  simp only [Prod.mk.injEq] at fields
  obtain ⟨repetition, start, finish, hasEnd⟩ := fields
  have reached : Reached {} germanControl := .after (.init (.text fortnightlyData) (.bool true) (.text "de-DE".toList)) _ .new
  have whole : d.start.clock.micro = 0 := by rw [start]
  have wholeEnd : ∀ e, d.finish = some e → e.clock.micro = 0 := by
    intro e found
    rw [finish] at found
    cases found
    rfl
  have opens := toOption_eq_some set_germanControl.1
  have set := toOption_eq_some set_germanControl.2
  obtain ⟨s, recurrence, -, same, -, ends⟩ := keeps_fields_of_set reached present whole wholeEnd opens set
  refine ⟨d, s, reached, present, whole, wholeEnd, opens, set, recurrence, ?_, ?_⟩
  · rw [same, repetition]
    rfl
  · rw [ends, hasEnd, finish]
    rfl

end Control

end Cadence
