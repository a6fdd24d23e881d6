import Cadence.Proofs.Form.Interval

/-!
# Descriptions that a form saves

What a form of a session hands out when it is saved, as far as it is a description, is settled. Its start and its end
have been read from the fields, its rule and its sentence are those of the preview.
-/

namespace Cadence

/-! ### Drafts of descriptions -/

theorem Datum.ofStamp?_injective {start other : Option Stamp} (same : ofStamp? start = ofStamp? other) : start = other := by
  cases start with
  | none =>
    cases other with
    | none => rfl
    | some t => cases same
  | some s =>
    cases other with
    | none => cases same
    | some t => exact congrArg some (Datum.stamp.inj same)

/-- The fields of a draft are those of a description. -/
structure Draft.StandsFor (d : Draft) (s : Description) : Prop where
  pattern : d.pattern? = some s.pattern
  every : d.every = .int s.every
  selectedDays : d.selectedDays = s.selectedDays
  monthlyOption : d.monthlyOption? = some s.monthlyOption
  yearlyOption : d.yearlyOption? = some s.yearlyOption
  start : d.start = .stamp s.start
  finish : d.finish = .ofStamp? s.finish
  hasEnd : d.hasEnd = .bool s.hasEnd
  rule : d.rule = s.rule
  sentence : d.sentence = s.sentence

theorem Choices.of_repetition? {c : Choices} {r : Repetition} (whole : c.repetition? = some r) :
    c.pattern? = some r.pattern ∧ c.every = .int r.every ∧ c.selectedDays = r.selectedDays ∧
      c.monthlyOption? = some r.monthlyOption ∧ c.yearlyOption? = some r.yearlyOption := by
  unfold repetition? at whole
  obtain ⟨pattern, chosen, whole⟩ := Option.bind_eq_some_iff.mp whole
  split at whole
  · rename_i n every
    simp only [Option.bind_eq_bind, Option.bind_eq_some_iff] at whole
    obtain ⟨n, same, monthlyOption, monthly, yearlyOption, yearly, same'⟩ := whole
    cases same
    cases same'
    exact ⟨chosen, every, rfl, monthly, yearly⟩
  · cases whole

theorem Draft.standsFor_of_description? {d : Draft} {s : Description} (whole : d.description? = some s) : d.StandsFor s := by
  unfold Draft.description? at whole
  obtain ⟨repetition, chosen, whole⟩ := Option.bind_eq_some_iff.mp whole
  obtain ⟨pattern, every, selectedDays, monthlyOption, yearlyOption⟩ := Choices.of_repetition? chosen
  have dates : ∃ start finish hasEnd, d.start = .stamp start ∧ d.finish = .ofStamp? finish ∧ d.hasEnd = .bool hasEnd ∧
      s = { repetition with start, finish, hasEnd, rule := d.rule, sentence := d.sentence } := by
    cases started : d.start <;> rw [started] at whole <;> try cases whole
    cases ended : d.finish <;> rw [ended] at whole <;> try cases whole
    all_goals cases wanted : d.hasEnd <;> rw [wanted] at whole <;> cases whole
    · exact ⟨_, none, _, rfl, rfl, rfl, rfl⟩
    · exact ⟨_, some _, _, rfl, rfl, rfl, rfl⟩
  obtain ⟨start, finish, hasEnd, started, ended, wanted, rfl⟩ := dates
  exact ⟨pattern, every, selectedDays, monthlyOption, yearlyOption, started, ended, wanted, rfl, rfl⟩

namespace Form

/-! ### Saving -/

variable {f : Form} {now t : Stamp} {v : FormValues}

/-- The days that the fields of a form select: none unless their pattern is the weekly one. -/
def selection (f : Form) : List Weekday :=
  if f.values.pattern? = some .week then Weekday.sorted f.values.selectedDays else []

/-- The end that the fields of a form give, none unless they say that there is one. -/
def shownFinish (f : Form) (today : Stamp) : Except Fault (Option Stamp) := if f.wantsFinish then f.finish today else .ok none

theorem draft_eq_ok {own : Draft} (drafted : f.draft now = .ok (some own)) : ∃ start finish, f.start now = .ok (some start) ∧
    f.shownFinish now = .ok finish ∧ own = { f.values.toChoices with
      selectedDays := f.selection
      start := .stamp start
      finish := .ofStamp? finish
      hasEnd := f.values.hasEnd } := by
  obtain ⟨start, read, drafted⟩ := bind_eq_ok.mp drafted
  cases start with
  | none => cases drafted
  | some start =>
    obtain ⟨own', drafted, same⟩ := bind_eq_ok.mp drafted
    cases same
    refine ⟨start, ?_⟩
    unfold draftFrom at drafted
    unfold shownFinish
    cases wants : f.wantsFinish with
    | true =>
      rw [wants] at drafted
      obtain ⟨finish, ended, drafted⟩ := bind_eq_ok.mp drafted
      cases drafted
      exact ⟨finish, read, ended, rfl⟩
    | false =>
      rw [wants] at drafted
      cases drafted
      exact ⟨none, read, rfl, rfl⟩

/-- A form that is saved has an end if its fields say so. -/
theorem isSome_of_save {d : Draft} (saved : (f.save now).2 = .ok (some d)) (wants : f.wantsFinish = true) :
    ∃ e, f.finish now = .ok (some e) := by
  have savable : ∃ errors, f.errors now = .ok errors ∧ errors.isEmpty = true := by
    unfold save at saved
    cases found : f.savable now with
    | error e =>
      rw [found] at saved
      cases saved
    | ok found' =>
      rw [found] at saved
      obtain ⟨errors, checked, found⟩ := bind_eq_ok.mp found
      refine ⟨errors, checked, ?_⟩
      obtain ⟨drafted, -, found⟩ := bind_eq_ok.mp found
      cases clean : errors.isEmpty with
      | true => rfl
      | false =>
        rw [clean] at found
        cases found
        cases saved
  obtain ⟨errors, checked, clean⟩ := savable
  obtain ⟨start, -, checked⟩ := bind_eq_ok.mp checked
  rw [if_pos wants] at checked
  obtain ⟨flaw, ended, checked⟩ := bind_eq_ok.mp checked
  obtain ⟨finish, read, rfl⟩ := map_eq_ok.mp ended
  cases checked
  cases finish with
  | some e => exact ⟨e, read⟩
  | none => simp [FormErrors.isEmpty, finishError] at clean

theorem naive_of_read {format : LocaleFormat} {text : Text} {s : Stamp} (read : read now format text = .ok (some s)) :
    s.zone = none := by
  unfold Form.read at read
  split at read
  · cases read
  · exact DateText.zone_of_resolve read

theorem naive_of_shownFinish {e : Stamp} (ended : f.shownFinish now = .ok (some e)) : e.zone = none := by
  unfold shownFinish at ended
  split at ended
  · unfold finish at ended
    split at ended
    · cases ended
    · exact naive_of_read ended
  · cases ended

theorem sorted_selection (f : Form) : Weekday.sorted f.selection = f.selection := by
  unfold selection
  split
  · exact Description.sorted_sorted _
  · rfl

variable {c : Setting} {settings : Settings} {initial : Option Draft}

/-- What a form of a session saves is settled. -/
theorem isSettled_of_save {d : Draft} {s : Description} (session : Session c settings initial f v t) (counted : f.IsCounted)
    (saved : (f.save now).2 = .ok (some d)) (whole : d.description? = some s) : s.IsSettled := by
  have stands := Draft.standsFor_of_description? whole
  obtain ⟨own, rule, drafted, found, rfl⟩ := save_eq_ok saved
  obtain ⟨start, finish, read, ended, rfl⟩ := draft_eq_ok drafted
  obtain ⟨n, every, positive⟩ := counted.values
  have rendered := rendered_of_shown session.shows found
  obtain ⟨made, described⟩ : rule ≠ [] ∧ f.preview.description ≠ [] := by
    obtain ⟨drafted, -, rendered⟩ := bind_eq_ok.mp rendered
    cases drafted with
    | none => cases rendered
    | some d' =>
      obtain ⟨⟨rule', sentence⟩, rendered, same⟩ := map_eq_ok.mp rendered
      cases same
      obtain ⟨rule', made, rendered⟩ := bind_eq_ok.mp rendered
      obtain ⟨sentence', described, rendered⟩ := bind_eq_ok.mp rendered
      cases rendered
      exact ⟨Draft.ruleText_ne_nil made, describe_ne_nil described⟩
  have sameFinish : s.finish = finish := (Datum.ofStamp?_injective stands.finish).symm
  have wants : f.wantsFinish = s.hasEnd := by
    have stood : f.values.hasEnd = .bool s.hasEnd := stands.hasEnd
    rw [wantsFinish, stood]
    rfl
  refine ⟨?_, ?_, ?_, ?_, ?_, ?_, ?_⟩
  · have same : start = s.start := Datum.stamp.inj stands.start
    exact same ▸ naive_of_read read
  · intro e given
    rw [sameFinish] at given
    exact naive_of_shownFinish (given ▸ ended)
  · intro ends
    obtain ⟨e, there⟩ := isSome_of_save saved (wants.trans ends)
    rw [shownFinish, if_pos (wants.trans ends), there] at ended
    rw [sameFinish, ← Except.ok.inj ended]
    rfl
  · have same : Datum.int n = .int s.every := every.symm.trans stands.every
    exact Datum.int.inj same ▸ positive
  · rw [← stands.selectedDays]
    exact sorted_selection f
  · rw [← stands.rule]
    exact Datum.isGiven_text made
  · rw [← stands.sentence]
    exact Datum.isGiven_text described

end Form

end Cadence
