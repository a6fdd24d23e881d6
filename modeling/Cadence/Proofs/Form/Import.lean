import Cadence.Proofs.Control.Reopened
import Cadence.Proofs.Form.Edited
import Cadence.Proofs.Form.Loaded

/-!
# Imports into a form

A form takes the fields of an imported rule into its values before it works out its preview. Nothing that a rule becomes
stops the preview, wherever in the calendar it falls, so a form is changed by an import just if the import returns.
-/

namespace Cadence

open Recurrence (IsNaive)

variable {d : Description} {c : Setting}

namespace RuleText

variable {r : RuleText} {rule fallback : Datum} {pattern : Pattern} {anchor : Stamp} {recurrence : Recurrence}

/-- The fields of an imported rule keep clear of the ends of the calendar: no text would have been found for them otherwise. -/
theorem Becomes.keepsClear (becomes : r.Becomes c rule fallback pattern anchor recurrence d) (checked : r.check = .ok ()) :
    d.KeepsClear where
  finish ends e found := by
    have complete := Description.isComplete_of_refused (becomes.every_pos checked) becomes.hasEnd becomes.refused
    obtain ⟨e', found', inside⟩ := complete.finish ends
    cases found.symm.trans found'
    exact inside
  position placed := by
    obtain ⟨p, found⟩ := Description.exists_position_of_refused (becomes.every_pos checked) becomes.hasEnd becomes.refused placed
    exact (Day.weekdayPosition?_eq_some.mp found).1
  every := by
    rw [show d.every = r.interval from (congrArg Repetition.every becomes.repetition).trans (every_repetition r pattern)]
    exact length_interval checked

end RuleText

/-- The description with its start to the second. -/
def Description.toSecond (d : Description) : Description := { d with start := d.start.plain }

/-- The fields of an imported rule fit into a form when the start is one of whole seconds. -/
theorem RuleText.Becomes.fitsForm_toSecond {r : RuleText} {rule fallback : Datum} {pattern : Pattern} {anchor : Stamp}
    {recurrence : Recurrence} (becomes : r.Becomes c rule fallback pattern anchor recurrence d) (checked : r.check = .ok ()) :
    d.toSecond.FitsForm c where
  start := rfl
  finish e found := plain_of_finishOf (becomes.finish.trans (congrArg _ found))
  every_pos := becomes.every_pos checked
  hasEnd := becomes.hasEnd
  selectedDays := by
    show Weekday.sorted d.selectedDays = d.selectedDays ∧ (d.pattern ≠ .week → d.selectedDays = [])
    rw [becomes.repetition]
    exact selectedDays_repetition r pattern
  refused e := by
    have clear := becomes.keepsClear checked
    exact Description.isBuild_of_ruleText ⟨clear.finish, clear.position, clear.every⟩

namespace Form

variable {f g : Form} {today now t : Stamp} {settings : Settings} {initial : Option Draft} {v : FormValues} {locale rule : Datum}
  {number : Option Nat}

/-! ### The format of a form -/

theorem format_of_open (opens : open? c settings initial = .ok f) : c.format = .ok f.format := by
  unfold open? at opens
  cases initial with
  | none | some d =>
    dsimp only at opens
    obtain ⟨values, -, opens⟩ := bind_eq_ok.mp opens
    obtain ⟨format, known, opens⟩ := bind_eq_ok.mp opens
    unfold refresh at opens
    split at opens
    · rename_i same
      split at same <;> cases same
      cases opens
      exact liftFault_eq_ok.mp known
    · cases opens

theorem Session.format_eq (session : Session c settings initial f v t) : c.format = .ok f.format := by
  induction session with
  | opened opens => exact format_of_open opens
  | shown op today _ _ ih => rw [(follows_after op _ today).format, ih]
  | kept op today _ _ ih => rw [(follows_after op _ today).format, ih]

/-! ### Importing -/

/-- The fields of a form are those of a description, whose start they hold to the second. -/
structure HasFields (f : Form) (d : Description) : Prop where
  start : ∀ now, f.start now = .ok (some d.start.wholeSecond)
  choices : f.values.toChoices = d.choices
  finish : ∀ now, f.finish now = .ok d.finish
  hasEnd : f.values.hasEnd = .bool d.hasEnd

theorem hasFields_of_held (values : f.values = held f.format d) (hsep : NumericDate.isSeparator f.format.separator = true)
    (naive : d.start.zone = none) (fits : d.toSecond.FitsForm c) : f.HasFields d := by
  have values : f.values = held f.format d.toSecond := values
  have ended := finish_held values hsep fits
  refine ⟨fun now => ?_, ?_, ended, by rw [values]; rfl⟩
  · rw [start_held values hsep fits now]
    show Except.ok (some { d.start.wholeSecond with zone := none }) = _
    rw [← naive]
    rfl
  · rw [values]
    show ({ d.choices with selectedDays := Weekday.sorted d.selectedDays } : Choices) = d.choices
    rw [show Weekday.sorted d.selectedDays = d.selectedDays from fits.selectedDays.1]
    rfl

/-- An import that fails leaves the form as it was. One that returns leads to the fields of the description that the rule
    becomes from the start of the form. -/
theorem importRule_cases (session : Session c settings initial f v t) (known : c.format = LocaleFormat.ofDatum locale)
    (counts : limitOf settings.previewCount = .ok number) (today : Stamp) (rule : Datum) :
    (∀ e, (f.importRule today rule).2 = .error e → (f.importRule today rule).1 = f) ∧
      ((f.importRule today rule).2 = .ok () → ∃ start d, f.start today = .ok start ∧
        Description.ofRule (f.setting today) rule (.ofStamp? start) = .ok d ∧ (f.importRule today rule).1.HasFields d) := by
  unfold importRule
  cases imported : f.imported today rule with
  | error e => exact ⟨fun _ _ => rfl, nofun⟩
  | ok values =>
    have hsep : NumericDate.isSeparator f.format.separator = true :=
      LocaleFormat.isSeparator_of_ofDatum (known.symm.trans session.format_eq)
    obtain ⟨start, started, imported⟩ := bind_eq_ok.mp imported
    have started := liftFault_eq_ok.mp started
    obtain ⟨d, read, imported⟩ := bind_eq_ok.mp imported
    obtain rfl : held f.format d = values := Except.ok.inj ((valuesOf_draft f.format d).symm.trans imported)
    obtain ⟨r, found, made⟩ := bind_eq_ok.mp read
    obtain ⟨pattern, anchor, recurrence, becomes⟩ := RuleText.becomes_of_description made
    have fits := becomes.fitsForm_toSecond (RuleText.check_of_read found)
    have naive : d.start.zone = none := by
      refine (Description.naive_of_ofRule (fun s same => ?_) read).1
      cases start with
      | none => cases same
      | some s' =>
        cases same
        exact naive_of_read started
    -- The fields are in the values before the preview is worked out, which they cannot stop.
    have same : f.settings = settings := session.settings_eq
    obtain ⟨g, refreshed, -⟩ := exists_refresh (f := { f with values := held f.format d }) fits rfl hsep (same ▸ counts)
    have kept : g.values = held f.format d ∧ g.format = f.format := by
      have values := (values_refresh { f with values := held f.format d } today).1
      have leads : Leads { f with values := held f.format d } today ({ f with values := held f.format d }.refresh today) := leads_refresh
      have format := leads.format
      rw [show ({ f with values := held f.format d } : Form).refresh today = (g, .ok ()) from refreshed] at values format
      exact ⟨values, format⟩
    have fields : g.HasFields d := hasFields_of_held (kept.2.symm ▸ kept.1) (kept.2.symm ▸ hsep) naive fits
    dsimp only [change]
    rw [show ({ f with values := held f.format d } : Form).refresh today = (g, .ok ()) from refreshed]
    exact ⟨nofun, fun _ => ⟨start, d, started, read, fields⟩⟩

open Description (newYear2025)

/-- Whether a form takes a rule over. -/
def takes (f : Form) (today : Stamp) (rule : Text) : Bool := (f.importRule today (.text rule)).2.isOk

/-- A rule that ends as the first day of the calendar begins. From a later time of day its last day would be the one before. -/
def toFirstDay : Text := "FREQ=DAILY;UNTIL=00010101".toList

theorem takes_halfSecond : (newForm [.setStart (.text "2025-01-02T09:30:00.5")]).map (fun f =>
    (f.takes newYear2025.today toFirstDay, f.takes newYear2025.today mondays)) = some (false, true) := by
  decide +kernel

/-- From a start with half a second one rule fails and another one is taken over. -/
theorem importRule_cases_halfSecond : ∃ f v t, Session newYear2025 {} none f v t ∧
    newYear2025.format = LocaleFormat.ofDatum .null ∧ limitOf ({} : Settings).previewCount = .ok (some 5) ∧
    (∃ e, (f.importRule newYear2025.today (.text toFirstDay)).2 = .error e) ∧
    (f.importRule newYear2025.today (.text toFirstDay)).1 = f ∧
    ∃ start d, f.start newYear2025.today = .ok start ∧
      Description.ofRule (f.setting newYear2025.today) (.text mondays) (.ofStamp? start) = .ok d ∧
      (f.importRule newYear2025.today (.text mondays)).1.HasFields d := by
  obtain ⟨f, made, outcomes⟩ := Option.map_eq_some_iff.mp takes_halfSecond
  obtain ⟨v, t, session⟩ := session_of_newForm made
  have counts : limitOf ({} : Settings).previewCount = .ok (some 5) := rfl
  have known : newYear2025.format = LocaleFormat.ofDatum .null := rfl
  have failing := importRule_cases session known counts newYear2025.today (.text toFirstDay)
  have taken := importRule_cases session known counts newYear2025.today (.text mondays)
  obtain ⟨fails, returns⟩ := Prod.mk.inj outcomes
  obtain ⟨e, failed⟩ : ∃ e, (f.importRule newYear2025.today (.text toFirstDay)).2 = .error e := by
    unfold takes at fails
    cases result : (f.importRule newYear2025.today (.text toFirstDay)).2 with
    | error e => exact ⟨e, rfl⟩
    | ok => rw [result] at fails; cases fails
  have returned : (f.importRule newYear2025.today (.text mondays)).2 = .ok () := by
    unfold takes at returns
    cases result : (f.importRule newYear2025.today (.text mondays)).2 with
    | error e => rw [result] at returns; cases returns
    | ok => rfl
  exact ⟨f, v, t, session, rfl, counts, ⟨e, failed⟩, failing.1 e failed, taken.2 returned⟩

end Form

end Cadence
