import Cadence.Proofs.Form.Saved

/-!
# Forms that can be saved

The fields of a form stand for a description, once the dates are read. A form whose preview is in step with its values
is saved just if nothing is wrong with its dates and its fields make a rule; and they do unless a weekly form has all
seven weekdays selected.
-/

namespace Cadence

namespace Form

variable {f : Form} {c : Setting} {today now t : Stamp} {v : FormValues} {p : Pattern} {n : Int} {start : Stamp}
  {finish : Option Stamp} {summary : Text}

/-! ### The fields as a description -/

/-- The description that the fields of a form stand for, with the dates that are read from them. -/
def described (f : Form) (p : Pattern) (n : Int) (start : Stamp) (finish : Option Stamp) : Description where
  pattern := p
  every := n
  selectedDays := f.selection
  monthlyOption := f.values.monthlyOption?.getD .day
  yearlyOption := f.values.yearlyOption?.getD .date
  start
  finish
  hasEnd := f.wantsFinish

/-- The fields of a form, with the dates that are read from them, as a draft. -/
def drafted (f : Form) (start : Stamp) (finish : Option Stamp) : Draft :=
  { f.values.toChoices with
    selectedDays := f.selection
    start := .stamp start
    finish := .ofStamp? finish
    hasEnd := f.values.hasEnd }

theorem draftFrom_eq (ended : f.shownFinish today = .ok finish) : f.draftFrom today start = .ok (f.drafted start finish) := by
  unfold shownFinish at ended
  unfold draftFrom
  split at ended
  · rename_i wants
    rw [if_pos wants, ended]
    rfl
  · rename_i wants
    rw [if_neg wants]
    cases ended
    rfl

section Choices
variable (chosen : f.values.pattern? = some p) (counted : f.values.every = .int n)
include chosen counted

theorem resolve_drafted : (f.drafted start finish).resolve c = (f.described p n start finish).draft.resolve c := by
  have pattern : (f.drafted start finish).pattern? = some p := chosen
  have pattern' : (f.described p n start finish).draft.pattern? = some p := Pattern.ofToken?_token p
  have every : (f.drafted start finish).every = (f.described p n start finish).draft.every := counted
  have interval : (f.drafted start finish).intervalText? = (f.described p n start finish).draft.intervalText? := by
    unfold Draft.intervalText?
    rw [every]
  have last : (f.drafted start finish).lastMoment c = (f.described p n start finish).draft.lastMoment c := rfl
  have monthly : (f.drafted start finish).monthlyOption?.getD .day =
      (f.described p n start finish).draft.monthlyOption?.getD .day := by
    rw [show (f.described p n start finish).draft.monthlyOption? = some (f.values.monthlyOption?.getD .day) from
      MonthlyOption.ofToken?_token _]
    rfl
  have yearly : (f.drafted start finish).yearlyOption?.getD .date =
      (f.described p n start finish).draft.yearlyOption?.getD .date := by
    rw [show (f.described p n start finish).draft.yearlyOption? = some (f.values.yearlyOption?.getD .date) from
      YearlyOption.ofToken?_token _]
    rfl
  unfold Draft.resolve
  rw [pattern, pattern', interval, every, last, monthly, yearly]
  rfl

/-- The fields make the rule text of the description. -/
theorem ruleText_drafted : (f.drafted start finish).ruleText c = (f.described p n start finish).ruleText c := by
  unfold Description.ruleText Draft.ruleText
  rw [resolve_drafted chosen counted]

/-- What is shown about fields with a start: the rule text of the description, if it makes one. -/
theorem shown_eq (read : f.start today = .ok (some start)) (ended : f.shownFinish today = .ok finish)
    (said : f.values.summary (some (.ok start.day)) f.wantsFinish = .ok summary) :
    f.shown today = if f.wantsFinish && finish.isNone then .ok { summary } else
      match (f.described p n start finish).ruleText (f.setting today) with
      | .ok rule => f.ruleShown today start summary rule
      | .error e => if e.isBuild then .ok { summary } else .error e := by
  have there : (f.drafted start finish).finish.truthy = finish.isSome := by
    unfold drafted
    cases finish <;> rfl
  unfold shown
  rw [read]
  simp only [liftFault_ok, bind, Except.bind, Option.map_some, said, draftFrom_eq ended, there, Option.not_isSome,
    ruleText_drafted chosen counted]
  rfl

end Choices

/-! ### Nothing wrong -/

theorem isEmpty_iff {errors : FormErrors} : errors.isEmpty = true ↔ errors = {} := by
  obtain ⟨start, finish⟩ := errors
  cases start <;> cases finish <;> simp [FormErrors.isEmpty]

theorem startError_eq_none : startError now (some start) = none ↔ start.day.before now.day = false := by
  show (if start.day.before now.day then some startInPast else none) = none ↔ _
  cases start.day.before now.day <;> simp

theorem finishError_eq_none : finishError (some start) finish = none ↔ ∃ e, finish = some e ∧ start.before e = true := by
  cases finish with
  | none => simp [finishError]
  | some e =>
    show (if start.before e then none else some finishBeforeStart) = none ↔ _
    cases later : start.before e <;> simp [later]

/-- Nothing is wrong with dates that can be read, from the current day on, and with the end after the start. -/
theorem errors_eq_none : f.errors now = .ok {} ↔ ∃ start finish, f.start now = .ok (some start) ∧
    start.day.before now.day = false ∧ f.shownFinish now = .ok finish ∧
    (f.wantsFinish = true → ∃ e, finish = some e ∧ start.before e = true) := by
  unfold errors shownFinish
  constructor
  · intro checked
    obtain ⟨start, read, checked⟩ := bind_eq_ok.mp checked
    obtain ⟨flaw, ended, fromStart, rfl⟩ : ∃ flaw, (if f.wantsFinish = true then (f.finish now).map (finishError start) else .ok none) =
        .ok flaw ∧ startError now start = none ∧ flaw = none := by
      cases wants : f.wantsFinish <;> rw [wants] at checked
      · exact ⟨none, rfl, congrArg FormErrors.start (Except.ok.inj checked), rfl⟩
      · obtain ⟨flaw, ended, checked⟩ := bind_eq_ok.mp checked
        exact ⟨flaw, ended, congrArg FormErrors.start (Except.ok.inj checked), congrArg FormErrors.finish (Except.ok.inj checked)⟩
    cases start with
    | none => cases fromStart
    | some start =>
      have notPast := startError_eq_none.mp fromStart
      cases wants : f.wantsFinish with
      | false => exact ⟨start, none, read, notPast, rfl, nofun⟩
      | true =>
        rw [if_pos wants] at ended
        obtain ⟨finish, ended, later⟩ := map_eq_ok.mp ended
        exact ⟨start, finish, read, notPast, ended, fun _ => finishError_eq_none.mp later.symm⟩
  · rintro ⟨start, finish, read, notPast, ended, later⟩
    rw [read]
    simp only [bind, Except.bind, startError_eq_none.mpr notPast]
    cases wants : f.wantsFinish with
    | false => rfl
    | true =>
      rw [if_pos wants] at ended
      simp only [if_true, ended, Except.map, finishError_eq_none.mpr (later wants)]
      rfl

theorem draft_eq (read : f.start now = .ok (some start)) (ended : f.shownFinish now = .ok finish) :
    f.draft now = .ok (some (f.drafted start finish)) := by
  unfold draft
  rw [read]
  show (f.draftFrom now start >>= fun d => pure (some d)) = _
  rw [draftFrom_eq ended]
  rfl

/-- A form is saved just if nothing is wrong with it and its preview has a rule. -/
theorem exists_save_iff : (∃ d, (f.save now).2 = .ok (some d)) ↔
    f.errors now = .ok {} ∧ ∃ rule, f.preview.ruleText = some rule := by
  constructor
  · rintro ⟨d, saved⟩
    obtain ⟨own, rule, -, found, -⟩ := save_eq_ok saved
    refine ⟨?_, rule, found⟩
    unfold save at saved
    cases kept : f.savable now with
    | error e =>
      rw [kept] at saved
      cases saved
    | ok kept' =>
      rw [kept] at saved
      obtain ⟨errors, checked, kept⟩ := bind_eq_ok.mp kept
      obtain ⟨drafted, -, kept⟩ := bind_eq_ok.mp kept
      cases clean : errors.isEmpty with
      | true => rw [checked, isEmpty_iff.mp clean]
      | false =>
        rw [clean] at kept
        cases kept
        cases saved
  · rintro ⟨clean, rule, found⟩
    obtain ⟨start, finish, read, -, ended, -⟩ := errors_eq_none.mp clean
    refine ⟨{ f.drafted start finish with rule := .text rule, sentence := .text f.preview.description }, ?_⟩
    unfold save savable
    rw [clean, draft_eq read ended]
    simp only [bind, Except.bind, show ({} : FormErrors).isEmpty = true from rfl, found]
    rfl

/-- Saving leaves a form as it is unless it hands something out. -/
theorem save_eq_self (nothing : ∀ d, (f.save now).2 ≠ .ok (some d)) : (f.save now).1 = f := by
  unfold save at nothing ⊢
  split
  · rename_i d kept
    rw [kept] at nothing
    exact absurd rfl (nothing d)
  · rfl
  · rfl

/-! ### Fields that make a rule -/

/-- The fields make a rule whatever their dates are: a weekly one does not fall on all weekdays, and the interval has no
    more digits than are read. -/
structure IsBuildable (f : Form) : Prop where
  week : f.values.pattern? = some .week → (Weekday.sorted f.values.selectedDays).length ≠ 7
  every : ∀ n, f.values.every = .int n → (Text.ofInt n).length ≤ Text.maxDigits

section Described
variable (chosen : f.values.pattern? = some p) (counted : f.values.every = .int n)
include chosen

theorem selection_eq (week : p = .week) : f.selection = Weekday.sorted f.values.selectedDays := by
  rw [selection, if_pos (week ▸ chosen)]

include counted

/-- Fields that make a rule can be built. -/
theorem isBuildable_of_ruleText {rule : Text} (made : (f.described p n start finish).ruleText c = .ok rule) : f.IsBuildable := by
  obtain ⟨position, makes, -, recurrence, evaluated⟩ := Description.ruleText_eq_ok.mp made
  refine ⟨fun week => ?_, fun m same => ?_⟩
  · obtain rfl : p = .week := Option.some.inj (chosen.symm.trans week)
    have notAll : (Weekday.sorted f.selection).length ≠ 7 := makes.week rfl
    rwa [sorted_selection, selection_eq chosen rfl] at notAll
  · cases counted.symm.trans same
    have short := Description.length_of_recurrenceFrom makes evaluated
    have interval : Text.ofInt n = Text.ofNat n.toNat := (Description.isSound_fields makes).interval
    rwa [interval]

/-- Fields that can be built make a rule, or something is beyond the calendar. -/
theorem exists_ruleText (buildable : f.IsBuildable) (positive : 1 ≤ n) (naive : start.zone = none)
    (wants : f.wantsFinish = finish.isSome) (year : ∀ e, finish = some e → 1000 ≤ e.day.year)
    (refused : ∀ e, (f.described p n start finish).ruleText c = .error e → e.isBuild = true) :
    ∃ rule, (f.described p n start finish).ruleText c = .ok rule := by
  have complete := Description.isComplete_of_refused positive wants refused
  obtain ⟨position, makes⟩ : ∃ position, (f.described p n start finish).MakesRule position := by
    have notAll : ¬ ((f.described p n start finish).fields.pattern = .week ∧
        (Weekday.sorted (f.described p n start finish).fields.selectedDays).length = 7) := by
      rintro ⟨week, all⟩
      obtain rfl : p = .week := week
      have all : (Weekday.sorted f.selection).length = 7 := all
      rw [sorted_selection, selection_eq chosen rfl] at all
      exact buildable.week chosen all
    by_cases placed : (f.described p n start finish).fields.isPlaced = true
    · obtain ⟨position, found⟩ := Description.exists_position_of_refused positive wants refused placed
      refine ⟨position, complete, ?_⟩
      rw [RuleFields.position, if_neg notAll, if_pos placed, Description.fields_start, found]
      rfl
    · refine ⟨0, complete, ?_⟩
      rw [RuleFields.position, if_neg notAll, if_neg placed]
  have last : ∀ e, (f.described p n start finish).fields.finish = some e → 1000 ≤ e.day.year := by
    intro e found
    simp only [Description.fields_finish, Description.lastSecond?] at found
    split at found
    · obtain ⟨e', found', rfl⟩ := Option.map_eq_some_iff.mp found
      exact year e' found'
    · cases found
  have short : (Text.ofNat n.toNat).length ≤ Text.maxDigits := by
    have interval : Text.ofInt n = Text.ofNat n.toNat := (Description.isSound_fields makes).interval
    rw [← interval]
    exact buildable.every n counted
  exact ⟨_, Description.ruleText_eq_ok.mpr ⟨position, makes, rfl, _, Description.recurrenceFrom_ruleOf makes naive last c.today short⟩⟩

end Described

/-- A form with nothing wrong whose preview is in step has a rule in it just if its fields can be built. -/
theorem exists_rule_iff (sound : f.values.AreSound) (inStep : f.InStep now) (clean : f.errors now = .ok {})
    (year : 1000 ≤ now.day.year) : (∃ rule, f.preview.ruleText = some rule) ↔ f.IsBuildable := by
  obtain ⟨p, chosen⟩ := sound.pattern
  obtain ⟨n, counted, positive⟩ := sound.every
  obtain ⟨start, finish, read, notPast, ended, later⟩ := errors_eq_none.mp clean
  obtain ⟨summary, said⟩ : ∃ summary, f.values.summary (some (.ok start.day)) f.wantsFinish = .ok summary := by
    have shows : f.shown now = .ok f.preview := inStep
    unfold shown at shows
    rw [read] at shows
    obtain ⟨_, same, shows⟩ := bind_eq_ok.mp shows
    cases same
    obtain ⟨summary, said, -⟩ := bind_eq_ok.mp shows
    exact ⟨summary, liftFault_eq_ok.mp said⟩
  have wants : f.wantsFinish = finish.isSome := by
    cases wants : f.wantsFinish with
    | true =>
      obtain ⟨e, rfl, -⟩ := later wants
      rfl
    | false =>
      rw [shownFinish, wants] at ended
      cases ended
      rfl
  have there : (f.wantsFinish && finish.isNone) = false := by
    rw [wants]
    cases finish <;> rfl
  have shows : f.shown now = .ok f.preview := inStep
  rw [shown_eq chosen counted read ended said, there, if_neg Bool.false_ne_true] at shows
  constructor
  · rintro ⟨rule, found⟩
    cases made : (f.described p n start finish).ruleText (f.setting now) with
    | ok rule => exact isBuildable_of_ruleText chosen counted made
    | error e =>
      rw [made] at shows
      dsimp only at shows
      split at shows
      · rw [← Except.ok.inj shows] at found
        cases found
      · cases shows
  · intro buildable
    have lateEnd : ∀ e, finish = some e → 1000 ≤ e.day.year := by
      rintro e rfl
      obtain ⟨e', same, after⟩ := later (wants.trans rfl)
      cases same
      have naive : start.zone = e.zone := (naive_of_read read).trans (naive_of_shownFinish ended).symm
      have fromStart := ((Stamp.before_iff_precedes naive).mp after).day_le
      have fromNow : now.day.ordinal ≤ start.day.ordinal := by simpa [Day.before] using notPast
      exact Nat.le_trans year (Day.year_le_of_ordinal (Nat.le_trans fromNow fromStart))
    have refused : ∀ e, (f.described p n start finish).ruleText (f.setting now) = .error e → e.isBuild = true := by
      intro e failed
      rw [failed] at shows
      dsimp only at shows
      split at shows
      · assumption
      · cases shows
    obtain ⟨rule, made⟩ := exists_ruleText chosen counted buildable positive (naive_of_read read) wants lateEnd refused
    rw [made] at shows
    exact ⟨rule, (ruleShown_eq_ok shows).1⟩

/-! ### Sessions -/

variable {settings : Settings} {initial : Option Description}

/-- A form of a session that begins with a new recurrence or one that has been read, if its preview is in step with its
    values, is saved just if nothing is wrong with its dates and its fields can be built. A form that is not saved stays
    as it is. -/
theorem save_iff_errors (given : ∀ d, initial = some d → d.IsRead) (session : Session c settings (initial.map (·.draft)) f v t)
    (inStep : f.InStep now) (year : 1000 ≤ now.day.year) :
    ((∃ d, (f.save now).2 = .ok (some d)) ↔ f.errors now = .ok {} ∧ f.IsBuildable) ∧
      ((f.save now).2 = .ok none → (f.save now).1 = f) := by
  have sound : f.values.AreSound := (session.meets Choices.isKept_areSound fun d found => (given d found).every_pos).values
  refine ⟨exists_save_iff.trans (and_congr_right fun clean => exists_rule_iff sound inStep clean year), fun nothing => ?_⟩
  refine save_eq_self fun d saved => ?_
  rw [nothing] at saved
  cases saved

open Description (newYear2025)

theorem inStep_monthly : (newForm [.setPattern (.text "month")]).map (fun f => (f.shown newYear2025.today).toOption == some f.preview) =
    some true := by
  decide +kernel

theorem save_iff_errors_monthly : ∃ f v t, (∀ d, (none : Option Description) = some d → d.IsRead) ∧
    Session newYear2025 {} ((none : Option Description).map (·.draft)) f v t ∧ f.InStep newYear2025.today ∧
    1000 ≤ newYear2025.today.day.year ∧ (∃ d, (f.save newYear2025.today).2 = .ok (some d)) ∧
    f.errors newYear2025.today = .ok {} ∧ f.IsBuildable := by
  obtain ⟨f, made, found⟩ := Option.bind_eq_some_iff.mp savedRules_monthly
  obtain ⟨v, t, session⟩ := session_of_newForm made
  have session : Session newYear2025 {} ((none : Option Description).map (·.draft)) f v t := session
  obtain ⟨d, saved, -, -⟩ := saved_of_savedRules found
  have inStep : f.InStep newYear2025.today := by
    have shows := inStep_monthly
    rw [made] at shows
    exact toOption_eq_some (eq_of_beq (Option.some.inj shows))
  have year : 1000 ≤ newYear2025.today.day.year := by decide
  have given : ∀ d, (none : Option Description) = some d → d.IsRead := nofun
  obtain ⟨clean, buildable⟩ := (save_iff_errors given session inStep year).1.mp ⟨d, saved⟩
  exact ⟨f, v, t, given, session, inStep, year, ⟨d, saved⟩, clean, buildable⟩

/-- Every day of every other week, as a host says it. -/
def alternateDays : List (Text × Datum) :=
  [("startDate", .text "2025-01-01"), ("pattern", .text "week"), ("every", .int 2),
    ("selectedDays", .list (Weekday.all.map fun day => .text day.token))]

/-- What is wrong with a form for the fields of an object, and whether it can be saved. -/
def outcomeOf (members : List (Text × Datum)) : Option (FormErrors × Bool) := do
  let d ← (Description.ofMembers newYear2025 members).toOption
  let f ← (open? newYear2025 {} (some d.draft)).toOption
  let errors ← (f.errors newYear2025.today).toOption
  let saved ← (f.save newYear2025.today).2.toOption
  return (errors, saved.isSome)

theorem outcomeOf_alternateDays : outcomeOf alternateDays = some ({}, false) := by decide +kernel

/-- Nothing is wrong with the form, which has just been opened, and it is not saved. -/
theorem save_alternateDays : ∃ (d : Description) (f : Form), d.IsRead ∧ Session newYear2025 {} (some d.draft) f f.values newYear2025.today ∧
    f.errors newYear2025.today = .ok {} ∧ (f.save newYear2025.today).2 = .ok none := by
  have outcome := outcomeOf_alternateDays
  unfold outcomeOf at outcome
  simp only [Option.bind_eq_bind, Option.bind_eq_some_iff, Option.pure_def, Option.some.injEq, Prod.mk.injEq] at outcome
  obtain ⟨d, read, f, opens, errors, checked, saved, kept, rfl, none⟩ := outcome
  obtain rfl := Option.isNone_iff_eq_none.mp (Option.isSome_eq_false_iff.mp none)
  exact ⟨d, f, .inl ⟨_, _, toOption_eq_some read⟩, .opened (toOption_eq_some opens), toOption_eq_some checked, toOption_eq_some kept⟩

end Form

end Cadence
