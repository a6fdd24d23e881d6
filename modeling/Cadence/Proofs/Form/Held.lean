import Cadence.Proofs.DateText.Numbers
import Cadence.Proofs.Form.Preview
import Cadence.Proofs.Form.Session

/-!
# Forms that hold a description

A form holds the fields of a description as they are typed, and no rule text. From them the description's start and
end are read back, and what the form shows and saves is the rule that the description's fields make.
-/

namespace Cadence

variable {d : Description} {c : Setting} {format : LocaleFormat}

/-- A description that a form can hold: its start and its end are local times of whole seconds, it has an end just
    if it is said to have one, only a weekly pattern selects days, and its rule is made or refused. -/
structure Description.FitsForm (d : Description) (c : Setting) : Prop where
  start : d.start.plain = d.start
  finish : ∀ e, d.finish = some e → e.plain = e
  every_pos : 1 ≤ d.every
  hasEnd : d.hasEnd = d.finish.isSome
  selectedDays : Weekday.sorted d.selectedDays = d.selectedDays ∧ (d.pattern ≠ .week → d.selectedDays = [])
  refused : ∀ e, d.ruleText c = .error e → e.isBuild = true

namespace Description

section Refused
variable (every_pos : 1 ≤ d.every) (hasEnd : d.hasEnd = d.finish.isSome) (refused : ∀ e, d.ruleText c = .error e → e.isBuild = true)
include every_pos hasEnd refused

/-- Fields that are refused at most are complete. -/
theorem isComplete_of_refused : d.IsComplete := by
  cases resolved : d.draft.resolve c with
  | ok fields => exact (resolve_draft.mp resolved).2
  | error e =>
    have build : e.isBuild = true := refused e (by rw [ruleText, Draft.ruleText, resolved]; rfl)
    have start : Draft.dateOr c (.startUnresolved d.draft.start) d.draft.start = .ok d.start := rfl
    have pattern : d.draft.pattern? = some d.pattern := Pattern.ofToken?_token d.pattern
    have interval : d.draft.intervalText? = some (Text.ofInt d.every) := if_pos every_pos
    simp only [Draft.resolve, start, pattern, interval] at resolved
    rcases bind_eq_error.mp resolved with impossible | ⟨start', -, resolved⟩
    · cases impossible
    rcases bind_eq_error.mp resolved with last | ⟨finish, -, impossible⟩
    · -- An end that there is can only be too late.
      unfold Draft.lastMoment draft at last
      rw [hasEnd] at last
      cases found : d.finish with
      | none =>
        rw [found] at last
        cases last
      | some e =>
        rw [found] at last
        rcases bind_eq_error.mp last with impossible | ⟨s, read, last⟩
        · cases impossible
        · rcases bind_eq_error.mp last with late | ⟨s', -, impossible⟩
          · rw [Stamp.lastSecond_eq] at late
            split at late
            · cases late
            · cases late
              cases build
          · cases impossible
    · cases impossible

/-- Fields that name a position and are refused at most have it. -/
theorem exists_position_of_refused (placed : d.fields.isPlaced = true) : ∃ p, d.start.day.weekdayPosition? = some p := by
  cases found : d.start.day.weekdayPosition? with
  | some p => exact ⟨p, rfl⟩
  | none =>
    have notWeek : ¬ (d.fields.pattern = .week ∧ (Weekday.sorted d.fields.selectedDays).length = 7) := by
      rintro ⟨week, -⟩
      rw [RuleFields.isPlaced, week] at placed
      cases placed
    have position : d.fields.position = .error (.fault .range) := by
      rw [RuleFields.position, if_neg notWeek, if_pos placed, fields_start, found]
      rfl
    have build := refused (.fault .range) (by
      rw [ruleText, Draft.ruleText, resolve_draft.mpr ⟨rfl, isComplete_of_refused every_pos hasEnd refused⟩]
      show d.fields.ruleText c.today = _
      rw [RuleFields.ruleText, RuleFields.rule_eq, position]
      rfl)
    cases build

end Refused

end Description

/-! ### Sentences -/

namespace Choices

variable {v : Choices} {p : Pattern} {day : Day}

theorem exists_interval (chosen : v.pattern? = some p) : ∃ text, v.interval = .ok text := by
  rw [interval, chosen]
  exact ⟨_, rfl⟩

theorem exists_intervalBehind (chosen : v.pattern? = some p) : ∃ text, v.intervalBehind = .ok text := by
  obtain ⟨text, said⟩ := exists_interval chosen
  rw [intervalBehind, said]
  split <;> exact ⟨_, rfl⟩

/-- Something is said of choices with a pattern, from a day with a position if they name it. -/
theorem exists_clause (chosen : v.pattern? = some p)
    (placed : p = .month ∧ v.monthlyOption? ≠ some .day ∨ p = .year ∧ v.yearlyOption? ≠ some .date → ∃ text, positioned day = .ok text) :
    ∃ text, v.clause (.ok day) = .ok text := by
  obtain ⟨every, saidEvery⟩ := exists_interval chosen
  obtain ⟨tail, saidTail⟩ := exists_intervalBehind chosen
  rw [clause, chosen]
  cases p with
  | day => exact ⟨every, saidEvery⟩
  | week =>
    dsimp only
    rw [weeklyClause, saidEvery]
    split
    · exact ⟨_, rfl⟩
    · split <;> exact ⟨_, rfl⟩
  | month =>
    simp only [saidTail, bind, Except.bind, if_true, monthlyClause]
    by_cases option : v.monthlyOption? = some .day
    · exact ⟨_, if_pos option⟩
    · obtain ⟨place, saidPlace⟩ := placed (.inl ⟨rfl, option⟩)
      rw [if_neg option, saidPlace]
      exact ⟨_, rfl⟩
  | year =>
    simp only [saidTail, bind, Except.bind, yearlyClause]
    by_cases option : v.yearlyOption? = some .date
    · exact ⟨_, if_pos option⟩
    · obtain ⟨place, saidPlace⟩ := placed (.inr ⟨rfl, option⟩)
      rw [if_neg option, saidPlace]
      exact ⟨_, rfl⟩

end Choices

namespace Form

variable {f : Form} {today : Stamp} {settings : Settings}

/-! ### Dates in the fields -/

/-- A local time of whole seconds is read back from the field in which it is written. -/
theorem read_fieldText (hsep : NumericDate.isSeparator format.separator = true) {s : Stamp} (plain : s.plain = s)
    (today : Stamp) : read today format (s.fieldText format) = .ok (some s) := by
  obtain ⟨mode, written, kept⟩ : ∃ mode, s.fieldText format = s.textIn format mode .short ∧ s.kept mode = s := by
    unfold Stamp.fieldText
    dsimp only
    split
    · rename_i midnight
      refine ⟨.date, rfl, ?_⟩
      obtain ⟨hour, minute, second⟩ := midnight
      rw [← plain]
      simp only [Stamp.kept, Stamp.plain, Stamp.wholeSecond, Stamp.withoutZone, Stamp.ofDay, Clock.wholeSecond, Clock.midnight,
        hour, minute, second]
    · exact ⟨.dateTime, rfl, plain⟩
  have nonempty : (s.textIn format mode .short).isEmpty = false := by
    have day : s.day.numericText format ≠ [] := by simp [s.day.numericText_eq]
    cases mode <;> simp [Stamp.textIn, Day.textIn, day]
  rw [read, written, nonempty, s.resolve_textIn hsep, kept]
  rfl

/-- What the fields of a form hold of a description. -/
def held (format : LocaleFormat) (d : Description) : FormValues :=
  { d.choices with
    selectedDays := Weekday.sorted d.selectedDays
    startText := d.start.fieldText format
    finishText := d.finish.map (·.fieldText format)
    hasEnd := .bool d.hasEnd }

theorem valuesOf_draft (format : LocaleFormat) (d : Description) : valuesOf (.ok format) d.draft = .ok (held format d) := by
  unfold valuesOf Description.draft held
  cases d.finish <;> rfl

section Held
variable (values : f.values = held f.format d) (hsep : NumericDate.isSeparator f.format.separator = true) (fits : d.FitsForm c)
include values hsep fits

theorem start_held (today : Stamp) : f.start today = .ok (some d.start) := by
  rw [start, values]
  exact read_fieldText hsep fits.start today

theorem finish_held (today : Stamp) : f.finish today = .ok d.finish := by
  rw [finish, values]
  cases found : d.finish with
  | none => simp [held, found]
  | some e =>
    simp only [held, found, Option.map_some]
    exact read_fieldText hsep (fits.finish e found) today

omit hsep fits in
theorem pattern?_held : f.values.pattern? = some d.pattern := by
  rw [values]
  exact Pattern.ofToken?_token d.pattern

omit hsep fits in
theorem monthlyOption?_held : f.values.monthlyOption? = some d.monthlyOption := by
  rw [values]
  exact MonthlyOption.ofToken?_token d.monthlyOption

omit hsep fits in
theorem yearlyOption?_held : f.values.yearlyOption? = some d.yearlyOption := by
  rw [values]
  exact YearlyOption.ofToken?_token d.yearlyOption

omit hsep fits in
theorem wantsFinish_held : f.wantsFinish = d.hasEnd := by
  rw [wantsFinish, values]
  rfl

/-- The fields are those of the description, without its rule and its sentence. -/
theorem draftFrom_held (today : Stamp) :
    f.draftFrom today d.start = .ok { d.draft with rule := .null, sentence := .null } := by
  have days : (if f.values.pattern? = some .week then Weekday.sorted f.values.selectedDays else []) = d.selectedDays := by
    obtain ⟨sorted, rest⟩ := fits.selectedDays
    rw [pattern?_held values, values]
    by_cases week : d.pattern = .week
    · simp [week, held, sorted]
    · simp [week, rest week]
  have wants := (wantsFinish_held values).trans fits.hasEnd
  have finish := finish_held values hsep fits today
  unfold draftFrom
  rw [days]
  cases found : d.finish with
  | none =>
    rw [found] at wants
    simp only [wants, Option.isSome_none, Bool.false_eq_true, if_false, bind, Except.bind, values, Description.draft, found]
    rfl
  | some e =>
    rw [found] at wants finish
    simp only [wants, Option.isSome_some, if_true, finish, bind, Except.bind, values, Description.draft, found]
    rfl

theorem draft_held (today : Stamp) : f.draft today = .ok (some { d.draft with rule := .null, sentence := .null }) := by
  rw [draft, start_held values hsep fits]
  show (f.draftFrom today d.start >>= fun d => pure (some d)) = _
  rw [draftFrom_held values hsep fits]
  rfl

omit hsep values in
theorem exists_positioned (placed : d.fields.isPlaced = true) : ∃ text, Choices.positioned d.start.day = .ok text := by
  obtain ⟨p, found⟩ := Description.exists_position_of_refused fits.every_pos fits.hasEnd fits.refused placed
  rw [Choices.positioned, found]
  exact ⟨_, rfl⟩

omit hsep in
theorem exists_clause : ∃ text, f.values.clause (.ok d.start.day) = .ok text := by
  refine Choices.exists_clause (pattern?_held values) fun named => exists_positioned fits ?_
  rw [monthlyOption?_held values, yearlyOption?_held values] at named
  rcases named with ⟨month, option⟩ | ⟨year, option⟩
  · cases monthly : d.monthlyOption with
    | day => exact absurd (congrArg some monthly) option
    | weekday => simp [RuleFields.isPlaced, month, monthly]
  · cases yearly : d.yearlyOption with
    | date => exact absurd (congrArg some yearly) option
    | weekday => simp [RuleFields.isPlaced, year, yearly]

omit hsep in
/-- Something can be said about the fields. -/
theorem exists_summary : ∃ text, f.values.summary (some (.ok d.start.day)) f.wantsFinish = .ok text := by
  obtain ⟨text, said⟩ := exists_clause values fits
  rw [Choices.summary]
  show ∃ text, (((f.values.clause (.ok d.start.day)).map (' ' :: ·)) >>= _) = .ok text
  rw [said]
  exact ⟨_, rfl⟩

end Held

/-- What a form shows of a description: the rule that the fields make, with its first occurrences from the start of
    the fields, or no rule where the fields make none. -/
structure Shows (preview : Preview) (f : Form) (c : Setting) (d : Description) : Prop where
  made : ∀ own, d.ruleText c = .ok own → preview.ruleText = some own ∧
    occurrences (f.setting c.today) (.text (anchoredText d.start own)) f.settings.previewCount .null = .ok preview.occurrences
  refused : ∀ e, d.ruleText c = .error e → preview.ruleText = none

theorem exists_shown (values : f.values = held f.format d) (hsep : NumericDate.isSeparator f.format.separator = true)
    (fits : d.FitsForm c) {number : Option Nat} (counts : limitOf f.settings.previewCount = .ok number) :
    ∃ preview, f.shown c.today = .ok preview ∧ Shows preview f c d := by
  obtain ⟨summary, said⟩ := exists_summary values fits
  have today : d.ruleText (f.setting c.today) = d.ruleText c := Description.ruleText_congr rfl
  have same : Draft.ruleText { d.draft with rule := .null, sentence := .null } (f.setting c.today) = d.ruleText c := today
  have there : (f.wantsFinish && ! d.draft.finish.truthy) = false := by
    rw [wantsFinish_held values, fits.hasEnd]
    unfold Description.draft
    cases d.finish <;> rfl
  unfold shown
  rw [start_held values hsep fits]
  simp only [liftFault_ok, bind, Except.bind, Option.map_some, said, draftFrom_held values hsep fits, there,
    Bool.false_eq_true, if_false, same]
  cases made : d.ruleText c with
  | error e =>
    simp only [fits.refused e made, if_true]
    refine ⟨_, rfl, ⟨fun own found => ?_, fun _ _ => rfl⟩⟩
    cases made.symm.trans found
  | ok own =>
    have made' : d.ruleText (f.setting c.today) = .ok own := today.trans made
    obtain ⟨sentence, described⟩ := Description.exists_describe made' (show (f.setting c.today).format = .ok f.format from rfl)
    obtain ⟨found, listed⟩ := Description.exists_occurrences made' d.start counts
    simp only [ruleShown, described, bind, Except.bind, Description.anchorRuleText_ruleText made', listed]
    refine ⟨_, rfl, ⟨fun own' found' => ?_, fun e refused => ?_⟩⟩
    · cases made.symm.trans found'
      exact ⟨rfl, listed⟩
    · cases made.symm.trans refused

/-- A form holds a description: it starts where the description does, it shows what the description's fields make,
    and what it saves, whenever that is, has the same start and the rule that the fields make. -/
structure Holds (f : Form) (c : Setting) (d : Description) : Prop where
  start : f.start c.today = .ok (some d.start)
  preview : Shows f.preview f c d
  saved : ∀ now s, (f.save now).2 = .ok (some s) → s.start = .stamp d.start ∧
    ∃ own, d.ruleText c = .ok own ∧ s.rule = .text own

section Fits
variable (fits : d.FitsForm c) {number : Option Nat}
include fits

theorem exists_refresh (values : f.values = held f.format d) (hsep : NumericDate.isSeparator f.format.separator = true)
    (counts : limitOf f.settings.previewCount = .ok number) :
    ∃ g, f.refresh c.today = (g, .ok ()) ∧ g.Holds c d := by
  obtain ⟨preview, shown, shows⟩ := exists_shown values hsep fits counts
  refine ⟨{ f with preview }, by rw [refresh, shown], start_held values hsep fits c.today, ⟨shows.made, shows.refused⟩, ?_⟩
  intro now s saved
  obtain ⟨own, rule, drafted, found, rfl⟩ := save_eq_ok saved
  have draft : ({ f with preview } : Form).draft now = .ok (some { d.draft with rule := .null, sentence := .null }) :=
    draft_held values hsep fits now
  rw [draft] at drafted
  cases drafted
  refine ⟨rfl, ?_⟩
  cases made : d.ruleText c with
  | error e => cases (shows.refused e made).symm.trans found
  | ok own =>
    cases (shows.made own made).1.symm.trans found
    exact ⟨_, rfl, rfl⟩

/-- A form that is opened for a description holds it. -/
theorem exists_open (locale : c.format = .ok format) (hsep : NumericDate.isSeparator format.separator = true)
    (counts : limitOf settings.previewCount = .ok number) (sentence : Datum) :
    ∃ f, open? c settings (some { d with sentence }.draft) = .ok f ∧ f.Holds c d := by
  obtain ⟨f, refreshed, holds⟩ := exists_refresh (f := { format, settings, values := held format d, opened := held format d })
    fits rfl hsep counts
  refine ⟨f, ?_, holds⟩
  have values : valuesOf (.ok format) { d with sentence }.draft = .ok (held format d) :=
    valuesOf_draft format { d with sentence }
  simp only [open?, locale, values, bind, Except.bind, liftFault_ok, refreshed]
  rfl

end Fits

end Form

end Cadence
