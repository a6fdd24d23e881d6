import Cadence.Proofs.Form.Import

/-!
# Discarding

A form goes back to the values of the moment when it began: when it was opened, when it last handed a description out, or
when its recurrence was last given up for a new one. The form keeps these values apart, where no edit reaches them. Giving
up a recurrence can fail after they have been replaced, but then nothing can ever be shown about the values of the new one,
and discarding them fails as well.
-/

namespace Cadence

namespace Form

variable {f g : Form} {c : Setting} {settings : Settings} {initial : Option Draft} {today t : Stamp} {v : FormValues}
  {s : Option Draft} {op : Operation}

/-! ### What an edit leaves alone -/

/-- A form is another one with other values and another preview. -/
def Alters (f g : Form) : Prop := ∃ values preview, g = { f with values, preview }

theorem alters_self : Alters f f := ⟨f.values, f.preview, rfl⟩

theorem Alters.of_values (h : Alters { f with values := v } g) : Alters f g := by
  obtain ⟨values, preview, rfl⟩ := h
  exact ⟨values, preview, rfl⟩

theorem alters_refresh : Alters f (f.refresh today).1 := by
  unfold refresh
  split
  · exact ⟨f.values, _, rfl⟩
  · exact alters_self

theorem alters_change (edit : FormValues → FormValues) : Alters f (f.change today edit).1 :=
  Alters.of_values (v := edit f.values) alters_refresh

theorem alters_endYearAfter (start : Stamp) : Alters f (f.endYearAfter today start).1 := by
  rcases changes_endYearAfter f today start with ⟨edit, changed⟩ | ⟨-, e, failed⟩
  · rw [changed]
    exact alters_change edit
  · rw [failed]
    exact alters_self

theorem alters_setStart (text : Text) : Alters f (f.setStart today text).1 := by
  unfold setStart
  refine Alters.of_values (v := { f.values with startText := Text.trim text }) ?_
  dsimp only
  split
  · exact alters_self
  · exact alters_refresh
  · split
    · exact alters_endYearAfter _
    · exact alters_refresh

theorem alters_chooseFinish : Alters f (f.chooseFinish today).1 := by
  unfold chooseFinish
  refine Alters.of_values (v := { f.values with hasEnd := .bool true }) ?_
  dsimp only
  split
  · exact alters_self
  · exact alters_self
  · exact alters_refresh
  · split
    · exact alters_refresh
    · exact alters_endYearAfter _

theorem alters_choose {α : Type} {ofToken? : Text → Option α} {value : Datum} {edit : α → Outcome Unit}
    (alters : ∀ a, Alters f (edit a).1) : Alters f (Host.choose f ofToken? value edit).1 := by
  unfold Host.choose
  dsimp only
  split
  · exact alters _
  · exact alters_self

/-- The operation hands a description out, or gives the recurrence up, and returns. -/
def Operation.Begins (op : Operation) (f : Form) (today : Stamp) : Prop :=
  match op with
  | save => ∃ d, (f.save today).2 = .ok (some d)
  | remove => ∃ d, (f.remove today).2 = .ok d
  | _ => False

/-- One operation, whether or not it fails. -/
theorem alters_after (notRemove : op ≠ .remove) (goesOn : ¬ op.Begins f today) : Alters f (op.after f today) := by
  cases op with
  | setStart value =>
    cases value with
    | text s => exact alters_setStart s
    | _ => exact alters_self
  | setFinish value =>
    cases value with
    | text s => exact alters_change _
    | _ => exact alters_self
  | chooseFinish => exact alters_chooseFinish
  | removeFinish => exact alters_change _
  | setPattern value => exact alters_choose fun _ => alters_change _
  | setEvery value =>
    simp only [Operation.after, Host.setEvery]
    split
    · exact alters_change _
    · exact alters_change _
    · exact alters_change _
    · exact alters_self
  | toggleDay value =>
    simp only [Operation.after, Host.toggleDay]
    split
    · exact alters_change _
    · exact alters_self
  | setMonthlyOption value => exact alters_choose fun _ => alters_change _
  | setYearlyOption value => exact alters_choose fun _ => alters_change _
  | importRule rule =>
    simp only [Operation.after, importRule]
    split
    · exact alters_change _
    · exact alters_self
  | save =>
    have same : Operation.after .save f today = f := save_eq_self fun d saved => goesOn ⟨d, saved⟩
    rw [same]
    exact alters_self
  | discard => exact alters_change _
  | remove => exact absurd rfl notRemove

/-! ### Values of a new recurrence -/

theorem startText_freshValues {format : LocaleFormat} (locale : c.format = .ok format) (made : freshValues c settings = .ok v) :
    v.startText = c.dayStart.fieldText format := by
  obtain ⟨finish, -, made⟩ := bind_eq_ok.mp made
  obtain ⟨startText, written, made⟩ := bind_eq_ok.mp made
  obtain ⟨finishText, -, made⟩ := bind_eq_ok.mp made
  cases made
  rw [locale] at written
  exact (Except.ok.inj written).symm

/-- The values of a form are those of a new recurrence without an end, which starts at a local time of whole seconds. -/
structure IsEmpty (f : Form) (start : Stamp) : Prop where
  choices : f.values.toChoices = {}
  startText : f.values.startText = start.fieldText f.format
  endless : f.values.hasEnd = .bool false
  plain : start.plain = start

section Empty
variable {begins : Stamp} (empty : f.IsEmpty begins) (hsep : NumericDate.isSeparator f.format.separator = true)
include empty

theorem IsEmpty.wantsFinish : f.wantsFinish = false := by
  rw [Form.wantsFinish, empty.endless]
  rfl

theorem IsEmpty.shownFinish (t : Stamp) : f.shownFinish t = .ok none := by
  rw [Form.shownFinish, empty.wantsFinish]
  rfl

theorem IsEmpty.pattern?_values : f.values.pattern? = some .day := by
  rw [empty.choices]
  rfl

theorem IsEmpty.every_values : f.values.every = .int 1 := by rw [empty.choices]

theorem IsEmpty.exists_summary : ∃ summary, f.values.summary (some (.ok begins.day)) f.wantsFinish = .ok summary := by
  obtain ⟨clause, said⟩ : ∃ clause, f.values.clause (.ok begins.day) = .ok clause :=
    Choices.exists_clause empty.pattern?_values (by rintro (⟨⟨⟩, -⟩ | ⟨⟨⟩, -⟩))
  unfold Choices.summary
  simp only [said, Except.map, bind, Except.bind]
  exact ⟨_, rfl⟩

theorem IsEmpty.exists_ruleText (t : Stamp) : ∃ rule, (f.described .day 1 begins none).ruleText (f.setting t) = .ok rule := by
  have clear : (f.described .day 1 begins none).KeepsClear := {
    finish := fun ends => absurd (empty.wantsFinish.symm.trans ends) Bool.false_ne_true
    position := nofun
    every := show (Text.ofInt 1).length ≤ Text.maxDigits by decide }
  have buildable : f.IsBuildable := {
    week := fun week => by cases empty.pattern?_values.symm.trans week
    every := fun n same => by
      cases empty.every_values.symm.trans same
      decide }
  exact Form.exists_ruleText empty.pattern?_values empty.every_values buildable (Int.le_refl 1) (empty.plain ▸ rfl) empty.wantsFinish
    nofun fun e => Description.isBuild_of_ruleText clear

include hsep

theorem IsEmpty.start (t : Stamp) : f.start t = .ok (some begins) := by
  rw [Form.start, empty.startText]
  exact read_fieldText hsep empty.plain t

/-- Something is shown about the values of a new recurrence just if the occurrences to be shown can be counted, and that
    does not depend on the time. -/
theorem IsEmpty.exists_shown_iff (t : Stamp) :
    (∃ preview, f.shown t = .ok preview) ↔ ∃ number, limitOf f.settings.previewCount = .ok number := by
  obtain ⟨summary, said⟩ := empty.exists_summary
  obtain ⟨rule, made⟩ := empty.exists_ruleText t
  obtain ⟨sentence, described⟩ := Description.exists_describe made (show (f.setting t).format = .ok f.format from rfl)
  have anchored : anchorRuleText (f.setting t).plain (.text rule) (.stamp begins) = .ok (anchoredText begins rule) :=
    Description.anchorRuleText_ruleText made _
  have shows : f.shown t = f.ruleShown t begins summary rule := by
    rw [shown_eq empty.pattern?_values empty.every_values (empty.start hsep t) (empty.shownFinish t) said, empty.wantsFinish, made]
    rfl
  rw [shows]
  simp only [ruleShown, described, anchored, bind, Except.bind]
  constructor
  · rintro ⟨preview, listed⟩
    cases counts : limitOf f.settings.previewCount with
    | ok number => exact ⟨number, rfl⟩
    | error e =>
      rw [occurrences, counts] at listed
      cases listed
  · rintro ⟨number, counts⟩
    obtain ⟨found, listed⟩ := Description.exists_occurrences made begins counts
    rw [listed]
    exact ⟨_, rfl⟩

theorem IsEmpty.exists_draft (t : Stamp) : ∃ d, f.draft t = .ok (some d) :=
  ⟨_, draft_eq (empty.start hsep t) (empty.shownFinish t)⟩

end Empty

/-! ### Giving a recurrence up -/

/-- Nothing is ever shown about the values that the form goes back to. -/
def IsStuck (f : Form) : Prop := ∀ t preview, ({ f with values := f.opened } : Form).shown t ≠ .ok preview

theorem IsStuck.of_alters (stuck : f.IsStuck) (alters : Alters f g) : g.IsStuck := by
  obtain ⟨values, preview, rfl⟩ := alters
  exact stuck

/-- Giving a recurrence up fails before anything has changed, or begins with the values of a new one, or fails for good. -/
theorem remove_cases (hsep : NumericDate.isSeparator f.format.separator = true) (today : Stamp) :
    (∀ d, (f.remove today).2 ≠ .ok d) ∧ (f.remove today).1 = f ∨
      (∃ d, (f.remove today).2 = .ok d) ∧ (f.remove today).1.opened = (f.remove today).1.values ∧ (f.remove today).1.saved = none ∨
      (∀ d, (f.remove today).2 ≠ .ok d) ∧ (f.remove today).1.IsStuck := by
  unfold remove
  cases made : freshValues (f.setting today) f.settings with
  | error e => exact .inl ⟨nofun, rfl⟩
  | ok values =>
    refine .inr ?_
    dsimp only
    generalize same : ({ f with
      values := { values with hasEnd := .bool false }
      opened := { values with hasEnd := .bool false }
      saved := none } : Form) = g
    have choices : values.toChoices = {} := choices_freshValues made
    have startText : values.startText = (f.setting today).dayStart.fieldText f.format := startText_freshValues rfl made
    have empty : g.IsEmpty (f.setting today).dayStart := {
      choices := same ▸ choices
      startText := same ▸ startText
      endless := same ▸ rfl
      plain := rfl }
    have hsep' : NumericDate.isSeparator g.format.separator = true := same ▸ hsep
    have opened : g.opened = g.values := same ▸ rfl
    have saved : g.saved = none := same ▸ rfl
    unfold refresh
    cases shown : g.shown today with
    | ok preview =>
      have shows : IsEmpty { g with preview } (f.setting today).dayStart :=
        ⟨empty.choices, empty.startText, empty.endless, empty.plain⟩
      obtain ⟨d, drafted⟩ := shows.exists_draft hsep' today
      dsimp only
      rw [drafted]
      exact .inl ⟨⟨d, rfl⟩, opened, saved⟩
    | error e =>
      refine .inr ⟨nofun, fun t preview shows => ?_⟩
      obtain ⟨preview', shown'⟩ := (empty.exists_shown_iff hsep' today).mpr
        ((empty.exists_shown_iff hsep' t).mp ⟨preview, by rwa [opened] at shows⟩)
      cases shown.symm.trans shown'

/-! ### Runs -/

/-- A form in a run, with the values and the saved description of the moment when it began: when it was opened, when it
    last handed a description out, or when its recurrence was last given up. Operations may fail. -/
inductive Begun (c : Setting) (settings : Settings) (initial : Option Draft) : Form → FormValues → Option Draft → Prop where
  | opened {f : Form} (opens : open? c settings initial = .ok f) : Begun c settings initial f f.values none
  | saved {f : Form} {v : FormValues} {s : Option Draft} {d : Draft} (today : Stamp) (begun : Begun c settings initial f v s)
      (saves : (f.save today).2 = .ok (some d)) : Begun c settings initial (f.save today).1 (f.save today).1.values (some d)
  | removed {f : Form} {v : FormValues} {s : Option Draft} {d : Draft} (today : Stamp) (begun : Begun c settings initial f v s)
      (removes : (f.remove today).2 = .ok d) : Begun c settings initial (f.remove today).1 (f.remove today).1.values none
  | other {f : Form} {v : FormValues} {s : Option Draft} (op : Operation) (today : Stamp) (begun : Begun c settings initial f v s)
      (goesOn : ¬ op.Begins f today) : Begun c settings initial (op.after f today) v s

theorem Begun.exists_session (begun : Begun c settings initial f v s) : ∃ v' t, Session c settings initial f v' t := by
  induction begun with
  | opened opens => exact ⟨_, _, .opened opens⟩
  | saved today _ _ ih =>
    obtain ⟨v', t, session⟩ := ih
    exact session.after .save today
  | removed today _ _ ih =>
    obtain ⟨v', t, session⟩ := ih
    exact session.after .remove today
  | other op today _ _ ih =>
    obtain ⟨v', t, session⟩ := ih
    exact session.after op today

theorem Begun.isSeparator {locale : Datum} (begun : Begun c settings initial f v s) (known : c.format = LocaleFormat.ofDatum locale) :
    NumericDate.isSeparator f.format.separator = true := by
  obtain ⟨v', t, session⟩ := begun.exists_session
  exact LocaleFormat.isSeparator_of_ofDatum (known.symm.trans session.format_eq)

/-- Runs go on: every operation leads to a form of the run, whether or not it fails. -/
theorem Begun.after (begun : Begun c settings initial f v s) (op : Operation) (today : Stamp) :
    ∃ v' s', Begun c settings initial (op.after f today) v' s' := by
  by_cases begins : op.Begins f today
  · cases op with
    | save =>
      obtain ⟨d, saves⟩ := begins
      exact ⟨_, _, .saved today begun saves⟩
    | remove =>
      obtain ⟨d, removes⟩ := begins
      exact ⟨_, _, .removed today begun removes⟩
    | _ => exact begins.elim
  · exact ⟨v, s, .other op today begun begins⟩

/-- The form goes back to the values and keeps the saved description. -/
def GoesBack (f : Form) (v : FormValues) (s : Option Draft) : Prop := f.opened = v ∧ f.saved = s

theorem opened_of_open (opens : open? c settings initial = .ok f) : f.GoesBack f.values none := by
  unfold open? at opens
  cases initial with
  | none | some d =>
    dsimp only at opens
    obtain ⟨values, -, opens⟩ := bind_eq_ok.mp opens
    obtain ⟨format, -, opens⟩ := bind_eq_ok.mp opens
    unfold refresh at opens
    split at opens
    · rename_i same
      split at same <;> cases same
      cases opens
      exact ⟨rfl, rfl⟩
    · cases opens

/-- In every run the form goes back to the values of the moment when it began, unless it is stuck. -/
theorem Begun.goesBack_or_isStuck {locale : Datum} (begun : Begun c settings initial f v s)
    (known : c.format = LocaleFormat.ofDatum locale) : f.GoesBack v s ∨ f.IsStuck := by
  induction begun with
  | opened opens => exact .inl (opened_of_open opens)
  | @saved f v s d today begun saves ih =>
    refine .inl ?_
    unfold save at saves ⊢
    split <;> rename_i found <;> rw [found] at saves <;> cases saves
    exact ⟨rfl, rfl⟩
  | @removed f v s d today begun removes ih =>
    rcases remove_cases (begun.isSeparator known) today with ⟨fails, -⟩ | ⟨-, opened, saved⟩ | ⟨fails, -⟩
    · exact absurd removes (fails d)
    · exact .inl ⟨opened, saved⟩
    · exact absurd removes (fails d)
  | @other f v s op today begun goesOn ih =>
    by_cases removes : op = .remove
    · subst removes
      rcases remove_cases (begun.isSeparator known) today with ⟨-, same⟩ | ⟨returns, -⟩ | ⟨-, stuck⟩
      · rw [show Operation.after .remove f today = f from same]
        exact ih
      · exact absurd returns goesOn
      · exact .inr stuck
    · have alters := alters_after removes goesOn
      refine ih.imp (fun back => ?_) fun stuck => stuck.of_alters alters
      obtain ⟨values, preview, same⟩ := alters
      rw [same]
      exact back

/-- In every run a form that is discarded has the values of the moment when it began, with what is shown about them, and
    the description that has been saved since its recurrence was last given up. -/
theorem discard_goesBack {locale : Datum} (begun : Begun c settings initial f v s) (known : c.format = LocaleFormat.ofDatum locale)
    (returns : (f.discard today).2 = .ok ()) :
    (f.discard today).1.values = v ∧ (f.discard today).1.saved = s ∧
      ({ f with values := v } : Form).shown today = .ok (f.discard today).1.preview := by
  unfold discard change refresh at returns ⊢
  cases shown : ({ f with values := f.opened } : Form).shown today with
  | error e =>
    rw [shown] at returns
    cases returns
  | ok preview =>
    rcases begun.goesBack_or_isStuck known with ⟨opened, saved⟩ | stuck
    · exact ⟨opened, saved, opened ▸ shown⟩
    · exact absurd shown (stuck today preview)

open Description (newYear2025)

/-- The month is chosen and saved, a start is typed that has no year after it, and every second month is chosen. -/
def abandoned : List Operation :=
  [.setPattern (.text "month"), .save, .setStart (.text "29/12/9999"), .setEvery (.int 2)]

/-- The start, the interval and the saved rule text of a form that is discarded, if that returns. -/
def restored (f : Form) : Option (Text × Int × Text) :=
  match f.discard newYear2025.today with
  | (g, .ok ()) =>
    match g.values.every, g.saved.map Draft.rule with
    | .int n, some (.text rule) => some (g.values.startText, n, rule)
    | _, _ => none
  | _ => none

theorem of_restored {startText rule : Text} {n : Int} (found : f.restored = some (startText, n, rule)) :
    (f.discard newYear2025.today).2 = .ok () ∧ (f.discard newYear2025.today).1.values.startText = startText ∧
      (f.discard newYear2025.today).1.values.every = .int n ∧
      (f.discard newYear2025.today).1.saved.map Draft.rule = some (.text rule) := by
  unfold restored at found
  split at found
  · rename_i discarded
    rw [discarded]
    split at found
    · rename_i every saved
      cases found
      exact ⟨rfl, rfl, every, saved⟩
    · cases found
  · cases found

theorem restored_abandoned : (newForm abandoned).bind restored = some ("01/01/2025".toList, 1,
    "FREQ=MONTHLY;UNTIL=20250401T235959;INTERVAL=1;BYMONTHDAY=1".toList) := by
  decide +kernel

theorem discard_goesBack_abandoned : ∃ f v d, newForm abandoned = some f ∧ newYear2025.format = LocaleFormat.ofDatum .null ∧
    Begun newYear2025 {} none f v (some d) ∧ (f.discard newYear2025.today).2 = .ok () ∧
    (f.discard newYear2025.today).1.values = v ∧ (f.discard newYear2025.today).1.saved = some d ∧
    v.startText = "01/01/2025".toList ∧ v.every = .int 1 ∧
    d.rule = .text "FREQ=MONTHLY;UNTIL=20250401T235959;INTERVAL=1;BYMONTHDAY=1".toList := by
  obtain ⟨f, made, found⟩ := Option.bind_eq_some_iff.mp restored_abandoned
  obtain ⟨f₀, opens, rfl⟩ := Option.map_eq_some_iff.mp made
  obtain ⟨g, monthly, rules⟩ := Option.bind_eq_some_iff.mp savedRules_monthly
  obtain ⟨d, saves, -, -⟩ := saved_of_savedRules rules
  obtain ⟨f₁, opens', rfl⟩ := Option.map_eq_some_iff.mp monthly
  cases opens.symm.trans opens'
  have opened : Begun newYear2025 {} none f₀ f₀.values none := .opened (toOption_eq_some opens)
  have chosen := Begun.other (.setPattern (.text "month")) newYear2025.today opened id
  have kept := Begun.saved newYear2025.today chosen saves
  have typed := Begun.other (.setStart (.text "29/12/9999")) newYear2025.today kept id
  have begun : Begun newYear2025 {} none (f₀.run newYear2025.today abandoned) _ (some d) :=
    .other (.setEvery (.int 2)) newYear2025.today typed id
  have known : newYear2025.format = LocaleFormat.ofDatum .null := rfl
  obtain ⟨returns, startText, every, rule⟩ := of_restored found
  obtain ⟨values, saved, -⟩ := discard_goesBack begun known returns
  rw [saved] at rule
  exact ⟨_, _, d, made, known, begun, returns, values, saved, values ▸ startText, values ▸ every, Option.some.inj rule⟩

end Form

end Cadence
