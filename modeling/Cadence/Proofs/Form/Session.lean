import Cadence.Host.Edit
import Cadence.Proofs.Description.Fields
import Cadence.Proofs.Failure

/-!
# Sessions of a form

A session opens a form and applies operations to it, each at its own time. An operation that changes the
values may fail before the preview has been worked out again, so the preview belongs to the values that the
form held when it was worked out last.
-/

namespace Cadence

/-- The rule text and the sentence that fields make. -/
def Draft.rendered (d : Draft) (c : Setting) : Result (Text × Text) := do
  let rule ← d.ruleText c
  return (rule, ← describe c (.text rule))

/-- The rule text and the sentence in a draft are those that its own fields make. -/
def Draft.IsConsistent (d : Draft) (c : Setting) : Prop :=
  ∃ rule sentence, d.rule = .text rule ∧ d.sentence = .text sentence ∧ d.rendered c = .ok (rule, sentence)

theorem Draft.IsConsistent.eq_rule {d : Draft} {c : Setting} {kept own : Text} (consistent : d.IsConsistent c)
    (rule : d.rule = .text kept) (made : d.ruleText c = .ok own) : kept = own := by
  obtain ⟨rule', sentence, sameRule, -, rendered⟩ := consistent
  obtain ⟨own', sameMade, rendered⟩ := bind_eq_ok.mp rendered
  obtain ⟨sentence', -, rendered⟩ := bind_eq_ok.mp rendered
  cases rendered
  cases made.symm.trans sameMade
  cases rule.symm.trans sameRule
  rfl

namespace Form

/-! ### Operations -/

/-- What a host does with a form. -/
inductive Operation where
  | setStart (value : Datum)
  | setFinish (value : Datum)
  | chooseFinish
  | removeFinish
  | setPattern (value : Datum)
  | setEvery (value : Datum)
  | toggleDay (value : Datum)
  | setMonthlyOption (value : Datum)
  | setYearlyOption (value : Datum)
  | importRule (rule : Datum)
  | save
  | discard
  | remove

/-- The form after an operation, whether or not the operation failed. -/
def Operation.after (op : Operation) (f : Form) (today : Stamp) : Form :=
  match op with
  | setStart value => (Host.setStart f today value).1
  | setFinish value => (Host.setFinish f today value).1
  | chooseFinish => (f.chooseFinish today).1
  | removeFinish => (f.removeFinish today).1
  | setPattern value => (Host.setPattern f today value).1
  | setEvery value => (Host.setEvery f today value).1
  | toggleDay value => (Host.toggleDay f today value).1
  | setMonthlyOption value => (Host.setMonthlyOption f today value).1
  | setYearlyOption value => (Host.setYearlyOption f today value).1
  | importRule rule => (f.importRule today rule).1
  | save => (f.save today).1
  | discard => (f.discard today).1
  | remove => (f.remove today).1

/-- The preview is what is shown about the values. -/
def InStep (f : Form) (today : Stamp) : Prop := f.shown today = .ok f.preview

/-- A form comes from another by an operation that works out the preview of its values, or leaves the preview
    as it was. -/
structure Follows (f g : Form) (today : Stamp) : Prop where
  format : g.format = f.format
  settings : g.settings = f.settings
  preview : g.InStep today ∨ g.preview = f.preview

variable {f g : Form} {today now t : Stamp} {v : FormValues}

theorem shown_congr (format : g.format = f.format) (settings : g.settings = f.settings) (v : FormValues) (t : Stamp) :
    ({ g with values := v } : Form).shown t = ({ f with values := v } : Form).shown t := by
  cases f
  cases g
  cases format
  cases settings
  rfl

theorem follows_refresh (values : FormValues) (opened : FormValues) (saved : Option Draft) :
    Follows f (({ f with values, opened, saved } : Form).refresh today).1 today := by
  unfold refresh
  cases shown : ({ f with values, opened, saved } : Form).shown today with
  | ok preview => exact ⟨rfl, rfl, Or.inl shown⟩
  | error e => exact ⟨rfl, rfl, Or.inr rfl⟩

theorem follows_self : Follows f f today := ⟨rfl, rfl, Or.inr rfl⟩

/-- What follows from a form with other values and the same preview follows from the form. -/
theorem Follows.of_values (h : Follows { f with values := v } g today) : Follows f g today := ⟨h.format, h.settings, h.preview⟩

/-- An operation leads on to a form that follows. -/
def Leads {α : Type} (f : Form) (today : Stamp) (outcome : Outcome α) : Prop := Follows f outcome.1 today

theorem leads_self {α : Type} {result : Result α} : Leads f today (f, result) := follows_self

theorem leads_refresh : Leads f today (f.refresh today) := follows_refresh f.values f.opened f.saved

theorem leads_change (edit : FormValues → FormValues) : Leads f today (f.change today edit) :=
  follows_refresh (edit f.values) f.opened f.saved

/-- An operation always leads on. -/
def Steps {α : Type} (op : Form → Stamp → α → Outcome Unit) : Prop := ∀ f today a, Leads f today (op f today a)

theorem steps_endYearAfter : Steps endYearAfter := by
  -- Unfolded where it is applied, the definition would have the year after a start evaluated.
  obtain ⟨op, same⟩ : ∃ op, op = endYearAfter := ⟨_, rfl⟩
  rw [← same]
  delta endYearAfter at same
  subst same
  intro f today start
  dsimp only
  split
  · exact leads_change _
  · exact leads_self

theorem leads_setStart (s : Text) : Leads f today (f.setStart today s) := by
  unfold setStart
  refine Follows.of_values (v := { f.values with startText := Text.trim s }) ?_
  dsimp only
  split
  · exact leads_self
  · exact leads_refresh
  · split
    · exact steps_endYearAfter _ _ _
    · exact leads_refresh

theorem leads_chooseFinish : Leads f today (f.chooseFinish today) := by
  unfold chooseFinish
  refine Follows.of_values (v := { f.values with hasEnd := .bool true }) ?_
  dsimp only
  split
  · exact leads_self
  · exact leads_self
  · exact leads_refresh
  · split
    · exact leads_refresh
    · exact steps_endYearAfter _ _ _

theorem leads_choose {α : Type} {ofToken? : Text → Option α} {value : Datum} {edit : α → Outcome Unit}
    (leads : ∀ a, Leads f today (edit a)) : Leads f today (Host.choose f ofToken? value edit) := by
  unfold Host.choose
  dsimp only
  split
  · exact leads _
  · exact leads_self

theorem leads_remove : Leads f today (f.remove today) := by
  unfold remove
  split
  · exact leads_self
  · rename_i values _
    have follows : Follows f (({ f with
        values := { values with hasEnd := .bool false }
        opened := { values with hasEnd := .bool false }
        saved := none } : Form).refresh today).1 today := follows_refresh _ _ _
    dsimp only
    split
    · rename_i refreshed
      rwa [refreshed] at follows
    · rename_i refreshed
      rwa [refreshed] at follows

/-- One operation. -/
theorem follows_after (op : Operation) (f : Form) (today : Stamp) : Follows f (op.after f today) today := by
  cases op with
  | setStart value =>
    cases value with
    | text s => exact leads_setStart s
    | _ => exact follows_self
  | setFinish value =>
    cases value with
    | text s => exact leads_change _
    | _ => exact follows_self
  | chooseFinish => exact leads_chooseFinish
  | removeFinish => exact leads_change _
  | setPattern value => exact leads_choose fun _ => leads_change _
  | setEvery value =>
    simp only [Operation.after, Host.setEvery]
    split
    · exact leads_change _
    · exact leads_change _
    · exact leads_change _
    · exact follows_self
  | toggleDay value =>
    simp only [Operation.after, Host.toggleDay]
    split
    · exact leads_change _
    · exact follows_self
  | setMonthlyOption value => exact leads_choose fun _ => leads_change _
  | setYearlyOption value => exact leads_choose fun _ => leads_change _
  | importRule rule =>
    simp only [Operation.after, importRule]
    split
    · exact leads_change _
    · exact follows_self
  | save =>
    simp only [Operation.after, save]
    split <;> exact ⟨rfl, rfl, Or.inr rfl⟩
  | discard => exact leads_change _
  | remove => exact leads_remove

/-! ### Sessions -/

/-- A form in a session, with the values that it held, and the time, when its preview was last theirs. -/
inductive Session (c : Setting) (settings : Settings) (initial : Option Draft) : Form → FormValues → Stamp → Prop where
  | opened {f : Form} (opens : open? c settings initial = .ok f) : Session c settings initial f f.values c.today
  | shown {f : Form} {v : FormValues} {t : Stamp} (op : Operation) (today : Stamp) (session : Session c settings initial f v t)
      (inStep : (op.after f today).InStep today) :
      Session c settings initial (op.after f today) (op.after f today).values today
  | kept {f : Form} {v : FormValues} {t : Stamp} (op : Operation) (today : Stamp) (session : Session c settings initial f v t)
      (behind : ¬ (op.after f today).InStep today) : Session c settings initial (op.after f today) v t

variable {c : Setting} {settings : Settings} {initial : Option Draft}

/-- Every operation leads on to a form of the session. -/
theorem Session.after (session : Session c settings initial f v t) (op : Operation) (today : Stamp) :
    ∃ v' t', Session c settings initial (op.after f today) v' t' := by
  by_cases inStep : (op.after f today).InStep today
  · exact ⟨_, _, .shown op today session inStep⟩
  · exact ⟨_, _, .kept op today session inStep⟩

/-- The form after several operations at one time. -/
def run (f : Form) (today : Stamp) (ops : List Operation) : Form := ops.foldl (fun f op => op.after f today) f

theorem Session.run (session : Session c settings initial f v t) (today : Stamp) (ops : List Operation) :
    ∃ v' t', Session c settings initial (f.run today ops) v' t' := by
  induction ops generalizing f v t with
  | nil => exact ⟨v, t, session⟩
  | cons op ops ih =>
    obtain ⟨v', t', after⟩ := session.after op today
    exact ih after

theorem shown_of_open (opens : open? c settings initial = .ok f) : f.InStep c.today := by
  unfold open? at opens
  cases initial with
  | none | some d =>
    dsimp only at opens
    obtain ⟨values, -, opens⟩ := bind_eq_ok.mp opens
    obtain ⟨format, -, opens⟩ := bind_eq_ok.mp opens
    unfold refresh at opens
    cases shown : ({ format, settings, values, opened := values } : Form).shown c.today with
    | error e =>
      rw [shown] at opens
      cases opens
    | ok preview =>
      rw [shown] at opens
      cases opens
      exact shown

/-- In every session the preview is what was shown about the values that it was worked out from. -/
theorem Session.shows (session : Session c settings initial f v t) :
    ({ f with values := v } : Form).shown t = .ok f.preview := by
  induction session with
  | opened opens => exact shown_of_open opens
  | shown op today session inStep => exact inStep
  | @kept f v t op today session behind ih =>
    have follows := follows_after op f today
    rw [shown_congr follows.format follows.settings, ih, follows.preview.resolve_left behind]

/-! ### Saving -/

/-- The rule text and the sentence that the values of a form make, if its start is a date. -/
def rendered (f : Form) (today : Stamp) : Result (Option (Text × Text)) := do
  match ← liftFault (f.draft today) with
  | none => return none
  | some d => (d.rendered (f.setting today)).map some

theorem ruleShown_eq_ok {start : Stamp} {summary rule : Text} {preview : Preview}
    (shows : f.ruleShown today start summary rule = .ok preview) :
    preview.ruleText = some rule ∧ describe (f.setting today) (.text rule) = .ok preview.description := by
  obtain ⟨description, described, shows⟩ := bind_eq_ok.mp shows
  obtain ⟨anchored, -, shows⟩ := bind_eq_ok.mp shows
  obtain ⟨occurrences, -, shows⟩ := bind_eq_ok.mp shows
  obtain rfl := Except.ok.inj shows
  exact ⟨rfl, described⟩

/-- A preview with a rule text has the rule text and the sentence that the values make. -/
theorem rendered_of_shown {preview : Preview} {rule : Text} (shows : f.shown today = .ok preview)
    (found : preview.ruleText = some rule) : f.rendered today = .ok (some (rule, preview.description)) := by
  unfold shown at shows
  obtain ⟨start, read, shows⟩ := bind_eq_ok.mp shows
  obtain ⟨summary, -, shows⟩ := bind_eq_ok.mp shows
  cases start with
  | none =>
    obtain rfl := Except.ok.inj shows
    cases found
  | some start =>
    dsimp only at shows
    obtain ⟨d, drafted, shows⟩ := bind_eq_ok.mp shows
    have draft : f.draft today = .ok (some d) := by
      rw [Form.draft, liftFault_eq_ok.mp read]
      show (f.draftFrom today start >>= fun d => pure (some d)) = _
      rw [liftFault_eq_ok.mp drafted]
      rfl
    have rendered : f.rendered today = (d.rendered (f.setting today)).map some := by
      rw [Form.rendered, draft]
      rfl
    split at shows
    · obtain rfl := Except.ok.inj shows
      cases found
    · cases made : d.ruleText (f.setting today) with
      | error e =>
        rw [made] at shows
        dsimp only at shows
        split at shows
        · obtain rfl := Except.ok.inj shows
          cases found
        · cases shows
      | ok made' =>
        rw [made] at shows
        obtain ⟨same, described⟩ := ruleShown_eq_ok shows
        obtain rfl : rule = made' := Option.some.inj (found.symm.trans same)
        rw [rendered, Draft.rendered, made]
        show (describe (f.setting today) (.text rule) >>= fun sentence => pure (rule, sentence)).map some = _
        rw [described]
        rfl

/-- What saving hands out is the draft of the values with the rule text and the sentence of the preview. -/
theorem save_eq_ok {d : Draft} (saved : (f.save now).2 = .ok (some d)) :
    ∃ own rule, f.draft now = .ok (some own) ∧ f.preview.ruleText = some rule ∧
      d = { own with rule := .text rule, sentence := .text f.preview.description } := by
  have savable : f.savable now = .ok (some d) := by
    unfold save at saved
    cases found : f.savable now with
    | error e =>
      rw [found] at saved
      cases saved
    | ok found' =>
      rw [found] at saved
      cases found' <;> cases saved
      rfl
  obtain ⟨errors, -, savable⟩ := bind_eq_ok.mp savable
  obtain ⟨drafted, draft, savable⟩ := bind_eq_ok.mp savable
  cases noErrors : errors.isEmpty with
  | false =>
    rw [noErrors] at savable
    cases savable
  | true =>
    cases rule : f.preview.ruleText with
    | none =>
      rw [noErrors, rule] at savable
      cases savable
    | some rule' =>
      cases drafted with
      | none =>
        rw [noErrors, rule] at savable
        cases savable
      | some own =>
        rw [noErrors, rule] at savable
        cases savable
        exact ⟨own, rule', draft, rfl, rfl⟩

/-- What saving hands out holds the rule text and the sentence of its own fields just if these are the ones that
    the values made for which the preview was worked out. -/
theorem save_isConsistent_iff {d : Draft} (session : Session c settings initial f v t)
    (saved : (f.save now).2 = .ok (some d)) :
    d.IsConsistent (f.setting now) ↔ f.rendered now = ({ f with values := v } : Form).rendered t := by
  obtain ⟨own, rule, drafted, found, rfl⟩ := save_eq_ok saved
  have ofPreview := rendered_of_shown session.shows found
  have ofValues : f.rendered now = (own.rendered (f.setting now)).map some := by
    rw [rendered, drafted]
    rfl
  have ownFields : Draft.rendered { own with rule := .text rule, sentence := .text f.preview.description } =
      own.rendered := rfl
  rw [ofPreview, ofValues]
  constructor
  · rintro ⟨rule', sentence, sameRule, sameSentence, made⟩
    cases sameRule
    cases sameSentence
    rw [ownFields] at made
    rw [made]
    rfl
  · intro made
    refine ⟨rule, f.preview.description, rfl, rfl, ?_⟩
    rw [ownFields]
    cases own' : own.rendered (f.setting now) with
    | error e =>
      rw [own'] at made
      cases made
    | ok pair =>
      rw [own'] at made
      cases made
      rfl

/-- A form whose preview is in step with its values saves a consistent draft. -/
theorem isConsistent_of_inStep {d : Draft} (inStep : f.InStep now) (saved : (f.save now).2 = .ok (some d)) :
    d.IsConsistent (f.setting now) := by
  obtain ⟨own, rule, drafted, found, rfl⟩ := save_eq_ok saved
  have ofValues : f.rendered now = (own.rendered (f.setting now)).map some := by
    rw [rendered, drafted]
    rfl
  have made := ofValues.symm.trans (rendered_of_shown inStep found)
  cases own' : own.rendered (f.setting now) with
  | error e =>
    rw [own'] at made
    cases made
  | ok pair =>
    rw [own'] at made
    cases made
    exact ⟨rule, f.preview.description, rfl, rfl, own'⟩

open Description (newYear2025)

/-- The new form of the first day of 2025, once several operations are done. -/
def newForm (ops : List Operation) : Option Form :=
  (open? newYear2025 {} none).toOption.map (·.run newYear2025.today ops)

theorem session_of_newForm {ops : List Operation} (made : newForm ops = some f) :
    ∃ v t, Session newYear2025 {} none f v t := by
  unfold newForm at made
  cases opens : open? newYear2025 {} none with
  | error e =>
    rw [opens] at made
    cases made
  | ok f' =>
    rw [opens] at made
    cases made
    exact (Session.opened opens).run newYear2025.today ops

/-- The rule text that a form saves, and the one that the saved fields make. -/
def savedRules (f : Form) (now : Stamp) : Option (Text × Text) :=
  match (f.save now).2 with
  | .ok (some d) =>
    match d.rule, d.ruleText (f.setting now) with
    | .text kept, .ok own => some (kept, own)
    | _, _ => none
  | _ => none

theorem saved_of_savedRules {kept own : Text} (found : f.savedRules now = some (kept, own)) :
    ∃ d, (f.save now).2 = .ok (some d) ∧ d.rule = .text kept ∧ d.ruleText (f.setting now) = .ok own := by
  unfold savedRules at found
  split at found
  · rename_i d saved
    split at found
    · rename_i rule made
      cases found
      exact ⟨d, saved, rule, made⟩
    · cases found
  · cases found

theorem savedRules_monthly : (newForm [.setPattern (.text "month")]).bind (·.savedRules newYear2025.today) =
    some ("FREQ=MONTHLY;UNTIL=20250401T235959;INTERVAL=1;BYMONTHDAY=1".toList,
      "FREQ=MONTHLY;UNTIL=20250401T235959;INTERVAL=1;BYMONTHDAY=1".toList) := by
  decide +kernel

theorem save_isConsistent_iff_monthly : ∃ f v t d, Session newYear2025 {} none f v t ∧
    (f.save newYear2025.today).2 = .ok (some d) ∧
    (d.IsConsistent (f.setting newYear2025.today) ↔
      f.rendered newYear2025.today = ({ f with values := v } : Form).rendered t) := by
  obtain ⟨f, made, found⟩ := Option.bind_eq_some_iff.mp savedRules_monthly
  obtain ⟨v, t, session⟩ := session_of_newForm made
  obtain ⟨d, saved, -, -⟩ := saved_of_savedRules found
  exact ⟨f, v, t, d, session, saved, save_isConsistent_iff session saved⟩

/-- The last step fails, since no end can be a year after a start in the last year of all. -/
def lastYear : List Operation :=
  [.setPattern (.text "month"), .setFinish (.text "30/12/9999"), .setStart (.text "29/12/9999")]

theorem savedRules_lastYear : (newForm lastYear).bind (·.savedRules newYear2025.today) =
    some ("FREQ=MONTHLY;UNTIL=99991230T235959;INTERVAL=1;BYMONTHDAY=1".toList,
      "FREQ=MONTHLY;UNTIL=99991230T235959;INTERVAL=1;BYMONTHDAY=29".toList) := by
  decide +kernel

/-- After a step that failed the rule text of the values before it is saved. -/
theorem save_inconsistent_lastYear : ∃ f v t d, newForm lastYear = some f ∧ Session newYear2025 {} none f v t ∧
    (f.save newYear2025.today).2 = .ok (some d) ∧ ¬ d.IsConsistent (f.setting newYear2025.today) := by
  obtain ⟨f, made, found⟩ := Option.bind_eq_some_iff.mp savedRules_lastYear
  obtain ⟨v, t, session⟩ := session_of_newForm made
  obtain ⟨d, saved, kept, own⟩ := saved_of_savedRules found
  exact ⟨f, v, t, d, made, session, saved, fun consistent => absurd (consistent.eq_rule kept own) (by decide)⟩

end Form

end Cadence
