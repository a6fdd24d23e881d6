import Cadence.Proofs.Description.Failures
import Cadence.Proofs.Form.Savable

/-!
# Edits of a form

An edit with a text that is typed or a choice that there is returns, and so does all that is shown about the form
afterwards, as long as its dates keep clear of the ends of the calendar and no number is larger than those that can be
reckoned with. A text that is no date is an error that is shown.
-/

namespace Cadence

open Text (IsShort)

namespace Form

variable {f g : Form} {c : Setting} {today t : Stamp} {v : FormValues} {p : Pattern} {n : Int} {start : Stamp}
  {finish : Option Stamp} {op : Operation} {number : Option Nat}

/-! ### Fields that keep clear -/

/-- The fields of a form keep clear of the ends of the calendar: a start has a week after it and an end is before the last
    day. Their texts can be reckoned with, and the interval has no more digits than are read. -/
structure IsClear (f : Form) (today : Stamp) : Prop where
  startText : ∀ token ∈ DateToken.tokens (Text.trim f.values.startText), IsShort 28 token
  finishText : ∀ s, f.values.finishText = some s → ∀ token ∈ DateToken.tokens (Text.trim s), IsShort 28 token
  start : ∀ s, f.start today = .ok (some s) → s.day.ordinal + 7 ≤ Day.lastOrdinal
  finish : f.wantsFinish = true → ∀ e, f.finish today = .ok (some e) → e.day.ordinal < Day.lastOrdinal
  every : ∀ n, f.values.every = .int n → (Text.ofInt n).length ≤ Text.maxDigits

theorem exists_read {s : Text} (short : ∀ token ∈ DateToken.tokens (Text.trim s), IsShort 28 token) (today : Stamp)
    (format : LocaleFormat) : ∃ stamp, read today format s = .ok stamp := by
  unfold read
  split
  · exact ⟨none, rfl⟩
  · exact DateText.exists_resolve short today.day.year format

namespace IsClear

variable (clear : f.IsClear today)
include clear

theorem exists_start : ∃ start, f.start today = .ok start := exists_read clear.startText today f.format

theorem exists_finish : ∃ finish, f.finish today = .ok finish := by
  unfold Form.finish
  split
  · exact ⟨none, rfl⟩
  · rename_i s typed
    exact exists_read (clear.finishText s typed) today f.format

theorem exists_shownFinish : ∃ finish, f.shownFinish today = .ok finish := by
  unfold shownFinish
  split
  · exact clear.exists_finish
  · exact ⟨none, rfl⟩

/-- What is wrong with the dates can be told, and a text that is no date is wrong. -/
theorem exists_errors : ∃ errors, f.errors today = .ok errors ∧
    (f.start today = .ok none → errors.start = some invalidStart) ∧
    (f.wantsFinish = true → f.finish today = .ok none → errors.finish = some invalidFinish) := by
  obtain ⟨start, read⟩ := clear.exists_start
  obtain ⟨finish, ended⟩ := clear.exists_finish
  have noStart : (.ok start : Except Fault (Option Stamp)) = .ok none → startError today start = some invalidStart := by
    rintro ⟨⟩
    rfl
  have noFinish : (.ok finish : Except Fault (Option Stamp)) = .ok none → finishError start finish = some invalidFinish := by
    rintro ⟨⟩
    cases start <;> rfl
  unfold errors
  rw [read, ended]
  simp only [bind, Except.bind]
  cases wants : f.wantsFinish with
  | true => exact ⟨_, rfl, noStart, fun _ => noFinish⟩
  | false => exact ⟨_, rfl, noStart, nofun⟩

/-- The fields of the description keep clear where those of the form do. -/
theorem keepsClear (counted : f.values.every = .int n) (read : f.start today = .ok (some start))
    (ended : f.shownFinish today = .ok finish) : (f.described p n start finish).KeepsClear where
  finish := by
    rintro wants e rfl
    have wants : f.wantsFinish = true := wants
    rw [shownFinish, if_pos wants] at ended
    exact clear.finish wants e ended
  position _ := clear.start start read
  every := clear.every n counted

/-- Something can be shown about the fields. -/
theorem exists_shown (sound : f.values.AreSound) (counts : limitOf f.settings.previewCount = .ok number) :
    ∃ preview, f.shown today = .ok preview := by
  obtain ⟨start, read⟩ := clear.exists_start
  cases start with
  | none =>
    unfold shown
    rw [read]
    exact ⟨_, rfl⟩
  | some start =>
    obtain ⟨p, chosen⟩ := sound.pattern
    obtain ⟨n, counted, -⟩ := sound.every
    obtain ⟨finish, ended⟩ := clear.exists_shownFinish
    obtain ⟨summary, said⟩ : ∃ summary, f.values.summary (some (.ok start.day)) f.wantsFinish = .ok summary := by
      obtain ⟨position, placed⟩ := Day.exists_weekdayPosition? (clear.start start read)
      obtain ⟨clause, said⟩ := Choices.exists_clause chosen fun _ => ⟨_, by rw [Choices.positioned, placed]⟩
      unfold Choices.summary
      simp only [said, Except.map, bind, Except.bind]
      exact ⟨_, rfl⟩
    rw [shown_eq chosen counted read ended said]
    split
    · exact ⟨_, rfl⟩
    · cases made : (f.described p n start finish).ruleText (f.setting today) with
      | error e =>
        dsimp only
        rw [if_pos (Description.isBuild_of_ruleText (clear.keepsClear counted read ended) made)]
        exact ⟨_, rfl⟩
      | ok rule =>
        obtain ⟨sentence, described⟩ := Description.exists_describe made (show (f.setting today).format = .ok f.format from rfl)
        obtain ⟨found, listed⟩ := Description.exists_occurrences made start counts
        have anchored : anchorRuleText (f.setting today).plain (.text rule) (.stamp start) = .ok (anchoredText start rule) :=
          Description.anchorRuleText_ruleText made _
        simp only [ruleShown, described, bind, Except.bind, anchored, listed]
        exact ⟨_, rfl⟩

/-- The labels of the options can be told, those of the current day where the form has no start. -/
theorem exists_labels (week : today.day.ordinal + 7 ≤ Day.lastOrdinal) :
    (∃ labels, f.monthlyLabels today = .ok labels) ∧ ∃ labels, f.yearlyLabels today = .ok labels := by
  obtain ⟨start, read⟩ := clear.exists_start
  obtain ⟨day, shown, later⟩ : ∃ day, f.labelDay today = .ok day ∧ day.ordinal + 7 ≤ Day.lastOrdinal := by
    unfold labelDay
    rw [read]
    cases start with
    | none => exact ⟨today.day, rfl, week⟩
    | some s => exact ⟨s.day, rfl, clear.start s read⟩
  obtain ⟨position, placed⟩ := Day.exists_weekdayPosition? later
  unfold monthlyLabels yearlyLabels Phrase.monthlyWeekdayLabel? Phrase.yearlyWeekdayLabel?
  rw [shown]
  simp only [liftFault_ok, bind, Except.bind, placed, Option.map_some]
  exact ⟨⟨_, rfl⟩, _, rfl⟩

end IsClear

/-! ### Edits -/

/-- What an operation returns, left out where it hands out something. -/
def Operation.result (op : Operation) (f : Form) (today : Stamp) : Result Unit :=
  match op with
  | setStart value => (Host.setStart f today value).2
  | setFinish value => (Host.setFinish f today value).2
  | chooseFinish => (f.chooseFinish today).2
  | removeFinish => (f.removeFinish today).2
  | setPattern value => (Host.setPattern f today value).2
  | setEvery value => (Host.setEvery f today value).2
  | toggleDay value => (Host.toggleDay f today value).2
  | setMonthlyOption value => (Host.setMonthlyOption f today value).2
  | setYearlyOption value => (Host.setYearlyOption f today value).2
  | importRule rule => (f.importRule today rule).2
  | save => (f.save today).2.map fun _ => ()
  | discard => (f.discard today).2
  | remove => (f.remove today).2.map fun _ => ()

/-- An edit with a text as it is typed, or a choice that there is. -/
inductive Operation.IsTyped : Operation → Prop where
  | setStart (s : Text) : IsTyped (setStart (.text s))
  | setFinish (s : Text) : IsTyped (setFinish (.text s))
  | chooseFinish : IsTyped chooseFinish
  | removeFinish : IsTyped removeFinish
  | setPattern (p : Pattern) : IsTyped (setPattern (.text p.token))
  | setEveryText (s : Text) : IsTyped (setEvery (.text s))
  | setEvery (n : Int) : IsTyped (setEvery (.int n))
  | toggleDay {token : Text} {day : Weekday} (named : Weekday.ofToken? token = some day) : IsTyped (toggleDay (.text token))
  | setMonthlyOption (o : MonthlyOption) : IsTyped (setMonthlyOption (.text o.token))
  | setYearlyOption (o : YearlyOption) : IsTyped (setYearlyOption (.text o.token))

/-- The edit moves the end of the form that it leads to, to a year after a start. -/
def Operation.MovesFinish (op : Operation) (g : Form) (today start : Stamp) : Prop :=
  match op with
  | setStart _ => g.wantsFinish = true ∧ g.values.finishText.any (! ·.isEmpty) = true
  | chooseFinish => ∀ e, g.finish today = .ok (some e) → start.before e = false
  | _ => False

/-- The outcome is a return, if its form has sound choices and clear fields and its preview a number of occurrences. -/
def Returns (today : Stamp) (outcome : Outcome Unit) : Prop :=
  outcome.1.values.AreSound → (∃ number, limitOf outcome.1.settings.previewCount = .ok number) → outcome.1.IsClear today →
    outcome.2 = .ok ()

theorem returns_refresh (f : Form) (today : Stamp) : Returns today (f.refresh today) := by
  unfold Returns refresh
  cases shown : f.shown today with
  | ok preview => exact fun _ _ _ => rfl
  | error e =>
    rintro sound ⟨number, counts⟩ clear
    obtain ⟨preview, shown'⟩ := IsClear.exists_shown clear sound counts
    cases shown.symm.trans shown'

theorem returns_change (edit : FormValues → FormValues) : Returns today (f.change today edit) := returns_refresh _ today

/-- There is a year after a start, but for the last one. -/
theorem exists_yearAfter (f : Form) (year : start.day.year < 9999) : ∃ text, f.yearAfter start = .ok text := by
  obtain ⟨low, -⟩ := start.day.year_bounds
  obtain ⟨month, month'⟩ := start.day.month_bounds
  obtain ⟨day, -⟩ := start.day.day_bounds
  have length : 28 ≤ daysInMonth (start.day.year + 1) start.day.month := daysInMonth_pos month month'
  have next : IsDate (start.day.year + 1) start.day.month (min start.day.day (daysInMonth (start.day.year + 1) start.day.month)) :=
    ⟨by omega, Nat.succ_le_of_lt year, month, month', by omega, Nat.min_le_right _ _⟩
  have fits : fitsWord ((start.day.year : Int) + 1) = true := by
    simp only [fitsWord, Bool.and_eq_true, decide_eq_true_eq]
    omega
  have number : ((start.day.year : Int) + 1).toNat = start.day.year + 1 := by omega
  have moved : start.startOfDay.addYears 1 = .to { start.startOfDay with day := ⟨_, _, _, next⟩ } := by
    unfold Stamp.addYears Stamp.moveTo Stamp.startOfDay
    dsimp only
    rw [fits, if_neg (by decide), if_neg (by omega), number, Day.of?_eq next]
  rw [yearAfter, moved]
  exact ⟨_, rfl⟩

/-- An operation with a start changes the values, unless the start is in the last year. -/
def ChangesBeforeLast (op : Form → Stamp → Stamp → Outcome Unit) : Prop :=
  ∀ f today start, (∃ edit, op f today start = f.change today edit) ∨
    ¬ start.day.year < 9999 ∧ ∃ e, op f today start = (f, .error e)

theorem changes_endYearAfter : ChangesBeforeLast endYearAfter := by
  -- As for the steps of a session, the year after a start must not be evaluated.
  obtain ⟨op, same⟩ : ∃ op, op = endYearAfter := ⟨_, rfl⟩
  rw [← same]
  delta endYearAfter at same
  subst same
  intro f today start
  dsimp only
  split
  · exact .inl ⟨_, rfl⟩
  · rename_i e failed
    refine .inr ⟨fun year => ?_, e, rfl⟩
    obtain ⟨text, made⟩ := exists_yearAfter f year
    rw [made] at failed
    cases failed

/-- The end that an edit moves to a year after a start is moved from a start that has a year after it. -/
def HasYearAfter (op : Operation) (today : Stamp) (g : Form) : Prop :=
  ∀ start, g.start today = .ok (some start) → op.MovesFinish g today start → start.day.year < 9999

theorem returns_endYearAfter (op : Operation) {outcome : Outcome Unit} (same : f.endYearAfter today start = outcome)
    (read : f.start today = .ok (some start)) (moves : op.MovesFinish f today start) (year : HasYearAfter op today outcome.1) :
    Returns today outcome := by
  rcases changes_endYearAfter f today start with ⟨edit, changed⟩ | ⟨last, e, failed⟩
  · rw [← same, changed]
    exact returns_change edit
  · rw [← same, failed] at year
    exact absurd (year start read moves) last

theorem returns_setStart {s : Text} {outcome : Outcome Unit} (same : f.setStart today s = outcome)
    (year : HasYearAfter (.setStart (.text s)) today outcome.1) : Returns today outcome := by
  unfold setStart at same
  dsimp only at same
  split at same
  · rename_i failed
    obtain rfl := same
    intro _ _ clear
    obtain ⟨start, read⟩ := clear.exists_start
    cases failed.symm.trans read
  · obtain rfl := same
    exact returns_refresh _ today
  · rename_i start read
    split at same
    · rename_i inUse
      exact returns_endYearAfter (.setStart (.text s)) same read (Bool.and_eq_true_iff.mp inUse) year
    · obtain rfl := same
      exact returns_refresh _ today

theorem returns_chooseFinish {outcome : Outcome Unit} (same : f.chooseFinish today = outcome)
    (year : HasYearAfter .chooseFinish today outcome.1) : Returns today outcome := by
  unfold chooseFinish at same
  dsimp only at same
  split at same
  · rename_i failed
    obtain rfl := same
    intro _ _ clear
    obtain ⟨start, read⟩ := clear.exists_start
    cases failed.symm.trans read
  · rename_i failed
    obtain rfl := same
    intro _ _ clear
    obtain ⟨finish, read⟩ := clear.exists_finish
    cases failed.symm.trans read
  · obtain rfl := same
    exact returns_refresh _ today
  · rename_i start finish read ended
    split at same
    · obtain rfl := same
      exact returns_refresh _ today
    · rename_i notLater
      refine returns_endYearAfter .chooseFinish same read (fun e found => ?_) year
      cases ended.symm.trans found
      exact Bool.eq_false_iff.mpr notLater

/-- One edit. -/
theorem Operation.IsTyped.returns (typed : op.IsTyped) (f : Form) (today : Stamp) (year : HasYearAfter op today (op.after f today)) :
    Returns today (op.after f today, op.result f today) := by
  cases typed with
  | setStart s => exact returns_setStart rfl year
  | setFinish s => exact returns_change fun v => { v with finishText := some (Text.trim s) }
  | chooseFinish => exact returns_chooseFinish rfl year
  | removeFinish => exact returns_change fun v => { v with hasEnd := .bool false }
  | setPattern p =>
    have chosen : Host.setPattern f today (.text p.token) = f.setPattern today p := by
      rw [Host.setPattern, Host.choose, Pattern.ofToken?_token]
    show Returns today (Host.setPattern f today (.text p.token))
    rw [chosen]
    exact returns_change _
  | setEveryText s =>
    obtain ⟨n, given⟩ : ∃ n, Host.setEvery f today (.text s) = f.setEvery today n := by
      cases read : Text.readInt? s with
      | some n => exact ⟨n, by rw [Host.setEvery, Datum.toInt, read]⟩
      | none => exact ⟨1, by rw [Host.setEvery, Datum.toInt, read]⟩
    show Returns today (Host.setEvery f today (.text s))
    rw [given]
    exact returns_change _
  | setEvery n => exact returns_change fun v => { v with every := .int (max 1 n) }
  | @toggleDay token day named =>
    have toggled : Host.toggleDay f today (.text token) = f.toggleDay today day := by
      rw [Host.toggleDay, weekdayOf, named]
    show Returns today (Host.toggleDay f today (.text token))
    rw [toggled, Form.toggleDay]
    exact returns_change _
  | setMonthlyOption o =>
    have chosen : Host.setMonthlyOption f today (.text o.token) = f.setMonthlyOption today o := by
      rw [Host.setMonthlyOption, Host.choose, MonthlyOption.ofToken?_token]
    show Returns today (Host.setMonthlyOption f today (.text o.token))
    rw [chosen]
    exact returns_change _
  | setYearlyOption o =>
    have chosen : Host.setYearlyOption f today (.text o.token) = f.setYearlyOption today o := by
      rw [Host.setYearlyOption, Host.choose, YearlyOption.ofToken?_token]
    show Returns today (Host.setYearlyOption f today (.text o.token))
    rw [chosen]
    exact returns_change _

/-! ### Sessions -/

variable {settings : Settings} {initial : Option Draft}

theorem settings_of_open (opens : open? c settings initial = .ok f) : f.settings = settings := by
  unfold open? at opens
  cases initial with
  | none | some d =>
    dsimp only at opens
    obtain ⟨values, -, opens⟩ := bind_eq_ok.mp opens
    obtain ⟨format, -, opens⟩ := bind_eq_ok.mp opens
    unfold refresh at opens
    split at opens
    · rename_i same
      split at same <;> cases same
      cases opens
      rfl
    · cases opens

theorem Session.settings_eq (session : Session c settings initial f v t) : f.settings = settings := by
  induction session with
  | opened opens => exact settings_of_open opens
  | shown op today _ _ ih => exact (follows_after op _ today).settings.trans ih
  | kept op today _ _ ih => exact (follows_after op _ today).settings.trans ih

/-- In every session that begins with a new recurrence or one that has been read, an edit returns that leads to clear fields,
    and a year after the start if it moves the end there. Then the errors and the labels can be told, and a text that is no
    date is among the errors. -/
theorem edit_returns {initial : Option Description} (given : ∀ d, initial = some d → d.IsRead)
    (session : Session c settings (initial.map (·.draft)) f v t) (counts : limitOf settings.previewCount = .ok number)
    (typed : op.IsTyped) (clear : (op.after f today).IsClear today) (year : HasYearAfter op today (op.after f today))
    (week : today.day.ordinal + 7 ≤ Day.lastOrdinal) :
    op.result f today = .ok () ∧
      (∃ errors, (op.after f today).errors today = .ok errors ∧
        ((op.after f today).start today = .ok none → errors.start = some invalidStart) ∧
        ((op.after f today).wantsFinish = true → (op.after f today).finish today = .ok none → errors.finish = some invalidFinish)) ∧
      (∃ labels, (op.after f today).monthlyLabels today = .ok labels) ∧ ∃ labels, (op.after f today).yearlyLabels today = .ok labels := by
  have meets := session.meets Choices.isKept_areSound fun d found => (given d found).every_pos
  have sound := (meets.after Choices.isKept_areSound op today).values
  have same : (op.after f today).settings = settings := (follows_after op f today).settings.trans session.settings_eq
  exact ⟨typed.returns f today year sound ⟨number, same ▸ counts⟩ clear, clear.exists_errors, clear.exists_labels week⟩

open Description (newYear2025)

/-- The dates of a form as they are typed and as they are read, with its interval. -/
def datesOf (f : Form) (today : Stamp) : Option ((Text × Option Text) × (Option Stamp × Option Stamp) × Int) := do
  let start ← (f.start today).toOption
  let finish ← (f.finish today).toOption
  match f.values.every with
  | .int n => some ((f.values.startText, f.values.finishText), (start, finish), n)
  | _ => none

theorem of_datesOf {startText : Text} {finishText : Option Text} (told : f.datesOf today = some ((startText, finishText), (finish, some start), n)) :
    f.values.startText = startText ∧ f.values.finishText = finishText ∧ f.start today = .ok finish ∧
      f.finish today = .ok (some start) ∧ f.values.every = .int n := by
  unfold datesOf at told
  simp only [Option.bind_eq_bind, Option.bind_eq_some_iff] at told
  obtain ⟨start', read, finish', ended, told⟩ := told
  split at told
  · rename_i counted
    cases told
    exact ⟨rfl, rfl, toOption_eq_some read, toOption_eq_some ended, counted⟩
  · cases told

theorem datesOf_noDate : (newForm [.setStart (.text "30/02/2025")]).bind (·.datesOf newYear2025.today) =
    some (("30/02/2025".toList, some "01/04/2025".toList), (none, some (.ofDay ⟨2025, 4, 1, by decide⟩)), 1) := by
  decide +kernel

/-- A day that no month has is typed as the start. -/
theorem edit_returns_noDate : ∃ f v t, (∀ d, (none : Option Description) = some d → d.IsRead) ∧
    Session newYear2025 {} ((none : Option Description).map (·.draft)) f v t ∧
    limitOf ({} : Settings).previewCount = .ok (some 5) ∧ (Operation.setStart (.text "30/02/2025")).IsTyped ∧
    ((Operation.setStart (.text "30/02/2025")).after f newYear2025.today).IsClear newYear2025.today ∧
    HasYearAfter (.setStart (.text "30/02/2025")) newYear2025.today ((Operation.setStart (.text "30/02/2025")).after f newYear2025.today) ∧
    newYear2025.today.day.ordinal + 7 ≤ Day.lastOrdinal ∧
    (Operation.setStart (.text "30/02/2025")).result f newYear2025.today = .ok () ∧
    ∃ errors, ((Operation.setStart (.text "30/02/2025")).after f newYear2025.today).errors newYear2025.today = .ok errors ∧
      errors.start = some invalidStart := by
  obtain ⟨g, made, told⟩ := Option.bind_eq_some_iff.mp datesOf_noDate
  obtain ⟨f, opened, rfl⟩ := Option.map_eq_some_iff.mp made
  obtain ⟨startText, finishText, read, ended, counted⟩ := of_datesOf told
  have session : Session newYear2025 {} ((none : Option Description).map (·.draft)) f f.values newYear2025.today :=
    .opened (toOption_eq_some opened)
  have given : ∀ d, (none : Option Description) = some d → d.IsRead := nofun
  have clear : ((Operation.setStart (.text "30/02/2025")).after f newYear2025.today).IsClear newYear2025.today := {
    startText := by
      rw [show ((Operation.setStart (.text "30/02/2025")).after f newYear2025.today).values.startText = _ from startText]
      decide
    finishText := by
      intro s typed
      rw [show ((Operation.setStart (.text "30/02/2025")).after f newYear2025.today).values.finishText = _ from finishText] at typed
      cases typed
      decide
    start := fun s found => by cases (show _ = _ from read).symm.trans found
    finish := fun _ e found => by
      cases (show _ = _ from ended).symm.trans found
      decide
    every := fun m same => by
      cases (show _ = _ from counted).symm.trans same
      decide }
  have year : HasYearAfter (.setStart (.text "30/02/2025")) newYear2025.today
      ((Operation.setStart (.text "30/02/2025")).after f newYear2025.today) := fun s found => by
    cases (show _ = _ from read).symm.trans found
  have week : newYear2025.today.day.ordinal + 7 ≤ Day.lastOrdinal := by decide
  obtain ⟨returned, ⟨errors, checked, noStart, -⟩, -, -⟩ := edit_returns given session (rfl : limitOf _ = .ok (some 5)) (.setStart _) clear year week
  exact ⟨f, f.values, newYear2025.today, given, session, rfl, .setStart _, clear, year, week, returned, errors, checked, noStart read⟩

/-- The fault that an operation on a new form raises. -/
def raised (op : Operation) : Option Fault :=
  (open? newYear2025 {} none).toOption.bind fun f =>
    match op.result f newYear2025.today with
    | .error (.fault e) => some e
    | _ => none

theorem raised_lastYear : raised (.setStart (.text "29/12/9999")) = some .value := by decide +kernel

/-- A date of the last year is typed as the start of a new form, whose end would move beyond the calendar. -/
theorem edit_raises_lastYear : ∃ f v t, Session newYear2025 {} none f v t ∧ (Operation.setStart (.text "29/12/9999")).IsTyped ∧
    (Operation.setStart (.text "29/12/9999")).result f newYear2025.today = .error (.fault .value) := by
  obtain ⟨f, opened, raises⟩ := Option.bind_eq_some_iff.mp raised_lastYear
  refine ⟨f, f.values, newYear2025.today, .opened (toOption_eq_some opened), .setStart _, ?_⟩
  split at raises
  · rename_i failed
    cases raises
    exact failed
  · cases raises

end Form

end Cadence
