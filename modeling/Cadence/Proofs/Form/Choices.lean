import Cadence.Proofs.Description.Settled
import Cadence.Proofs.Form.Held

/-!
# The choices of a form

How the recurrence of a form repeats is what a new form says, what a description says, or what an edit has put in its
place. A condition that all of these meet is met by the choices of every form of a session, and by those that the
form goes back to.
-/

namespace Cadence

/-- A condition on choices that those of new forms and of descriptions meet, and that edits keep. -/
structure Choices.IsKept (P : Choices → Prop) : Prop where
  fresh : P {}
  described : ∀ d : Description, 1 ≤ d.every → P { d.choices with selectedDays := Weekday.sorted d.selectedDays }
  pattern : ∀ c (p : Pattern), P c → P { c with pattern := .text p.token }
  every : ∀ c n, 1 ≤ n → P c → P { c with every := .int n }
  selectedDays : ∀ c days, P c → P { c with selectedDays := days }
  monthlyOption : ∀ c (o : MonthlyOption), P c → P { c with monthlyOption := .text o.token }
  yearlyOption : ∀ c (o : YearlyOption), P c → P { c with yearlyOption := .text o.token }

/-- There is a pattern, and the interval is a positive number. -/
structure Choices.AreSound (c : Choices) : Prop where
  pattern : ∃ p, c.pattern? = some p
  every : ∃ n, c.every = .int n ∧ 1 ≤ n

theorem Choices.isKept_areSound : IsKept AreSound where
  fresh := ⟨⟨.day, rfl⟩, 1, rfl, Int.le_refl 1⟩
  described d positive := ⟨⟨d.pattern, Pattern.ofToken?_token d.pattern⟩, d.every, rfl, positive⟩
  pattern _ p sound := ⟨⟨p, Pattern.ofToken?_token p⟩, sound.every⟩
  every _ n positive sound := ⟨sound.pattern, n, rfl, positive⟩
  selectedDays _ _ sound := ⟨sound.pattern, sound.every⟩
  monthlyOption _ _ sound := ⟨sound.pattern, sound.every⟩
  yearlyOption _ _ sound := ⟨sound.pattern, sound.every⟩

/-- A description that is read from the members of an object or from a rule text. -/
def Description.IsRead (d : Description) : Prop :=
  (∃ c members, Description.ofMembers c members = .ok d) ∨ ∃ c rule fallback, Description.ofRule c rule fallback = .ok d

theorem Description.every_pos_of_ofRule {c : Setting} {rule fallback : Datum} {d : Description}
    (read : Description.ofRule c rule fallback = .ok d) : 1 ≤ d.every := by
  obtain ⟨r, written, read⟩ := bind_eq_ok.mp read
  obtain ⟨pattern, anchor, recurrence, becomes⟩ := RuleText.becomes_of_description read
  exact becomes.every_pos (RuleText.check_of_read written)

theorem Description.IsRead.every_pos {d : Description} (read : d.IsRead) : 1 ≤ d.every := by
  rcases read with ⟨c, members, read⟩ | ⟨c, rule, fallback, read⟩
  · obtain ⟨n, -, positive⟩ := (ofMembers_eq_ok.mp read).every
    exact positive ▸ Int.le_max_left 1 n
  · exact every_pos_of_ofRule read

namespace Form

/-- The choices that a form holds, and those that it goes back to, meet a condition. -/
structure Meets (P : Choices → Prop) (f : Form) : Prop where
  values : P f.values.toChoices
  opened : P f.opened.toChoices

variable {P : Choices → Prop} {f g : Form} {today now t : Stamp} {v : FormValues}

theorem values_refresh (f : Form) (today : Stamp) : (f.refresh today).1.values = f.values ∧ (f.refresh today).1.opened = f.opened := by
  unfold refresh
  split <;> exact ⟨rfl, rfl⟩

/-- An operation leads to a form whose choices meet the condition. -/
def LeadsTo {α : Type} (P : Choices → Prop) (outcome : Outcome α) : Prop := outcome.1.Meets P

theorem Meets.refresh (meets : f.Meets P) (today : Stamp) : LeadsTo P (f.refresh today) := by
  obtain ⟨values, opened⟩ := values_refresh f today
  exact ⟨values ▸ meets.values, opened ▸ meets.opened⟩

theorem Meets.change (meets : f.Meets P) {edit : FormValues → FormValues} (keeps : P (edit f.values).toChoices)
    (today : Stamp) : LeadsTo P (f.change today edit) := by
  have edited : ({ f with values := edit f.values } : Form).Meets P := ⟨keeps, meets.opened⟩
  exact edited.refresh today

/-- An operation keeps the choices to the condition. -/
def Keeps {α : Type} (P : Choices → Prop) (op : Form → Stamp → α → Outcome Unit) : Prop :=
  ∀ f today a, f.Meets P → LeadsTo P (op f today a)

theorem keeps_endYearAfter : Keeps P endYearAfter := by
  -- As for the steps of a session, the year after a start must not be evaluated.
  obtain ⟨op, same⟩ : ∃ op, op = endYearAfter := ⟨_, rfl⟩
  rw [← same]
  delta endYearAfter at same
  subst same
  intro f today start meets
  dsimp only
  split
  · exact meets.change meets.values today
  · exact meets

theorem Meets.setStart (meets : f.Meets P) (today : Stamp) (s : Text) : LeadsTo P (f.setStart today s) := by
  have typed : ({ f with values := { f.values with startText := Text.trim s } } : Form).Meets P :=
    ⟨meets.values, meets.opened⟩
  unfold Form.setStart
  dsimp only
  split
  · exact typed
  · exact typed.refresh today
  · split
    · exact keeps_endYearAfter _ today _ typed
    · exact typed.refresh today

theorem Meets.chooseFinish (meets : f.Meets P) (today : Stamp) : LeadsTo P (f.chooseFinish today) := by
  have chosen : ({ f with values := { f.values with hasEnd := .bool true } } : Form).Meets P :=
    ⟨meets.values, meets.opened⟩
  unfold Form.chooseFinish
  dsimp only
  split
  · exact chosen
  · exact chosen
  · exact chosen.refresh today
  · split
    · exact chosen.refresh today
    · exact keeps_endYearAfter _ today _ chosen

theorem Meets.choose {α : Type} {ofToken? : Text → Option α} {value : Datum} {edit : α → Outcome Unit}
    (meets : f.Meets P) (keeps : ∀ a, LeadsTo P (edit a)) : LeadsTo P (Host.choose f ofToken? value edit) := by
  unfold Host.choose
  dsimp only
  split
  · exact keeps _
  · exact meets

theorem choices_freshValues {c : Setting} {settings : Settings} (made : freshValues c settings = .ok v) : v.toChoices = {} := by
  obtain ⟨finish, -, made⟩ := bind_eq_ok.mp made
  obtain ⟨startText, -, made⟩ := bind_eq_ok.mp made
  obtain ⟨finishText, -, made⟩ := bind_eq_ok.mp made
  cases made
  rfl

section Kept
variable (kept : Choices.IsKept P)
include kept

theorem Meets.remove (meets : f.Meets P) (today : Stamp) : LeadsTo P (f.remove today) := by
  unfold Form.remove
  split
  · exact meets
  · rename_i values made
    have fresh : P values.toChoices := choices_freshValues made ▸ kept.fresh
    have empty : ({ f with
        values := { values with hasEnd := .bool false }
        opened := { values with hasEnd := .bool false }
        saved := none } : Form).Meets P := ⟨fresh, fresh⟩
    have refreshed := empty.refresh today
    dsimp only
    split
    · rename_i shown
      rwa [shown] at refreshed
    · rename_i shown
      rwa [shown] at refreshed

theorem Meets.importRule (meets : f.Meets P) (today : Stamp) (rule : Datum) : LeadsTo P (f.importRule today rule) := by
  unfold Form.importRule
  split
  · rename_i values made
    refine meets.change ?_ today
    obtain ⟨start, -, made⟩ := bind_eq_ok.mp made
    obtain ⟨d, read, made⟩ := bind_eq_ok.mp made
    rw [valuesOf_draft] at made
    cases made
    exact kept.described d (Description.every_pos_of_ofRule read)
  · exact meets

/-- One operation. -/
theorem Meets.after (meets : f.Meets P) (op : Operation) (today : Stamp) : (op.after f today).Meets P := by
  cases op with
  | setStart value =>
    cases value with
    | text s => exact meets.setStart today s
    | _ => exact meets
  | setFinish value =>
    cases value with
    | text s => exact meets.change meets.values today
    | _ => exact meets
  | chooseFinish => exact meets.chooseFinish today
  | removeFinish => exact meets.change meets.values today
  | setPattern value => exact meets.choose fun p => meets.change (kept.pattern _ p meets.values) today
  | setEvery value =>
    have other (n : Int) : LeadsTo P (f.setEvery today n) :=
      meets.change (kept.every _ _ (Int.le_max_left 1 n) meets.values) today
    simp only [Operation.after, Host.setEvery]
    split
    · exact other _
    · exact other 1
    · exact other 1
    · exact meets
  | toggleDay value =>
    simp only [Operation.after, Host.toggleDay]
    split
    · refine meets.change ?_ today
      dsimp only
      generalize Weekday.sorted _ = days
      split
      · exact kept.selectedDays _ [] (kept.every _ 1 (Int.le_refl 1) (kept.pattern _ .day meets.values))
      · exact kept.selectedDays _ days meets.values
    · exact meets
  | setMonthlyOption value => exact meets.choose fun o => meets.change (kept.monthlyOption _ o meets.values) today
  | setYearlyOption value => exact meets.choose fun o => meets.change (kept.yearlyOption _ o meets.values) today
  | importRule rule => exact meets.importRule kept today rule
  | save =>
    simp only [Operation.after, save]
    split
    · exact ⟨meets.values, meets.values⟩
    · exact meets
    · exact meets
  | discard => exact meets.change meets.opened today
  | remove => exact meets.remove kept today

variable {c : Setting} {settings : Settings} {initial : Option Description}

theorem meets_of_open (positive : ∀ d, initial = some d → 1 ≤ d.every) (opens : open? c settings (initial.map (·.draft)) = .ok f) :
    f.Meets P := by
  have meets {values : FormValues} {format : LocaleFormat} {result : Result Unit} {g : Form} (found : P values.toChoices)
      (outcome : ({ format, settings, values, opened := values } : Form).refresh c.today = (g, result)) : g.Meets P := by
    have held : ({ format, settings, values, opened := values } : Form).Meets P := ⟨found, found⟩
    have refreshed := held.refresh c.today
    rwa [outcome] at refreshed
  unfold open? at opens
  cases initial with
  | none =>
    obtain ⟨values, made, opens⟩ := bind_eq_ok.mp opens
    obtain ⟨format, -, opens⟩ := bind_eq_ok.mp opens
    dsimp only at opens
    split at opens
    · rename_i outcome
      cases opens
      exact meets (choices_freshValues made ▸ kept.fresh) outcome
    · cases opens
  | some d =>
    obtain ⟨values, made, opens⟩ := bind_eq_ok.mp opens
    obtain ⟨format, known, opens⟩ := bind_eq_ok.mp opens
    rw [liftFault_eq_ok.mp known, valuesOf_draft] at made
    cases made
    dsimp only at opens
    split at opens
    · rename_i outcome
      cases opens
      exact meets (kept.described d (positive d rfl)) outcome
    · cases opens

/-- The choices of every form of a session that begins with a new recurrence or a description meet the condition. -/
theorem Session.meets (positive : ∀ d, initial = some d → 1 ≤ d.every)
    (session : Session c settings (initial.map (·.draft)) f v t) : f.Meets P := by
  induction session with
  | opened opens => exact meets_of_open kept positive opens
  | shown op today _ _ ih => exact ih.after kept op today
  | kept op today _ _ ih => exact ih.after kept op today

end Kept

end Form

end Cadence
