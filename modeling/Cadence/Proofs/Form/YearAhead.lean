import Cadence.Proofs.Form.Import

/-!
# Ends a year ahead

An end that moves with the start, or is chosen where there is none after it, is written as the first moment of the day a year
after the start's. It is read back as that moment in every locale, and comes after the start whatever the time of day
of the start is.
-/

namespace Cadence

/-! ### The same day of the next year -/

/-- A day is the same day of the year after another one, or the 28th of February where that year has no 29th. -/
structure Day.IsYearAfter (e d : Day) : Prop where
  year : e.year = d.year + 1
  month : e.month = d.month
  day : e.day = if d.month = 2 ∧ d.day = 29 then 28 else d.day

namespace Day

variable {d e : Day}

/-- The last day that a month has in the next year cuts off the 29th of February only. -/
theorem min_daysInMonth_next (d : Day) :
    min d.day (daysInMonth (d.year + 1) d.month) = if d.month = 2 ∧ d.day = 29 then 28 else d.day := by
  obtain ⟨one, last⟩ := d.day_bounds
  by_cases february : d.month = 2
  · have days (year : Nat) : daysInMonth year d.month = if isLeap year then 29 else 28 := by
      rw [february]
      rfl
    simp only [days, isLeap_iff] at last ⊢
    split at last <;> split <;> split <;> omega
  · rw [if_neg fun both => february both.1, daysInMonth_of_ne_two february (d.year + 1) d.year]
    exact Nat.min_eq_left last

theorem IsYearAfter.ordinal_lt (later : e.IsYearAfter d) : d.ordinal < e.ordinal :=
  ordinal_lt_of_year (by rw [later.year]; exact Nat.lt_succ_self d.year)

end Day

/-- A timestamp that has been moved by a year is at its time of day, on the day a year after. -/
theorem Stamp.exists_of_addYears_one {s t : Stamp} (moved : s.addYears 1 = .to t) :
    ∃ e : Day, e.IsYearAfter s.day ∧ t = { s with day := e } := by
  unfold addYears moveTo at moved
  split at moved
  · cases moved
  · split at moved
    · cases moved
    · split at moved
      · rename_i e found
        cases moved
        obtain ⟨year, month, day⟩ := Day.of?_eq_some.mp found
        have next : ((s.day.year : Int) + 1).toNat = s.day.year + 1 := rfl
        rw [next] at year day
        exact ⟨e, ⟨year, month, day.trans s.day.min_daysInMonth_next⟩, rfl⟩
      · cases moved

theorem Host.moved_eq_ok {shifted : Shifted} {s : Stamp} (moved : Host.moved shifted = .ok s) : shifted = .to s := by
  cases shifted <;> cases moved
  rfl

namespace Form

variable {f g : Form} {c : Setting} {settings : Settings} {initial : Option Draft} {v : FormValues} {locale : Datum}
  {today now t start : Stamp} {s text : Text}

/-! ### Ends -/

/-- The end of a form is the first moment of the day a year after a start, whenever it is read. -/
def EndsYearAfter (f : Form) (start : Stamp) : Prop :=
  ∃ e : Day, e.IsYearAfter start.day ∧ ∀ now, f.finish now = .ok (some (.ofDay e))

/-- No end is wrong. -/
def HasNoEndError (f : Form) (now : Stamp) : Prop := ∃ errors, f.errors now = .ok errors ∧ errors.finish = none

theorem exists_of_yearAfter (naive : start.zone = none) (written : f.yearAfter start = .ok text) :
    ∃ e : Day, e.IsYearAfter start.day ∧ text = (Stamp.ofDay e).fieldText f.format := by
  obtain ⟨t, moved, rfl⟩ := map_eq_ok.mp written
  obtain ⟨e, later, rfl⟩ := Stamp.exists_of_addYears_one (Host.moved_eq_ok moved)
  refine ⟨e, later, ?_⟩
  rw [Stamp.startOfDay, naive]
  rfl

/-- An end after the start is no error. -/
theorem hasNoEndError_of_before {e : Stamp} (read : f.start now = .ok (some start)) (ended : f.finish now = .ok (some e))
    (later : start.before e = true) : f.HasNoEndError now := by
  unfold HasNoEndError errors
  rw [read, ended]
  have fine : finishError (some start) (some e) = none := finishError_eq_none.mpr ⟨e, rfl, later⟩
  cases f.wantsFinish with
  | true => exact ⟨_, rfl, fine⟩
  | false => exact ⟨_, rfl, rfl⟩

theorem EndsYearAfter.hasNoEndError (ends : f.EndsYearAfter start) (read : f.start now = .ok (some start)) :
    f.HasNoEndError now := by
  obtain ⟨e, later, ended⟩ := ends
  have naive : start.zone = (Stamp.ofDay e).zone := naive_of_read read
  exact hasNoEndError_of_before read (ended now) ((Stamp.before_startOfDay_iff naive).mpr later.ordinal_lt)

/-! ### Moving the end -/

/-- An edit that returns leads to the values that it makes. -/
theorem of_change {edit : FormValues → FormValues} (changed : f.change today edit = (g, .ok ())) :
    g.format = f.format ∧ g.values = edit f.values := by
  have leads : Leads f today (f.change today edit) := leads_change edit
  have values : (f.change today edit).1.values = edit f.values := (values_refresh { f with values := edit f.values } today).1
  rw [changed] at leads values
  exact ⟨leads.format, values⟩

theorem of_refresh (refreshed : f.refresh today = (g, .ok ())) : g.format = f.format ∧ g.values = f.values :=
  have same : f.change today id = (g, .ok ()) := refreshed
  of_change same

/-- Where the end is moved, it is written as the year after. -/
theorem exists_of_endYearAfter : ∀ {f g : Form} {today start : Stamp}, f.endYearAfter today start = (g, .ok ()) →
    ∃ text, f.yearAfter start = .ok text ∧ g.format = f.format ∧ g.values = { f.values with finishText := some text } := by
  -- The year after a start must not be evaluated here either.
  obtain ⟨op, same⟩ : ∃ op, op = endYearAfter := ⟨_, rfl⟩
  rw [← same]
  delta endYearAfter at same
  subst same
  intro f g today start moved
  dsimp only at moved
  split at moved
  · rename_i text written
    exact ⟨text, written, of_change moved⟩
  · cases moved

/-- The end that has been moved is a year after the start, which is as it was. -/
theorem endsYearAfter_of_endYearAfter (moved : f.endYearAfter today start = (g, .ok ()))
    (read : f.start today = .ok (some start)) (hsep : NumericDate.isSeparator f.format.separator = true) :
    g.EndsYearAfter start ∧ g.start today = .ok (some start) ∧ g.values.hasEnd = f.values.hasEnd := by
  obtain ⟨text, written, format, values⟩ := exists_of_endYearAfter moved
  obtain ⟨e, later, rfl⟩ := exists_of_yearAfter (naive_of_read read) written
  refine ⟨⟨e, later, fun now => ?_⟩, ?_, ?_⟩
  · rw [finish, values, format]
    exact read_fieldText hsep rfl now
  · rw [Form.start, values, format]
    exact read
  · rw [values]

/-- A start that is typed takes an end along that is in use. -/
theorem endsYearAfter_of_setStart (hsep : NumericDate.isSeparator f.format.separator = true)
    (set : f.setStart today s = (g, .ok ())) (read : g.start today = .ok (some start)) (wants : f.wantsFinish = true)
    (there : f.values.finishText.any (! ·.isEmpty) = true) : g.EndsYearAfter start ∧ g.values.hasEnd = f.values.hasEnd := by
  unfold setStart at set
  dsimp only at set
  split at set
  · cases set
  · rename_i unread
    obtain ⟨format, values⟩ := of_refresh set
    rw [Form.start, format, values] at read
    cases unread.symm.trans read
  · rename_i start' read'
    split at set
    · obtain ⟨ends, same, hasEnd⟩ := endsYearAfter_of_endYearAfter set read' hsep
      cases same.symm.trans read
      exact ⟨ends, hasEnd⟩
    · rename_i unused
      exact absurd (Bool.and_eq_true_iff.mpr ⟨wants, there⟩) unused

/-- An end that is chosen is after the start: one that was stays, and any other is moved. -/
theorem cases_of_chooseFinish (hsep : NumericDate.isSeparator f.format.separator = true)
    (chosen : f.chooseFinish today = (g, .ok ())) (read : g.start today = .ok (some start)) :
    g.values.hasEnd = .bool true ∧
      ((∃ e, f.finish today = .ok (some e) ∧ start.before e = true ∧ g.finish today = .ok (some e) ∧
          g.values.finishText = f.values.finishText) ∨
        (∀ e, f.finish today = .ok (some e) → start.before e = false) ∧ g.EndsYearAfter start) := by
  unfold chooseFinish at chosen
  dsimp only at chosen
  split at chosen
  · cases chosen
  · cases chosen
  · rename_i unread _
    obtain ⟨format, values⟩ := of_refresh chosen
    rw [Form.start, format, values] at read
    cases unread.symm.trans read
  · rename_i start' finish read' ended
    have ended : f.finish today = .ok finish := ended
    split at chosen
    · rename_i later
      obtain ⟨format, values⟩ := of_refresh chosen
      have same : g.finish today = .ok finish := by
        rw [Form.finish, format, values]
        exact ended
      have text : g.values.finishText = f.values.finishText := by rw [values]
      have hasEnd : g.values.hasEnd = .bool true := by rw [values]
      rw [Form.start, format, values] at read
      cases read'.symm.trans read
      cases finish with
      | none => cases later
      | some e => exact ⟨hasEnd, .inl ⟨e, ended, later, same, text⟩⟩
    · rename_i notLater
      obtain ⟨ends, same, hasEnd⟩ := endsYearAfter_of_endYearAfter chosen read' hsep
      cases same.symm.trans read
      refine ⟨hasEnd, .inr ⟨fun e found => ?_, ends⟩⟩
      cases ended.symm.trans found
      exact Bool.eq_false_iff.mpr notLater

/-- In every session, moving the start or choosing an end leaves an end after the start. A start that is typed moves an end
    that is in use to a year after its day. An end that is chosen stays where it was after the start already. -/
theorem finish_follows_start (session : Session c settings initial f v t) (known : c.format = LocaleFormat.ofDatum locale)
    (today : Stamp) :
    (∀ s g start, f.setStart today s = (g, .ok ()) → g.start today = .ok (some start) → f.wantsFinish = true →
      f.values.finishText.any (! ·.isEmpty) = true → g.wantsFinish = true ∧ g.HasNoEndError today ∧ g.EndsYearAfter start) ∧
    ∀ g start, f.chooseFinish today = (g, .ok ()) → g.start today = .ok (some start) →
      g.values.hasEnd = .bool true ∧ g.HasNoEndError today ∧
      ∀ e, f.finish today = .ok (some e) → start.before e = true → g.values.finishText = f.values.finishText := by
  have hsep : NumericDate.isSeparator f.format.separator = true :=
    LocaleFormat.isSeparator_of_ofDatum (known.symm.trans session.format_eq)
  constructor
  · intro s g start set read wants there
    obtain ⟨ends, hasEnd⟩ := endsYearAfter_of_setStart hsep set read wants there
    refine ⟨?_, ends.hasNoEndError read, ends⟩
    rw [wantsFinish, hasEnd]
    exact wants
  · intro g start chosen read
    obtain ⟨hasEnd, ⟨e, ended, later, ended', text⟩ | ⟨notLater, ends⟩⟩ := cases_of_chooseFinish hsep chosen read
    · exact ⟨hasEnd, hasNoEndError_of_before read ended' later, fun _ _ _ => text⟩
    · refine ⟨hasEnd, ends.hasNoEndError read, fun e found later => ?_⟩
      rw [notLater e found] at later
      cases later

open Description (newYear2025)

/-- The start that an edit leaves, if it returns. -/
def startAfter (today : Stamp) (outcome : Outcome Unit) : Option Stamp :=
  match outcome with
  | (g, .ok ()) => (g.start today).toOption.join
  | (_, .error _) => none

theorem of_startAfter {outcome : Outcome Unit} (told : startAfter today outcome = some start) :
    ∃ g, outcome = (g, .ok ()) ∧ g.start today = .ok (some start) := by
  unfold startAfter at told
  split at told
  · rename_i g
    exact ⟨g, rfl, toOption_eq_some (Option.join_eq_some_iff.mp told)⟩
  · cases told

theorem startAfter_leapDay : (newForm []).map (fun f =>
      (f.wantsFinish && f.values.finishText.any (! ·.isEmpty),
        startAfter newYear2025.today (f.setStart newYear2025.today "29/02/2028 23:30".toList),
        startAfter newYear2025.today (f.chooseFinish newYear2025.today))) =
    some (true, some ⟨⟨2028, 2, 29, by decide⟩, ⟨23, 30, 0, 0, by decide⟩, none⟩, some (.ofDay ⟨2025, 1, 1, by decide⟩)) := by
  decide +kernel

/-- A new form is given a start late on a leap day, and told to have the end that it has. -/
theorem finish_follows_start_leapDay : ∃ f v t, Session newYear2025 {} none f v t ∧
    newYear2025.format = LocaleFormat.ofDatum .null ∧ f.wantsFinish = true ∧ f.values.finishText.any (! ·.isEmpty) = true ∧
    (∃ g start, f.setStart newYear2025.today "29/02/2028 23:30".toList = (g, .ok ()) ∧ g.start newYear2025.today = .ok (some start) ∧
      g.wantsFinish = true ∧ g.HasNoEndError newYear2025.today ∧ g.EndsYearAfter start) ∧
    ∃ g start, f.chooseFinish newYear2025.today = (g, .ok ()) ∧ g.start newYear2025.today = .ok (some start) ∧
      g.values.hasEnd = .bool true ∧ g.HasNoEndError newYear2025.today := by
  obtain ⟨f, made, told⟩ := Option.map_eq_some_iff.mp startAfter_leapDay
  obtain ⟨v, t, session⟩ := session_of_newForm made
  obtain ⟨inUse, told⟩ := Prod.mk.inj told
  obtain ⟨wants, there⟩ := Bool.and_eq_true_iff.mp inUse
  obtain ⟨set, chosen⟩ := Prod.mk.inj told
  obtain ⟨g, set, read⟩ := of_startAfter set
  obtain ⟨g', chosen, read'⟩ := of_startAfter chosen
  have known : newYear2025.format = LocaleFormat.ofDatum .null := rfl
  obtain ⟨moves, chooses⟩ := finish_follows_start session known newYear2025.today
  have ⟨hasEnd, noError, _⟩ := chooses g' _ chosen read'
  exact ⟨f, v, t, session, known, wants, there, ⟨g, _, set, read, moves _ g _ set read wants there⟩, g', _, chosen, read', hasEnd, noError⟩

end Form

end Cadence
