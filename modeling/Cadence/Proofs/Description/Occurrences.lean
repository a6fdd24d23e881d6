import Cadence.Proofs.Description.Calendar
import Cadence.Proofs.Rule.Queries

/-!
# The occurrences of a description

The rule text of a description, with its start in front, has the first timestamps of the recurrence as its
occurrences. Where a weekly recurrence would go on in the days after the last one of the calendar, it has
none as soon as more are asked for than there are.
-/

namespace Cadence.Description

variable {d : Description} {c : Setting} {body : Text} {p : Int}

/-- A weekly recurrence would fall on a day of the last week that comes after the last day of the calendar. -/
def RunsOver (d : Description) : Prop :=
  d.pattern = .week ∧ (.saturday ∈ d.weekdays ∨ .sunday ∈ d.weekdays) ∧
    7 * d.every ∣ Schedule.lastDay.monday - d.start.day.monday

instance (d : Description) : Decidable d.RunsOver := inferInstanceAs (Decidable (_ ∧ _))

/-- The search for more timestamps gets to the end of the calendar: no day on which the recurrence falls
    comes after its end. -/
def ReachesEnd (d : Description) : Prop :=
  ∀ x ∈ Day.upFrom d.start.day.ordinal, d.FallsOn x → d.Includes x

instance (d : Description) : Decidable d.ReachesEnd := inferInstanceAs (Decidable (∀ _ ∈ _, _))

theorem admits_schedule_week (week : d.pattern = .week) (y : RuleYear) (day : YearDay) :
    RuleYear.admits y (d.schedule p) ⟨[], [], []⟩ day = true ↔ y.weekdayAt day.index ∈ d.weekdays := by
  have placed : d.fields.isPlaced = false := by simp [RuleFields.isPlaced, week]
  have dated : d.fields.isDated = false := by simp [RuleFields.isDated, week]
  have months : (d.schedule p).months = [] := by rw [months_schedule, week]; rfl
  have monthDays : (d.schedule p).monthDays = [] := by rw [monthDays_schedule, dated]; rfl
  have nth : (d.schedule p).nthWeekdays = [] := by rw [nthWeekdays_schedule, placed]; rfl
  have plain := isPlain_schedule d p
  obtain ⟨w, member⟩ := List.exists_mem_of_ne_nil d.weekdays (weekdays_ne_nil d)
  have named : (d.schedule p).weekdays ≠ [] := List.ne_nil_of_mem ((mem_weekdays_schedule week).mpr member)
  simp [RuleYear.admits, months, monthDays, nth, plain.weekNumbers, plain.easterDays, plain.yearDays, named,
    mem_weekdays_schedule week]

/-- The last day of the calendar is a Friday. -/
theorem beyond_schedule_iff (week : d.pattern = .week) :
    (d.schedule p).beyond = true ↔ .saturday ∈ d.weekdays ∨ .sunday ∈ d.weekdays := by
  have rate : (d.schedule p).frequency = .weekly := by rw [schedule, Schedule.ofImportable, week]; rfl
  have days : List.range' (Day.lastOrdinal + 1) ((d.schedule p).spanEnd Schedule.lastDay - (Day.lastOrdinal + 1)) =
      [Day.lastOrdinal + 1, Day.lastOrdinal + 2] := by
    have weekEnd : (d.schedule p).spanEnd Schedule.lastDay = Day.lastOrdinal + 1 + 2 := by
      rw [Schedule.spanEnd, rate, Schedule.index_weekday, Schedule.ordinal_lastDay]
      show Day.lastOrdinal + 7 - ((Day.lastOrdinal + 6) % 7 + 7 - 0) % 7 = _
      unfold Day.lastOrdinal
      omega
    rw [weekEnd, Nat.add_sub_cancel_left]
    rfl
  have first : RuleYear.weekdayAt ⟨Schedule.lastDay.year⟩ (Day.lastOrdinal + 1 - RuleYear.firstOrdinal ⟨Schedule.lastDay.year⟩) =
      .saturday := by decide
  have second : RuleYear.weekdayAt ⟨Schedule.lastDay.year⟩ (Day.lastOrdinal + 2 - RuleYear.firstOrdinal ⟨Schedule.lastDay.year⟩) =
      .sunday := by decide
  simp only [Schedule.beyond, days, List.any_cons, List.any_nil, Bool.or_false, Bool.or_eq_true, admits_schedule_week week,
    Schedule.index_dayAt, first, second]

theorem overruns_schedule_iff (makes : d.MakesRule p) :
    (d.schedule p).overruns d.start.day = true ↔ d.RunsOver := by
  have phase := onPhase_schedule_iff makes (Schedule.ordinal_lastDay ▸ d.start.day.ordinal_le_last)
  constructor
  · intro runs
    have weekly : d.pattern.rate = .weekly := Schedule.weekly_of_overruns (isPlain_schedule d p) runs
    have week : d.pattern = .week := by
      cases pattern : d.pattern with
      | week => rfl
      | day | month | year => rw [pattern] at weekly; cases weekly
    obtain ⟨onPhase, beyond⟩ := Bool.and_eq_true_iff.mp runs
    have onPhase := phase.mp onPhase
    rw [week] at onPhase
    exact ⟨week, (beyond_schedule_iff week).mp beyond, onPhase⟩
  · rintro ⟨week, days, onPhase⟩
    rw [week] at phase
    exact Bool.and_eq_true_iff.mpr ⟨phase.mpr onPhase, (beyond_schedule_iff week).mpr days⟩

theorem toList_trace_schedule_snd (loc : d.IsLocal) (makes : d.MakesRule p) :
    (d.schedule p).trace.toList.2 = if d.RunsOver ∧ d.ReachesEnd then some .value else none := by
  have reaches : (∀ x ∈ (d.schedule p).visits, (d.schedule p).admitsAt x = true → (d.schedule p).within x = true) ↔
      d.ReachesEnd := by
    constructor
    · intro inside x member falls
      have later := Day.mem_upFrom.mp member
      obtain ⟨phase, admits⟩ := (falls_iff makes later).mpr falls
      exact (within_schedule_iff loc).mp (inside x (Schedule.mem_visits.mpr ⟨later, phase⟩) admits)
    · intro inside x member admits
      obtain ⟨later, phase⟩ := Schedule.mem_visits.mp member
      exact (within_schedule_iff loc).mpr (inside x (Day.mem_upFrom.mpr later) ((falls_iff makes later).mp ⟨phase, admits⟩))
  rw [Schedule.toList_trace_snd (isPlain_schedule d p) (counts_schedule makes), start_schedule loc]
  simp only [overruns_schedule_iff makes, reaches]

/-- The occurrences of an anchored rule text are the recurrence's timestamps, at most as many as are asked for.
    There are none if more are asked for than a machine can count, or if looking for more of them goes over the
    end of the calendar. -/
theorem occurrences_anchored (loc : d.IsLocal) (year : 1000 ≤ d.start.day.year) (made : d.ruleText c = .ok body) (c' : Setting) (start : Datum) (n : Nat) :
    occurrences c' (.text (anchoredText d.start body)) (.int n) start = .ok (
      if n ≤ maxLimit ∧ (¬ (d.RunsOver ∧ d.ReachesEnd) ∨ n ≤ d.timestamps.length) then d.timestamps.take n else []) := by
  obtain ⟨p, makes, evaluated⟩ := recurrenceOf_anchored loc year made
  have trace : (d.schedule p).trace.toList = (d.timestamps, if d.RunsOver ∧ d.ReachesEnd then some .value else none) :=
    Prod.ext (toList_trace_schedule loc makes) (toList_trace_schedule_snd loc makes)
  rw [occurrences_eq (evaluated c'.plain start) trace (by split <;> simp [Failure.isValueOrRange])]
  by_cases runs : d.RunsOver ∧ d.ReachesEnd <;> simp [runs]

/-- The rule text of a description denotes its recurrence: with the start put in front, its first occurrences are
    the first timestamps that the calendar gives. -/
theorem occurrences_of_ruleText (loc : d.IsLocal) (year : 1000 ≤ d.start.day.year) (made : d.ruleText c = .ok body) (c₁ c₂ : Setting) (start : Datum) :
    ∃ text, anchorRuleText c₁ (.text body) (.stamp d.start) = .ok text ∧ ∀ n : Nat,
      occurrences c₂ (.text text) (.int n) start = .ok (
        if n ≤ maxLimit ∧ (¬ (d.RunsOver ∧ d.ReachesEnd) ∨ n ≤ d.timestamps.length) then d.timestamps.take n else []) :=
  ⟨anchoredText d.start body, anchorRuleText_ruleText made c₁, occurrences_anchored loc year made c₂ start⟩

/-- A recurrence on Saturdays whose next Saturday would be the first day of the year 10000. -/
def lastSaturday : Description where
  start := ⟨⟨9998, 12, 26, by decide⟩, ⟨9, 0, 0, 0, by decide⟩, none⟩
  pattern := .week
  every := 53
  selectedDays := [.saturday]

theorem isLocal_lastSaturday : lastSaturday.IsLocal where
  zone := rfl
  whole := rfl
  finish := by intro e ends; cases ends

theorem year_lastSaturday : 1000 ≤ lastSaturday.start.day.year := by decide

theorem ruleText_lastSaturday : lastSaturday.ruleText newYear2025 = .ok "FREQ=WEEKLY;INTERVAL=53;BYDAY=SA".toList := rfl

theorem occurrences_of_ruleText_lastSaturday :
    lastSaturday.IsLocal ∧ 1000 ≤ lastSaturday.start.day.year ∧ lastSaturday.ruleText newYear2025 = .ok "FREQ=WEEKLY;INTERVAL=53;BYDAY=SA".toList ∧
      ∃ text, anchorRuleText newYear2025 (.text "FREQ=WEEKLY;INTERVAL=53;BYDAY=SA".toList) (.stamp lastSaturday.start) =
        .ok text ∧ ∀ n : Nat, occurrences newYear2025 (.text text) (.int n) .null = .ok (
          if n ≤ maxLimit ∧ (¬ (lastSaturday.RunsOver ∧ lastSaturday.ReachesEnd) ∨ n ≤ lastSaturday.timestamps.length) then
            lastSaturday.timestamps.take n
          else []) :=
  ⟨isLocal_lastSaturday, year_lastSaturday, ruleText_lastSaturday,
    occurrences_of_ruleText isLocal_lastSaturday year_lastSaturday ruleText_lastSaturday newYear2025 newYear2025 .null⟩

/-- Not all of the first timestamps are found: none where the search goes over the end of the calendar, and none
    where more are asked for than can be counted. -/
theorem occurrences_lastSaturday_incomplete :
    anchorRuleText newYear2025 (.text "FREQ=WEEKLY;INTERVAL=53;BYDAY=SA".toList) (.stamp lastSaturday.start) =
        .ok (anchoredText lastSaturday.start "FREQ=WEEKLY;INTERVAL=53;BYDAY=SA".toList) ∧
      ∀ n ∈ [2, maxLimit + 1], lastSaturday.timestamps.take n = [lastSaturday.start] ∧
        occurrences newYear2025 (.text (anchoredText lastSaturday.start "FREQ=WEEKLY;INTERVAL=53;BYDAY=SA".toList))
          (.int n) .null = .ok [] := by
  have calendar : lastSaturday.calendar = [lastSaturday.start.day] := by decide +kernel
  have timestamps : lastSaturday.timestamps = [lastSaturday.start] := by
    rw [Description.timestamps, calendar]
    rfl
  have runs : lastSaturday.RunsOver ∧ lastSaturday.ReachesEnd :=
    ⟨by decide, fun _ _ _ ends => by cases ends⟩
  refine ⟨anchorRuleText_ruleText ruleText_lastSaturday _, fun n member => ?_⟩
  have many : 1 < n := by
    rcases List.mem_cons.mp member with rfl | member
    · decide
    · rw [List.mem_singleton.mp member]
      decide
  rw [occurrences_anchored isLocal_lastSaturday year_lastSaturday ruleText_lastSaturday, timestamps]
  refine ⟨List.take_of_length_le (by simp only [List.length_singleton]; omega), ?_⟩
  rw [if_neg]
  rintro ⟨-, inside | few⟩
  · exact inside runs
  · simp only [List.length_singleton] at few
    omega

end Cadence.Description
