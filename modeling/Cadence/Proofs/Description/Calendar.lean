import Cadence.Proofs.Description.Fields
import Cadence.Proofs.Rule.Dates
import Cadence.Proofs.Rule.Position

/-!
# The calendar of a description

The days of a recurrence, told from the calendar alone: so many days, weeks, months or years after the start,
on the weekdays, the day of the month or the weekday at a position that the fields name. The schedule of the
description's rule falls on just these days.
-/

namespace Cadence

/-- The number of the Monday with which the week of a day begins. -/
def Day.monday (x : Day) : Int := (x.ordinal : Int) - x.weekday.index

/-- The months of all years, numbered in order. -/
def Day.monthNumber (x : Day) : Nat := x.year * 12 + x.month

namespace Description

variable {d : Description} {p : Int} {x : Day}

/-- The weekdays of a weekly recurrence: those selected, or that of the start. -/
def weekdays (d : Description) : List Weekday :=
  if d.selectedDays = [] then [d.start.day.weekday] else d.selectedDays

/-- A day has the weekday of the start and, in its month, the position of the start. -/
def SharesPosition (d : Description) (x : Day) : Prop :=
  x.weekday = d.start.day.weekday ∧ ∃ p ∈ d.start.day.weekdayPosition?, x.HasPosition p

instance (d : Description) (x : Day) : Decidable (d.SharesPosition x) := inferInstanceAs (Decidable (_ ∧ _))

/-- A recurrence falls on a day from its start on, whatever its end. -/
def FallsOn (d : Description) (x : Day) : Prop :=
  match d.pattern with
  | .day => d.every ∣ (x.ordinal : Int) - d.start.day.ordinal
  | .week => 7 * d.every ∣ x.monday - d.start.day.monday ∧ x.weekday ∈ d.weekdays
  | .month => d.every ∣ (x.monthNumber : Int) - d.start.day.monthNumber ∧
      match d.monthlyOption with
      | .day => x.day = d.start.day.day
      | .weekday => d.SharesPosition x
  | .year => d.every ∣ (x.year : Int) - d.start.day.year ∧ x.month = d.start.day.month ∧
      match d.yearlyOption with
      | .date => x.day = d.start.day.day
      | .weekday => d.SharesPosition x

instance (d : Description) (x : Day) : Decidable (d.FallsOn x) := by
  unfold FallsOn
  split
  · infer_instance
  · infer_instance
  · split <;> infer_instance
  · split <;> infer_instance

/-- A day is not after the day of the end, if the recurrence has one. -/
def Includes (d : Description) (x : Day) : Prop := d.hasEnd = true → ∀ e ∈ d.finish, x.ordinal ≤ e.day.ordinal

instance (d : Description) (x : Day) : Decidable (d.Includes x) := inferInstanceAs (Decidable (_ → _))

/-- The days of a recurrence in order. -/
def calendar (d : Description) : List Day :=
  (Day.upFrom d.start.day.ordinal).filter fun x => decide (d.FallsOn x ∧ d.Includes x)

/-- The timestamps of a recurrence: its days at the start's time of day. -/
def timestamps (d : Description) : List Stamp := d.calendar.map fun x => { d.start with day := x }

theorem weekdays_ne_nil (d : Description) : d.weekdays ≠ [] := by
  unfold weekdays
  split
  · exact List.cons_ne_nil _ _
  · assumption

/-! ### The fields of the schedule -/

theorem sortedSet_singleton (n : Int) : Schedule.sortedSet [n] = [n] := by simp [Schedule.sortedSet]

theorem months_schedule (d : Description) (p : Int) :
    (d.schedule p).months = if d.pattern = .year then [(d.start.day.month : Int)] else [] := by
  cases pattern : d.pattern <;>
    simp [schedule, Schedule.ofImportable, Schedule.monthsOf, RuleFields.spec, pattern, Pattern.rate,
      Schedule.sortedSet_nil, sortedSet_singleton]

theorem monthDays_schedule (d : Description) (p : Int) :
    (d.schedule p).monthDays = if d.fields.isDated then [(d.start.day.day : Int)] else [] := by
  have pos := d.start.day.day_bounds.1
  have kept : ¬ d.start.day.day = 0 := by omega
  cases pattern : d.pattern with
  | day | week =>
    simp [schedule, Schedule.ofImportable, Schedule.monthDaysOf, RuleFields.spec, RuleFields.isDated, pattern,
      Pattern.rate, Schedule.sortedSet_nil]
  | month =>
    cases option : d.monthlyOption <;>
      simp [schedule, Schedule.ofImportable, Schedule.monthDaysOf, Schedule.namesDays, RuleFields.spec, RuleFields.isDated,
        RuleFields.isPlaced, pattern, option, Pattern.rate, Schedule.sortedSet_nil, sortedSet_singleton, kept]
  | year =>
    cases option : d.yearlyOption <;>
      simp [schedule, Schedule.ofImportable, Schedule.monthDaysOf, Schedule.namesDays, RuleFields.spec, RuleFields.isDated,
        RuleFields.isPlaced, pattern, option, Pattern.rate, Schedule.sortedSet_nil, sortedSet_singleton, kept]

/-- The weekdays of a weekly rule as they are written. -/
theorem weekdaysOf_schedule (d : Description) (p : Int) :
    Schedule.weekdaysOf (d.fields.spec d.every.toNat p) d.pattern.rate d.start =
      if d.fields.isPlaced then [(d.start.day.weekday, some p)]
      else if d.pattern = .week then
        (if Weekday.sorted d.selectedDays = [] then [d.start.day.weekday] else Weekday.sorted d.selectedDays).map
          fun w => (w, none)
      else [] := by
  by_cases placed : d.fields.isPlaced = true
  · simp [Schedule.weekdaysOf, RuleFields.spec, placed]
  · have placed : d.fields.isPlaced = false := by simpa using placed
    cases pattern : d.pattern with
    | day | month | year => simp [Schedule.weekdaysOf, RuleFields.spec, placed, pattern, Pattern.rate]
    | week =>
      by_cases selected : Weekday.sorted d.selectedDays = [] <;>
        simp [Schedule.weekdaysOf, Schedule.namesDays, RuleFields.spec, RuleFields.isDated, placed, pattern,
          Pattern.rate, selected]

theorem plainWeekdays_map (frequency : Frequency) (days : List Weekday) :
    Schedule.plainWeekdays frequency (days.map fun w => (w, none)) = days := by
  unfold Schedule.plainWeekdays
  rw [List.filterMap_map]
  exact List.filterMap_some

theorem mem_weekdays_schedule {w : Weekday} (week : d.pattern = .week) : w ∈ (d.schedule p).weekdays ↔ w ∈ d.weekdays := by
  have unplaced : d.fields.isPlaced = false := by simp [RuleFields.isPlaced, week]
  have none : Weekday.sorted d.selectedDays = [] ↔ d.selectedDays = [] := by
    simp [List.eq_nil_iff_forall_not_mem, Weekday.mem_sorted]
  show w ∈ Schedule.plainWeekdays d.pattern.rate _ ↔ _
  rw [weekdaysOf_schedule, unplaced, if_neg (by simp), if_pos week, plainWeekdays_map, weekdays]
  by_cases selected : d.selectedDays = []
  · rw [if_pos (none.mpr selected), if_pos selected]
  · rw [if_neg (mt none.mp selected), if_neg selected, Weekday.mem_sorted]

theorem weekdays_schedule (other : d.pattern ≠ .week) : (d.schedule p).weekdays = [] := by
  show Schedule.plainWeekdays d.pattern.rate _ = _
  rw [weekdaysOf_schedule, if_neg other]
  cases pattern : d.pattern with
  | week => exact absurd pattern other
  | day => simp [RuleFields.isPlaced, pattern, Schedule.plainWeekdays]
  | month | year => by_cases placed : d.fields.isPlaced = true <;> simp [placed, Schedule.plainWeekdays, Pattern.rate]

theorem nthWeekdays_schedule (d : Description) (p : Int) :
    (d.schedule p).nthWeekdays = if d.fields.isPlaced then [(d.start.day.weekday, p)] else [] := by
  show Schedule.placedWeekdays d.pattern.rate _ = _
  rw [weekdaysOf_schedule]
  by_cases placed : d.fields.isPlaced = true
  · cases pattern : d.pattern with
    | day | week => simp [RuleFields.isPlaced, pattern] at placed
    | month | year => simp [placed, Schedule.placedWeekdays, Pattern.rate]
  · rw [if_neg placed, if_neg placed]
    by_cases week : d.pattern = .week <;> simp [week, Schedule.placedWeekdays, Pattern.rate]

/-! ### The days of the schedule -/

theorem isPlain_schedule (d : Description) (p : Int) : (d.schedule p).IsPlain where
  long := Pattern.isTimed_rate d.pattern
  every_pos := Nat.le_max_left _ _
  count := rfl
  setPositions := rfl
  weekNumbers := rfl
  yearDays := rfl
  easterDays := rfl
  times := rfl
  whole := rfl
  placed := by
    intro notYearly notMonthly
    have unplaced : d.fields.isPlaced = false := by
      cases pattern : d.pattern with
      | day | week => simp [RuleFields.isPlaced, pattern]
      | month => exact absurd (by rw [schedule, Schedule.ofImportable, pattern]; rfl) notMonthly
      | year => exact absurd (by rw [schedule, Schedule.ofImportable, pattern]; rfl) notYearly
    rw [nthWeekdays_schedule, unplaced]
    rfl

/-- Positions are counted in the month of the day, or in the start's. -/
theorem countsIn_schedule (placed : d.fields.isPlaced = true) (x : Day) :
    (d.schedule p).countsIn x (if d.pattern = .month then x.month else d.start.day.month) := by
  cases pattern : d.pattern with
  | day | week => simp [RuleFields.isPlaced, pattern] at placed
  | month => exact Or.inl ⟨by rw [schedule, Schedule.ofImportable, pattern]; rfl, rfl⟩
  | year => exact Or.inr ⟨by rw [schedule, Schedule.ofImportable, pattern]; rfl, by rw [months_schedule, pattern]; rfl⟩

section Makes
variable (makes : d.MakesRule p)
include makes

theorem position_bounds (placed : d.fields.isPlaced = true) : (p = -1 ∨ 1 ≤ p) ∧ p ≤ 5 := by
  have bounds : ∀ q ∈ monthPositions, (q = -1 ∨ 1 ≤ q) ∧ q ≤ 5 := by decide
  exact bounds p (RuleFields.mem_monthPositions (makes.placed placed))

theorem counts_schedule (x : Day) : (d.schedule p).counts x = true := by
  unfold Schedule.counts
  by_cases placed : d.fields.isPlaced = true
  · have nth : (d.schedule p).nthWeekdays = [(d.start.day.weekday, p)] := by rw [nthWeekdays_schedule, if_pos placed]
    obtain ⟨low, high⟩ := position_bounds makes placed
    have month : 1 ≤ (if d.pattern = .month then x.month else d.start.day.month) ∧
        (if d.pattern = .month then x.month else d.start.day.month) ≤ 12 := by
      split
      · exact x.month_bounds
      · exact d.start.day.month_bounds
    obtain ⟨places, found⟩ := Schedule.placesAt_isOk nth low high (countsIn_schedule placed x) month.1 month.2
    rw [found]
    rfl
  · have none : (d.schedule p).nthWeekdays = [] := by rw [nthWeekdays_schedule, if_neg placed]
    rw [Schedule.placesAt, RuleYear.nthPlaces, none]
    rfl

/-- Where the rule has a position, it admits the days that share it with the start. -/
theorem places_iff (placed : d.fields.isPlaced = true) (month : d.pattern = .year → x.month = d.start.day.month)
    {places : List Nat} (found : (d.schedule p).placesAt x = .ok places) :
    places.contains (x.ordinal - (daysBeforeYear x.year + 1)) = true ↔ d.SharesPosition x := by
  have nth : (d.schedule p).nthWeekdays = [(d.start.day.weekday, p)] := by rw [nthWeekdays_schedule, if_pos placed]
  obtain ⟨low, high⟩ := position_bounds makes placed
  have counted : (d.schedule p).countsIn x x.month := by
    have h := countsIn_schedule (p := p) placed x
    cases pattern : d.pattern with
    | day | week => simp [RuleFields.isPlaced, pattern] at placed
    | month => rwa [pattern, if_pos rfl] at h
    | year => rwa [pattern, if_neg (by decide), ← month pattern] at h
  rw [Schedule.placesAt_contains_iff nth low high counted found, SharesPosition, makes.placed placed]
  simp

omit makes in
theorem onPhase_iff_dvd {s : Schedule} {e : Day} (later : e.ordinal ≤ x.ordinal) :
    s.onPhase e x = true ↔ (s.every : Int) ∣ (s.periodOf x : Int) - s.periodOf e := by
  have le := Schedule.periodOf_mono (s := s) later
  rw [Schedule.onPhase, decide_eq_true_eq, ← Int.ofNat_sub le, Int.natCast_dvd_natCast, Nat.dvd_iff_mod_eq_zero]

theorem every_schedule : ((d.schedule p).every : Int) = d.every := by
  have pos := makes.every_pos
  show ((max 1 (d.every.toNat : Int).toNat : Nat) : Int) = d.every
  omega

/-- The schedule's periods are as far from the start as the calendar says. -/
theorem onPhase_schedule_iff (later : d.start.day.ordinal ≤ x.ordinal) :
    (d.schedule p).onPhase d.start.day x = true ↔
      match d.pattern with
      | .day => d.every ∣ (x.ordinal : Int) - d.start.day.ordinal
      | .week => 7 * d.every ∣ x.monday - d.start.day.monday
      | .month => d.every ∣ (x.monthNumber : Int) - d.start.day.monthNumber
      | .year => d.every ∣ (x.year : Int) - d.start.day.year := by
  have frequency : (d.schedule p).frequency = d.pattern.rate := rfl
  rw [onPhase_iff_dvd later, every_schedule makes]
  cases pattern : d.pattern with
  | day | year => simp only [Schedule.periodOf, frequency, pattern, Pattern.rate]
  | week =>
    have period : ∀ y, (d.schedule p).periodOf y = (y.ordinal + 6) / 7 := by
      intro y
      simp only [Schedule.periodOf, frequency, pattern, Pattern.rate]
      rfl
    have weeks : x.monday - d.start.day.monday =
        7 * ((((x.ordinal + 6) / 7 : Nat) : Int) - ((d.start.day.ordinal + 6) / 7 : Nat)) := by
      simp only [Day.monday, Schedule.index_weekday]
      omega
    rw [period, period, weeks, Int.mul_dvd_mul_iff_left (by decide)]
  | month =>
    have months : ((d.schedule p).periodOf x : Int) - (d.schedule p).periodOf d.start.day =
        (x.monthNumber : Int) - d.start.day.monthNumber := by
      have := x.month_bounds
      have := d.start.day.month_bounds
      simp only [Schedule.periodOf, frequency, pattern, Pattern.rate, Day.monthNumber]
      omega
    rw [months]

/-- The schedule admits the days that have what the fields name. -/
theorem admits_schedule_iff :
    (d.schedule p).admitsAt x = true ↔
      (d.pattern = .year → x.month = d.start.day.month) ∧ (d.pattern = .week → x.weekday ∈ d.weekdays) ∧
        (d.fields.isPlaced = true → d.SharesPosition x) ∧ (d.fields.isDated = true → x.day = d.start.day.day) := by
  obtain ⟨places, found⟩ : ∃ places, (d.schedule p).placesAt x = .ok places := by
    have counts := counts_schedule makes x
    cases found : (d.schedule p).placesAt x with
    | error f => simp [Schedule.counts, found, Except.isOk, Except.toBool] at counts
    | ok places => exact ⟨places, rfl⟩
  have months : ((d.schedule p).months.isEmpty || (d.schedule p).months.contains (x.month : Int)) = true ↔
      (d.pattern = .year → x.month = d.start.day.month) := by
    by_cases year : d.pattern = .year
    · simp [months_schedule, year, Int.ofNat_inj]
    · simp [months_schedule, year]
  have weekdays : ((d.schedule p).weekdays.isEmpty || (d.schedule p).weekdays.contains x.weekday) = true ↔
      (d.pattern = .week → x.weekday ∈ d.weekdays) := by
    by_cases week : d.pattern = .week
    · obtain ⟨w, member⟩ := List.exists_mem_of_ne_nil d.weekdays (weekdays_ne_nil d)
      have named : (d.schedule p).weekdays ≠ [] := List.ne_nil_of_mem ((mem_weekdays_schedule week).mpr member)
      simp [named, week, mem_weekdays_schedule week]
    · simp [weekdays_schedule week, week]
  have monthDays : ((d.schedule p).monthDays.isEmpty || (d.schedule p).monthDays.contains (x.day : Int) ||
      (d.schedule p).monthDays.contains ((x.day : Int) - daysInMonth x.year x.month - 1)) = true ↔
      (d.fields.isDated = true → x.day = d.start.day.day) := by
    have := x.day_bounds
    have := d.start.day.day_bounds
    by_cases dated : d.fields.isDated = true <;> simp [monthDays_schedule, dated]
    omega
  have nth : (d.pattern = .year → x.month = d.start.day.month) →
      (((d.schedule p).nthWeekdays.isEmpty || places.contains (x.ordinal - (daysBeforeYear x.year + 1))) = true ↔
        (d.fields.isPlaced = true → d.SharesPosition x)) := by
    intro month
    by_cases placed : d.fields.isPlaced = true
    · have := places_iff makes placed month found
      rw [nthWeekdays_schedule, if_pos placed, List.isEmpty_cons, Bool.false_or, this]
      exact ⟨fun shares _ => shares, fun shares => shares placed⟩
    · simp [nthWeekdays_schedule, placed]
  have admits : (d.schedule p).admitsAt x = (d.schedule p).admitsDay places x := by
    simp [Schedule.admitsAt, found, Except.toOption]
  rw [admits, Schedule.admitsDay, Bool.and_eq_true, Bool.and_eq_true, Bool.and_eq_true, months, weekdays, monthDays]
  constructor
  · rintro ⟨⟨⟨month, week⟩, place⟩, day⟩
    exact ⟨month, week, (nth month).mp place, day⟩
  · rintro ⟨month, week, place, day⟩
    exact ⟨⟨⟨month, week⟩, (nth month).mpr place⟩, day⟩

/-- The schedule falls on the days of the calendar. -/
theorem falls_iff (later : d.start.day.ordinal ≤ x.ordinal) :
    (d.schedule p).onPhase d.start.day x = true ∧ (d.schedule p).admitsAt x = true ↔ d.FallsOn x := by
  rw [onPhase_schedule_iff makes later, admits_schedule_iff makes, FallsOn]
  cases pattern : d.pattern with
  | day | week => simp [RuleFields.isPlaced, RuleFields.isDated, pattern]
  | month => cases option : d.monthlyOption <;> simp [RuleFields.isPlaced, RuleFields.isDated, pattern, option]
  | year => cases option : d.yearlyOption <;> simp [RuleFields.isPlaced, RuleFields.isDated, pattern, option]

end Makes

/-! ### The end of the schedule -/

section Local
variable (loc : d.IsLocal)
include loc

theorem start_schedule (p : Int) : (d.schedule p).start = d.start := Stamp.wholeSecond_eq_self loc.whole

/-- The schedule ends with the day of the end. -/
theorem within_schedule_iff : (d.schedule p).within x = true ↔ d.Includes x := by
  have finish : (d.schedule p).finish = d.lastSecond?.map (·.plain) := rfl
  rw [Schedule.within, finish, Includes, lastSecond?]
  cases ends : d.hasEnd with
  | false => simp
  | true =>
    cases found : d.finish with
    | none => simp
    | some e =>
      obtain ⟨zone, -⟩ := loc.finish e ends found
      have close : e.dayClose.plain = e.dayClose := Stamp.plain_eq_self zone rfl
      have late : e.dayClose.before ((d.schedule p).stampOn x) = true ↔ e.day.ordinal < x.ordinal := by
        refine Stamp.dayClose_before_iff ?_ ?_
        · rw [zone, Schedule.stampOn, Schedule.stampAt, start_schedule loc, loc.zone]
        · rw [Schedule.stampOn, Schedule.stampAt, start_schedule loc, loc.whole]
      simp only [if_true, Option.map_some, close, Option.all_some, Bool.not_eq_true', ← Bool.not_eq_true, late,
        Option.mem_some_iff, forall_eq', forall_const, Nat.not_lt]

/-- The dates of the schedule are the days of the recurrence. -/
theorem dates_schedule (makes : d.MakesRule p) : (d.schedule p).dates = d.calendar := by
  have all : (d.schedule p).visits.takeWhile (d.schedule p).counts = (d.schedule p).visits := by
    rw [takeWhile_eq_filter (List.Pairwise.imp (fun _ _ => counts_schedule makes _) (d.schedule p).pairwise_visits)]
    exact List.filter_eq_self.mpr fun x _ => counts_schedule makes x
  rw [Schedule.dates, all, Schedule.visits, start_schedule loc, List.filter_filter, List.filter_filter, calendar]
  refine List.filter_congr fun x member => ?_
  rw [Bool.eq_iff_iff, Bool.and_eq_true, Bool.and_eq_true, within_schedule_iff loc, decide_eq_true_eq,
    ← falls_iff makes (Day.mem_upFrom.mp member)]
  constructor
  · rintro ⟨⟨inside, admits⟩, phase⟩
    exact ⟨⟨phase, admits⟩, inside⟩
  · rintro ⟨⟨phase, admits⟩, inside⟩
    exact ⟨⟨inside, admits⟩, phase⟩

theorem toList_trace_schedule (makes : d.MakesRule p) : (d.schedule p).trace.toList.1 = d.timestamps := by
  rw [Schedule.toList_trace_fst (isPlain_schedule d p), dates_schedule loc makes, timestamps]
  refine List.map_congr_left fun x _ => ?_
  rw [Schedule.stampOn, start_schedule loc]
  simp only [Schedule.stampAt, start_schedule loc]

end Local

end Description

end Cadence
