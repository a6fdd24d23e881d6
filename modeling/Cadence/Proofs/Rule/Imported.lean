import Cadence.Proofs.Rule.Built
import Cadence.Proofs.Rule.Moved

/-!
# Plain rules of a pattern

A plain rule that has no parts but importable ones is evaluated as one schedule, whatever its start is. What
the rule leaves to its start stays the same when it is started at one of its own timestamps.
-/

namespace Cadence

namespace RuleText

variable {r : RuleText} {today start : Stamp} {pattern : Pattern} {recurrence : Recurrence}

/-- A plain rule with importable parts only, in the frequency of a pattern. -/
structure IsPatterned (r : RuleText) (pattern : Pattern) : Prop where
  plain : ArePlain r.parts
  importable : r.IsImportable
  frequency : r.get? .freq = some pattern.frequency

theorem IsPatterned.inOrder_ne_nil (patterned : r.IsPatterned pattern) : r.inOrder RuleKey.all ≠ [] :=
  List.ne_nil_of_mem (a := (.freq, pattern.frequency)) (mem_inOrder.mpr ⟨RuleKey.mem_all .freq, patterned.frequency⟩)

theorem IsPatterned.frequency_eq (patterned : r.IsPatterned pattern) {spec : RuleSpec}
    (reads : RuleSpec.ReadFrom today r spec) : spec.frequency = some pattern.rate := by
  have frequency := reads.frequency
  rw [patterned.frequency, Option.map_some, Pattern.ofName?_frequency] at frequency
  cases read : spec.frequency with
  | none =>
    rw [read] at frequency
    cases frequency
  | some rate =>
    rw [read] at frequency
    exact Option.some.inj frequency.symm

end RuleText

/-! ### The schedule -/

namespace Schedule

variable {spec : RuleSpec} {start t : Stamp} {frequency : Frequency} {s : Schedule}

/-- A rule with an end needs a start without a zone. -/
theorem of_eq_ok (importable : spec.IsImportable) (named : spec.frequency = some frequency)
    (long : frequency.isTimed = false) : Schedule.of spec start = .ok s ↔
      (spec.finish.isSome = true → start.zone = none) ∧ s = ofImportable spec frequency start := by
  by_cases zone : spec.finish.isSome = true → start.zone = none
  · rw [of_importable importable named long zone, Except.ok.injEq]
    constructor
    · rintro rfl
      exact ⟨zone, rfl⟩
    · rintro ⟨-, rfl⟩
      rfl
  · have refused : (spec.finish.isSome && start.wholeSecond.zone.isSome) = true := by
      obtain ⟨ends, zoned⟩ := Classical.not_imp.mp zone
      rw [ends, Bool.true_and]
      cases zone : start.zone with
      | none => exact absurd zone zoned
      | some z => simp [Stamp.wholeSecond, zone]
    constructor
    · intro made
      unfold Schedule.of at made
      simp only [named, refused, if_true, bind, Except.bind] at made
      cases made
    · rintro ⟨fits, -⟩
      exact absurd fits zone

/-- Positions count in months and years only. -/
theorem placedWeekdays_eq_nil (notYearly : frequency ≠ .yearly) (notMonthly : frequency ≠ .monthly)
    (items : List NthWeekday) : placedWeekdays frequency items = [] := by
  simp [placedWeekdays, notYearly, notMonthly]

theorem isPlain_ofImportable (spec : RuleSpec) (long : frequency.isTimed = false) (start : Stamp) :
    (ofImportable spec frequency start).IsPlain where
  long := long
  every_pos := Nat.le_max_left _ _
  count := rfl
  setPositions := rfl
  weekNumbers := rfl
  yearDays := rfl
  easterDays := rfl
  times := rfl
  whole := rfl
  placed notYearly notMonthly := placedWeekdays_eq_nil notYearly notMonthly _

/-! ### Another start -/

theorem admits_of_admitsAt {x : Day} (admitted : s.admitsAt x = true) :
    (s.months.isEmpty || s.months.contains (x.month : Int)) = true ∧
      (s.weekdays.isEmpty || s.weekdays.contains x.weekday) = true ∧
      (s.monthDays.isEmpty || s.monthDays.contains (x.day : Int) ||
        s.monthDays.contains ((x.day : Int) - daysInMonth x.year x.month - 1)) = true := by
  cases places : s.placesAt x with
  | error f => simp [admitsAt, places, Except.toOption] at admitted
  | ok found =>
    have admitted : s.admitsDay found x = true := by simpa [admitsAt, places, Except.toOption] using admitted
    unfold admitsDay at admitted
    simp only [Bool.and_eq_true] at admitted
    exact ⟨admitted.1.1.1, admitted.1.1.2, admitted.2⟩

section Found
variable {x : Day} (admitted : (ofImportable spec frequency start).admitsAt x = true) (clock : Clock) (zone : Option Int)
include admitted

theorem monthsOf_found : monthsOf spec frequency { day := x, clock, zone } = monthsOf spec frequency start := by
  have months := (admits_of_admitsAt admitted).1
  have same : (ofImportable spec frequency start).months = sortedSet (monthsOf spec frequency start) := rfl
  rw [same] at months
  unfold monthsOf at months ⊢
  cases named : spec.months with
  | some months => rfl
  | none =>
    rw [named, Option.getD_none] at months
    rw [Option.getD_none, Option.getD_none]
    split
    · rename_i free
      rw [if_pos free] at months
      have month : (x.month : Int) = start.day.month := by simpa [sortedSet] using months
      rw [month]
    · rfl

theorem monthDaysOf_found : monthDaysOf spec frequency { day := x, clock, zone } = monthDaysOf spec frequency start := by
  have days := (admits_of_admitsAt admitted).2.2
  have same : (ofImportable spec frequency start).monthDays =
      (sortedSet (monthDaysOf spec frequency start)).filter (· ≠ 0) := rfl
  rw [same] at days
  unfold monthDaysOf at days ⊢
  cases named : spec.monthDays with
  | some days => rfl
  | none =>
    rw [named, Option.getD_none] at days
    rw [Option.getD_none, Option.getD_none]
    split
    · rename_i free
      rw [if_pos free] at days
      have bounds := start.day.day_bounds
      have inside := x.day_bounds
      have kept : ¬ start.day.day = 0 := by omega
      have day : (x.day : Int) = start.day.day := by
        have days : (x.day : Int) = start.day.day ∨ (x.day : Int) - daysInMonth x.year x.month - 1 = start.day.day := by
          simpa [sortedSet, kept] using days
        omega
      rw [day]
    · rfl

theorem weekdaysOf_found : weekdaysOf spec frequency { day := x, clock, zone } = weekdaysOf spec frequency start := by
  have days := (admits_of_admitsAt admitted).2.1
  have same : (ofImportable spec frequency start).weekdays = plainWeekdays frequency (weekdaysOf spec frequency start) := rfl
  rw [same] at days
  unfold weekdaysOf at days ⊢
  cases named : spec.weekdays with
  | some days => rfl
  | none =>
    rw [named, Option.getD_none] at days
    rw [Option.getD_none, Option.getD_none]
    split
    · rename_i free
      rw [if_pos free] at days
      have day : x.weekday = start.day.weekday := by simpa [plainWeekdays] using days
      rw [day]
    · rfl

end Found

/-- The schedule of a rule from one of its own timestamps is that from its start, started there. -/
theorem ofImportable_found (long : frequency.isTimed = false)
    (found : t ∈ (ofImportable spec frequency start).trace.toList.1) :
    ofImportable spec frequency t = (ofImportable spec frequency start).startingAt t := by
  rw [toList_trace_fst (isPlain_ofImportable spec long start)] at found
  obtain ⟨x, member, rfl⟩ := List.mem_map.mp found
  have admitted := (List.mem_filter.mp (List.mem_filter.mp member).1).2
  have months := monthsOf_found admitted start.clock.wholeSecond start.zone
  have monthDays := monthDaysOf_found admitted start.clock.wholeSecond start.zone
  have weekdays := weekdaysOf_found admitted start.clock.wholeSecond start.zone
  have stamp : (ofImportable spec frequency start).stampOn x = ⟨x, start.clock.wholeSecond, start.zone⟩ := rfl
  rw [stamp]
  conv => lhs; unfold ofImportable
  rw [months, monthDays, weekdays]
  rfl

/-- From its own start or from one of its own timestamps on, a rule has its timestamps from there on. -/
theorem toList_trace_ofImportable (long : frequency.isTimed = false)
    (found : t = start ∨ t ∈ (ofImportable spec frequency start).trace.toList.1) :
    (ofImportable spec frequency t).trace.toList.1 =
      (ofImportable spec frequency start).trace.toList.1.filter (! ·.before t.wholeSecond) := by
  have plain := isPlain_ofImportable spec long start
  rcases found with rfl | found
  · exact (List.filter_eq_self.mpr fun u member => not_before_start member).symm
  · rw [ofImportable_found long found, toList_trace_startingAt plain found]
    have whole : t.wholeSecond = t := by
      rw [toList_trace_fst plain] at found
      obtain ⟨x, -, rfl⟩ := List.mem_map.mp found
      rfl
    rw [whole]

end Schedule

namespace RuleText

variable {r : RuleText} {today start : Stamp} {pattern : Pattern} {recurrence : Recurrence}

/-- What a plain rule of a pattern is evaluated as. -/
theorem IsPatterned.recurrenceFrom_eq_ok (patterned : r.IsPatterned pattern) :
    r.recurrenceFrom today start = .ok recurrence ↔
      ∃ spec, RuleSpec.ReadFrom today r spec ∧ (spec.finish.isSome = true → start.zone = none) ∧
        recurrence = .single (Schedule.ofImportable spec pattern.rate start) := by
  have long := Pattern.isTimed_rate pattern
  rw [recurrenceFrom, Recurrence.read_line patterned.plain patterned.inOrder_ne_nil]
  cases parts : RuleSpec.ofParts today (r.inOrder RuleKey.all) with
  | error e =>
    constructor
    · intro evaluated
      cases e <;> cases evaluated
    · rintro ⟨spec, reads, -⟩
      rw [(RuleSpec.ofParts_eq_ok patterned.importable).mpr reads] at parts
      cases parts
  | ok spec =>
    have reads := (RuleSpec.ofParts_eq_ok patterned.importable).mp parts
    have of (s : Schedule) : Schedule.of spec start = .ok s ↔ (spec.finish.isSome = true → start.zone = none) ∧
        s = Schedule.ofImportable spec pattern.rate start :=
      Schedule.of_eq_ok reads.toIsImportable (patterned.frequency_eq reads) long
    constructor
    · intro evaluated
      cases made : Schedule.of spec start with
      | error e =>
        simp only [Except.bind, made] at evaluated
        cases e <;> cases evaluated
      | ok s =>
        simp only [Except.bind, made] at evaluated
        cases evaluated
        obtain ⟨zone, rfl⟩ := (of s).mp made
        exact ⟨spec, reads, zone, rfl⟩
    · rintro ⟨spec', reads', zone, rfl⟩
      have same := (RuleSpec.ofParts_eq_ok patterned.importable).mpr reads'
      rw [parts] at same
      cases same
      simp only [Except.bind, (of _).mpr ⟨zone, rfl⟩]
      rfl

end RuleText

end Cadence
