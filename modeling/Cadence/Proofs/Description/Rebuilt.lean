import Cadence.Proofs.Description.Imported
import Cadence.Proofs.Description.RoundTrip

/-!
# Texts built anew

Where the rule that the fields make has the restrictions of the imported one, its text stands in for the
imported text. This keeps the schedule as long as the imported rule names nothing that the comparison does
not look at.
-/

namespace Cadence

theorem perm_of_mergeSort_eq {α : Type} {le : α → α → Bool} {l l' : List α} (same : l.mergeSort le = l'.mergeSort le) :
    l.Perm l' := (List.mergeSort_perm l le).symm.trans (same ▸ List.mergeSort_perm l' le)

namespace RuleText

variable {r other : RuleText} {key : RuleKey}

theorem perm_of_sortedIntegers_eq (same : r.sortedIntegers key = other.sortedIntegers key) :
    (r.integers key).Perm (other.integers key) := perm_of_mergeSort_eq same

theorem perm_of_weekdayKeys_eq (same : r.weekdayKeys = other.weekdayKeys) :
    (r.weekdays.map fun (item : WeekdayItem) => (item.1.getD 0, item.2.index)).Perm
      (other.weekdays.map fun (item : WeekdayItem) => (item.1.getD 0, item.2.index)) := perm_of_mergeSort_eq same

theorem sameConstraints_iff : r.sameConstraints other = true ↔
    (r.has .byMonthDay = true → r.sortedIntegers .byMonthDay = other.sortedIntegers .byMonthDay) ∧
      (r.has .byMonth = true → r.sortedIntegers .byMonth = other.sortedIntegers .byMonth) ∧
      (r.has .byDay = true → r.weekdayKeys = other.weekdayKeys) := by
  unfold sameConstraints
  cases r.has .byMonthDay <;> cases r.has .byMonth <;> cases r.has .byDay <;> simp [and_assoc]

end RuleText

/-- A rule restricts its days to those of a description's own rule, as far as it restricts them. -/
structure RuleSpec.Follows (spec : RuleSpec) (d : Description) (p : Int) : Prop where
  months : ∀ l, spec.months = some l → d.pattern = .year ∧ l = [(d.start.day.month : Int)]
  monthDays : ∀ l, spec.monthDays = some l → d.fields.isDated = true ∧ l = [(d.start.day.day : Int)]
  named : spec.weekdays ≠ some []
  placed : d.fields.isPlaced = true → spec.weekdays = some [(d.start.day.weekday, some p)]
  unplaced : d.fields.isPlaced = false → d.pattern ≠ .week → spec.weekdays = none
  week : d.pattern = .week → d.selectedDays = Weekday.sorted ((spec.weekdays.getD []).map (·.1))

namespace RuleText

variable {r other : RuleText} {today : Stamp} {spec : RuleSpec} {d : Description} {p : Int} {n : Nat}

/-- A list of numbers that has the one number of another list, if any, and is not empty. -/
theorem numbers_of_sorted {numbers : Option (List Int)} {c : Prop} [Decidable c] {k : Nat} {l : List Int}
    (read : (r.get? key).map RuleSpec.integers? = numbers.map some)
    (same : r.has key = true → r.sortedIntegers key = other.sortedIntegers key)
    (integers : other.integers key = if c then [(k : Int)] else []) (named : numbers = some l) : c ∧ l = [(k : Int)] := by
  have has : r.has key = true := by
    rw [has_eq_isSome read, named]
    rfl
  have own : r.integers key = l := by
    rw [integers_eq read, named]
    rfl
  have perm := perm_of_sortedIntegers_eq (same has)
  rw [own, integers] at perm
  split at perm
  · rename_i holds
    exact ⟨holds, List.perm_singleton.mp perm⟩
  · exact absurd (List.perm_nil.mp perm) (ne_nil_of_mapM read named)

/-- The pattern's options come from the weekdays of the rule. -/
theorem isPlaced_iff (repetition : d.toRepetition = r.repetition d.pattern) :
    d.fields.isPlaced = true ↔ (d.pattern = .month ∨ d.pattern = .year) ∧ r.weekdays ≠ [] := by
  unfold RuleText.repetition at repetition
  unfold RuleFields.isPlaced
  rw [Description.fields_pattern, Description.fields_monthlyOption, Description.fields_yearlyOption]
  cases pattern : d.pattern with
  | day | week => simp
  | month =>
    rw [pattern] at repetition
    have option := congrArg Repetition.monthlyOption repetition
    by_cases none : r.weekdays = [] <;> simp [option, none]
  | year =>
    rw [pattern] at repetition
    have option := congrArg Repetition.yearlyOption repetition
    by_cases none : r.weekdays = [] <;> simp [option, none]

section Follows
variable (reads : RuleSpec.ReadFrom today r spec) (checked : r.checkWeekdays = .ok ())
include reads checked

theorem weekdays_eq_nil_iff : r.weekdays = [] ↔ spec.weekdays = none := by
  rw [weekdays_eq checked reads.weekdays, List.map_eq_nil_iff]
  cases named : spec.weekdays with
  | none => simp
  | some l => simp [ne_nil_of_mapM reads.weekdays named]

/-- A rule with weekdays has just the one at the start's position, if that is what the fields restrict it to. -/
theorem weekdays_of_placed (sound : d.fields.IsSound n p) (placed : d.fields.isPlaced = true) (named : r.weekdays ≠ [])
    (same : r.has .byDay = true → r.weekdayKeys = other.weekdayKeys) (alike : SameParts other (d.fields.ruleOf p)) :
    spec.weekdays = some [(d.start.day.weekday, some p)] := by
  cases found : spec.weekdays with
  | none => exact absurd ((weekdays_eq_nil_iff reads checked).mpr found) named
  | some l =>
    have own : r.weekdays = l.map fun item => (item.2, item.1) := by
      rw [weekdays_eq checked reads.weekdays, found]
      rfl
    have has : r.has .byDay = true := by
      rw [has_eq_isSome reads.weekdays, found]
      rfl
    have perm := perm_of_weekdayKeys_eq (same has)
    rw [alike.weekdays_eq, RuleFields.weekdays_ruleOf sound, if_pos placed] at perm
    obtain ⟨⟨q, w⟩, only, keys⟩ := List.map_eq_singleton_iff.mp (List.perm_singleton.mp perm)
    obtain ⟨position, index⟩ := Prod.mk.inj keys
    obtain rfl := Weekday.index_injective index
    have member : (q, d.fields.start.day.weekday) ∈ r.weekdays := by
      rw [only]
      exact List.mem_cons_self
    have nonzero := position_ne_zero checked member
    have bounds : ∀ q ∈ monthPositions, q ≠ 0 := by decide
    have away := bounds p (RuleFields.mem_monthPositions (sound.placed placed))
    cases q with
    | none => exact absurd position.symm away
    | some q =>
      obtain rfl : q = p := position
      rw [own] at only
      obtain ⟨⟨w, q'⟩, single, swapped⟩ := List.map_eq_singleton_iff.mp only
      obtain ⟨rfl, rfl⟩ := Prod.mk.inj swapped
      rw [single]
      rfl

/-- What the comparison of two rules and the options that are read from one of them say about it. -/
theorem follows_of_sameConstraints (sound : d.fields.IsSound n p) (repetition : d.toRepetition = r.repetition d.pattern)
    (same : r.sameConstraints other = true) (alike : SameParts other (d.fields.ruleOf p)) : spec.Follows d p := by
  obtain ⟨monthDays, months, weekdays⟩ := sameConstraints_iff.mp same
  have bounds := d.start.day.parts_lt
  have none := weekdays_eq_nil_iff reads checked
  exact {
    months := fun l named => numbers_of_sorted reads.months months (by
      rw [alike.integers_eq]
      exact RuleFields.integers_of_ofNat (RuleFields.get?_ruleOf d.fields p .byMonth) (by omega)) named
    monthDays := fun l named => numbers_of_sorted reads.monthDays monthDays (by
      rw [alike.integers_eq]
      exact RuleFields.integers_of_ofNat (RuleFields.get?_ruleOf d.fields p .byMonthDay) (by omega)) named
    named := fun empty => ne_nil_of_mapM reads.weekdays empty rfl
    placed := fun placed =>
      weekdays_of_placed reads checked sound placed ((isPlaced_iff repetition).mp placed).2 weekdays alike
    unplaced := by
      intro unplaced other
      cases found : spec.weekdays with
      | none => rfl
      | some l =>
        have has : r.has .byDay = true := by
          rw [has_eq_isSome reads.weekdays, found]
          rfl
        have perm := perm_of_weekdayKeys_eq (weekdays has)
        rw [alike.weekdays_eq, RuleFields.weekdays_ruleOf sound, if_neg (by simp [unplaced]), Description.fields_pattern,
          if_neg other] at perm
        have empty := none.mp (List.map_eq_nil_iff.mp (List.perm_nil.mp perm))
        rw [found] at empty
        cases empty
    week := by
      intro week
      rw [week] at repetition
      have selected := congrArg Repetition.selectedDays repetition
      have weekly := congrArg Repetition.pattern repetition
      unfold RuleText.repetition at selected weekly
      dsimp only at selected weekly
      split at selected
      · rename_i all
        rw [if_pos all, week] at weekly
        cases weekly
      · rw [weekdays_eq checked reads.weekdays, List.map_map] at selected
        exact selected }

end Follows

end RuleText

/-! ### The schedules -/

namespace Description

variable {d : Description} {spec : RuleSpec} {p : Int} {x : Day}

theorem isDated_eq (d : Description) :
    d.fields.isDated = ((d.pattern = .month ∨ d.pattern = .year) && ! d.fields.isPlaced) := by
  unfold RuleFields.isDated RuleFields.isPlaced
  rw [fields_pattern, fields_monthlyOption, fields_yearlyOption]
  cases d.pattern <;> cases d.monthlyOption <;> cases d.yearlyOption <;> rfl

theorem namesDays_eq (importable : spec.IsImportable) :
    Schedule.namesDays spec = (spec.monthDays.isSome || spec.weekdays.isSome) := by
  unfold Schedule.namesDays
  rw [importable.weekNumbers, importable.yearDays, importable.easterDays]
  simp

section Follows
variable (importable : spec.IsImportable) (follows : spec.Follows d p)
include importable follows

theorem months_eq (yearly : d.pattern = .year → spec.months = none → spec.weekdays = none ∧ spec.monthDays = none) :
    (Schedule.ofImportable spec d.pattern.rate d.start).months = (d.schedule p).months := by
  show Schedule.sortedSet (Schedule.monthsOf spec d.pattern.rate d.start) = _
  rw [months_schedule, Schedule.monthsOf, namesDays_eq importable]
  cases named : spec.months with
  | some l =>
    obtain ⟨year, rfl⟩ := follows.months l named
    rw [if_pos year, Option.getD_some, sortedSet_singleton]
  | none =>
    cases pattern : d.pattern with
    | year =>
      obtain ⟨weekdays, monthDays⟩ := yearly pattern named
      rw [weekdays, monthDays]
      exact sortedSet_singleton _
    | day | week | month => simp [Pattern.rate, Schedule.sortedSet_nil]

theorem monthDays_eq : (Schedule.ofImportable spec d.pattern.rate d.start).monthDays = (d.schedule p).monthDays := by
  have pos := d.start.day.day_bounds.1
  have kept : ¬ d.start.day.day = 0 := by omega
  show (Schedule.sortedSet (Schedule.monthDaysOf spec d.pattern.rate d.start)).filter (· ≠ 0) = _
  rw [monthDays_schedule, Schedule.monthDaysOf, namesDays_eq importable]
  cases named : spec.monthDays with
  | some l =>
    obtain ⟨dated, rfl⟩ := follows.monthDays l named
    simp [dated, sortedSet_singleton, kept]
  | none =>
    have dated := isDated_eq d
    cases placed : d.fields.isPlaced with
    | true =>
      rw [placed] at dated
      simp [dated, follows.placed placed, Schedule.sortedSet_nil]
    | false =>
      rw [placed] at dated
      cases pattern : d.pattern with
      | day | week => simp [dated, pattern, Pattern.rate, Schedule.sortedSet_nil]
      | month | year =>
        have none := follows.unplaced placed (by simp [pattern])
        simp [dated, pattern, none, Pattern.rate, sortedSet_singleton, kept]

theorem nthWeekdays_eq : (Schedule.ofImportable spec d.pattern.rate d.start).nthWeekdays = (d.schedule p).nthWeekdays := by
  show Schedule.placedWeekdays d.pattern.rate (Schedule.weekdaysOf spec d.pattern.rate d.start) = _
  rw [nthWeekdays_schedule, Schedule.weekdaysOf, namesDays_eq importable]
  cases placed : d.fields.isPlaced with
  | true =>
    rw [follows.placed placed]
    cases pattern : d.pattern with
    | day | week => simp [RuleFields.isPlaced, pattern] at placed
    | month | year => rfl
  | false =>
    cases pattern : d.pattern with
    | day | week => simp [Pattern.rate, Schedule.placedWeekdays]
    | month | year =>
      have none := follows.unplaced placed (by simp [pattern])
      simp [none, Pattern.rate, Schedule.placedWeekdays]

theorem weekdays_eq_of_not_week (other : d.pattern ≠ .week) :
    (Schedule.ofImportable spec d.pattern.rate d.start).weekdays = (d.schedule p).weekdays := by
  show Schedule.plainWeekdays d.pattern.rate (Schedule.weekdaysOf spec d.pattern.rate d.start) = _
  rw [weekdays_schedule other, Schedule.weekdaysOf, namesDays_eq importable]
  cases placed : d.fields.isPlaced with
  | true =>
    rw [follows.placed placed]
    cases pattern : d.pattern with
    | day | week => simp [RuleFields.isPlaced, pattern] at placed
    | month | year => rfl
  | false =>
    rw [follows.unplaced placed other]
    cases pattern : d.pattern with
    | week => exact absurd pattern other
    | day | month | year => simp [Pattern.rate, Schedule.plainWeekdays]

/-- The weekdays of a weekly rule are those of the description. -/
theorem mem_weekdays_ofImportable {w : Weekday} (week : d.pattern = .week) :
    w ∈ (Schedule.ofImportable spec d.pattern.rate d.start).weekdays ↔ w ∈ d.weekdays := by
  show w ∈ Schedule.plainWeekdays d.pattern.rate (Schedule.weekdaysOf spec d.pattern.rate d.start) ↔ _
  have selected := follows.week week
  have undated : spec.monthDays = none := by
    cases named : spec.monthDays with
    | none => rfl
    | some l =>
      have dated := (follows.monthDays l named).1
      rw [isDated_eq, week] at dated
      simp at dated
  rw [Schedule.weekdaysOf, namesDays_eq importable, undated, weekdays, selected, week]
  cases named : spec.weekdays with
  | none => simp [Pattern.rate, Schedule.plainWeekdays, Weekday.sorted]
  | some l =>
    have all : Schedule.plainWeekdays .weekly l = l.map (·.1) := by simp [Schedule.plainWeekdays]
    have some : ¬ Weekday.sorted (l.map (·.1)) = [] := by
      intro empty
      have nonempty : l ≠ [] := by
        rintro rfl
        exact follows.named named
      obtain ⟨item, l, rfl⟩ := List.exists_cons_of_ne_nil nonempty
      have member : item.1 ∈ Weekday.sorted ((item :: l).map (·.1)) := Weekday.mem_sorted.mpr List.mem_cons_self
      rw [empty] at member
      cases member
    rw [Option.getD_some, Option.getD_some, if_neg some, Weekday.mem_sorted]
    exact iff_of_eq (congrArg (w ∈ ·) all)

section Months
variable (yearly : d.pattern = .year → spec.months = none → spec.weekdays = none ∧ spec.monthDays = none)
include yearly

/-- The schedules find the same places for weekdays at positions. -/
theorem placesAt_eq : (Schedule.ofImportable spec d.pattern.rate d.start).placesAt x = (d.schedule p).placesAt x := by
  have frequency : (Schedule.ofImportable spec d.pattern.rate d.start).frequency = (d.schedule p).frequency := rfl
  unfold Schedule.placesAt RuleYear.nthPlaces RuleYear.spans
  rw [nthWeekdays_eq importable follows, months_eq importable follows yearly, frequency]

/-- The schedules admit the same days. -/
theorem admitsAt_eq : (Schedule.ofImportable spec d.pattern.rate d.start).admitsAt x = (d.schedule p).admitsAt x := by
  have months := months_eq importable follows yearly
  have monthDays := monthDays_eq importable follows
  have nth := nthWeekdays_eq importable follows
  have weekdays : ((Schedule.ofImportable spec d.pattern.rate d.start).weekdays.isEmpty ||
      (Schedule.ofImportable spec d.pattern.rate d.start).weekdays.contains x.weekday) =
      ((d.schedule p).weekdays.isEmpty || (d.schedule p).weekdays.contains x.weekday) := by
    by_cases week : d.pattern = .week
    · obtain ⟨w, member⟩ := List.exists_mem_of_ne_nil d.weekdays (weekdays_ne_nil d)
      have own : ∀ w, w ∈ (Schedule.ofImportable spec d.pattern.rate d.start).weekdays ↔ w ∈ d.weekdays :=
        fun w => mem_weekdays_ofImportable importable follows week
      have made : ∀ w, w ∈ (d.schedule p).weekdays ↔ w ∈ d.weekdays := fun w => mem_weekdays_schedule week
      have ownSome := List.isEmpty_eq_false_iff.mpr (List.ne_nil_of_mem ((own w).mpr member))
      have madeSome := List.isEmpty_eq_false_iff.mpr (List.ne_nil_of_mem ((made w).mpr member))
      rw [ownSome, madeSome, Bool.false_or, Bool.false_or, Bool.eq_iff_iff, List.contains_iff_mem, List.contains_iff_mem,
        own, made]
    · rw [weekdays_eq_of_not_week importable follows week]
  unfold Schedule.admitsAt
  rw [placesAt_eq importable follows yearly]
  cases (d.schedule p).placesAt x with
  | error f => rfl
  | ok found =>
    show Schedule.admitsDay _ found x = Schedule.admitsDay _ found x
    unfold Schedule.admitsDay
    rw [months, weekdays, nth, monthDays]

end Months

end Follows

end Description

end Cadence
