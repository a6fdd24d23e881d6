import Cadence.Proofs.Description.Imported
import Cadence.Proofs.Rule.Queries
import Cadence.Proofs.Rule.Times

/-!
# The start of an imported rule

A monthly or yearly rule without a start of its own moves its start to one of its first occurrences. It finds one
as long as the positions of its weekdays lie within reach of each month and the occurrences that are looked at
have a week after them.
-/

namespace Cadence

open Text

/-! ### Checked numbers -/

namespace RuleText

variable {r : RuleText}

theorem checkMonths_of_check (checked : r.check = .ok ()) : r.checkNumbers .byMonth 12 false = .ok () :=
  (isChecked_of_check checked (.inl rfl)).1.months

theorem readInt?_of_shortInt? {s : Text} {n : Int} (short : shortInt? s = some n) : readInt? s = some n := by
  unfold shortInt? at short
  dsimp only at short
  split at short
  · cases short
  · exact short

/-- The numbers of a list that has been checked are between one and the limit, or their negatives. -/
theorem bounds_of_checkNumbers {key : RuleKey} {limit : Nat} {signed : Bool} (checked : r.checkNumbers key limit signed = .ok ())
    {n : Int} (member : n ∈ r.integers key) : 1 ≤ n.natAbs ∧ n.natAbs ≤ limit ∧ (0 ≤ n ∨ signed = true) := by
  obtain ⟨item, listed, read⟩ := List.mem_filterMap.mp member
  have one := forM_eq_ok.mp checked item listed
  split at one
  · cases one
  · rename_i m short
    obtain rfl : m = n := Option.some.inj ((readInt?_of_shortInt? short).symm.trans read)
    split at one
    · rename_i bounds
      exact bounds
    · cases one

/-- The positions of weekdays that have been checked are between one and 53 from either end. -/
theorem bounds_of_checkWeekdays (checked : r.checkWeekdays = .ok ()) {item : WeekdayItem} (member : item ∈ r.weekdays) {n : Int}
    (placed : item.1 = some n) : 1 ≤ n.natAbs ∧ n.natAbs ≤ maxPosition := by
  obtain ⟨token, listed, read⟩ := List.mem_filterMap.mp member
  have one := forM_eq_ok.mp checked token listed
  unfold checkWeekday at one
  rw [read] at one
  obtain ⟨position, day⟩ := item
  obtain rfl : position = some n := placed
  dsimp only at one
  split at one
  · rename_i bounds
    exact bounds
  · cases one

end RuleText

/-! ### Positions within reach -/

namespace RuleYear

/-- Weekdays are found at all positions from the end of a span of a year, and at those from its start that lie within
    some days after the year. -/
theorem placeOf_isOk (y : RuleYear) {first last : Nat} {item : Weekday × Int} (inside : last ≤ 365) (least : -53 ≤ item.2)
    (near : 0 < item.2 → (first : Int) + (item.2 - 1) * 7 < 379) (nonzero : item.2 ≠ 0) :
    ∃ place, y.placeOf first last item = .ok place := by
  have index := Weekday.index_lt (y.weekdayAt 0)
  have horizon : y.horizon = 385 - (y.weekdayAt 0).index := rfl
  obtain ⟨day, n⟩ := item
  dsimp only at least near nonzero
  unfold placeOf
  dsimp only
  have within : ∀ base : Int, ¬ (base < -(y.horizon : Int) ∨ (y.horizon : Int) ≤ base) →
      ∃ place, (if base < -(y.horizon : Int) ∨ (y.horizon : Int) ≤ base then .error Fault.index
        else if base < 0 then .ok none
        else
          let found := (y.weekdayAt base.toNat).index
          let place : Int :=
            if n < 0 then base - ((found + 7 - day.index) % 7 : Nat) else base + ((7 - found + day.index) % 7 : Nat)
          .ok (if first ≤ place ∧ place ≤ last then some place.toNat else none)) = Except.ok place := by
    intro base inside
    rw [if_neg inside]
    split <;> exact ⟨_, rfl⟩
  refine within _ ?_
  split <;> omega

/-- A month begins in the year at least a month before its end, and ends within it. -/
theorem month_inside (year : Nat) {month : Nat} (pos : 1 ≤ month) (le : month ≤ 12) :
    daysBeforeMonth year month ≤ 335 ∧ daysBeforeMonth year month + daysInMonth year month ≤ 366 := by
  have all : daysInYear year ≤ 366 := by
    unfold daysInYear
    split <;> omega
  have december : daysInMonth year 12 = 31 := rfl
  have year_eq := daysBeforeMonth_thirteen year
  have last := daysBeforeMonth_lt year (show 1 ≤ 12 by decide) (show 12 < 13 by decide)
  have begins := daysBeforeMonth_mono year pos le
  have ends := daysBeforeMonth_lt year pos (show month < 13 by omega)
  omega

/-- A span of a year in which positions are counted: it ends within the year, and it is the year itself or one of
    its months. -/
def IsSpan (s : Schedule) (span : Nat × Nat) : Prop :=
  span.2 ≤ 365 ∧ (span.1 = 0 ∨ span.1 ≤ 335 ∧ (s.frequency = .monthly ∨ s.months ≠ []))

theorem isSpan_of_monthSpan (y : RuleYear) {s : Schedule} {month : Int} (pos : 1 ≤ month) (le : month ≤ 12)
    (counted : s.frequency = .monthly ∨ s.months ≠ []) : ∃ span, y.monthSpan month = .ok (some span) ∧ IsSpan s span := by
  obtain ⟨m, rfl⟩ := Int.eq_ofNat_of_zero_le (show 0 ≤ month by omega)
  have inside := month_inside y.year (show 1 ≤ m by omega) (by omega)
  refine ⟨_, monthSpan_of_month (by omega) (by omega), ?_, .inr ⟨inside.1, counted⟩⟩
  dsimp only
  omega

section Counted
variable (y : RuleYear) {s : Schedule} {month : Nat} (longer : s.frequency = .yearly ∨ s.frequency = .monthly)
  (months : ∀ m ∈ s.months, 1 ≤ m ∧ m ≤ 12) (pos : 1 ≤ month) (le : month ≤ 12)
include longer months pos le

theorem spans_isOk : ∃ spans, y.spans s month = .ok spans ∧ ∀ span ∈ spans, IsSpan s span := by
  unfold spans
  split
  · split
    · have length : y.length ≤ 366 := by
        unfold length daysInYear
        split <;> omega
      refine ⟨_, rfl, fun span member => ?_⟩
      rw [List.mem_singleton.mp member]
      exact ⟨by dsimp only; omega, .inl rfl⟩
    · rename_i named
      have counted : s.frequency = .monthly ∨ s.months ≠ [] := .inr fun none => named (by rw [none]; rfl)
      have one : ∀ m ∈ s.months, ∃ span, y.monthSpan m = .ok (some span) ∧ IsSpan s span := fun m member =>
        isSpan_of_monthSpan y (months m member).1 (months m member).2 counted
      obtain ⟨found, ran⟩ := exists_mapM fun m member => (one m member).imp' some fun span both => both.1
      refine ⟨found.filterMap id, by rw [ran]; rfl, fun span member => ?_⟩
      obtain ⟨option, listed, same⟩ := List.mem_filterMap.mp member
      obtain ⟨m, month, read⟩ := exists_of_mem_mapM ran option listed
      obtain ⟨span', read', isSpan⟩ := one m month
      obtain rfl : some span' = option := Except.ok.inj (read'.symm.trans read)
      obtain rfl : span' = span := Option.some.inj same
      exact isSpan
  · rename_i notYearly
    obtain ⟨span, found, isSpan⟩ := isSpan_of_monthSpan y (show (1 : Int) ≤ month by omega) (by omega) (.inl (longer.resolve_left notYearly))
    refine ⟨[span], by rw [found]; rfl, fun other member => ?_⟩
    rw [List.mem_singleton.mp member]
    exact isSpan

/-- Weekdays are placed at positions from either end of the year, and at those of months that are not far beyond the
    month. -/
theorem nthPlaces_isOk (positions : ∀ item ∈ s.nthWeekdays, 1 ≤ item.2.natAbs ∧ item.2.natAbs ≤ RuleText.maxPosition)
    (near : s.frequency = .monthly ∨ s.months ≠ [] → ∀ item ∈ s.nthWeekdays, item.2 ≤ 7) :
    ∃ places, y.nthPlaces s month = .ok places := by
  have limit : RuleText.maxPosition = 53 := rfl
  unfold nthPlaces
  split
  · exact ⟨_, rfl⟩
  · obtain ⟨spans, found, areSpans⟩ := spans_isOk y longer months pos le
    have all : ∃ places, (spans.mapM fun span => s.nthWeekdays.mapM (y.placeOf span.1 span.2)) = .ok places := by
      refine exists_mapM fun span member => exists_mapM fun item listed => ?_
      obtain ⟨inside, first⟩ := areSpans span member
      have bounds := positions item listed
      refine placeOf_isOk y inside (by omega) (fun positive => ?_) (by omega)
      rcases first with zero | ⟨le, counted⟩
      · omega
      · have := near counted item listed
        omega
    obtain ⟨places, placed⟩ := all
    exact ⟨places.flatten.filterMap id, by rw [found]; exact congrArg (· >>= fun places => pure (places.flatten.filterMap id)) placed⟩

end Counted

end RuleYear

namespace RuleText

variable {r : RuleText} {spec : RuleSpec} {today start : Stamp} {pattern : Pattern}

/-- The positions of weekdays that are counted in months are not far beyond a month. -/
def HasNearPositions (r : RuleText) (pattern : Pattern) : Prop :=
  pattern = .month ∨ pattern = .year ∧ r.has .byMonth = true → ∀ item ∈ r.weekdays, ∀ n, item.1 = some n → n ≤ 7

section Counted
variable {frequency : Frequency} (checked : r.check = .ok ()) (months : (r.get? .byMonth).map RuleSpec.integers? = spec.months.map some)
  (weekdays : (r.get? .byDay).map RuleSpec.weekdays? = spec.weekdays.map some)

include checked months in
/-- The months of a rule that has been checked are months. -/
theorem month_of_mem {m : Int} (member : m ∈ Schedule.sortedSet (Schedule.monthsOf spec frequency start)) : 1 ≤ m ∧ m ≤ 12 := by
  have member := Schedule.mem_sortedSet.mp member
  unfold Schedule.monthsOf at member
  cases named : spec.months with
  | none =>
    rw [named, Option.getD_none] at member
    split at member
    · rw [List.mem_singleton.mp member]
      have bounds := start.day.month_bounds
      omega
    · cases member
  | some l =>
    have same := integers_eq months
    rw [named] at member same
    have bounds := bounds_of_checkNumbers (checkMonths_of_check checked) (same ▸ member)
    simp only [Bool.false_eq_true, or_false] at bounds
    omega

include checked weekdays in
/-- The positions of a rule are those of its weekdays. -/
theorem mem_weekdays_of_placed {item : Weekday × Int}
    (member : item ∈ Schedule.placedWeekdays frequency (Schedule.weekdaysOf spec frequency start)) :
    (some item.2, item.1) ∈ r.weekdays ∧ spec.weekdays.isSome = true := by
  obtain ⟨⟨day, position⟩, listed, placed⟩ := List.mem_filterMap.mp member
  dsimp only at placed
  split at placed
  · obtain ⟨n, rfl, rfl⟩ := Option.map_eq_some_iff.mp placed
    unfold Schedule.weekdaysOf at listed
    rw [weekdays_eq (checks_of_check checked).2 weekdays]
    cases named : spec.weekdays with
    | none =>
      rw [named, Option.getD_none] at listed
      split at listed
      · cases List.mem_singleton.mp listed
      · cases listed
    | some days =>
      rw [named] at listed
      exact ⟨List.mem_map.mpr ⟨(day, some n), listed, rfl⟩, rfl⟩
  · cases placed

include months in
/-- Positions are counted in months only by a monthly rule, or one that names months. -/
theorem hasMonths_of_counted (named : spec.weekdays.isSome = true)
    (counted : Schedule.sortedSet (Schedule.monthsOf spec frequency start) ≠ []) : r.has .byMonth = true := by
  rw [has_eq_isSome months]
  cases given : spec.months with
  | some l => rfl
  | none =>
    have days : Schedule.namesDays spec = true := by simp [Schedule.namesDays, named]
    rw [Schedule.monthsOf, given, days] at counted
    exact absurd Schedule.sortedSet_nil counted

include checked months weekdays in
/-- The positions of a rule that has been checked can be counted in every month, if those counted in months are near. -/
theorem exists_nthPlaces (start : Stamp) (near : frequency = .monthly ∨ frequency = .yearly ∧ r.has .byMonth = true →
      ∀ item ∈ r.weekdays, ∀ n, item.1 = some n → n ≤ 7) {s : Schedule} (rate : s.frequency = frequency)
    (named : s.months = Schedule.sortedSet (Schedule.monthsOf spec frequency start))
    (placed : s.nthWeekdays = Schedule.placedWeekdays frequency (Schedule.weekdaysOf spec frequency start)) (y : RuleYear)
    {month : Nat} (pos : 1 ≤ month) (le : month ≤ 12) : ∃ places, y.nthPlaces s month = .ok places := by
  subst rate
  by_cases longer : s.frequency = .yearly ∨ s.frequency = .monthly
  · have listed : ∀ item ∈ s.nthWeekdays, (some item.2, item.1) ∈ r.weekdays ∧ spec.weekdays.isSome = true := fun item member =>
      mem_weekdays_of_placed checked weekdays (placed ▸ member)
    have positions := fun item member => bounds_of_checkWeekdays (checks_of_check checked).2 (listed item member).1 rfl
    refine RuleYear.nthPlaces_isOk y longer (fun m member => month_of_mem checked months (named ▸ member)) pos le positions
      fun counted item member => near ?_ _ (listed item member).1 _ rfl
    rcases longer with yearly | monthly
    · have counted : s.months ≠ [] := counted.resolve_left fun monthly => by cases yearly.symm.trans monthly
      rw [named] at counted
      exact .inr ⟨yearly, hasMonths_of_counted months (listed item member).2 counted⟩
    · exact .inl monthly
  · have none : s.nthWeekdays = [] := by
      rw [placed]
      refine List.filterMap_eq_nil_iff.mpr fun item _ => if_neg ?_
      simpa using longer
    refine ⟨[], ?_⟩
    unfold RuleYear.nthPlaces
    rw [none]
    rfl

end Counted

section Imported
variable (reads : RuleSpec.ReadFrom today r spec) (checked : r.check = .ok ()) (near : r.HasNearPositions pattern)
  (longer : pattern = .month ∨ pattern = .year)
include reads checked longer

include near in
/-- A monthly or yearly rule with near positions can be evaluated on all days. -/
theorem counts_ofImportable (start : Stamp) (x : Day) : (Schedule.ofImportable spec pattern.rate start).counts x = true := by
  have near : pattern.rate = .monthly ∨ pattern.rate = .yearly ∧ r.has .byMonth = true →
      ∀ item ∈ r.weekdays, ∀ n, item.1 = some n → n ≤ 7 := by
    rcases longer with rfl | rfl
    · exact fun _ => near (.inl rfl)
    · exact fun counted => near (.inr ⟨rfl, (counted.resolve_left nofun).2⟩)
  obtain ⟨places, found⟩ := exists_nthPlaces (s := Schedule.ofImportable spec pattern.rate start) checked reads.months reads.weekdays
    start near rfl rfl rfl ⟨x.year⟩ x.month_bounds.1 x.month_bounds.2
  rw [Schedule.counts, Schedule.placesAt, found]
  rfl

include near in
/-- A monthly or yearly rule with near positions has all its occurrences found. -/
theorem toList_trace_snd_ofImportable (start : Stamp) : (Schedule.ofImportable spec pattern.rate start).trace.toList.2 = none := by
  have long : pattern.rate.isTimed = false := Pattern.isTimed_rate pattern
  have plain := Schedule.isPlain_ofImportable spec long start
  rw [Schedule.toList_trace_snd plain (counts_ofImportable reads checked near longer start), if_neg]
  rintro ⟨runs, -⟩
  have weekly : pattern.rate = .weekly := Schedule.weekly_of_overruns plain runs
  rcases longer with rfl | rfl <;> cases weekly

end Imported

/-! ### Alignment -/

/-- A start is found among the first occurrences, if all of them have a week after them where a position is looked for. -/
theorem exists_alignedIn {positions : List Int} {limit : Nat} {first : Option Stamp} {t : Trace} (noFault : t.toList.2 = none)
    (weekAfter : positions ≠ [] → ∀ s ∈ t.toList.1.take limit, s.day.ordinal + 7 ≤ Day.lastOrdinal) :
    ∃ found, alignedIn positions first limit t = .ok found := by
  induction limit generalizing first t with
  | zero => exact ⟨first, rfl⟩
  | succ limit ih =>
    cases t with
    | done => exact ⟨first, rfl⟩
    | failed f => cases noFault
    | item next rest =>
      rw [Trace.toList_item] at noFault weekAfter
      unfold alignedIn
      split
      · exact ⟨_, rfl⟩
      · rename_i named
        have weekAfter := weekAfter fun none => named (by rw [none]; rfl)
        rw [List.take_succ_cons] at weekAfter
        obtain ⟨here, later⟩ := List.forall_mem_cons.mp weekAfter
        obtain ⟨n, position⟩ := Day.exists_weekdayPosition? here
        rw [position]
        dsimp only
        split
        · exact ⟨_, rfl⟩
        · exact ih noFault fun _ => later

end RuleText

end Cadence
