import Cadence.Proofs.Rule.Periods

/-!
# The days that a rule admits

A rule whose parts the fields of a recurrence can express admits a day for what the day is, wherever its
period begins: for its month, weekday, day of the month, and its place among the weekdays of the month or
year.
-/

namespace Cadence

/-! ### Places of a year -/

namespace RuleYear

variable {x : Day} {year month : Nat}

theorem dayAt_month {n k : Nat} (hm₁ : 1 ≤ month) (hm₂ : month ≤ 12) (hk : k < daysInMonth year month)
    (hn : n = daysBeforeMonth year month + k) :
    dayAt ⟨year⟩ n = { index := n, month, day := k + 1, monthLength := daysInMonth year month } := by
  have hlast := daysBeforeMonth_lt year hm₁ (b := 13) (by omega)
  rw [daysBeforeMonth_thirteen] at hlast
  obtain ⟨m, j, he, h₁, h₂, hj, hplace⟩ := Day.monthDay_of_lt (show n < daysInYear year by omega)
  have hmonth : m = month := by
    rcases Nat.lt_trichotomy m month with h | h | h
    · have := daysBeforeMonth_lt year h₁ h
      omega
    · exact h
    · have := daysBeforeMonth_lt year hm₁ h
      omega
  subst hmonth
  obtain rfl : j = k := by omega
  have hlength : n < length ⟨year⟩ := show n < daysInYear year by omega
  simp only [dayAt, hlength, if_true, he]

/-- The place of a day in its own year. -/
theorem dayAt_of_year (hy : x.year = year) :
    dayAt ⟨year⟩ (x.ordinal - firstOrdinal ⟨year⟩) =
      { index := x.ordinal - firstOrdinal ⟨year⟩, month := x.month, day := x.day,
        monthLength := daysInMonth year x.month } := by
  subst hy
  have hd := x.day_bounds
  have hm := x.month_bounds
  rw [dayAt_month hm.1 hm.2 (k := x.day - 1) (by omega) (by simp only [Day.ordinal, firstOrdinal]; omega)]
  simp only [Nat.sub_add_cancel hd.1]

/-- The place of a day at the start of the next year. -/
theorem dayAt_of_nextYear (h₁ : 1 ≤ year) (hy : x.year = year + 1) (hm : x.month = 1) :
    dayAt ⟨year⟩ (x.ordinal - firstOrdinal ⟨year⟩) =
      { index := x.ordinal - firstOrdinal ⟨year⟩, month := x.month, day := x.day,
        monthLength := daysInMonth x.year x.month } := by
  have hd := x.day_bounds
  have hord : x.ordinal = daysBeforeYear year + daysInYear year + x.day := by
    simp only [Day.ordinal, hy, hm, daysBeforeYear_succ h₁, daysBeforeMonth]
    omega
  have hlength : ¬ x.ordinal - firstOrdinal ⟨year⟩ < length ⟨year⟩ := by
    simp only [firstOrdinal, length]
    omega
  have hday : x.ordinal - firstOrdinal ⟨year⟩ - length ⟨year⟩ + 1 = x.day := by
    simp only [firstOrdinal, length]
    omega
  simp only [dayAt, hlength, if_false, hday, hm, daysInMonth]

theorem firstOrdinal_le (x : Day) : firstOrdinal ⟨x.year⟩ ≤ x.ordinal := by
  have := x.ordinal_bounds
  show daysBeforeYear x.year + 1 ≤ x.ordinal
  omega

theorem weekdayAt_of_ordinal (h : firstOrdinal ⟨year⟩ ≤ x.ordinal) :
    weekdayAt ⟨year⟩ (x.ordinal - firstOrdinal ⟨year⟩) = x.weekday := by
  rw [weekdayAt, Nat.add_sub_cancel' h]
  rfl

/-- The days of a month are the places of an interval. -/
theorem monthDays_eq (hm₁ : 1 ≤ month) (hm₂ : month ≤ 12) :
    monthDays ⟨year⟩ month =
      (List.range' (daysBeforeMonth year month) (daysInMonth year month)).map (dayAt ⟨year⟩) := by
  simp only [monthDays, List.range'_eq_map_range, List.map_map]
  refine List.map_congr_left fun k hk => ?_
  rw [Function.comp_apply, dayAt_month hm₁ hm₂ (List.mem_range.mp hk) rfl]

theorem flatMap_monthDays : ∀ n ≤ 12, ((List.range n).map (· + 1)).flatMap (monthDays ⟨year⟩) =
    (List.range' 0 (daysBeforeMonth year (n + 1))).map (dayAt ⟨year⟩)
  | 0, _ => rfl
  | n + 1, h => by
    rw [List.range_succ, List.map_append, List.flatMap_append, flatMap_monthDays n (by omega), List.map_singleton,
      List.flatMap_singleton, monthDays_eq (by omega) h, daysBeforeMonth_succ (show 1 ≤ n + 1 by omega),
      ← List.range'_append, List.map_append, Nat.zero_add, Nat.one_mul]

/-- The days of a year are all its places. -/
theorem days_eq : days ⟨year⟩ = (List.range' 0 (daysInYear year)).map (dayAt ⟨year⟩) := by
  rw [days, flatMap_monthDays 12 (Nat.le_refl _), daysBeforeMonth_thirteen]

end RuleYear

namespace Schedule

variable {s : Schedule} {d x : Day} {places : List Nat}

/-! ### Rules of days -/

/-- The rule picks out whole days, and days by what they are: its periods are days or longer, and it has
    none of the parts that the fields of a recurrence cannot express. -/
structure IsPlain (s : Schedule) : Prop where
  long : s.frequency.isTimed = false
  every_pos : 1 ≤ s.every
  count : s.count = none
  setPositions : s.setPositions = []
  weekNumbers : s.weekNumbers = []
  yearDays : s.yearDays = []
  easterDays : s.easterDays = []
  times : s.times = [s.start.clock]
  whole : s.start.clock.micro = 0
  placed : s.frequency ≠ .yearly → s.frequency ≠ .monthly → s.nthWeekdays = []

/-- The places of a year that the rule picks out by weekday and position, around a day. -/
def placesAt (s : Schedule) (x : Day) : Except Fault (List Nat) := RuleYear.nthPlaces ⟨x.year⟩ s x.month

/-- The rule admits a day for what it is. -/
def admitsDay (s : Schedule) (places : List Nat) (x : Day) : Bool :=
  (s.months.isEmpty || s.months.contains (x.month : Int)) &&
  (s.weekdays.isEmpty || s.weekdays.contains x.weekday) &&
  (s.nthWeekdays.isEmpty || places.contains (x.ordinal - (daysBeforeYear x.year + 1))) &&
  (s.monthDays.isEmpty || s.monthDays.contains (x.day : Int) ||
    s.monthDays.contains ((x.day : Int) - daysInMonth x.year x.month - 1))

section Plain
variable (hs : s.IsPlain)
include hs

theorem marks_eq (year month : Nat) :
    RuleYear.marks ⟨year⟩ s month = (RuleYear.nthPlaces ⟨year⟩ s month).map fun nth => ⟨[], nth, []⟩ := by
  have hweeks : RuleYear.weekSpans ⟨year⟩ s.weekStart s.weekNumbers = .ok [] := by
    rw [hs.weekNumbers]
    rfl
  have heaster : RuleYear.easterPlaces ⟨year⟩ s.easterDays = .ok [] := by
    rw [hs.easterDays]
    rfl
  simp only [RuleYear.marks, hweeks, heaster, bind, Except.bind]
  cases RuleYear.nthPlaces ⟨year⟩ s month <;> rfl

/-- The days of a period share the places picked out by position. -/
theorem placesAt_of_span (h₁ : s.spanStart d ≤ x.ordinal) (h₂ : x.ordinal < s.spanEnd d) :
    s.placesAt x = s.placesAt d := by
  cases hf : s.frequency with
  | yearly =>
    simp only [spanStart, spanEnd, hf] at h₁ h₂
    simp only [placesAt, RuleYear.nthPlaces, RuleYear.spans, hf, if_true, year_eq_of_ordinal h₁ h₂]
  | monthly =>
    simp only [spanStart, spanEnd, hf] at h₁ h₂
    obtain ⟨hy, hm⟩ := month_eq_of_ordinal h₁ h₂
    rw [placesAt, placesAt, hy, hm]
  | weekly | daily | hourly | minutely | secondly =>
    have hnone : s.nthWeekdays = [] := hs.placed (by simp [hf]) (by simp [hf])
    simp only [placesAt, RuleYear.nthPlaces, hnone, List.isEmpty_nil, if_true]

/-- What a rule says about a place in a year it says about the day there. -/
theorem admits_of_dayAt {year : Nat} {index : Nat} (hindex : index = x.ordinal - RuleYear.firstOrdinal ⟨year⟩)
    (hfirst : RuleYear.firstOrdinal ⟨year⟩ ≤ x.ordinal) (hnth : x.year = year ∨ s.nthWeekdays = [])
    (hday : RuleYear.dayAt ⟨year⟩ index =
      { index, month := x.month, day := x.day, monthLength := daysInMonth x.year x.month }) :
    RuleYear.admits ⟨year⟩ s ⟨[], places, []⟩ (RuleYear.dayAt ⟨year⟩ index) = s.admitsDay places x := by
  subst hindex
  rw [hday]
  have hplaces : (s.nthWeekdays.isEmpty || places.contains (x.ordinal - RuleYear.firstOrdinal ⟨year⟩)) =
      (s.nthWeekdays.isEmpty || places.contains (x.ordinal - (daysBeforeYear x.year + 1))) := by
    rcases hnth with rfl | h
    · rfl
    · simp [h]
  simp only [RuleYear.admits, admitsDay, hs.weekNumbers, hs.easterDays, hs.yearDays, List.isEmpty_nil, Bool.true_or,
    Bool.and_true, RuleYear.weekdayAt_of_ordinal hfirst, hplaces]

/-- The days of a period that a rule admits, looked at from a day of the period. -/
theorem admits_of_span (h₁ : s.spanStart d ≤ x.ordinal) (h₂ : x.ordinal < s.spanEnd d) :
    RuleYear.admits ⟨d.year⟩ s ⟨[], places, []⟩
        (RuleYear.dayAt ⟨d.year⟩ (x.ordinal - RuleYear.firstOrdinal ⟨d.year⟩)) = s.admitsDay places x := by
  by_cases hy : x.year = d.year
  · refine admits_of_dayAt hs rfl (hy ▸ RuleYear.firstOrdinal_le x) (Or.inl hy) ?_
    rw [RuleYear.dayAt_of_year hy, hy]
  · have hweekly : s.frequency = .weekly ∧ d.ordinal ≤ x.ordinal ∧ x.ordinal < d.ordinal + 7 := by
      cases hf : s.frequency with
      | yearly =>
        simp only [spanStart, spanEnd, hf] at h₁ h₂
        exact absurd (year_eq_of_ordinal h₁ h₂) hy
      | monthly =>
        simp only [spanStart, spanEnd, hf] at h₁ h₂
        exact absurd (month_eq_of_ordinal h₁ h₂).1 hy
      | weekly =>
        simp only [spanStart, spanEnd, hf] at h₁ h₂
        have := d.weekday.index_lt
        have := s.weekStart.index_lt
        exact ⟨rfl, h₁, by omega⟩
      | daily | hourly | minutely | secondly =>
        simp only [spanStart, spanEnd, hf] at h₁ h₂
        exact absurd (congrArg Day.year (Day.eq_of_ordinal (show x.ordinal = d.ordinal by omega))) hy
    obtain ⟨hf, hle, hlt⟩ := hweekly
    have hd := d.ordinal_bounds
    have hx := x.ordinal_bounds
    have hdy := d.year_bounds
    have hnext : x.year = d.year + 1 := by
      have hsucc := daysBeforeYear_succ (show 1 ≤ d.year + 1 by omega)
      have hlong : 365 ≤ daysInYear (d.year + 1) := by unfold daysInYear; split <;> omega
      rcases Nat.lt_trichotomy x.year (d.year + 1) with h | h | h
      · have := daysBeforeYear_lt x.year_bounds.1 (show x.year < d.year by omega)
        omega
      · exact h
      · have := daysBeforeYear_mono (by omega) (show d.year + 1 + 1 ≤ x.year from h)
        rw [daysBeforeYear_succ hdy.1] at hsucc
        omega
    have hjanuary : x.month = 1 := by
      refine Nat.le_antisymm (Nat.le_of_not_lt fun hm => ?_) x.month_bounds.1
      have hmono := daysBeforeMonth_mono x.year (by omega) (show 2 ≤ x.month from hm)
      have h31 : daysBeforeMonth x.year 2 = 31 := by simp [daysBeforeMonth, daysInMonth]
      have hxd := x.day_bounds
      unfold Day.ordinal at hlt
      rw [hnext, daysBeforeYear_succ hdy.1, ← hnext] at hlt
      unfold Day.ordinal at hd
      omega
    have hfirst : RuleYear.firstOrdinal ⟨d.year⟩ ≤ x.ordinal := Nat.le_trans (RuleYear.firstOrdinal_le d) hle
    exact admits_of_dayAt hs rfl hfirst (Or.inr (hs.placed (by simp [hf]) (by simp [hf])))
      (RuleYear.dayAt_of_nextYear hdy.1 hnext hjanuary)

omit hs in
/-- The days of a period are those of its interval. -/
theorem periodDays_eq (s : Schedule) (d : Day) :
    s.periodDays ⟨d.year⟩ d = (List.range' (s.spanStart d) (s.spanEnd d - s.spanStart d)).map fun n =>
      RuleYear.dayAt ⟨d.year⟩ (n - RuleYear.firstOrdinal ⟨d.year⟩) := by
  have hshift : ∀ a n : Nat, (List.range' a n).map (RuleYear.dayAt ⟨d.year⟩) =
      (List.range' (RuleYear.firstOrdinal ⟨d.year⟩ + a) n).map fun k =>
        RuleYear.dayAt ⟨d.year⟩ (k - RuleYear.firstOrdinal ⟨d.year⟩) := by
    intro a n
    rw [List.range'_eq_map_range, List.range'_eq_map_range, List.map_map, List.map_map]
    refine List.map_congr_left fun k _ => ?_
    rw [Function.comp_apply, Function.comp_apply, show RuleYear.firstOrdinal ⟨d.year⟩ + a + k -
      RuleYear.firstOrdinal ⟨d.year⟩ = a + k by omega]
  have hfirst := RuleYear.firstOrdinal_le d
  have hd := d.ordinal_bounds
  have hm := d.month_bounds
  cases hf : s.frequency with
  | yearly =>
    simp only [periodDays, spanStart, spanEnd, hf]
    rw [RuleYear.days_eq, hshift, daysBeforeYear_succ d.year_bounds.1]
    congr 2
    omega
  | monthly =>
    simp only [periodDays, spanStart, spanEnd, hf]
    rw [RuleYear.monthDays_eq hm.1 hm.2, hshift, daysBeforeMonth_succ hm.1]
    congr 2
    · simp only [RuleYear.firstOrdinal]
      omega
    · omega
  | weekly =>
    have hw := s.weekStart.index_lt
    have hsize : RuleYear.weekEnd ⟨d.year⟩ s.weekStart (d.ordinal - RuleYear.firstOrdinal ⟨d.year⟩) -
        (d.ordinal - RuleYear.firstOrdinal ⟨d.year⟩) =
        d.ordinal + 7 - (d.weekday.index + 7 - s.weekStart.index) % 7 - d.ordinal := by
      simp only [RuleYear.weekEnd, RuleYear.weekdayAt, Day.index_weekdayOf, index_weekday]
      omega
    simp only [periodDays, spanStart, spanEnd, hf, hsize, List.range'_eq_map_range, List.map_map]
    refine List.map_congr_left fun k _ => ?_
    rw [Function.comp_apply, show d.ordinal + k - RuleYear.firstOrdinal ⟨d.year⟩ =
      d.ordinal - RuleYear.firstOrdinal ⟨d.year⟩ + k by omega]
  | daily | hourly | minutely | secondly =>
    simp only [periodDays, spanStart, spanEnd, hf]
    rw [show d.ordinal + 1 - d.ordinal = 1 by omega]
    rfl

end Plain

end Schedule

end Cadence
