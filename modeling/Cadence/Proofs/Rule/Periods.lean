import Cadence.Proofs.Calendar.Interval
import Cadence.Proofs.Calendar.Week
import Cadence.Rule.Occurrence

/-!
# Periods of a rule

The periods of a rule - years, months, weeks or days - are numbered, and each takes the days of an
interval. The next period that a rule looks at is the one so many periods later, and its evaluation begins
with the first day of it.
-/

namespace Cadence.Schedule

variable {s : Schedule} {d e x : Day}

/-- The number of the period in which a day falls. -/
def periodOf (s : Schedule) (d : Day) : Nat :=
  match s.frequency with
  | .yearly => d.year
  | .monthly => d.year * 12 + (d.month - 1)
  | .weekly => (d.ordinal + 6 - s.weekStart.index) / 7
  | _ => d.ordinal

/-- The number of the first day that is looked at in the period of a day: the period's own first day, but
    the day itself in a week. -/
def spanStart (s : Schedule) (d : Day) : Nat :=
  match s.frequency with
  | .yearly => daysBeforeYear d.year + 1
  | .monthly => daysBeforeYear d.year + daysBeforeMonth d.year d.month + 1
  | _ => d.ordinal

/-- The number after the last day of the period of a day. -/
def spanEnd (s : Schedule) (d : Day) : Nat :=
  match s.frequency with
  | .yearly => daysBeforeYear (d.year + 1) + 1
  | .monthly => daysBeforeYear d.year + daysBeforeMonth d.year (d.month + 1) + 1
  | .weekly => d.ordinal + 7 - (d.weekday.index + 7 - s.weekStart.index) % 7
  | _ => d.ordinal + 1

/-! ### Periods as intervals -/

theorem index_weekday (d : Day) : d.weekday.index = (d.ordinal + 6) % 7 := Day.index_weekdayOf d.ordinal

/-- Months are numbered in order, years being worth twelve of them. -/
theorem monthNumber_lt (h : d.year * 12 + (d.month - 1) < e.year * 12 + (e.month - 1)) : d.ordinal < e.ordinal := by
  have hd := d.month_bounds
  have he := e.month_bounds
  rcases Nat.lt_trichotomy d.year e.year with hy | hy | hy
  · exact Day.ordinal_lt_of_year hy
  · exact Day.ordinal_lt_of_month hy (by omega)
  · omega

theorem periodOf_mono (h : d.ordinal ≤ e.ordinal) : s.periodOf d ≤ s.periodOf e := by
  unfold periodOf
  split
  · exact Nat.le_of_not_lt fun hlt => absurd (Day.ordinal_lt_of_year hlt) (by omega)
  · exact Nat.le_of_not_lt fun hlt => absurd (monthNumber_lt hlt) (by omega)
  · exact Nat.div_le_div_right (by omega)
  · exact h

theorem spanStart_le (s : Schedule) (d : Day) : s.spanStart d ≤ d.ordinal := by
  have := d.ordinal_bounds
  have := d.day_bounds
  unfold spanStart
  split
  · omega
  · unfold Day.ordinal
    omega
  · exact Nat.le_refl _

theorem lt_spanEnd (s : Schedule) (d : Day) : d.ordinal < s.spanEnd d := by
  have hd := d.ordinal_bounds
  have hday := d.day_bounds
  unfold spanEnd
  split
  · rw [daysBeforeYear_succ d.year_bounds.1]
    omega
  · rw [daysBeforeMonth_succ d.month_bounds.1]
    unfold Day.ordinal
    omega
  · have := d.weekday.index_lt
    omega
  · omega

theorem spanStart_pos (s : Schedule) (d : Day) : 1 ≤ s.spanStart d := by
  have := d.ordinal_pos
  unfold spanStart
  split <;> omega

/-- The days of a year. -/
theorem year_eq_of_ordinal (h₁ : daysBeforeYear d.year + 1 ≤ x.ordinal) (h₂ : x.ordinal < daysBeforeYear (d.year + 1) + 1) :
    x.year = d.year := by
  have hx := x.ordinal_bounds
  have hd := d.year_bounds
  rcases Nat.lt_trichotomy x.year d.year with hy | hy | hy
  · have := daysBeforeYear_lt x.year_bounds.1 hy
    omega
  · exact hy
  · have := daysBeforeYear_mono (by omega) (show d.year + 1 ≤ x.year from hy)
    omega

/-- The days of a month. -/
theorem month_eq_of_ordinal (h₁ : daysBeforeYear d.year + daysBeforeMonth d.year d.month + 1 ≤ x.ordinal)
    (h₂ : x.ordinal < daysBeforeYear d.year + daysBeforeMonth d.year (d.month + 1) + 1) :
    x.year = d.year ∧ x.month = d.month := by
  have hm := d.month_bounds
  have hlast := daysBeforeMonth_mono d.year (by omega) (show d.month + 1 ≤ 13 by omega)
  rw [daysBeforeMonth_thirteen] at hlast
  have hy : x.year = d.year := by
    refine year_eq_of_ordinal (by omega) ?_
    rw [daysBeforeYear_succ d.year_bounds.1]
    omega
  refine ⟨hy, ?_⟩
  have hx := x.day_bounds
  have hxm := x.month_bounds
  unfold Day.ordinal at h₁ h₂
  rw [hy] at h₁ h₂ hx
  rcases Nat.lt_trichotomy x.month d.month with h | h | h
  · have := daysBeforeMonth_lt d.year hxm.1 h
    omega
  · exact h
  · have := daysBeforeMonth_mono d.year (by omega) (show d.month + 1 ≤ x.month from h)
    omega

/-- The days of an interval fall in its period. -/
theorem periodOf_of_span (h₁ : s.spanStart d ≤ x.ordinal) (h₂ : x.ordinal < s.spanEnd d) :
    s.periodOf x = s.periodOf d := by
  cases hf : s.frequency with
  | yearly =>
    simp only [spanStart, spanEnd, periodOf, hf] at h₁ h₂ ⊢
    exact year_eq_of_ordinal h₁ h₂
  | monthly =>
    simp only [spanStart, spanEnd, periodOf, hf] at h₁ h₂ ⊢
    obtain ⟨hy, hm⟩ := month_eq_of_ordinal h₁ h₂
    rw [hy, hm]
  | weekly =>
    simp only [spanStart, spanEnd, periodOf, hf] at h₁ h₂ ⊢
    rw [index_weekday] at h₂
    have := s.weekStart.index_lt
    have := d.ordinal_pos
    omega
  | daily | hourly | minutely | secondly =>
    simp only [spanStart, spanEnd, periodOf, hf] at h₁ h₂ ⊢
    omega

/-- Later days fall in later periods. -/
theorem periodOf_lt_of_spanEnd (h : s.spanEnd d ≤ x.ordinal) : s.periodOf d < s.periodOf x := by
  have hx := x.ordinal_bounds
  cases hf : s.frequency with
  | yearly =>
    simp only [spanEnd, periodOf, hf] at h ⊢
    refine Nat.lt_of_not_le fun hle => ?_
    have := daysBeforeYear_mono (by omega) (show x.year + 1 ≤ d.year + 1 by omega)
    rw [daysBeforeYear_succ x.year_bounds.1] at this
    omega
  | monthly =>
    simp only [spanEnd, periodOf, hf] at h ⊢
    have hm := d.month_bounds
    have hxm := x.month_bounds
    have hlast := daysBeforeMonth_mono d.year (by omega) (show 1 ≤ d.month + 1 by omega)
    refine Nat.lt_of_not_le fun hle => ?_
    by_cases hy : x.year < d.year
    · have := daysBeforeYear_lt x.year_bounds.1 hy
      omega
    · have hy : x.year = d.year := by omega
      have hxd := x.day_bounds
      have := daysBeforeMonth_lt d.year hxm.1 (show x.month < d.month + 1 by omega)
      unfold Day.ordinal at h
      rw [hy] at h hxd
      omega
  | weekly =>
    simp only [spanEnd, periodOf, hf] at h ⊢
    rw [index_weekday] at h
    have := s.weekStart.index_lt
    have := d.ordinal_pos
    omega
  | daily | hourly | minutely | secondly =>
    simp only [spanEnd, periodOf, hf] at h ⊢
    omega

/-! ### The next period -/

/-- A day is the first one of its period. -/
def StartsPeriod (s : Schedule) (e : Day) : Prop := ∀ x : Day, x.ordinal < e.ordinal → s.periodOf x < s.periodOf e

theorem StartsPeriod.spanStart_eq (h : s.StartsPeriod e) : s.spanStart e = e.ordinal := by
  have hle := s.spanStart_le e
  refine Nat.le_antisymm hle (Nat.le_of_not_lt fun hlt => ?_)
  have hpos := s.spanStart_pos e
  have := e.ordinal_le_last
  obtain ⟨x, hx⟩ := Day.exists_ofOrdinal? hpos (by omega)
  have hx := Day.ordinal_of_ofOrdinal? hx
  have h₁ := h x (by omega)
  have h₂ := periodOf_of_span (s := s) (d := e) (x := x) (by omega) (by have := s.lt_spanEnd e; omega)
  omega

/-- The next period that a rule looks at begins with its first day. -/
theorem nextDay?_eq_some (h : s.nextDay? d = some e) :
    s.periodOf e = s.periodOf d + s.every ∧ s.StartsPeriod e := by
  cases hf : s.frequency with
  | yearly =>
    simp only [nextDay?, hf, Day.of?_eq_some] at h
    obtain ⟨hy, hm, hd⟩ := h
    refine ⟨by simpa only [periodOf, hf] using hy, fun x hx => ?_⟩
    simp only [periodOf, hf]
    have := x.month_bounds
    have := x.day_bounds
    rcases Day.ordinal_lt_iff.mp hx with h | ⟨h, h' | ⟨h', h''⟩⟩
    · exact h
    · omega
    · omega
  | monthly =>
    simp only [nextDay?, hf, Day.of?_eq_some] at h
    obtain ⟨hy, hm, hd⟩ := h
    have hdm := d.month_bounds
    refine ⟨by simp only [periodOf, hf]; omega, fun x hx => ?_⟩
    simp only [periodOf, hf]
    have := x.month_bounds
    have := x.day_bounds
    rcases Day.ordinal_lt_iff.mp hx with h | ⟨h, h' | ⟨h', h''⟩⟩
    · omega
    · omega
    · omega
  | weekly =>
    simp only [nextDay?, hf, Day.addDays?_eq_some, index_weekday] at h
    have hw := s.weekStart.index_lt
    have := d.ordinal_pos
    refine ⟨by simp only [periodOf, hf]; omega, fun x hx => ?_⟩
    simp only [periodOf, hf]
    omega
  | daily | hourly | minutely | secondly =>
    simp only [nextDay?, hf, Day.addDays?_eq_some] at h
    refine ⟨by simp only [periodOf, hf]; omega, fun x hx => ?_⟩
    simp only [periodOf, hf]
    exact hx

/-- Where there is no next period, the calendar ends before it. -/
theorem nextDay?_eq_none (hevery : 1 ≤ s.every) (h : s.nextDay? d = none) (x : Day) : s.periodOf x < s.periodOf d + s.every := by
  have hx := x.ordinal_le_last
  have hxy := x.year_bounds
  cases hf : s.frequency with
  | yearly =>
    simp only [nextDay?, hf] at h
    simp only [periodOf, hf]
    refine Nat.lt_of_not_le fun hle => ?_
    have hd := d.year_bounds
    rw [Day.of?_eq ⟨by omega, by unfold lastYear; omega, by omega, by omega, by omega, by simp [daysInMonth]⟩] at h
    exact absurd h (by simp)
  | monthly =>
    simp only [nextDay?, hf] at h
    simp only [periodOf, hf]
    refine Nat.lt_of_not_le fun hle => ?_
    have hd := d.year_bounds
    have hm := d.month_bounds
    have hxm := x.month_bounds
    have hlen : 28 ≤ daysInMonth ((d.year * 12 + (d.month - 1) + s.every) / 12)
        ((d.year * 12 + (d.month - 1) + s.every) % 12 + 1) := daysInMonth_pos (by omega) (by omega)
    rw [Day.of?_eq ⟨by omega, by unfold lastYear; omega, by omega, by omega, by omega, by omega⟩] at h
    exact absurd h (by simp)
  | weekly =>
    simp only [nextDay?, hf, index_weekday] at h
    have hw := s.weekStart.index_lt
    have hd := d.ordinal_pos
    simp only [periodOf, hf]
    have := Day.addDays?_eq_none (by omega) h
    omega
  | daily | hourly | minutely | secondly =>
    simp only [nextDay?, hf] at h
    have := Day.addDays?_eq_none (by omega) h
    simp only [periodOf, hf]
    omega

end Cadence.Schedule
