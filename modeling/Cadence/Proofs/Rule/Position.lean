import Cadence.Proofs.Calendar.Week
import Cadence.Proofs.Rule.Admitted

/-!
# Weekdays at their positions

A rule that names one weekday at a position in the month finds in every month the place of the day with
that weekday and position, the last position being its own.
-/

namespace Cadence

/-- The day has a position among the days of its month with its weekday; -1 stands for the last one. -/
def Day.HasPosition (x : Day) (p : Int) : Prop :=
  if p = -1 then daysInMonth x.year x.month < x.day + 7 else (x.weekdayOrdinal : Int) = p

instance (x : Day) (p : Int) : Decidable (x.HasPosition p) :=
  inferInstanceAs (Decidable (if p = -1 then daysInMonth x.year x.month < x.day + 7 else (x.weekdayOrdinal : Int) = p))

/-- A day has the position that it names. -/
theorem Day.hasPosition_of_weekdayPosition? {x : Day} {p : Int} (h : x.weekdayPosition? = some p) : x.HasPosition p := by
  obtain ⟨-, rfl⟩ := Day.weekdayPosition?_eq_some.mp h
  unfold Day.HasPosition
  by_cases hend : daysInMonth x.year x.month < x.day + 7
  · rw [if_pos hend, if_pos rfl]
    exact hend
  · rw [if_neg hend, if_neg (by omega)]

namespace RuleYear

variable {x : Day} {w : Weekday} {p : Int}

/-- Positions that months have are counted from the first day, or back from the last. -/
theorem placeOf_first {year first last k : Nat} (hk : 1 ≤ k) (hk5 : k ≤ 5) (hlast : last < 366) (hfirst : first + 27 ≤ last) :
    placeOf ⟨year⟩ first last (w, (k : Int)) =
      .ok (let base := first + (k - 1) * 7
        let place := base + (7 - (weekdayAt ⟨year⟩ base).index + w.index) % 7
        if place ≤ last then some place else none) := by
  have hw := Weekday.index_lt (weekdayAt ⟨year⟩ 0)
  have hbase : (first : Int) + ((k : Int) - 1) * 7 = ((first + (k - 1) * 7 : Nat) : Int) := by omega
  have hlow : ¬ (((first + (k - 1) * 7 : Nat) : Int) < -((horizon ⟨year⟩ : Nat) : Int) ∨
      ((horizon ⟨year⟩ : Nat) : Int) ≤ ((first + (k - 1) * 7 : Nat) : Int)) := by
    unfold horizon
    omega
  have hneg : ¬ (k : Int) < 0 := by omega
  have hpos : ¬ ((first + (k - 1) * 7 : Nat) : Int) < 0 := by omega
  simp only [placeOf, hneg, if_false, hbase, hlow, hpos, Int.toNat_natCast]
  congr 1
  have hcast : ((first + (k - 1) * 7 : Nat) : Int) +
      (((7 - (weekdayAt ⟨year⟩ (first + (k - 1) * 7)).index + w.index) % 7 : Nat) : Int) =
      ((first + (k - 1) * 7 + (7 - (weekdayAt ⟨year⟩ (first + (k - 1) * 7)).index + w.index) % 7 : Nat) : Int) := by omega
  rw [hcast, Int.toNat_natCast]
  by_cases hin : first + (k - 1) * 7 + (7 - (weekdayAt ⟨year⟩ (first + (k - 1) * 7)).index + w.index) % 7 ≤ last
  · rw [if_pos hin, if_pos (by omega)]
  · rw [if_neg hin, if_neg (by omega)]

theorem placeOf_last {year first last : Nat} (hlast : last < 366) (hfirst : first + 27 ≤ last) :
    placeOf ⟨year⟩ first last (w, -1) =
      .ok (some (last - ((weekdayAt ⟨year⟩ last).index + 7 - w.index) % 7)) := by
  have hw := Weekday.index_lt (weekdayAt ⟨year⟩ 0)
  have hbase : (last : Int) + (-1 + 1) * 7 = (last : Int) := by omega
  have hlow : ¬ ((last : Int) < -((horizon ⟨year⟩ : Nat) : Int) ∨ ((horizon ⟨year⟩ : Nat) : Int) ≤ (last : Int)) := by
    unfold horizon
    omega
  have hpos : ¬ (last : Int) < 0 := by omega
  simp only [placeOf, show (-1 : Int) < 0 from by decide, if_true, hbase, hlow, hpos, if_false, Int.toNat_natCast]
  have hcast : (last : Int) - (((weekdayAt ⟨year⟩ last).index + 7 - w.index) % 7 : Nat) =
      ((last - ((weekdayAt ⟨year⟩ last).index + 7 - w.index) % 7 : Nat) : Int) := by omega
  rw [hcast, Int.toNat_natCast, if_pos (by omega)]

/-- A month has one place at most for a weekday at a position, and it is the day's own if the day has
    both. -/
theorem placeOf_month (h₁ : p = -1 ∨ 1 ≤ p) (h₅ : p ≤ 5) :
    ∃ place, placeOf ⟨x.year⟩ (daysBeforeMonth x.year x.month)
        (daysBeforeMonth x.year x.month + daysInMonth x.year x.month - 1) (w, p) = .ok place ∧
      (place = some (x.ordinal - firstOrdinal ⟨x.year⟩) ↔ x.weekday = w ∧ x.HasPosition p) := by
  have hd := x.day_bounds
  have hm := x.month_bounds
  have hlen : 28 ≤ daysInMonth x.year x.month := daysInMonth_pos hm.1 hm.2
  have hlast := daysBeforeMonth_lt x.year hm.1 (b := 13) (by omega)
  rw [daysBeforeMonth_thirteen] at hlast
  have hyear : daysInYear x.year ≤ 366 := by unfold daysInYear; split <;> omega
  have hplace : x.ordinal - firstOrdinal ⟨x.year⟩ = daysBeforeMonth x.year x.month + (x.day - 1) := by
    simp only [Day.ordinal, firstOrdinal]
    omega
  have hself : (weekdayAt ⟨x.year⟩ (daysBeforeMonth x.year x.month + (x.day - 1))) = x.weekday := by
    rw [← hplace, weekdayAt_of_ordinal (firstOrdinal_le x)]
  have hindex : ∀ n, (weekdayAt ⟨x.year⟩ n).index = (firstOrdinal ⟨x.year⟩ + n + 6) % 7 :=
    fun n => Day.index_weekdayOf _
  have hx : x.weekday.index = (firstOrdinal ⟨x.year⟩ + (daysBeforeMonth x.year x.month + (x.day - 1)) + 6) % 7 := by
    rw [← hself, hindex]
  have hw := w.index_lt
  have hweekday : x.weekday = w ↔ x.weekday.index = w.index := ⟨fun h => h ▸ rfl, Weekday.index_injective⟩
  rcases h₁ with rfl | h₁
  · refine ⟨_, placeOf_last (by omega) (by omega), ?_⟩
    rw [hplace, hweekday, hx, hindex, Option.some.injEq, Day.HasPosition, if_pos rfl]
    omega
  · obtain ⟨k, rfl⟩ : ∃ k : Nat, p = k := ⟨p.toNat, by omega⟩
    have hk : 1 ≤ k ∧ k ≤ 5 := by omega
    have hne : ¬ (k : Int) = -1 := by omega
    generalize hf : daysBeforeMonth x.year x.month = first at *
    generalize hl : daysInMonth x.year x.month = len at *
    refine ⟨_, placeOf_first hk.1 hk.2 (by omega) (by omega), ?_⟩
    rw [hplace, hweekday, hx, Day.HasPosition, if_neg hne, x.weekdayOrdinal_eq]
    dsimp only
    rw [hindex (first + (k - 1) * 7)]
    generalize firstOrdinal ⟨x.year⟩ = o at *
    split
    · rw [Option.some.injEq]
      omega
    · simp only [reduceCtorEq, false_iff]
      omega

/-- One weekday counted in one span has at most one place. -/
theorem nthPlaces_of_span {s : Schedule} {year month first last : Nat} {place : Option Nat}
    (hnth : s.nthWeekdays = [(w, p)]) (hspan : spans ⟨year⟩ s month = .ok [(first, last)])
    (hplace : placeOf ⟨year⟩ first last (w, p) = .ok place) : nthPlaces ⟨year⟩ s month = .ok place.toList := by
  simp only [nthPlaces, hnth, List.isEmpty_cons, Bool.false_eq_true, if_false, hspan, bind, Except.bind, List.mapM_cons,
    List.mapM_nil, hplace, pure, Except.pure]
  cases place <;> rfl

theorem monthSpan_of_month {year month : Nat} (h₁ : 1 ≤ month) (h₂ : month ≤ 12) :
    monthSpan ⟨year⟩ (month : Int) =
      .ok (some (daysBeforeMonth year month, daysBeforeMonth year month + daysInMonth year month - 1)) := by
  rw [monthSpan, if_pos (by omega), Int.toNat_natCast]

end RuleYear

namespace Schedule

variable {s : Schedule} {x : Day} {w : Weekday} {p : Int}

/-- The one month in which a rule of months or years counts its weekdays, seen from a day. -/
def countsIn (s : Schedule) (x : Day) (month : Nat) : Prop :=
  (s.frequency = .monthly ∧ month = x.month) ∨ (s.frequency = .yearly ∧ s.months = [(month : Int)])

theorem spans_of_countsIn {month : Nat} (h : s.countsIn x month) (h₁ : 1 ≤ month) (h₂ : month ≤ 12) :
    RuleYear.spans ⟨x.year⟩ s x.month = .ok [(daysBeforeMonth x.year month,
      daysBeforeMonth x.year month + daysInMonth x.year month - 1)] := by
  have hspan : RuleYear.monthSpan ⟨x.year⟩ month = .ok (some (daysBeforeMonth x.year month,
      daysBeforeMonth x.year month + daysInMonth x.year month - 1)) := RuleYear.monthSpan_of_month h₁ h₂
  rcases h with ⟨hf, rfl⟩ | ⟨hf, hmonths⟩
  · rw [RuleYear.spans, if_neg (by rw [hf]; decide), hspan]
    rfl
  · simp only [RuleYear.spans, hf, if_true, hmonths, List.isEmpty_cons, Bool.false_eq_true, if_false, List.mapM_cons,
      hspan]
    rfl

/-- A rule that names one weekday at a position counts it without fault. -/
theorem placesAt_isOk {month : Nat} (hnth : s.nthWeekdays = [(w, p)]) (h₁ : p = -1 ∨ 1 ≤ p) (h₅ : p ≤ 5)
    (hmonth : s.countsIn x month) (hm₁ : 1 ≤ month) (hm₂ : month ≤ 12) : ∃ places, s.placesAt x = .ok places := by
  have hlen : 28 ≤ daysInMonth x.year month := daysInMonth_pos hm₁ hm₂
  have hy := x.year_bounds
  obtain ⟨place, hplace, -⟩ := RuleYear.placeOf_month (w := w) h₁ h₅
    (x := { year := x.year, month := month, day := 1, valid := ⟨hy.1, hy.2, hm₁, hm₂, Nat.le_refl 1, by omega⟩ })
  exact ⟨_, RuleYear.nthPlaces_of_span hnth (spans_of_countsIn hmonth hm₁ hm₂) hplace⟩

/-- A rule that names one weekday at a position, counted in the month of a day, places it at the day just
    if the day has that weekday and position. -/
theorem placesAt_contains_iff {places : List Nat} (hnth : s.nthWeekdays = [(w, p)]) (h₁ : p = -1 ∨ 1 ≤ p) (h₅ : p ≤ 5)
    (hmonth : s.countsIn x x.month) (hplaces : s.placesAt x = .ok places) :
    places.contains (x.ordinal - (daysBeforeYear x.year + 1)) = true ↔ x.weekday = w ∧ x.HasPosition p := by
  have hm := x.month_bounds
  obtain ⟨place, hplace, hiff⟩ := RuleYear.placeOf_month (x := x) (w := w) h₁ h₅
  have h := RuleYear.nthPlaces_of_span hnth (spans_of_countsIn hmonth hm.1 hm.2) hplace
  obtain rfl : place.toList = places := Except.ok.inj (h.symm.trans hplaces)
  rw [← hiff, List.contains_iff_mem, Option.mem_toList]
  rfl

end Schedule

end Cadence
