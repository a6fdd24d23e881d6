import Cadence.Calendar.Position
import Cadence.Proofs.Calendar.Numbering

/-!
# Weekdays and their positions

The weekday of a day depends on its number alone. Among the days of its month with its weekday, a day of
the month up to the seventh is the first one, up to the fourteenth the second one, and so on; it is the
last one when the month ends within a week.
-/

namespace Cadence

theorem Weekday.index_injective {a b : Weekday} (h : a.index = b.index) : a = b := by
  rw [← Weekday.ofIndex_index a, h, Weekday.ofIndex_index]

theorem Weekday.index_lt (w : Weekday) : w.index < 7 := by cases w <;> decide

namespace Day

variable {d e : Day}

theorem index_weekdayOf (n : Nat) : (weekdayOf n).index = (n + 6) % 7 := Weekday.index_ofIndex _

theorem weekdayOf_eq_iff {m n : Nat} : weekdayOf m = weekdayOf n ↔ m % 7 = n % 7 := by
  constructor
  · intro h
    have := congrArg Weekday.index h
    rw [index_weekdayOf, index_weekdayOf] at this
    omega
  · intro h
    apply Weekday.index_injective
    rw [index_weekdayOf, index_weekdayOf]
    omega

/-! ### Days of one month -/

/-- Another day of the same month. -/
theorem exists_inMonth (d : Day) {k : Nat} (h₁ : 1 ≤ k) (h₂ : k ≤ daysInMonth d.year d.month) :
    ∃ e, of? d.year d.month k = some e ∧ e.ordinal + d.day = d.ordinal + k :=
  ⟨_, of?_eq (show IsDate d.year d.month k from ⟨d.year_bounds.1, d.year_bounds.2, d.month_bounds.1,
    d.month_bounds.2, h₁, h₂⟩), by simp only [ordinal]; omega⟩

theorem ordinal_inMonth (hy : e.year = d.year) (hm : e.month = d.month) : e.ordinal + d.day = d.ordinal + e.day := by
  simp only [ordinal, hy, hm]
  omega

theorem weekday_eq_inMonth (hy : e.year = d.year) (hm : e.month = d.month) :
    e.weekday = d.weekday ↔ e.day % 7 = d.day % 7 := by
  have := ordinal_inMonth hy hm
  unfold weekday
  rw [weekdayOf_eq_iff]
  omega

theorem countP_same_weekday : ∀ n ≤ 31, 1 ≤ n →
    (List.range n).countP (fun k => (k + 1) % 7 = n % 7) = (n - 1) / 7 + 1 := by decide

/-- The ordinal of a weekday in its month goes up every seven days. -/
theorem weekdayOrdinal_eq (d : Day) : d.weekdayOrdinal = (d.day - 1) / 7 + 1 := by
  have hd := d.day_bounds
  rw [← countP_same_weekday d.day (Nat.le_trans hd.2 (daysInMonth_le _ _)) hd.1]
  unfold weekdayOrdinal
  apply List.countP_congr
  intro k hk
  have hk : k < d.day := List.mem_range.mp hk
  obtain ⟨e, he, ho⟩ := d.exists_inMonth (k := k + 1) (by omega) (by omega)
  obtain ⟨hy, hm, hday⟩ := of?_eq_some.mp he
  simp only [he, decide_eq_true_eq]
  rw [weekday_eq_inMonth hy hm, hday]

/-- The same month of a later year comes more than a week later. -/
theorem ordinal_lt_sameMonth (hy : d.year < e.year) (hm : d.month = e.month) : d.ordinal + 7 < e.ordinal := by
  have hyear := daysBeforeYear_lt d.year_bounds.1 hy
  have hd := d.dayOfYear_bounds
  have he := e.day_bounds
  by_cases hfirst : d.month = 1
  · have := daysInMonth_le d.year d.month
    have := d.day_bounds
    simp only [ordinal, hfirst, ← hm, daysBeforeMonth]
    unfold daysInYear at hyear
    split at hyear <;> omega
  · have h := daysBeforeMonth_mono e.year (by omega) (show 2 ≤ e.month by have := d.month_bounds; omega)
    have h31 : daysBeforeMonth e.year 2 = 31 := by simp [daysBeforeMonth, daysInMonth]
    simp only [ordinal]
    omega

/-- A week later falls in another month exactly when the month ends before. -/
theorem isLastOfWeekday?_eq (d : Day) (h : d.ordinal + 7 ≤ lastOrdinal) :
    d.isLastOfWeekday? = some (decide (daysInMonth d.year d.month < d.day + 7)) := by
  obtain ⟨e, he⟩ := exists_ofOrdinal? (n := d.ordinal + 7) (by omega) h
  have ho := ordinal_of_ofOrdinal? he
  have hadd : d.addDays? 7 = some e := addDays?_eq_some.mpr (by omega)
  simp only [isLastOfWeekday?, hadd, Option.map_some, Option.some.injEq, decide_eq_decide, ne_eq]
  constructor
  · intro hm
    refine Nat.lt_of_not_le fun hle => hm ?_
    obtain ⟨e', he', ho'⟩ := d.exists_inMonth (k := d.day + 7) (by omega) hle
    obtain rfl : e' = e := eq_of_ordinal (by omega)
    exact (of?_eq_some.mp he').2.1
  · intro hlt hm
    -- In the same month of another year the days are much further apart.
    have hy : e.year = d.year := by
      rcases Nat.lt_trichotomy e.year d.year with hy | hy | hy
      · have := ordinal_lt_of_year hy
        omega
      · exact hy
      · have := ordinal_lt_sameMonth hy hm.symm
        omega
    have := ordinal_inMonth hy hm
    have := e.day_bounds
    rw [hy, hm] at this
    omega

theorem isLastOfWeekday?_eq_none (h : lastOrdinal < d.ordinal + 7) : d.isLastOfWeekday? = none := by
  simp only [isLastOfWeekday?, Option.map_eq_none_iff]
  cases he : d.addDays? 7 with
  | none => rfl
  | some e =>
    have := addDays?_eq_some.mp he
    have := e.ordinal_le_last
    omega

/-- Days with a week after them have a position, and no others do. -/
theorem weekdayPosition?_eq_some {p : Int} : d.weekdayPosition? = some p ↔ d.ordinal + 7 ≤ lastOrdinal ∧
    p = if daysInMonth d.year d.month < d.day + 7 then -1 else (d.weekdayOrdinal : Int) := by
  by_cases ahead : d.ordinal + 7 ≤ lastOrdinal
  · rw [weekdayPosition?, isLastOfWeekday?_eq d ahead, Option.map_some, Option.some.injEq]
    simp only [decide_eq_true_eq, ahead, true_and]
    exact eq_comm
  · rw [weekdayPosition?, isLastOfWeekday?_eq_none (by omega), Option.map_none]
    simp only [reduceCtorEq, ahead, false_and]

theorem exists_weekdayPosition? {d : Day} (h : d.ordinal + 7 ≤ lastOrdinal) : ∃ n, d.weekdayPosition? = some n :=
  ⟨_, weekdayPosition?_eq_some.mpr ⟨h, rfl⟩⟩

end Day

end Cadence
