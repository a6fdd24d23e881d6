import Cadence.Calendar.Day

/-!
# The numbering of days

The days of the calendar are numbered without gaps: `Day.ofOrdinal?` finds the day with a number, and the
numbers are in the order of years, months and days of the month. A year, and a month of a year, takes the
numbers of an interval.
-/

namespace Cadence

/-! ### Years and months as intervals -/

theorem daysInYear_pos (year : Nat) : 0 < daysInYear year := by
  unfold daysInYear; split <;> omega

theorem isLeap_iff {year : Nat} : isLeap year = true ↔ year % 4 = 0 ∧ (year % 100 ≠ 0 ∨ year % 400 = 0) := by
  simp [isLeap]

theorem daysInMonth_of_ne_two {month : Nat} (other : month ≠ 2) (year year' : Nat) : daysInMonth year month = daysInMonth year' month := by
  unfold daysInMonth
  split
  case h_12 => exact absurd rfl other
  all_goals rfl

/-- No month is longer than it is in a leap year. -/
theorem daysInMonth_le_leap (year month : Nat) : daysInMonth year month ≤ daysInMonth 2000 month := by
  unfold daysInMonth
  split
  case h_12 => split <;> decide
  all_goals exact Nat.le_refl _

/-- The quotients by which leap days are counted, each taken of the one before. -/
theorem daysBeforeYear_eq (n : Nat) :
    daysBeforeYear (n + 1) = 365 * n + n / 4 - n / 4 / 25 + n / 4 / 25 / 4 := by
  simp only [daysBeforeYear, Nat.add_sub_cancel, Nat.div_div_eq_div_mul]

theorem isLeap_succ_iff {n : Nat} :
    isLeap (n + 1) = true ↔ n % 4 = 3 ∧ (n / 4 % 25 ≠ 24 ∨ n / 4 / 25 % 4 = 3) := by
  rw [isLeap_iff]
  omega

/-- The next year begins when all days of a year have passed. -/
theorem daysBeforeYear_succ {year : Nat} (h : 1 ≤ year) :
    daysBeforeYear (year + 1) = daysBeforeYear year + daysInYear year := by
  obtain ⟨n, rfl⟩ : ∃ n, year = n + 1 := ⟨year - 1, by omega⟩
  rw [daysBeforeYear_eq, daysBeforeYear_eq, daysInYear]
  by_cases hl : isLeap (n + 1) = true
  · rw [if_pos hl]
    rw [isLeap_succ_iff] at hl
    omega
  · rw [if_neg hl]
    rw [isLeap_succ_iff] at hl
    omega

theorem daysBeforeYear_mono {a b : Nat} (h₁ : 1 ≤ a) (h : a ≤ b) : daysBeforeYear a ≤ daysBeforeYear b := by
  induction h with
  | refl => exact Nat.le_refl _
  | @step b hb ih =>
    have hb : a ≤ b := hb
    rw [Nat.succ_eq_add_one, daysBeforeYear_succ (by omega)]
    omega

theorem daysBeforeYear_lt {a b : Nat} (h₁ : 1 ≤ a) (h : a < b) :
    daysBeforeYear a + daysInYear a ≤ daysBeforeYear b := by
  rw [← daysBeforeYear_succ h₁]
  exact daysBeforeYear_mono (by omega) h

theorem daysBeforeMonth_succ {year month : Nat} (h : 1 ≤ month) :
    daysBeforeMonth year (month + 1) = daysBeforeMonth year month + daysInMonth year month := by
  obtain ⟨m, rfl⟩ : ∃ m, month = m + 1 := ⟨month - 1, by omega⟩
  rfl

theorem daysBeforeMonth_mono (year : Nat) {a b : Nat} (h₁ : 1 ≤ a) (h : a ≤ b) :
    daysBeforeMonth year a ≤ daysBeforeMonth year b := by
  induction h with
  | refl => exact Nat.le_refl _
  | @step b hb ih =>
    have hb : a ≤ b := hb
    rw [Nat.succ_eq_add_one, daysBeforeMonth_succ (by omega)]
    omega

theorem daysBeforeMonth_lt (year : Nat) {a b : Nat} (h₁ : 1 ≤ a) (h : a < b) :
    daysBeforeMonth year a + daysInMonth year a ≤ daysBeforeMonth year b := by
  rw [← daysBeforeMonth_succ h₁]
  exact daysBeforeMonth_mono year (by omega) h

namespace Day

variable {a b d : Day}

theorem month_bounds (d : Day) : 1 ≤ d.month ∧ d.month ≤ 12 := ⟨d.valid.2.2.1, d.valid.2.2.2.1⟩

theorem year_bounds (d : Day) : 1 ≤ d.year ∧ d.year ≤ 9999 := ⟨d.valid.1, d.valid.2.1⟩

theorem day_bounds (d : Day) : 1 ≤ d.day ∧ d.day ≤ daysInMonth d.year d.month :=
  ⟨d.valid.2.2.2.2.1, d.valid.2.2.2.2.2⟩

/-- A day lies in the interval of its month. -/
theorem dayOfYear_bounds (d : Day) :
    daysBeforeMonth d.year d.month < daysBeforeMonth d.year d.month + d.day ∧
      daysBeforeMonth d.year d.month + d.day ≤ daysInYear d.year := by
  have hm := d.month_bounds
  have hd := d.day_bounds
  have := daysBeforeMonth_lt d.year hm.1 (b := 13) (by omega)
  rw [daysBeforeMonth_thirteen] at this
  omega

/-- A day lies in the interval of its year. -/
theorem ordinal_bounds (d : Day) :
    daysBeforeYear d.year < d.ordinal ∧ d.ordinal ≤ daysBeforeYear d.year + daysInYear d.year := by
  have := d.dayOfYear_bounds
  unfold ordinal
  omega

theorem ordinal_pos (d : Day) : 1 ≤ d.ordinal := by
  have := d.ordinal_bounds
  omega

theorem ordinal_le_last (d : Day) : d.ordinal ≤ lastOrdinal := by
  have h := d.ordinal_bounds
  have hy := d.year_bounds
  have hle : daysBeforeYear (d.year + 1) ≤ daysBeforeYear 10000 := daysBeforeYear_mono (by omega) (by omega)
  rw [daysBeforeYear_succ hy.1] at hle
  have : daysBeforeYear 10000 = lastOrdinal := by decide
  omega

/-- Days are numbered in the order of years. -/
theorem ordinal_lt_of_year (h : a.year < b.year) : a.ordinal < b.ordinal := by
  have ha := a.ordinal_bounds
  have hb := b.ordinal_bounds
  have := daysBeforeYear_lt a.year_bounds.1 h
  omega

theorem year_le_of_ordinal (h : a.ordinal ≤ b.ordinal) : a.year ≤ b.year :=
  Nat.le_of_not_lt fun later => Nat.lt_irrefl _ (Nat.lt_of_lt_of_le (ordinal_lt_of_year later) h)

/-- Within a year days are numbered in the order of months. -/
theorem ordinal_lt_of_month (hy : a.year = b.year) (h : a.month < b.month) : a.ordinal < b.ordinal := by
  have ha := a.day_bounds
  have hb := b.day_bounds
  have := daysBeforeMonth_lt a.year a.month_bounds.1 h
  unfold ordinal
  rw [← hy]
  omega

theorem ordinal_lt_iff : a.ordinal < b.ordinal ↔
    a.year < b.year ∨ a.year = b.year ∧ (a.month < b.month ∨ a.month = b.month ∧ a.day < b.day) := by
  constructor
  · intro h
    rcases Nat.lt_trichotomy a.year b.year with hy | hy | hy
    · exact Or.inl hy
    · refine Or.inr ⟨hy, ?_⟩
      rcases Nat.lt_trichotomy a.month b.month with hm | hm | hm
      · exact Or.inl hm
      · refine Or.inr ⟨hm, ?_⟩
        unfold ordinal at h
        rw [hy, hm] at h
        omega
      · have := ordinal_lt_of_month hy.symm hm
        omega
    · have := ordinal_lt_of_year hy
      omega
  · rintro (hy | ⟨hy, hm | ⟨hm, hd⟩⟩)
    · exact ordinal_lt_of_year hy
    · exact ordinal_lt_of_month hy hm
    · unfold ordinal
      rw [hy, hm]
      omega

theorem eq_of_ordinal (h : a.ordinal = b.ordinal) : a = b := by
  have h₁ := mt ordinal_lt_iff.mpr (Nat.not_lt.mpr (Nat.le_of_eq h.symm))
  have h₂ := mt ordinal_lt_iff.mpr (Nat.not_lt.mpr (Nat.le_of_eq h))
  obtain ⟨ya, ma, da, va⟩ := a
  obtain ⟨yb, mb, db, vb⟩ := b
  simp only at h₁ h₂
  obtain rfl : ya = yb := by omega
  obtain rfl : ma = mb := by omega
  obtain rfl : da = db := by omega
  rfl

/-! ### The day with a number -/

/-- Counting months off, `monthDay` finds the month in whose interval a place lies. -/
theorem monthDay_spec (year : Nat) : ∀ (fuel month n : Nat), 1 ≤ month → month + fuel = 12 →
    n < daysBeforeMonth year 13 - daysBeforeMonth year month →
    ∃ m k, monthDay year month n fuel = (m, k + 1) ∧ month ≤ m ∧ m ≤ 12 ∧ k < daysInMonth year m ∧
      daysBeforeMonth year month + n = daysBeforeMonth year m + k := by
  intro fuel
  induction fuel with
  | zero =>
    intro month n _ hf hn
    obtain rfl : month = 12 := by omega
    refine ⟨12, n, rfl, by omega, by omega, ?_, rfl⟩
    rw [daysBeforeMonth_succ (by omega)] at hn
    omega
  | succ fuel ih =>
    intro month n hm hf hn
    by_cases h : n < daysInMonth year month
    · exact ⟨month, n, by rw [monthDay, if_pos h], by omega, by omega, h, rfl⟩
    · have hs : daysBeforeMonth year (month + 1) = _ := daysBeforeMonth_succ hm
      obtain ⟨m, k, he, h₁, h₂, hk, heq⟩ := ih (month + 1) (n - daysInMonth year month) (by omega) (by omega)
        (by omega)
      exact ⟨m, k, by rw [monthDay, if_neg h, he], by omega, h₂, hk, by omega⟩

/-- A place in a year is a day of one of its months. -/
theorem monthDay_of_lt {year n : Nat} (h : n < daysInYear year) :
    ∃ m k, monthDay year 1 n 11 = (m, k + 1) ∧ 1 ≤ m ∧ m ≤ 12 ∧ k < daysInMonth year m ∧
      n = daysBeforeMonth year m + k := by
  obtain ⟨m, k, he, h₁, h₂, hk, heq⟩ := monthDay_spec year 11 1 n (by omega) (by omega)
    (by rw [daysBeforeMonth_thirteen]; exact h)
  refine ⟨m, k, he, h₁, h₂, hk, ?_⟩
  simpa [daysBeforeMonth] using heq

theorem of?_eq {year month day : Nat} (h : IsDate year month day) : of? year month day = some ⟨year, month, day, h⟩ :=
  dif_pos h

/-- Whole cycles of 400, 100, 4 and 1 years. -/
theorem daysBeforeYear_cycles {a b c e : Nat} (hb : b ≤ 3) (hc : c ≤ 24) (he : e ≤ 3) :
    daysBeforeYear (400 * a + 100 * b + 4 * c + e + 1) = 146097 * a + 36524 * b + 1461 * c + 365 * e := by
  rw [daysBeforeYear_eq]
  omega

/-- The last day of a cycle of four or four hundred years, which the shorter cycles do not hold. -/
theorem daysBeforeYear_lastCycle {a b c e : Nat} (h : b = 4 ∧ c = 0 ∧ e = 0 ∨ b ≤ 3 ∧ c ≤ 23 ∧ e = 4) :
    daysBeforeYear (400 * a + 100 * b + 4 * c + e + 1) = 146097 * a + 36524 * b + 1461 * c + 365 * e + 1 := by
  rw [daysBeforeYear_eq]
  omega

/-- A number leads to the last day of a year, or to a place before the end of one. -/
theorem ofOrdinal?_cases (n : Nat) :
    (∃ year, 1 ≤ year ∧ ofOrdinal? (n + 1) = of? year 12 31 ∧ daysBeforeYear (year + 1) = n + 1) ∨
    ∃ year r, 1 ≤ year ∧ r < daysInYear year ∧ n = daysBeforeYear year + r ∧
      ofOrdinal? (n + 1) = of? year (monthDay year 1 r 11).1 (monthDay year 1 r 11).2 := by
  simp only [ofOrdinal?]
  generalize ha : n / 146097 = a
  generalize hb : n % 146097 / 36524 = b
  generalize hc : n % 146097 % 36524 / 1461 = c
  generalize he : n % 146097 % 36524 % 1461 / 365 = e
  generalize hr : n % 146097 % 36524 % 1461 % 365 = r
  have hn : n = 146097 * a + 36524 * b + 1461 * c + 365 * e + r := by omega
  by_cases hlast : b = 4 ∨ e = 4
  · rw [if_pos hlast]
    have hcase : (b = 4 ∧ c = 0 ∧ e = 0 ∨ b ≤ 3 ∧ c ≤ 23 ∧ e = 4) ∧ r = 0 := by omega
    refine Or.inl ⟨400 * a + 100 * b + 4 * c + e, by omega, rfl, ?_⟩
    rw [daysBeforeYear_lastCycle hcase.1]
    omega
  · rw [if_neg hlast]
    refine Or.inr ⟨400 * a + 100 * b + 4 * c + e + 1, r, by omega, ?_, ?_, rfl⟩
    · unfold daysInYear
      split <;> omega
    · rw [daysBeforeYear_cycles (by omega) (by omega) (by omega)]
      exact hn

/-- The last day of a year has the number before the next year's first. -/
theorem ordinal_lastDay (hm : d.month = 12) (hd : d.day = 31) : d.ordinal = daysBeforeYear (d.year + 1) := by
  rw [daysBeforeYear_succ d.year_bounds.1, ← daysBeforeMonth_thirteen, daysBeforeMonth_succ (by omega)]
  simp only [ordinal, hm, hd, daysInMonth]
  omega

theorem ordinal_monthDay {r : Nat} (h : r < daysInYear d.year) (hm : d.month = (monthDay d.year 1 r 11).1)
    (hd : d.day = (monthDay d.year 1 r 11).2) : d.ordinal = daysBeforeYear d.year + r + 1 := by
  obtain ⟨m, k, he, -, -, -, hr⟩ := monthDay_of_lt h
  rw [he] at hm hd
  simp only at hm hd
  simp only [ordinal, hm, hd]
  omega

theorem ordinal_of_ofOrdinal? {n : Nat} (h : ofOrdinal? n = some d) : d.ordinal = n := by
  cases n with
  | zero => simp [ofOrdinal?] at h
  | succ n =>
    rcases ofOrdinal?_cases n with ⟨year, -, he, hn⟩ | ⟨year, r, -, hr, hn, he⟩
    · obtain ⟨rfl, hm, hd⟩ := of?_eq_some.mp (he ▸ h)
      rw [ordinal_lastDay hm hd, hn]
    · obtain ⟨rfl, hm, hd⟩ := of?_eq_some.mp (he ▸ h)
      rw [ordinal_monthDay hr hm hd, hn]

/-- Every number up to the last one has a day. -/
theorem exists_ofOrdinal? {n : Nat} (h₁ : 1 ≤ n) (h₂ : n ≤ lastOrdinal) : ∃ d, ofOrdinal? n = some d := by
  obtain ⟨n, rfl⟩ : ∃ k, n = k + 1 := ⟨n - 1, by omega⟩
  have hlast : daysBeforeYear 10000 = lastOrdinal := by decide
  rcases ofOrdinal?_cases n with ⟨year, h₁, he, hn⟩ | ⟨year, r, h₁, hr, hn, he⟩
  · have hy : year ≤ 9999 := by
      refine Nat.le_of_not_lt fun hy => ?_
      have := daysBeforeYear_lt (b := year + 1) (by omega) (show 10000 < year + 1 by omega)
      have := daysInYear_pos 10000
      omega
    exact ⟨_, he.trans (of?_eq ⟨h₁, hy, by omega, by omega, by omega, by simp [daysInMonth]⟩)⟩
  · have hy : year ≤ 9999 := by
      refine Nat.le_of_not_lt fun hy => ?_
      have := daysBeforeYear_mono (by omega) (show 10000 ≤ year by omega)
      omega
    obtain ⟨m, k, hmd, hm₁, hm₂, hk, -⟩ := monthDay_of_lt hr
    rw [hmd] at he
    exact ⟨_, he.trans (of?_eq ⟨h₁, hy, hm₁, hm₂, by omega, by omega⟩)⟩

theorem ofOrdinal?_eq_some {n : Nat} : ofOrdinal? n = some d ↔ d.ordinal = n := by
  refine ⟨ordinal_of_ofOrdinal?, ?_⟩
  rintro rfl
  obtain ⟨e, he⟩ := exists_ofOrdinal? d.ordinal_pos d.ordinal_le_last
  rw [he, eq_of_ordinal (ordinal_of_ofOrdinal? he)]

@[simp] theorem ofOrdinal?_ordinal (d : Day) : ofOrdinal? d.ordinal = some d := ofOrdinal?_eq_some.mpr rfl

/-- There is no day before the first and none after the last. -/
theorem ofOrdinal?_eq_none {n : Nat} (h : n = 0 ∨ lastOrdinal < n) : ofOrdinal? n = none := by
  cases hd : ofOrdinal? n with
  | none => rfl
  | some d =>
    have := d.ordinal_pos
    have := d.ordinal_le_last
    have := ordinal_of_ofOrdinal? hd
    omega

/-- Moving by days is addition on numbers. -/
theorem addDays?_eq_some {n : Int} {e : Day} : d.addDays? n = some e ↔ (e.ordinal : Int) = d.ordinal + n := by
  have he := e.ordinal_pos
  unfold addDays?
  simp only
  split
  · constructor
    · simp
    · intro h
      omega
  · rw [ofOrdinal?_eq_some]
    omega

theorem addDays?_eq_none {n : Int} (hn : 0 ≤ n) (h : d.addDays? n = none) : (lastOrdinal : Int) < d.ordinal + n := by
  refine Int.lt_of_not_ge fun hle => ?_
  have := d.ordinal_pos
  obtain ⟨e, he⟩ := exists_ofOrdinal? (n := (d.ordinal + n).toNat) (by omega) (by omega)
  have he := ordinal_of_ofOrdinal? he
  rw [addDays?_eq_some.mpr (show (e.ordinal : Int) = d.ordinal + n by omega)] at h
  exact absurd h (by simp)

end Day

end Cadence
