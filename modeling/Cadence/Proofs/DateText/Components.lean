import Mathlib.Tactic.SplitIfs
import Cadence.Proofs.DateText.Numbers
import Cadence.Proofs.DateText.Short
import Cadence.Proofs.DateText.Written
import Cadence.Proofs.Failure

/-!
# What the numbers of a date are

Of three numbers each is the year, the month or the day of the date that is read, and none of them is left out. A
number above 31 or of four digits is the year, of the others one above 12 is the day, and where that leaves a choice
the format decides. Numbers that cannot be so divided are no date in any format.
-/

namespace Cadence

open Text

namespace NumericDate

variable {d : NumericDate} {format format' : LocaleFormat} {order : DateOrder} {stamp : Stamp} {i j : Fin 3}

/-! ### Places -/

/-- The number at a place, in the order in which they are written. -/
def part (d : NumericDate) : Fin 3 → Text
  | 0 => d.first
  | 1 => d.second
  | 2 => d.third

/-- The number at a place is above 31 or has four digits. -/
def IsMarked (d : NumericDate) (i : Fin 3) : Prop := 31 < size (d.part i) ∨ (d.part i).length = 4

instance (i : Fin 3) : Decidable (d.IsMarked i) := inferInstanceAs (Decidable (_ ∨ _))

theorem marksYear_part : marksYear (d.part i) = decide (d.IsMarked i) := (Bool.decide_or _ _).symm

/-- The year stands at the place: no number but the one there is marked, and the order puts the year there if none
    is. -/
def IsYearPlace (d : NumericDate) (order : DateOrder) (i : Fin 3) : Prop :=
  (∀ j, d.IsMarked j → j = i) ∧ ((∀ j, ¬ d.IsMarked j) → i.val = order.yearIndex)

/-- The two places beside one, in order. -/
def others : Fin 3 → Fin 3 × Fin 3
  | 0 => (1, 2)
  | 1 => (0, 2)
  | 2 => (0, 1)

theorem others_spec : ∀ i : Fin 3, (others i).1 ≠ i ∧ (others i).2 ≠ i ∧ (others i).1 ≠ (others i).2 ∧
    (others i).1 < (others i).2 ∧ ¬ (others i).2 < (others i).1 := by decide

theorem eq_others : ∀ i j : Fin 3, j ≠ i → j = (others i).1 ∨ j = (others i).2 := by decide

/-- Where a number is marked the year stands there in every order, or nowhere. -/
theorem isYearPlace_of_isMarked (marked : d.IsMarked j) : d.IsYearPlace order i ↔ ∀ k, d.IsMarked k → k = i :=
  ⟨And.left, fun only => ⟨only, fun none => absurd marked (none j)⟩⟩

/-! ### The year and the two other numbers -/

theorem splitYear?_eq_some {parts : Text × Text × Text} : d.splitYear? format = some parts ↔
    ∃ i, d.IsYearPlace format.order i ∧ parts = (d.part i, d.part (others i).1, d.part (others i).2) := by
  have first : marksYear d.first = decide (d.IsMarked 0) := marksYear_part (i := 0)
  have second : marksYear d.second = decide (d.IsMarked 1) := marksYear_part (i := 1)
  have third : marksYear d.third = decide (d.IsMarked 2) := marksYear_part (i := 2)
  have index : format.order.yearIndex = 0 ∨ format.order.yearIndex = 2 := by cases format.order <;> decide
  unfold splitYear?
  rw [first, second, third]
  by_cases h₀ : d.IsMarked 0 <;> by_cases h₁ : d.IsMarked 1 <;> by_cases h₂ : d.IsMarked 2 <;>
    rcases index with index | index <;>
    simp [IsYearPlace, Fin.forall_fin_succ, Fin.exists_fin_succ, h₀, h₁, h₂, index, others, part, eq_comm]

/-- A first number of four digits is the year, if no other number is marked. -/
theorem splitYear?_of_first (four : d.first.length = 4) (second : ¬ d.IsMarked 1) (third : ¬ d.IsMarked 2) :
    d.splitYear? format = some (d.first, d.second, d.third) := by
  refine splitYear?_eq_some.mpr ⟨0, ⟨fun j marked => ?_, fun none => absurd (.inr four) (none 0)⟩, rfl⟩
  match j, marked with
  | 0, _ => rfl
  | 1, marked => exact absurd marked second
  | 2, marked => exact absurd marked third

/-! ### The day and the month -/

section DayAndMonth
variable {a b day month : Nat}

/-- Of two numbers one is the day and the other the month, which is at most 12. If either could be the month, the
    order decides. -/
theorem dayAndMonth?_eq_some (found : dayAndMonth? a b format = some (day, month)) : month ≤ 12 ∧
    (day = a ∧ month = b ∧ (a ≤ 12 → format.order.dayFirst = true) ∨
      day = b ∧ month = a ∧ (b ≤ 12 → format.order.dayFirst = false)) := by
  unfold dayAndMonth? at found
  split_ifs at found with both first second dayFirst <;> cases found
  · exact ⟨by omega, .inl ⟨rfl, rfl, by omega⟩⟩
  · exact ⟨by omega, .inr ⟨rfl, rfl, by omega⟩⟩
  · exact ⟨by omega, .inl ⟨rfl, rfl, fun _ => dayFirst⟩⟩
  · exact ⟨by omega, .inr ⟨rfl, rfl, fun _ => Bool.eq_false_iff.mpr dayFirst⟩⟩

theorem dayAndMonth?_eq_none (both : 12 < a ∧ 12 < b) : dayAndMonth? a b format = none := if_pos both

/-- A month before a day is read as the month, unless the order puts the day first and either could be the month. -/
theorem dayAndMonth?_of_month (isMonth : a ≤ 12) :
    dayAndMonth? a b format = some (if format.order.dayFirst = true ∧ b ≤ 12 then (a, b) else (b, a)) := by
  by_cases turns : format.order.dayFirst = true ∧ b ≤ 12
  · rw [dayAndMonth?, if_neg (by omega), if_neg (by omega), if_neg (by omega), if_pos turns.1, if_pos turns]
  · rw [dayAndMonth?, if_neg (by omega), if_neg (by omega), if_neg turns]
    split_ifs with above dayFirst
    · rfl
    · exact absurd ⟨dayFirst, Nat.not_lt.mp above⟩ turns
    · rfl

/-- Where one of the numbers is above 12 the format is of no account. -/
theorem dayAndMonth?_congr (format format' : LocaleFormat) (above : 12 < a ∨ 12 < b) :
    dayAndMonth? a b format = dayAndMonth? a b format' := by
  unfold dayAndMonth?
  split_ifs <;> first | rfl | omega

end DayAndMonth

/-! ### The date -/

/-- Which of the three numbers is the year, which the month and which the day. -/
structure Roles where
  year : Fin 3
  month : Fin 3
  day : Fin 3
  distinct : year ≠ month ∧ year ≠ day ∧ month ≠ day

/-- A day has the numbers in their roles as its own, only a year of at most two digits being put between 1950 and
    2049. -/
structure Roles.Give (roles : Roles) (d : NumericDate) (day : Day) : Prop where
  shortYear : (d.part roles.year).length ≤ 2 →
    1950 ≤ day.year ∧ day.year ≤ 2049 ∧ day.year % 100 = size (d.part roles.year)
  longYear : 2 < (d.part roles.year).length → day.year = size (d.part roles.year)
  month : day.month = size (d.part roles.month)
  day : day.day = size (d.part roles.day)

/-- The roles follow from the numbers, and from the order of a format where the numbers leave a choice. -/
structure Roles.Fit (roles : Roles) (d : NumericDate) (order : DateOrder) : Prop where
  year : d.IsYearPlace order roles.year
  tie : size (d.part roles.day) ≤ 12 → (roles.day < roles.month ↔ order.dayFirst = true)

theorem size_lt (s : Text) : size s < 10 ^ s.length := by
  unfold size
  cases read : readNat? s with
  | none => exact Nat.pow_pos (by decide)
  | some n => exact (readNat?_lt read).1

theorem yearOf_short {s : Text} (short : s.length ≤ 2) : 1950 ≤ yearOf s ∧ yearOf s ≤ 2049 ∧ yearOf s % 100 = size s := by
  have less : size s < 100 := Nat.lt_of_lt_of_le (size_lt s) (Nat.pow_le_pow_right (by decide) short)
  unfold yearOf
  rw [if_pos short]
  split_ifs <;> omega

theorem yearOf_long {s : Text} (long : 2 < s.length) : yearOf s = size s := if_neg (by omega)

theorem exists_roles_of_stamp? (found : d.stamp? format = some stamp) :
    ∃ roles : Roles, roles.Give d stamp.day ∧ roles.Fit d format.order := by
  unfold stamp? at found
  obtain ⟨parts, split, found⟩ := Option.bind_eq_some_iff.mp found
  obtain ⟨i, place, rfl⟩ := splitYear?_eq_some.mp split
  obtain ⟨⟨day, month⟩, divided, made⟩ := Option.bind_eq_some_iff.mp found
  obtain ⟨hyear, hmonth, hday⟩ := Stamp.day_of_of? made
  obtain ⟨first, second, apart, ordered, unordered⟩ := others_spec i
  have shortYear (short : (d.part i).length ≤ 2) := hyear ▸ yearOf_short short
  have longYear (long : 2 < (d.part i).length) : stamp.day.year = size (d.part i) := hyear.trans (yearOf_long long)
  obtain ⟨-, ⟨rfl, rfl, tie⟩ | ⟨rfl, rfl, tie⟩⟩ := dayAndMonth?_eq_some divided
  · refine ⟨⟨i, (others i).2, (others i).1, second.symm, first.symm, apart.symm⟩, ⟨shortYear, longYear, hmonth, hday⟩,
      place, fun few => ?_⟩
    exact iff_of_true ordered (tie few)
  · refine ⟨⟨i, (others i).1, (others i).2, first.symm, second.symm, apart⟩, ⟨shortYear, longYear, hmonth, hday⟩,
      place, fun few => ?_⟩
    exact iff_of_false unordered (Bool.eq_false_iff.mp (tie few))

/-- Two numbers that can only be the year are no date. -/
theorem stamp?_eq_none_of_marked (hi : d.IsMarked i) (hj : d.IsMarked j) (ne : i ≠ j) : d.stamp? format = none := by
  have none : d.splitYear? format = none := by
    rw [Option.eq_none_iff_forall_ne_some]
    intro parts split
    obtain ⟨k, place, -⟩ := splitYear?_eq_some.mp split
    exact ne ((place.1 i hi).trans (place.1 j hj).symm)
  rw [stamp?, none]
  rfl

/-- Beside the year one number must be low enough for a month. -/
theorem stamp?_eq_none_of_above (place : d.IsYearPlace format.order i) (above : ∀ j, j ≠ i → 12 < size (d.part j)) :
    d.stamp? format = none := by
  obtain ⟨first, second, -⟩ := others_spec i
  rw [stamp?, splitYear?_eq_some.mpr ⟨i, place, rfl⟩]
  simp only [Option.bind_eq_bind, Option.bind_some, dayAndMonth?_eq_none ⟨above _ first, above _ second⟩, Option.bind_none]

/-- Where one number can only be the year and another one only the day, the format is of no account. -/
theorem stamp?_congr (marked : d.IsMarked i) (ne : j ≠ i) (above : 12 < size (d.part j)) :
    d.stamp? format = d.stamp? format' := by
  by_cases only : ∀ k, d.IsMarked k → k = i
  · have place (order : DateOrder) : d.IsYearPlace order i := (isYearPlace_of_isMarked marked).mpr only
    have high : 12 < size (d.part (others i).1) ∨ 12 < size (d.part (others i).2) := by
      rcases eq_others i j ne with rfl | rfl
      · exact .inl above
      · exact .inr above
    rw [stamp?, stamp?, splitYear?_eq_some.mpr ⟨i, place _, rfl⟩, splitYear?_eq_some.mpr ⟨i, place _, rfl⟩]
    simp only [Option.bind_eq_bind, Option.bind_some, dayAndMonth?_congr format format' high]
  · obtain ⟨k, other⟩ := Classical.not_forall.mp only
    obtain ⟨marked', ne'⟩ := Classical.not_imp.mp other
    rw [stamp?_eq_none_of_marked marked' marked ne', stamp?_eq_none_of_marked marked' marked ne']

end NumericDate

open NumericDate

/-- The timestamp that an ISO date stands for, none if the text is no ISO date. -/
def Iso.ofText? (s : Text) : Option Stamp := if hasForm s then read? s else none

/-- The format of a locale that is given by its tag or not at all. -/
def LocaleFormat.named (tag : Option Text) : LocaleFormat := tag.elim british ofTag

theorem LocaleFormat.ofDatum_named (tag : Option Text) : ofDatum (tag.elim .null .text) = .ok (named tag) := by
  cases tag with
  | none => exact ofDatum_null
  | some tag => exact ofDatum_text tag

namespace DateText

variable {s : Text} {d : NumericDate} {stamp : Stamp} {currentYear : Nat}

/-- What a text is read as in a locale that is given by its tag or not at all. -/
def readIn (tag : Option Text) (currentYear : Nat) (s : Text) : Result Stamp :=
  (Datum.text s).stampIn currentYear (LocaleFormat.ofDatum (tag.elim .null .text))

theorem readIn_eq (tag : Option Text) : readIn tag currentYear s = read currentYear (.ok (LocaleFormat.named tag)) s := by
  rw [readIn, LocaleFormat.ofDatum_named, Datum.stampIn]

/-- An ISO date is read without a format. -/
theorem read_of_iso {format : Except Fault LocaleFormat} (iso : Iso.ofText? (trim s) = some stamp) :
    read currentYear format s = .ok stamp := by
  unfold Iso.ofText? at iso
  unfold read resolve
  simp only [iso]

/-- Any other text in numbers is the date that its numbers are, or it is no date. -/
theorem read_of_numbers {format : LocaleFormat} (notIso : Iso.ofText? (trim s) = none)
    (numbers : NumericDate.ofText? (trim s) = some d) :
    read currentYear (.ok format) s = (d.stamp? format).elim (.error (.unparseableDate s)) .ok := by
  unfold Iso.ofText? at notIso
  unfold read resolve
  simp only [notIso, numbers, Except.map]
  cases d.stamp? format <;> rfl

/-- Each number of a date in numbers is its year, its month or its day in every locale, as the numbers themselves
    demand; where they leave no choice the locale is of no account, and where they leave no way there is no date. An
    ISO date is the same in every locale. -/
theorem readIn_numbers (s : Text) (currentYear : Nat) :
    (∀ d, Iso.ofText? (trim s) = none → NumericDate.ofText? (trim s) = some d →
      (∃ ending, d.Writes (trim s) ending) ∧
      (∀ tag stamp, readIn tag currentYear s = .ok stamp →
        ∃ roles : Roles, roles.Give d stamp.day ∧ roles.Fit d (LocaleFormat.named tag).order) ∧
      (∀ i j, i ≠ j → d.IsMarked i → d.IsMarked j → ∀ tag, readIn tag currentYear s = .error (.unparseableDate s)) ∧
      (∀ tag i, d.IsYearPlace (LocaleFormat.named tag).order i → (∀ j, j ≠ i → 12 < size (d.part j)) →
        readIn tag currentYear s = .error (.unparseableDate s)) ∧
      ∀ i j, j ≠ i → d.IsMarked i → 12 < size (d.part j) →
        ∀ tag tag', readIn tag currentYear s = readIn tag' currentYear s) ∧
    ∀ stamp, Iso.ofText? (trim s) = some stamp → ∀ tag, readIn tag currentYear s = .ok stamp := by
  refine ⟨fun d notIso numbers => ?_, fun stamp iso tag => ?_⟩
  · have reads (tag : Option Text) : readIn tag currentYear s =
        (d.stamp? (LocaleFormat.named tag)).elim (.error (.unparseableDate s)) .ok := by
      rw [readIn_eq, read_of_numbers notIso numbers]
    refine ⟨writes_of_ofText? numbers, fun tag stamp read => ?_, fun i j ne hi hj tag => ?_, fun tag i place above => ?_,
      fun i j ne marked above tag tag' => ?_⟩
    · rw [reads] at read
      cases found : d.stamp? (LocaleFormat.named tag) with
      | none =>
        rw [found] at read
        cases read
      | some made =>
        rw [found] at read
        obtain rfl := Except.ok.inj read
        exact exists_roles_of_stamp? found
    · rw [reads, stamp?_eq_none_of_marked hi hj ne, Option.elim_none]
    · rw [reads, stamp?_eq_none_of_above place above, Option.elim_none]
    · rw [reads, reads, stamp?_congr marked ne above]
  · rw [readIn_eq, read_of_iso iso]

/-- In `13/02/32` the last number can only be the year and the first one only the day. -/
theorem readIn_numbers_marked :
    Iso.ofText? (trim "13/02/32".toList) = none ∧
    NumericDate.ofText? (trim "13/02/32".toList) = some { first := "13", second := "02", third := "32" } ∧
    readIn (some "en-US".toList) 2025 "13/02/32".toList = .ok (.ofDay ⟨2032, 2, 13, by decide⟩) ∧
    readIn (some "ja-JP".toList) 2025 "13/02/32".toList = .ok (.ofDay ⟨2032, 2, 13, by decide⟩) ∧
    (∃ roles : Roles, roles.Give { first := "13", second := "02", third := "32" } ⟨2032, 2, 13, by decide⟩) ∧
    readIn none 2025 "40/02/2025".toList = .error (.unparseableDate "40/02/2025".toList) ∧
    readIn none 2025 "13/14/2025".toList = .error (.unparseableDate "13/14/2025".toList) ∧
    readIn none 2025 "2025-06-07".toList = .ok (.ofDay ⟨2025, 6, 7, by decide⟩) := by
  have notIso : Iso.ofText? (trim "13/02/32".toList) = none := by decide
  have numbers : NumericDate.ofText? (trim "13/02/32".toList) = some { first := "13", second := "02", third := "32" } := by decide
  obtain ⟨-, used, -, -, same⟩ := (readIn_numbers "13/02/32".toList 2025).1 _ notIso numbers
  have american : readIn (some "en-US".toList) 2025 "13/02/32".toList = .ok (.ofDay ⟨2032, 2, 13, by decide⟩) :=
    toOption_eq_some (by decide +kernel)
  obtain ⟨roles, give, -⟩ := used _ _ american
  refine ⟨notIso, numbers, american, ?_, ⟨roles, give⟩, ?_, ?_, ?_⟩
  · exact (same 2 0 (by decide) (by decide) (by decide) _ _).trans american
  · obtain ⟨-, -, twice, -⟩ := (readIn_numbers "40/02/2025".toList 2025).1
      { first := "40", second := "02", third := "2025" } (by decide) (by decide)
    exact twice 0 2 (by decide) (by decide) (by decide) _
  · obtain ⟨-, -, -, high, -⟩ := (readIn_numbers "13/14/2025".toList 2025).1
      { first := "13", second := "14", third := "2025" } (by decide) (by decide)
    exact high _ 2 ⟨by decide, fun none => absurd (by decide) (none 2)⟩ (by decide)
  · exact (readIn_numbers "2025-06-07".toList 2025).2 _ (by decide) none

end DateText

end Cadence
