import Cadence.DateText.Numbers
import Cadence.Proofs.Text.Numeral

/-!
# Numbers in short texts

A number has no more digits than its text has characters. Numbers of a date that are written in at most nine
characters are not beyond what can be taken for part of a date.
-/

namespace Cadence

namespace Text

/-! ### Numbers in short texts -/

theorem digitValues?_eq_some {s : Text} {digits : List Nat} (found : digitValues? s = some digits) :
    AreDigits digits ∧ digits.length = s.length ∧ (s ≠ [] → s.any isDecimal = true) := by
  unfold digitValues? at found
  induction s generalizing digits with
  | nil =>
    cases found
    exact ⟨nofun, rfl, absurd rfl⟩
  | cons c s ih =>
    rw [List.mapM_cons] at found
    obtain ⟨d, first, found⟩ := Option.bind_eq_some_iff.mp found
    obtain ⟨rest, others, found⟩ := Option.bind_eq_some_iff.mp found
    cases found
    obtain ⟨areDigits, length, -⟩ := ih others
    refine ⟨List.forall_mem_cons.mpr ⟨digitValue?_lt first, areDigits⟩, by simp [length], fun _ => ?_⟩
    rw [List.any_cons, isDecimal, first]
    rfl

theorem flatten_splitOn_sublist (sep : Char) (s : Text) : ((splitOn sep s).flatten).Sublist s := by
  induction s with
  | nil => exact List.Sublist.refl _
  | cons c s ih =>
    unfold splitOn
    split
    · exact ih.cons c
    · cases pieces : splitOn sep s with
      | nil => exact absurd pieces (splitOn_ne_nil sep s)
      | cons piece more =>
        rw [pieces] at ih
        exact ih.cons_cons c

theorem sublist_of_mem_splitOn {sep : Char} {s p : Text} (member : p ∈ splitOn sep s) : p.Sublist s :=
  (List.sublist_flatten_of_mem member).trans (flatten_splitOn_sublist sep s)

/-- A number has as many digits as its text has characters, at most. -/
theorem readNat?_lt {s : Text} {n : Nat} (read : readNat? s = some n) : n < 10 ^ s.length ∧ s.any isDecimal = true := by
  unfold readNat? at read
  dsimp only at read
  split at read
  · cases read
  · rename_i rows
    obtain ⟨digits, found, read⟩ := Option.bind_eq_some_iff.mp read
    split at read
    · obtain rfl := Option.some.inj read
      obtain ⟨areDigits, length, some⟩ := digitValues?_eq_some found
      have shorter := flatten_splitOn_sublist '_' s
      refine ⟨Nat.lt_of_lt_of_le (digitsValue_lt areDigits) (Nat.pow_le_pow_right (by decide) ?_), ?_⟩
      · exact length ▸ shorter.length_le
      · obtain ⟨row, more, pieces⟩ := List.exists_cons_of_ne_nil (splitOn_ne_nil '_' s)
        have nonempty : (splitOn '_' s).flatten ≠ [] := by
          rw [pieces, List.any_cons, Bool.or_eq_true, not_or] at rows
          rw [pieces, List.flatten_cons]
          exact fun empty => rows.1 (List.isEmpty_iff.mpr (List.append_eq_nil_iff.mp empty).1)
        obtain ⟨c, member, decimal⟩ := List.any_eq_true.mp (some nonempty)
        exact List.any_eq_true.mpr ⟨c, shorter.subset member, decimal⟩
    · cases read

theorem readNat?_lt_maxDigits {s : Text} {n : Nat} (read : readNat? s = some n) : n < 10 ^ maxDigits := by
  unfold readNat? at read
  dsimp only at read
  split at read
  · cases read
  · obtain ⟨digits, found, read⟩ := Option.bind_eq_some_iff.mp read
    split at read
    · rename_i few
      obtain rfl := Option.some.inj read
      exact Nat.lt_of_lt_of_le (digitsValue_lt (digitValues?_eq_some found).1) (Nat.pow_le_pow_right (by decide) few)
    · cases read

theorem natAbs_readInt?_lt {s : Text} {n : Int} (read : readInt? s = some n) : n.natAbs < 10 ^ maxDigits := by
  have number : ∃ digits, readNat? digits = some n.natAbs := by
    unfold readInt? at read
    split at read
    all_goals
      obtain ⟨k, cast, rfl⟩ := Option.map_eq_some_iff.mp read
      obtain ⟨m, number, same⟩ := Option.bind_eq_some_iff.mp cast
      obtain rfl := Option.some.inj same
      exact ⟨_, by simpa using number⟩
  obtain ⟨digits, number⟩ := number
  exact readNat?_lt_maxDigits number

/-- A text with a decimal digit has at most so many characters. -/
def IsShort (limit : Nat) (s : Text) : Prop := s.any isDecimal = true → s.length ≤ limit

instance (limit : Nat) (s : Text) : Decidable (IsShort limit s) := inferInstanceAs (Decidable (_ → _))

theorem IsShort.mono {limit limit' : Nat} {s : Text} (short : IsShort limit s) (le : limit ≤ limit') : IsShort limit' s :=
  fun digits => Nat.le_trans (short digits) le

/-- Part of a short text holds no number that its length does not allow. -/
theorem IsShort.readNat?_lt {limit : Nat} {s t : Text} {n : Nat} (short : IsShort limit s) (part : t.Sublist s)
    (read : readNat? t = some n) : n < 10 ^ limit := by
  obtain ⟨less, digits⟩ := Text.readNat?_lt read
  obtain ⟨c, member, decimal⟩ := List.any_eq_true.mp digits
  have whole := short (List.any_eq_true.mpr ⟨c, part.subset member, decimal⟩)
  exact Nat.lt_of_lt_of_le less (Nat.pow_le_pow_right (by decide) (Nat.le_trans part.length_le whole))

end Text

open Text

namespace Decimal

variable {s : Text} {x : Decimal}

/-- A decimal number has no more digits than its text has characters. -/
theorem ofToken?_bounds (read : ofToken? s = some x) :
    x.whole < 10 ^ s.length ∧ x.places ≤ s.length ∧ s.any isDecimal = true := by
  unfold ofToken? at read
  split at read
  · obtain ⟨digits, found, read⟩ := Option.bind_eq_some_iff.mp read
    split at read
    · cases read
    · rename_i some
      cases read
      obtain ⟨areDigits, length, decimal⟩ := digitValues?_eq_some found
      have nonempty : s ≠ [] := by
        rintro rfl
        exact some (by rw [List.length_eq_zero_iff.mp length]; rfl)
      refine ⟨?_, Nat.zero_le _, decimal nonempty⟩
      rw [whole, Nat.pow_eq, Nat.pow_zero, Nat.div_one]
      exact length ▸ digitsValue_lt areDigits
  · rename_i before after cut
    split at read
    · rename_i d digits decimals found found'
      cases read
      obtain ⟨areDigits, length, decimal⟩ := digitValues?_eq_some found
      obtain ⟨areDigits', length', -⟩ := digitValues?_eq_some found'
      obtain rfl := cut?_eq_some cut
      have nonempty : before ≠ [] := by
        rintro rfl
        cases length
      have less := digitsValue_lt (areDigits.append areDigits')
      rw [List.length_append, length, length', Nat.pow_add, Nat.mul_comm] at less
      have whole := Nat.div_lt_of_lt_mul less
      rw [← length'] at whole
      refine ⟨Nat.lt_of_lt_of_le whole (Nat.pow_le_pow_right (by decide) (by simp)), ?_, ?_⟩
      · show decimals.length ≤ _
        rw [List.length_append, List.length_cons]
        omega
      · rw [List.any_append, decimal nonempty, Bool.true_or]
    · cases read

/-- Numbers of so few places are not rounded, so that no part behind the point comes to all sixty sixtieths. -/
theorem sixtieths_lt (short : x.places ≤ 9) : x.sixtieths < 60 := by
  have exact : ∀ n < 10 ^ 28, rounded n = n := fun n less =>
    rounded_of_short ((Nat.length_toDigits_le_iff (by decide) (by decide)).mpr less)
  have pos : 0 < Nat.pow 10 x.places := Nat.pow_pos (by decide)
  have part : x.fraction < Nat.pow 10 x.places := Nat.mod_lt _ pos
  have few : Nat.pow 10 x.places ≤ 10 ^ 9 := Nat.pow_le_pow_right (by decide) short
  rw [sixtieths, exact x.fraction (by omega), exact (60 * x.fraction) (by omega)]
  exact Nat.div_lt_of_lt_mul (by rw [Nat.mul_comm]; exact Nat.mul_lt_mul_of_lt_of_le part (Nat.le_refl 60) (by decide))

end Decimal

/-! ### Numbers of a date -/

namespace DateNumbers

variable {d next : DateNumbers} {s token : Text} {n : Nat}

/-- The largest number that can be taken for part of a date. -/
def largest : Nat := 2147483647

/-- None of the numbers is beyond what can be taken for part of a date. -/
def AreSmall (d : DateNumbers) : Prop := ∀ n ∈ d.values, n ≤ largest

theorem readNat?_le (short : IsShort 9 token) (part : s.Sublist token) (read : readNat? s = some n) : n ≤ largest :=
  Nat.le_of_lt (Nat.lt_trans (short.readNat?_lt part read) (by decide))

theorem AreSmall.push (small : d.AreSmall) (le : n ≤ largest) : (d.push n).AreSmall := by
  intro m member
  rcases List.mem_append.mp member with old | new
  · exact small m old
  · rw [List.mem_singleton.mp new]
    exact le

theorem AreSmall.pushYear? (small : d.AreSmall) (le : n ≤ largest) (pushed : d.pushYear? n = some next) : next.AreSmall := by
  unfold DateNumbers.pushYear? at pushed
  split at pushed
  · cases pushed
  · cases pushed
    exact small.push le

theorem AreSmall.pushMonth? (small : d.AreSmall) (le : n ≤ largest) (pushed : d.pushMonth? n = some next) : next.AreSmall := by
  unfold DateNumbers.pushMonth? at pushed
  split at pushed
  · cases pushed
  · cases pushed
    exact small.push le

theorem AreSmall.pushText? (small : d.AreSmall) (short : IsShort 9 token) (part : s.Sublist token)
    (pushed : d.pushText? s = some next) : next.AreSmall := by
  obtain ⟨n, read, pushed⟩ := Option.bind_eq_some_iff.mp pushed
  have le := readNat?_le short part read
  split at pushed
  · exact AreSmall.pushYear? (d := { d with century := true }) small le pushed
  · cases pushed
    exact small.push le

theorem AreSmall.pushYearText? (small : d.AreSmall) (le : ∀ n, readNat? s = some n → n ≤ largest)
    (pushed : d.pushYearText? s = some next) : next.AreSmall := by
  obtain ⟨n, read, pushed⟩ := Option.bind_eq_some_iff.mp pushed
  exact AreSmall.pushYear? (d := { d with century := d.century || 2 < s.length }) small (le n read) pushed

theorem AreSmall.pushDecimal? {x : Decimal} (small : d.AreSmall) (le : x.whole ≤ largest)
    (pushed : d.pushDecimal? x = some next) : next.AreSmall := by
  unfold DateNumbers.pushDecimal? at pushed
  split at pushed
  · cases pushed
    exact small.push le
  · exact AreSmall.pushYear? (d := { d with century := true }) small le pushed

/-- Year, month and day are among the numbers that have been read. -/
theorem mem_of_resolve? {dayFirst : Bool} {resolved : Resolved} (found : d.resolve? dayFirst = some resolved) :
    (∀ n ∈ resolved.1, n ∈ d.values) ∧ (∀ n ∈ resolved.2.1, n ∈ d.values) ∧ (∀ n ∈ resolved.2.2, n ∈ d.values) := by
  have remaining : ∀ y m, ∀ n ∈ remaining? d.values y m, n ∈ d.values := by
    intro y m n member
    obtain ⟨place, -, found⟩ := Option.bind_eq_some_iff.mp member
    exact List.mem_of_getElem? found
  have atPlace : ∀ place : Nat, ∀ n ∈ d.values[place]?, n ∈ d.values := fun place n member => List.mem_of_getElem? member
  unfold resolve? at found
  dsimp only at found
  split at found <;> grind

end DateNumbers

open DateNumbers

theorem Decimal.small_of_ofToken? {token : Text} {x : Decimal} (short : IsShort 9 token)
    (read : Decimal.ofToken? token = some x) : x.whole ≤ largest ∧ x.places ≤ 9 := by
  obtain ⟨whole, places, digits⟩ := Decimal.ofToken?_bounds read
  have length := short digits
  refine ⟨Nat.le_of_lt (Nat.lt_of_lt_of_le whole ?_), Nat.le_trans places length⟩
  exact Nat.le_trans (Nat.pow_le_pow_right (by decide) length) (by decide)

theorem Decimal.isReckonable_of_ofToken? {token : Text} {x : Decimal} (short : IsShort 28 token)
    (read : Decimal.ofToken? token = some x) : x.isReckonable = true := by
  obtain ⟨whole, -, digits⟩ := Decimal.ofToken?_bounds read
  exact decide_eq_true (Nat.lt_of_lt_of_le whole (Nat.pow_le_pow_right (by decide) (short digits)))

end Cadence
