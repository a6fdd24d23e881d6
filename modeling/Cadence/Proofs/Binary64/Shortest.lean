import Mathlib.Algebra.Order.Floor.Semifield
import Mathlib.Data.Nat.Digits.Defs
import Mathlib.Data.Rat.Floor
import Cadence.Proofs.Binary64.Rounding

/-!
# The fewest digits

A decimal is read by its size alone, so that zeros may be put behind its digits. Every number is read from one of the two
decimals of seventeen digits next to it, and the search for the fewest digits ends with a decimal that is read as the number.
-/

namespace Cadence

/-! ### Written numbers -/

namespace Text

theorem ofNat_mul_ten {n : Nat} (pos : 0 < n) : ofNat (n * 10) = ofNat n ++ ['0'] := by
  rw [ofNat, Nat.toDigits_of_base_le (by decide) (by omega), Nat.mul_div_cancel n (by decide), Nat.mul_mod_left]
  rfl

theorem ofNat_mul_pow {n : Nat} (pos : 0 < n) (k : Nat) : ofNat (n * 10 ^ k) = ofNat n ++ List.replicate k '0' := by
  induction k with
  | zero => simp
  | succ k ih =>
    rw [Nat.pow_succ, ← Nat.mul_assoc, ofNat_mul_ten (Nat.mul_pos pos (Nat.pow_pos (by decide))), ih, List.append_assoc,
      ← List.replicate_succ']

theorem length_ofNat_le {n k : Nat} (pos : 0 < k) (lt : n < 10 ^ k) : (ofNat n).length ≤ k := Nat.toDigits_length 10 n k pos lt

end Text

namespace Binary64

variable {num den : Nat} {negative : Bool} {m : Nat} {e : Int} {digits : Nat} {exponent place last : Int}

/-! ### Decimals -/

/-- Equal quotients are rounded to the same number. -/
theorem ofQuotient_congr {num' den' : Nat} (pos : 0 < num) (den_pos : 0 < den) (pos' : 0 < num') (den_pos' : 0 < den')
    (same : (num : ℚ) / den = num' / den') : ofQuotient negative num den = ofQuotient negative num' den' := by
  rw [div_eq_div_iff (by exact_mod_cast den_pos.ne') (by exact_mod_cast den_pos'.ne')] at same
  have cross : num * den' = num' * den := by exact_mod_cast same
  rw [← ofQuotient_mul pos den_pos den_pos', ← ofQuotient_mul pos' den_pos' den_pos, cross, mul_comm den]

/-- How many places a decimal has before its point. -/
def decimalSize (digits : Nat) (exponent : Int) : Int := exponent + (Text.ofNat digits).length

/-- A decimal of a moderate size is rounded as the quotient that it is. -/
theorem exists_ofQuotient (pos : 0 < digits) (high : decimalSize digits exponent ≤ 400) (low : -400 ≤ decimalSize digits exponent) :
    ∃ num den : Nat, 0 < num ∧ 0 < den ∧ (num : ℚ) / den = digits * 10 ^ exponent ∧
      ∀ negative, ofDecimal negative digits exponent = ofQuotient negative num den := by
  unfold decimalSize at high low
  obtain ⟨den_pos, quotient⟩ := inUnits_eq (show 0 < 10 by decide) digits Nat.one_pos (-exponent)
  have value : ((inUnits 10 digits 1 (-exponent)).1 : ℚ) / (inUnits 10 digits 1 (-exponent)).2 = digits * 10 ^ exponent := by
    rw [quotient, zpow_neg, div_inv_eq_mul, Nat.cast_one, div_one, Nat.cast_ofNat]
  refine ⟨_, _, inUnits_pos (by decide) pos 1 _, den_pos, value, fun negative => ?_⟩
  rw [ofDecimal, if_neg pos.ne']
  dsimp only
  rw [if_neg (by omega), if_neg (by omega)]

/-- Zeros behind the digits of a decimal count for nothing. -/
theorem ofDecimal_mul_pow (negative : Bool) (pos : 0 < digits) (exponent : Int) (k : Nat) :
    ofDecimal negative (digits * 10 ^ k) (exponent - k) = ofDecimal negative digits exponent := by
  have pos' : 0 < digits * 10 ^ k := Nat.mul_pos pos (Nat.pow_pos (by decide))
  have size : decimalSize (digits * 10 ^ k) (exponent - k) = decimalSize digits exponent := by
    rw [decimalSize, Text.ofNat_mul_pow pos, List.length_append, List.length_replicate, decimalSize]
    omega
  by_cases moderate : decimalSize digits exponent ≤ 400 ∧ -400 ≤ decimalSize digits exponent
  · obtain ⟨num, den, num_pos, den_pos, quotient, read⟩ := exists_ofQuotient pos moderate.1 moderate.2
    obtain ⟨num', den', num_pos', den_pos', quotient', read'⟩ := exists_ofQuotient pos' (size ▸ moderate.1) (size ▸ moderate.2)
    rw [read, read']
    refine ofQuotient_congr num_pos' den_pos' num_pos den_pos ?_
    rw [quotient, quotient', zpow_sub₀ (by norm_num), zpow_natCast]
    push_cast
    field_simp
  · unfold ofDecimal
    unfold decimalSize at size moderate
    rw [if_neg pos'.ne', if_neg pos.ne']
    dsimp only
    rw [size]
    split
    · rfl
    · rw [if_pos (by omega), if_pos (by omega)]

/-- The number with a sign. -/
def signed (negative : Bool) : Binary64 → Binary64
  | nan => nan
  | infinity _ => infinity negative
  | finite _ m e => finite negative m e

theorem bounded_signed (m : Nat) (e : Int) : bounded negative m e = (bounded false m e).signed negative := by
  unfold bounded
  split <;> rfl

theorem ofQuotient_signed (num den : Nat) : ofQuotient negative num den = (ofQuotient false num den).signed negative := by
  rw [ofQuotient_eq, ofQuotient_eq]
  unfold rounded
  split
  · exact bounded_signed _ _
  · exact bounded_signed _ _

/-- The sign before a decimal is that of the number. -/
theorem ofDecimal_signed (digits : Nat) (exponent : Int) :
    ofDecimal negative digits exponent = (ofDecimal false digits exponent).signed negative := by
  unfold ofDecimal
  dsimp only
  split
  · rfl
  · split
    · rfl
    · split
      · rfl
      · exact ofQuotient_signed _ _

/-! ### The place of the first digit -/

theorem reaches_iff (num : Nat) (den_pos : 0 < den) (k : Int) : reaches num den k = true ↔ (10 : ℚ) ^ k ≤ num / den := by
  obtain ⟨counted, same⟩ := inUnits_eq (show 0 < 10 by decide) num den_pos k
  have denominator : (0 : ℚ) < (inUnits 10 num den k).2 := by exact_mod_cast counted
  have power : (0 : ℚ) < 10 ^ k := zpow_pos (by norm_num) k
  rw [Nat.cast_ofNat] at same
  rw [← one_le_div power, ← same, one_le_div denominator, reaches, decide_eq_true_iff]
  exact_mod_cast Iff.rfl

/-- The place that the search finds is that of the first digit, if it begins above it and goes down far enough. -/
theorem leadingPlace_spec (den_pos : 0 < den) {start : Int} {fuel : Nat} (high : (num : ℚ) / den < 10 ^ (start + 1))
    (low : (10 : ℚ) ^ (start - fuel) ≤ num / den) :
    (10 : ℚ) ^ leadingPlace num den start fuel ≤ num / den ∧ (num : ℚ) / den < 10 ^ (leadingPlace num den start fuel + 1) ∧
      start - fuel ≤ leadingPlace num den start fuel ∧ leadingPlace num den start fuel ≤ start := by
  induction fuel generalizing start with
  | zero => exact ⟨by simpa [leadingPlace] using low, high, by simp [leadingPlace], by simp [leadingPlace]⟩
  | succ fuel ih =>
    unfold leadingPlace
    split
    · rename_i found
      exact ⟨(reaches_iff num den_pos start).mp found, high, by omega, le_refl _⟩
    · rename_i above
      have high := not_le.mp (mt (reaches_iff num den_pos start).mpr above)
      have step : start - 1 - (fuel : Int) = start - (fuel + 1 : Nat) := by push_cast; ring
      rw [← sub_add_cancel start 1] at high
      rw [← step] at low
      obtain ⟨below, next, least, greatest⟩ := ih high low
      exact ⟨below, next, step ▸ least, by omega⟩

/-! ### Seventeen digits -/

theorem two_pow_le_ten_pow : 2 ^ 53 * 2 ^ 971 ≤ 10 ^ 310 ∧ 2 ^ 1074 ≤ 10 ^ 331 := by decide +kernel

/-- A number other than zero lies between two powers of ten. -/
theorem between_of_isCanonical (canonical : IsCanonical m e) (pos : 0 < m) :
    (m : ℚ) * 2 ^ e < 10 ^ (310 : Int) ∧ (10 : ℚ) ^ (-331 : Int) ≤ m * 2 ^ e := by
  have one : (1 : ℚ) ≤ m := by exact_mod_cast pos
  have below : (m : ℚ) < 2 ^ 53 := by exact_mod_cast canonical.below
  constructor
  · calc (m : ℚ) * 2 ^ e ≤ m * 2 ^ greatestExponent :=
          mul_le_mul_of_nonneg_left (zpow_le_zpow_right₀ one_le_two canonical.greatest) (Nat.cast_nonneg m)
      _ < 2 ^ 53 * 2 ^ greatestExponent := mul_lt_mul_of_pos_right below (zpow_pos two_pos _)
      _ = ((2 ^ 53 * 2 ^ 971 : Nat) : ℚ) := by
        rw [Nat.cast_mul, Nat.cast_pow, Nat.cast_pow, Nat.cast_ofNat]
        rfl
      _ ≤ ((10 ^ 310 : Nat) : ℚ) := Nat.cast_le.mpr two_pow_le_ten_pow.1
      _ = 10 ^ (310 : Int) := by
        rw [Nat.cast_pow, Nat.cast_ofNat]
        rfl
  · calc (10 : ℚ) ^ (-331 : Int) = (((10 ^ 331 : Nat) : ℚ))⁻¹ := by
          rw [Nat.cast_pow, Nat.cast_ofNat]
          rfl
      _ ≤ (((2 ^ 1074 : Nat) : ℚ))⁻¹ := inv_anti₀ (by positivity) (Nat.cast_le.mpr two_pow_le_ten_pow.2)
      _ = 2 ^ leastExponent := by
        rw [Nat.cast_pow, Nat.cast_ofNat]
        rfl
      _ ≤ 2 ^ e := zpow_le_zpow_right₀ one_le_two canonical.least
      _ ≤ m * 2 ^ e := le_mul_of_one_le_left (zpow_pos two_pos e).le one

/-- A decimal of seventeen digits is read as a number if it differs from it by no more than half a unit of its last digit. -/
theorem isReadFrom_of_half {y : ℚ} (canonical : IsCanonical m e) (value : (m : ℚ) * 2 ^ e = y * 10 ^ last) (large : 10 ^ 16 ≤ y)
    (small : y < 10 ^ 17) (near : |digits - y| ≤ 1 / 2) (low : -347 ≤ last) (high : last ≤ 293) :
    (finite false m e).isReadFrom digits last = true := by
  have unit : (0 : ℚ) < 10 ^ last := zpow_pos (by norm_num) last
  obtain ⟨atLeast, atMost⟩ := abs_le.mp near
  have pos : (0 : ℚ) < digits := by linarith
  have pos : 0 < digits := by exact_mod_cast pos
  have short : (digits : ℚ) < 10 ^ 18 := by linarith
  have short : digits < 10 ^ 18 := by exact_mod_cast short
  have length := Text.length_ofNat_le (by decide) short
  obtain ⟨num, den, num_pos, den_pos, quotient, read⟩ :=
    exists_ofQuotient pos (show decimalSize digits last ≤ 400 by unfold decimalSize; omega)
      (show -400 ≤ decimalSize digits last by unfold decimalSize; omega)
  have close : |(num : ℚ) / den - m * 2 ^ e| * (2 * 10 ^ 16) ≤ m * 2 ^ e := by
    rw [quotient, value, ← sub_mul, abs_mul, abs_of_pos unit, mul_right_comm]
    exact mul_le_mul_of_nonneg_right (by linarith) unit.le
  rw [isReadFrom, read, ofQuotient_of_near canonical num_pos den_pos close]
  simp [same]

/-- One of the decimals of so many digits next to the quotient is read as the number. -/
def IsHit (x : Binary64) (num den : Nat) (place : Int) (count : Nat) : Prop :=
  let last := place + 1 - count
  let below := (inUnits 10 num den last).1 / (inUnits 10 num den last).2
  x.isReadFrom below last = true ∨ x.isReadFrom (below + 1) last = true

theorem isHit_seventeen (canonical : IsCanonical m e) (den_pos : 0 < den) (value : (num : ℚ) / den = m * 2 ^ e)
    (low : (10 : ℚ) ^ place ≤ m * 2 ^ e) (high : (m : ℚ) * 2 ^ e < 10 ^ (place + 1)) (least : -331 ≤ place) (greatest : place ≤ 309) :
    (finite false m e).IsHit num den place 17 := by
  unfold IsHit
  dsimp only
  obtain ⟨last, unit⟩ : ∃ last : Int, last = place + 1 - (17 : Nat) := ⟨_, rfl⟩
  rw [← unit]
  have power : (0 : ℚ) < 10 ^ last := zpow_pos (by norm_num) last
  obtain ⟨counted, same⟩ := inUnits_eq (show 0 < 10 by decide) num den_pos last
  generalize inUnits 10 num den last = quotient at counted same ⊢
  have counted : (0 : ℚ) < quotient.2 := by exact_mod_cast counted
  obtain ⟨y, found⟩ : ∃ y : ℚ, (quotient.1 : ℚ) / quotient.2 = y := ⟨_, rfl⟩
  rw [found, value, Nat.cast_ofNat, eq_div_iff power.ne'] at same
  have large : 10 ^ 16 ≤ y := by
    refine le_of_mul_le_mul_right ?_ power
    rw [same, ← zpow_natCast, ← zpow_add₀ (by norm_num)]
    refine le_trans (le_of_eq ?_) low
    congr 1
    omega
  have small : y < 10 ^ 17 := by
    refine lt_of_mul_lt_mul_right ?_ power.le
    rw [same, ← zpow_natCast, ← zpow_add₀ (by norm_num)]
    refine lt_of_lt_of_eq high ?_
    congr 1
    omega
  -- The quotient lies between the two decimals, so that one of them is no more than half a unit away.
  have floor : quotient.1 / quotient.2 = ⌊y⌋₊ := by rw [← found, Nat.floor_div_eq_div]
  have under : (⌊y⌋₊ : ℚ) ≤ y := Nat.floor_le (by linarith)
  have above : y < (⌊y⌋₊ : ℚ) + 1 := Nat.lt_floor_add_one y
  rw [floor]
  rcases le_total (y - (⌊y⌋₊ : ℚ)) (1 / 2) with near | far
  · exact .inl (isReadFrom_of_half canonical same.symm large small (abs_le.mpr ⟨by linarith, by linarith⟩) (by omega) (by omega))
  · refine .inr (isReadFrom_of_half canonical same.symm large small (abs_le.mpr ⟨?_, ?_⟩) (by omega) (by omega))
    · push_cast
      linarith
    · push_cast
      linarith

/-- The search ends with a decimal that is read as the number if one of so many digits is. -/
theorem isReadFrom_shortestFrom {x : Binary64} {count fuel : Nat} (hit : ∃ more < fuel, x.IsHit num den place (count + more)) :
    x.isReadFrom (shortestFrom x num den place count fuel).1 (shortestFrom x num den place count fuel).2 = true := by
  induction fuel generalizing count with
  | zero =>
    obtain ⟨more, less, -⟩ := hit
    exact absurd less (Nat.not_lt_zero more)
  | succ fuel ih =>
    obtain ⟨more, less, hit⟩ := hit
    unfold shortestFrom
    dsimp only
    split
    · rename_i lower
      exact (Bool.and_eq_true_iff.mp lower).1
    · rename_i notLower
      split
      · rename_i upper
        exact upper
      · rename_i notUpper
        cases more with
        | zero =>
          rcases hit with lower | upper
          · rw [Bool.and_eq_true_iff, not_and] at notLower
            have further := notLower lower
            simp only [notUpper, Bool.not_false, Bool.or_true, not_true] at further
          · exact absurd upper notUpper
        | succ more => exact ih ⟨more, Nat.lt_of_succ_lt_succ less, by rwa [Nat.add_assoc, Nat.add_comm 1]⟩

theorem ofDecimal_of_isReadFrom (pos : 0 < m) (read : (finite false m e).isReadFrom digits last = true) :
    ofDecimal false digits last = finite false m e := by
  unfold isReadFrom at read
  generalize ofDecimal false digits last = x at read ⊢
  cases x with
  | nan => simp [same] at read
  | infinity negative => simp [same] at read
  | finite negative m' e' =>
    simp only [same, Bool.or_eq_true, Bool.and_eq_true, decide_eq_true_eq, pos.ne', and_false, false_or] at read
    obtain ⟨⟨rfl, rfl⟩, rfl⟩ := read
    rfl

/-- Every number other than zero is written as a decimal that is read as it, with either sign. -/
theorem finiteText_spec (canonical : IsCanonical m e) (pos : 0 < m) : ∃ digits last, finiteText m e = decimalText digits last ∧
    0 < digits ∧ ∀ negative, ofDecimal negative digits last = finite negative m e := by
  unfold finiteText
  dsimp only
  obtain ⟨den_pos, value⟩ := inUnits_eq two_pos m Nat.one_pos (-e)
  rw [zpow_neg, div_inv_eq_mul, Nat.cast_one, div_one, Nat.cast_ofNat] at value
  generalize inUnits 2 m 1 (-e) = quotient at den_pos value ⊢
  obtain ⟨high, low⟩ := between_of_isCanonical canonical pos
  have search := @leadingPlace_spec quotient.1 quotient.2 den_pos 309 640
  rw [value] at search
  obtain ⟨below, above, least, greatest⟩ := search high low
  generalize leadingPlace quotient.1 quotient.2 309 640 = place at below above least greatest ⊢
  have read : (finite false m e).isReadFrom _ _ = true :=
    @isReadFrom_shortestFrom quotient.1 quotient.2 place (finite false m e) 1 17
      ⟨16, by decide, isHit_seventeen canonical den_pos value below above least greatest⟩
  generalize shortestFrom (finite false m e) quotient.1 quotient.2 place 1 17 = decimal at read ⊢
  have own := ofDecimal_of_isReadFrom pos read
  refine ⟨decimal.1, decimal.2, rfl, Nat.pos_of_ne_zero fun zero => ?_, fun negative => ?_⟩
  · rw [zero, ofDecimal, if_pos rfl] at own
    cases own
    exact absurd pos (by decide)
  · rw [ofDecimal_signed, own]
    rfl

end Binary64

end Cadence
