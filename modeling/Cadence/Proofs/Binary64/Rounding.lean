import Mathlib.Algebra.Order.Field.Power
import Mathlib.Data.Int.Log
import Mathlib.Data.Rat.Floor
import Mathlib.Tactic.FieldSimp
import Mathlib.Tactic.Linarith
import Mathlib.Tactic.Positivity
import Cadence.Binary64
import Cadence.Proofs.Text.Numeral

/-!
# Rounding to binary numbers

The number nearest to a quotient depends on the quotient alone. Its exponent is the one that gives the mantissa 53
digits, or the least one; and a quotient that is nearer to a number than half the way to the next ones
is rounded to that number.
-/

namespace Cadence.Binary64

variable {num den : Nat} {negative : Bool} {m : Nat} {e : Int}

/-! ### Units -/

/-- A quotient counted in units of a power is the quotient by that power. -/
theorem inUnits_eq {base : Nat} (base_pos : 0 < base) (num : Nat) (den_pos : 0 < den) (place : Int) :
    0 < (inUnits base num den place).2 ∧
      ((inUnits base num den place).1 : ℚ) / (inUnits base num den place).2 = (num : ℚ) / den / (base : ℚ) ^ place := by
  have nonzero : (den : ℚ) ≠ 0 := by exact_mod_cast den_pos.ne'
  unfold inUnits
  split
  · rename_i whole
    obtain ⟨k, rfl⟩ := Int.eq_ofNat_of_zero_le whole
    refine ⟨Nat.mul_pos den_pos (Nat.pow_pos base_pos), ?_⟩
    simp only [Int.toNat_natCast, Nat.pow_eq, Nat.cast_mul, Nat.cast_pow, zpow_natCast, div_div]
  · rename_i part
    obtain ⟨k, rfl⟩ : ∃ k : Nat, place = -(k : Int) := ⟨(-place).toNat, by omega⟩
    refine ⟨den_pos, ?_⟩
    simp only [neg_neg, Int.toNat_natCast, Nat.pow_eq, Nat.cast_mul, Nat.cast_pow, zpow_neg, zpow_natCast]
    field_simp

theorem inUnits_pos {base : Nat} (base_pos : 0 < base) (pos : 0 < num) (den : Nat) (place : Int) : 0 < (inUnits base num den place).1 := by
  unfold inUnits
  split
  · exact pos
  · exact Nat.mul_pos pos (Nat.pow_pos base_pos)

/-- What is counted lies below a power of two if the quotient lies below the one that it is counted up to. -/
theorem inUnits_lt_iff (num : Nat) (pos : 0 < den) (e : Int) (k : Nat) :
    (inUnits 2 num den e).1 < (inUnits 2 num den e).2 * Nat.pow 2 k ↔ (num : ℚ) / den < 2 ^ (e + k) := by
  obtain ⟨counted, same⟩ := inUnits_eq two_pos num pos e
  have denominator : (0 : ℚ) < (inUnits 2 num den e).2 := by exact_mod_cast counted
  have power : (0 : ℚ) < 2 ^ e := zpow_pos two_pos e
  have split : (2 : ℚ) ^ (e + k) = 2 ^ k * 2 ^ e := by
    rw [zpow_add₀ two_ne_zero, mul_comm, zpow_natCast]
  rw [Nat.cast_ofNat] at same
  rw [split, ← div_lt_iff₀ power, ← same, div_lt_iff₀ denominator, Nat.pow_eq, mul_comm]
  exact_mod_cast Iff.rfl

theorem log2_bounds (pos : 0 < m) : (2 : ℚ) ^ (m.log2 : Int) ≤ m ∧ (m : ℚ) < 2 ^ ((m.log2 : Int) + 1) := by
  have above : m < 2 ^ (m.log2 + 1) := Nat.lt_log2_self
  constructor
  · rw [zpow_natCast]
    exact_mod_cast Nat.log2_self_le pos.ne'
  · exact_mod_cast above

/-- The exponent is the place of the first binary digit, less the 52 digits behind it. -/
theorem normalExponent_eq (pos : 0 < num) (den_pos : 0 < den) : normalExponent num den = Int.log 2 ((num : ℚ) / den) - 52 := by
  obtain ⟨low, high⟩ := log2_bounds pos
  obtain ⟨low', high'⟩ := log2_bounds den_pos
  have numPos : (0 : ℚ) < num := by exact_mod_cast pos
  have denPos : (0 : ℚ) < den := by exact_mod_cast den_pos
  have quotient : (0 : ℚ) < (num : ℚ) / den := div_pos numPos denPos
  obtain ⟨guess, guess_eq⟩ : ∃ guess : Int, guess = (num.log2 : Int) - den.log2 - 52 := ⟨_, rfl⟩
  have above : (num : ℚ) / den < 2 ^ (guess + 53) := by
    rw [div_lt_iff₀ denPos]
    calc (num : ℚ) < 2 ^ ((num.log2 : Int) + 1) := high
      _ = 2 ^ (guess + 53) * 2 ^ (den.log2 : Int) := by
        rw [← zpow_add₀ two_ne_zero, guess_eq]
        congr 1
        omega
      _ ≤ 2 ^ (guess + 53) * den := mul_le_mul_of_nonneg_left low' (by positivity)
  have below : (2 : ℚ) ^ (guess + 51) ≤ num / den := by
    rw [le_div_iff₀ denPos]
    calc (2 : ℚ) ^ (guess + 51) * den ≤ 2 ^ (guess + 51) * 2 ^ ((den.log2 : Int) + 1) :=
          mul_le_mul_of_nonneg_left high'.le (by positivity)
      _ = 2 ^ (num.log2 : Int) := by
        rw [← zpow_add₀ two_ne_zero, guess_eq]
        congr 1
        omega
      _ ≤ num := low
  have atLeast := (Int.zpow_le_iff_le_log (b := 2) (by decide) quotient).mp (by exact_mod_cast below)
  have atMost := (Int.lt_zpow_iff_log_lt (b := 2) (by decide) quotient).mp (by exact_mod_cast above)
  have middle : (num : ℚ) / den < 2 ^ (guess + 52) ↔ Int.log 2 ((num : ℚ) / den) < guess + 52 := by
    rw [← Int.lt_zpow_iff_log_lt (b := 2) (by decide) quotient]
    exact_mod_cast Iff.rfl
  have compare := (inUnits_lt_iff num den_pos guess 52).trans middle
  unfold normalExponent
  rw [← guess_eq]
  dsimp only
  split
  · rename_i less
    have := compare.mp less
    omega
  · rename_i more
    have := mt compare.mpr more
    omega

/-! ### Rounding to whole numbers -/

/-- A quotient that is nearer than one half to a whole number is rounded to it. -/
theorem nearestEven_eq {n d k : Nat} (pos : 0 < d) (low : (k : ℚ) - 1 / 2 < n / d) (high : (n : ℚ) / d < k + 1 / 2) :
    nearestEven n d = k := by
  have denominator : (0 : ℚ) < d := by exact_mod_cast pos
  obtain ⟨q, r, less, rfl⟩ : ∃ q r, r < d ∧ n = d * q + r := ⟨n / d, n % d, Nat.mod_lt n pos, (Nat.div_add_mod n d).symm⟩
  have quotient : ((d * q + r : Nat) : ℚ) / d = q + (r : ℚ) / d := by
    push_cast
    field_simp
  have rest : (r : ℚ) / d < 1 := (div_lt_one denominator).mpr (by exact_mod_cast less)
  have positive : (0 : ℚ) ≤ (r : ℚ) / d := by positivity
  rw [quotient] at low high
  have floor : (d * q + r) / d = q := by
    rw [Nat.mul_add_div pos, Nat.div_eq_of_lt less, Nat.add_zero]
  have remainder : (d * q + r) % d = r := by rw [Nat.mul_add_mod, Nat.mod_eq_of_lt less]
  unfold nearestEven
  rw [floor, remainder]
  dsimp only
  have half : 2 * r < d ↔ (r : ℚ) / d < 1 / 2 := by
    rw [div_lt_div_iff₀ denominator two_pos, ← Nat.cast_lt (α := ℚ)]
    push_cast
    constructor <;> intro h <;> linarith
  have half' : d < 2 * r ↔ 1 / 2 < (r : ℚ) / d := by
    rw [div_lt_div_iff₀ two_pos denominator, ← Nat.cast_lt (α := ℚ)]
    push_cast
    constructor <;> intro h <;> linarith
  split
  · rename_i small
    have small := half.mp small
    have up : (q : ℚ) < k + 1 := by linarith
    have down : (k : ℚ) < q + 1 := by linarith
    have up : q < k + 1 := by exact_mod_cast up
    have down : k < q + 1 := by exact_mod_cast down
    omega
  · rename_i notSmall
    split
    · rename_i large
      have large := half'.mp large
      have up : (q : ℚ) < k := by linarith
      have down : (k : ℚ) < q + 2 := by linarith
      have up : q < k := by exact_mod_cast up
      have down : k < q + 2 := by exact_mod_cast down
      omega
    · rename_i notLarge
      -- A quotient just between two whole numbers is not nearer than one half to any.
      have middle : (r : ℚ) / d = 1 / 2 := le_antisymm (not_lt.mp (mt half'.mpr notLarge)) (not_lt.mp (mt half.mpr notSmall))
      rw [middle] at low high
      have up : (q : ℚ) < k := by linarith
      have down : (k : ℚ) < q + 1 := by linarith
      have up : q < k := by exact_mod_cast up
      have down : k < q + 1 := by exact_mod_cast down
      omega

theorem nearestEven_mul (n d : Nat) {j : Nat} (pos : 0 < j) : nearestEven (n * j) (d * j) = nearestEven n d := by
  unfold nearestEven
  dsimp only
  rw [Nat.mul_div_mul_right n d pos, Nat.mul_mod_mul_right, ← mul_assoc]
  simp only [Nat.mul_lt_mul_right pos]

theorem div_le_nearestEven (n d : Nat) : n / d ≤ nearestEven n d := by
  unfold nearestEven
  dsimp only
  split
  · exact Nat.le_refl _
  · split <;> omega

theorem nearestEven_le (n d : Nat) : nearestEven n d ≤ n / d + 1 := by
  unfold nearestEven
  dsimp only
  split
  · omega
  · split <;> omega

/-! ### Rounding to binary numbers -/

/-- The exponent that a quotient is rounded at. -/
def roundingExponent (num den : Nat) : Int := max leastExponent (normalExponent num den)

theorem ofQuotient_eq (negative : Bool) (num den : Nat) : ofQuotient negative num den =
    rounded negative (nearestEven (inUnits 2 num den (roundingExponent num den)).1 (inUnits 2 num den (roundingExponent num den)).2)
      (roundingExponent num den) := rfl

/-- A quotient may be reduced. -/
theorem ofQuotient_mul (pos : 0 < num) (den_pos : 0 < den) {j : Nat} (factor : 0 < j) :
    ofQuotient negative (num * j) (den * j) = ofQuotient negative num den := by
  have nonzero : (j : ℚ) ≠ 0 := by exact_mod_cast factor.ne'
  have same : roundingExponent (num * j) (den * j) = roundingExponent num den := by
    unfold roundingExponent
    rw [normalExponent_eq (Nat.mul_pos pos factor) (Nat.mul_pos den_pos factor), normalExponent_eq pos den_pos]
    push_cast
    rw [mul_div_mul_right _ _ nonzero]
  have scales (e : Int) : inUnits 2 (num * j) (den * j) e = ((inUnits 2 num den e).1 * j, (inUnits 2 num den e).2 * j) := by
    unfold inUnits
    split <;> simp only [Nat.mul_right_comm]
  rw [ofQuotient_eq, ofQuotient_eq, same, scales, nearestEven_mul _ _ factor]

/-! ### Numbers as they are held -/

/-- The mantissa and the exponent of a number as it is held: the mantissa has 53 digits unless the exponent is the least. -/
structure IsCanonical (m : Nat) (e : Int) : Prop where
  least : leastExponent ≤ e
  greatest : e ≤ greatestExponent
  below : m < 2 ^ 53
  normal : 2 ^ 52 ≤ m ∨ e = leastExponent

/-- The number is none, infinite, or held with its own mantissa and exponent. -/
def IsHeld : Binary64 → Prop
  | finite _ m e => IsCanonical m e
  | _ => True

theorem isHeld_zero : (finite negative 0 leastExponent).IsHeld := ⟨le_refl _, by decide, by decide, .inr rfl⟩

theorem isHeld_bounded (least : leastExponent ≤ e) (below : m < 2 ^ 53) (normal : 2 ^ 52 ≤ m ∨ e = leastExponent) :
    (bounded negative m e).IsHeld := by
  unfold bounded
  split
  · trivial
  · rename_i greatest
    exact ⟨least, not_lt.mp greatest, below, normal⟩

theorem isHeld_rounded (least : leastExponent ≤ e) (le : m ≤ 2 ^ 53) (normal : 2 ^ 52 ≤ m ∨ e = leastExponent) :
    (rounded negative m e).IsHeld := by
  unfold rounded
  split
  · exact isHeld_bounded (by omega) (by decide) (.inl (le_refl _))
  · rename_i notFull
    exact isHeld_bounded least (lt_of_le_of_ne le notFull) normal

theorem lt_of_roundingExponent (pos : 0 < num) (den_pos : 0 < den) :
    (num : ℚ) / den < 2 ^ (roundingExponent num den + 53) := by
  have quotient : (0 : ℚ) < (num : ℚ) / den := div_pos (by exact_mod_cast pos) (by exact_mod_cast den_pos)
  have place : Int.log 2 ((num : ℚ) / den) < roundingExponent num den + 53 := by
    rw [roundingExponent, normalExponent_eq pos den_pos]
    omega
  exact_mod_cast (Int.lt_zpow_iff_log_lt (b := 2) (by decide) quotient).mpr place

theorem le_of_roundingExponent (pos : 0 < num) (den_pos : 0 < den) :
    (2 : ℚ) ^ (roundingExponent num den + 52) ≤ num / den ∨ roundingExponent num den = leastExponent := by
  have quotient : (0 : ℚ) < (num : ℚ) / den := div_pos (by exact_mod_cast pos) (by exact_mod_cast den_pos)
  rcases max_choice leastExponent (normalExponent num den) with least | normal
  · exact .inr least
  · refine .inl ?_
    have place : roundingExponent num den + 52 ≤ Int.log 2 ((num : ℚ) / den) := by
      rw [roundingExponent, normal, normalExponent_eq pos den_pos]
      omega
    exact_mod_cast (Int.zpow_le_iff_le_log (b := 2) (by decide) quotient).mpr place

theorem isHeld_ofQuotient (negative : Bool) (pos : 0 < num) (den_pos : 0 < den) : (ofQuotient negative num den).IsHeld := by
  rw [ofQuotient_eq]
  have least : leastExponent ≤ roundingExponent num den := le_max_left _ _
  have high := (inUnits_lt_iff num den_pos (roundingExponent num den) 53).mpr (lt_of_roundingExponent pos den_pos)
  have low := le_of_roundingExponent pos den_pos
  rw [← not_lt, ← Nat.cast_ofNat (R := Int), ← inUnits_lt_iff num den_pos] at low
  obtain ⟨counted, -⟩ := inUnits_eq two_pos num den_pos (roundingExponent num den)
  generalize inUnits 2 num den (roundingExponent num den) = quotient at high low counted ⊢
  have below : quotient.1 / quotient.2 < Nat.pow 2 53 := Nat.div_lt_of_lt_mul high
  refine isHeld_rounded least (Nat.le_trans (nearestEven_le _ _) below) ?_
  refine low.imp_left fun large => ?_
  exact Nat.le_trans ((Nat.le_div_iff_mul_le counted).mpr (by rw [mul_comm]; exact not_lt.mp large)) (div_le_nearestEven _ _)

theorem isHeld_ofDecimal (negative : Bool) (digits : Nat) (exponent : Int) : (ofDecimal negative digits exponent).IsHeld := by
  unfold ofDecimal
  dsimp only
  split
  · exact isHeld_zero
  · rename_i nonzero
    have positive := Nat.pos_of_ne_zero nonzero
    split
    · trivial
    · split
      · exact isHeld_zero
      · exact isHeld_ofQuotient negative (inUnits_pos (by decide) positive 1 _) (inUnits_eq (by decide) digits Nat.one_pos _).1

/-! ### Quotients near a number -/

/-- A quotient between two powers of two is rounded at the exponent that gives it 53 digits. -/
theorem roundingExponent_of_between (pos : 0 < num) (den_pos : 0 < den) (least : leastExponent ≤ e)
    (low : (2 : ℚ) ^ (e + 52) ≤ num / den) (high : (num : ℚ) / den < 2 ^ (e + 53)) : roundingExponent num den = e := by
  have quotient : (0 : ℚ) < (num : ℚ) / den := div_pos (by exact_mod_cast pos) (by exact_mod_cast den_pos)
  have atLeast := (Int.zpow_le_iff_le_log (b := 2) (by decide) quotient).mp (by exact_mod_cast low)
  have atMost := (Int.lt_zpow_iff_log_lt (b := 2) (by decide) quotient).mp (by exact_mod_cast high)
  rw [roundingExponent, normalExponent_eq pos den_pos]
  omega

/-- A small quotient is rounded at the least exponent. -/
theorem roundingExponent_of_lt (pos : 0 < num) (den_pos : 0 < den) (high : (num : ℚ) / den < 2 ^ (leastExponent + 53)) :
    roundingExponent num den = leastExponent := by
  have quotient : (0 : ℚ) < (num : ℚ) / den := div_pos (by exact_mod_cast pos) (by exact_mod_cast den_pos)
  have atMost := (Int.lt_zpow_iff_log_lt (b := 2) (by decide) quotient).mp (by exact_mod_cast high)
  rw [roundingExponent, normalExponent_eq pos den_pos]
  omega

/-- A quotient that is counted in units of the power of two that it is rounded at is rounded to the whole number next to it. -/
theorem ofQuotient_of_roundingExponent {y : ℚ} (den_pos : 0 < den) (place : roundingExponent num den = e)
    (quotient : (num : ℚ) / den = y * 2 ^ e) (low : (m : ℚ) - 1 / 2 < y) (high : y < m + 1 / 2) :
    ofQuotient negative num den = rounded negative m e := by
  obtain ⟨counted, same⟩ := inUnits_eq two_pos num den_pos e
  rw [quotient, Nat.cast_ofNat, mul_div_cancel_right₀ _ (zpow_pos two_pos e).ne'] at same
  rw [ofQuotient_eq, place, nearestEven_eq counted (same.symm ▸ low) (same.symm ▸ high)]

theorem bounded_of_isCanonical (canonical : IsCanonical m e) : bounded negative m e = .finite negative m e :=
  if_neg (not_lt.mpr canonical.greatest)

theorem rounded_of_isCanonical (canonical : IsCanonical m e) : rounded negative m e = .finite negative m e :=
  (if_neg canonical.below.ne).trans (bounded_of_isCanonical canonical)

/-- A quotient is rounded to a number if it differs from it by no more than one part in `2 · 10 ^ 16`, which is less than
    half the way to the next numbers. -/
theorem ofQuotient_of_near (canonical : IsCanonical m e) (pos : 0 < num) (den_pos : 0 < den)
    (near : |(num : ℚ) / den - m * 2 ^ e| * (2 * 10 ^ 16) ≤ m * 2 ^ e) :
    ofQuotient negative num den = .finite negative m e := by
  have power : (0 : ℚ) < 2 ^ e := zpow_pos two_pos e
  obtain ⟨y, quotient⟩ : ∃ y : ℚ, (num : ℚ) / den = y * 2 ^ e := ⟨(num : ℚ) / den / 2 ^ e, by field_simp⟩
  have close : |y - m| * (2 * 10 ^ 16) ≤ m := by
    rw [quotient, ← sub_mul, abs_mul, abs_of_pos power, mul_right_comm] at near
    exact le_of_mul_le_mul_right near power
  obtain ⟨low, high⟩ := abs_le.mp ((le_div_iff₀ (by norm_num)).mpr close)
  have below : (m : ℚ) + 1 ≤ 2 ^ 53 := by exact_mod_cast canonical.below
  have under : (num : ℚ) / den < 2 ^ (e + 53) := by
    rw [quotient, zpow_add₀ two_ne_zero, mul_comm]
    exact mul_lt_mul_of_pos_left (by norm_num at below ⊢; linarith) power
  have own (place : roundingExponent num den = e) : ofQuotient negative num den = .finite negative m e := by
    rw [ofQuotient_of_roundingExponent (m := m) den_pos place quotient (by linarith) (by linarith), rounded_of_isCanonical canonical]
  by_cases least : e = leastExponent
  · subst least
    exact own (roundingExponent_of_lt pos den_pos under)
  · have normal : 2 ^ 52 ≤ m := canonical.normal.resolve_right least
    rcases le_or_gt (2 ^ 52) y with large | small
    · refine own (roundingExponent_of_between pos den_pos canonical.least ?_ under)
      rw [quotient, zpow_add₀ two_ne_zero, mul_comm]
      exact mul_le_mul_of_nonneg_right (by norm_num at large ⊢; linarith) power.le
    · -- A quotient just below a power of two is rounded up to it from the exponent before.
      have above : (m : ℚ) < 2 ^ 52 + 1 := by linarith
      have above : m < 2 ^ 52 + 1 := by exact_mod_cast above
      obtain rfl : m = 2 ^ 52 := le_antisymm (Nat.le_of_lt_succ above) normal
      have before : leastExponent ≤ e - 1 := by
        have := canonical.least
        omega
      have half : (num : ℚ) / den = 2 * y * 2 ^ (e - 1) := by
        rw [quotient, zpow_sub_one₀ two_ne_zero]
        ring
      have place : roundingExponent num den = e - 1 := by
        have power : (0 : ℚ) < 2 ^ (e - 1) := zpow_pos two_pos (e - 1)
        refine roundingExponent_of_between pos den_pos before ?_ ?_
        · rw [half, zpow_add₀ two_ne_zero, mul_comm]
          exact mul_le_mul_of_nonneg_right (by norm_num at low ⊢; linarith) power.le
        · rw [half, zpow_add₀ two_ne_zero, mul_comm]
          exact mul_lt_mul_of_pos_left (by norm_num at small ⊢; linarith) power
      rw [ofQuotient_of_roundingExponent (m := 2 ^ 53) den_pos place half (by push_cast at low ⊢; linarith) (by push_cast at high ⊢; linarith)]
      refine (if_pos rfl).trans ?_
      rw [sub_add_cancel]
      exact bounded_of_isCanonical canonical

end Cadence.Binary64
