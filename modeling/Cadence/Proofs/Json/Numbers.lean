import Cadence.Proofs.Binary64.Shortest
import Cadence.Proofs.Json.Values

/-!
# Numbers read back

A whole number that was written in JSON is read back unless it has more digits than are read, and so is every binary
number: whichever way its digits are laid out, they are read as the decimal that they were made for.
-/

namespace Cadence

open Text

/-! ### Digits -/

namespace Json

variable {s rest places after : Text} {n : Nat} {negative : Bool}

/-- All characters are plain digits. -/
def ArePlain (s : Text) : Prop := ∀ c ∈ s, isPlainDigit c = true

/-- The text does not go on with a digit. -/
def StopsDigits (rest : Text) : Prop := ∀ c ∈ rest.head?, isPlainDigit c = false

theorem ArePlain.append {t : Text} (plain : ArePlain s) (more : ArePlain t) : ArePlain (s ++ t) := by
  intro c member
  rcases List.mem_append.mp member with first | second
  · exact plain c first
  · exact more c second

theorem arePlain_zeros (count : Nat) : ArePlain (List.replicate count '0') := by
  intro c member
  rw [List.eq_of_mem_replicate member]
  rfl

theorem isPlainDigit_digitChar : ∀ d < 10, isPlainDigit (Nat.digitChar d) = true ∧ (Nat.digitChar d).toNat - 48 = d := by decide

theorem arePlain_ofNat (n : Nat) : ArePlain (ofNat n) := by
  obtain ⟨digits, written, -, areDigits, -⟩ := exists_digits n
  intro c member
  rw [written] at member
  obtain ⟨d, less, rfl⟩ := mem_row areDigits member
  exact (isPlainDigit_digitChar d less).1

theorem digitsSize_ofNat (n : Nat) : digitsSize (ofNat n) = n := by
  obtain ⟨digits, written, -, areDigits, value⟩ := exists_digits n
  have same : (row digits).map (fun c => c.toNat - 48) = digits := by
    rw [row, List.map_map]
    exact (List.map_congr_left fun d member => (isPlainDigit_digitChar d (areDigits d member)).2).trans (List.map_id digits)
  rw [digitsSize, written, same, value]

theorem digitsSize_zeros (count : Nat) (s : Text) : digitsSize (List.replicate count '0' ++ s) = digitsSize s := by
  rw [digitsSize, List.map_append, List.map_replicate]
  exact digitsValue_zeros count _

theorem takeWhile_plain (plain : ArePlain s) (stops : StopsDigits rest) :
    (s ++ rest).takeWhile isPlainDigit = s ∧ (s ++ rest).dropWhile isPlainDigit = rest := by
  rw [List.takeWhile_append_of_pos plain, List.dropWhile_append_of_pos plain]
  cases rest with
  | nil => exact ⟨List.append_nil s, rfl⟩
  | cons c rest =>
    have stop : ¬ isPlainDigit c = true := by rw [stops c rfl]; decide
    rw [List.takeWhile_cons_of_neg stop, List.dropWhile_cons_of_neg stop]
    exact ⟨List.append_nil s, rfl⟩

/-! ### The parts of a number -/

/-- What may follow a value that was written: nothing, a comma, or the end of a list or an object. -/
def EndsValue (rest : Text) : Prop := ∀ c ∈ rest.head?, c = ',' ∨ c = ']' ∨ c = '\x7d'

theorem EndsValue.stopsDigits (ends : EndsValue rest) : StopsDigits rest := by
  intro c first
  rcases ends c first with rfl | rfl | rfl <;> rfl

theorem EndsValue.fraction (ends : EndsValue rest) : fraction rest = ([], rest) := by
  unfold Json.fraction
  split
  · rcases ends '.' rfl with point | point | point <;> cases point
  · rfl

theorem EndsValue.exponent (ends : EndsValue rest) : exponent rest = (none, rest) := by
  unfold Json.exponent
  split
  · rename_i c more
    rcases ends c rfl with rfl | rfl | rfl <;> rfl
  · rfl

theorem fraction_point (plain : ArePlain places) (nonempty : places ≠ []) (stops : StopsDigits after) :
    fraction ('.' :: (places ++ after)) = (places, after) := by
  obtain ⟨digits, rest⟩ := takeWhile_plain plain stops
  show (if ((places ++ after).takeWhile isPlainDigit).isEmpty then ([], '.' :: (places ++ after))
    else ((places ++ after).takeWhile isPlainDigit, (places ++ after).dropWhile isPlainDigit)) = _
  rw [digits, rest, if_neg (by rwa [List.isEmpty_iff])]

/-- A power of ten that was written. -/
theorem exponent_power (below : Bool) (n : Nat) (ends : EndsValue rest) :
    exponent ((if below then ['e', '-'] else ['e', '+']) ++ ofNatPadded 2 n ++ rest) =
      (some (if below then -(n : Int) else n), rest) := by
  have plain : ArePlain (ofNatPadded 2 n) := (arePlain_zeros _).append (arePlain_ofNat n)
  have value : digitsSize (ofNatPadded 2 n) = n := (digitsSize_zeros _ _).trans (digitsSize_ofNat n)
  have nonempty : ¬ (ofNatPadded 2 n).isEmpty = true := by
    rw [List.isEmpty_iff]
    exact List.append_ne_nil_of_right_ne_nil _ (ofNat_ne_nil n)
  obtain ⟨digits, left⟩ := takeWhile_plain plain ends.stopsDigits
  have from_sign (sign : Text) : (if ((ofNatPadded 2 n ++ rest).takeWhile isPlainDigit).isEmpty then
      ((none : Option Int), 'e' :: sign ++ (ofNatPadded 2 n ++ rest))
      else (some (if below then -(digitsSize ((ofNatPadded 2 n ++ rest).takeWhile isPlainDigit) : Int)
        else digitsSize ((ofNatPadded 2 n ++ rest).takeWhile isPlainDigit)), (ofNatPadded 2 n ++ rest).dropWhile isPlainDigit)) =
      (some (if below then -(n : Int) else n), rest) := by
    rw [digits, left, if_neg nonempty, value]
  cases below with
  | true => exact from_sign ['-']
  | false => exact from_sign ['+']

/-- A number with a fraction or a power of ten is read as a decimal. -/
theorem number_decimal {whole : Text} {power : Option Int} (own : wholeDigits whole = whole) (plain : ArePlain whole)
    (nonempty : whole ≠ []) (stops : StopsDigits s) (point : fraction s = (places, after)) (powered : exponent after = (power, rest))
    (part : places ≠ [] ∨ power.isSome = true) : number negative (whole ++ s) =
      .ok (.real (.ofDecimal negative (digitsSize (whole ++ places)) (power.getD 0 - places.length)), rest) := by
  have whole' : wholeDigits ((whole ++ s).takeWhile isPlainDigit) = whole := by rw [(takeWhile_plain plain stops).1, own]
  rw [number_eq, whole', numberFrom, if_neg (by rwa [List.isEmpty_iff]), List.drop_left, point]
  dsimp only
  rw [powered]
  dsimp only
  rw [if_neg]
  rintro both
  obtain ⟨noPlaces, noPower⟩ := Bool.and_eq_true_iff.mp both
  rcases part with some | some
  · exact some (List.isEmpty_iff.mp noPlaces)
  · rw [Option.isNone_iff_eq_none.mp noPower] at some
    cases some

theorem wholeDigits_of_head? (leads : s.head? ≠ some '0') : wholeDigits s = s := by
  unfold wholeDigits
  split
  · exact absurd rfl leads
  · rfl

theorem head?_ofNat (pos : 0 < n) : (ofNat n).head? ≠ some '0' := by
  obtain ⟨d, more, some, digit, written⟩ := exists_ofNat_eq_cons pos
  rw [written]
  exact fun zero => (show ∀ d < 10, 0 < d → Nat.digitChar d ≠ '0' by decide) d digit some (Option.some.inj zero)

theorem wholeDigits_ofNat (n : Nat) : wholeDigits (ofNat n) = ofNat n := by
  rcases Nat.eq_zero_or_pos n with rfl | positive
  · rfl
  · exact wholeDigits_of_head? (head?_ofNat positive)

/-- A whole number is read back. -/
theorem number_ofNat (short : (ofNat n).length ≤ maxDigits) (ends : EndsValue rest) :
    number negative (ofNat n ++ rest) = .ok (.int (if negative then -(n : Int) else n), rest) := by
  have whole : wholeDigits ((ofNat n ++ rest).takeWhile isPlainDigit) = ofNat n := by
    rw [(takeWhile_plain (arePlain_ofNat n) ends.stopsDigits).1, wholeDigits_ofNat]
  rw [number_eq, whole, numberFrom, if_neg (by rw [List.isEmpty_iff]; exact ofNat_ne_nil n), List.drop_left, ends.fraction]
  dsimp only
  rw [ends.exponent]
  dsimp only
  rw [if_pos (by rfl), if_neg (Nat.not_lt.mpr short), digitsSize_ofNat]

/-! ### Binary numbers -/

theorem exists_ofNat_concat (n : Nat) : ∃ before, ofNat n = before ++ [Nat.digitChar (n % 10)] := by
  by_cases short : n < 10
  · exact ⟨[], by rw [ofNat, Nat.toDigits_of_lt_base short, Nat.mod_eq_of_lt short]; rfl⟩
  · exact ⟨ofNat (n / 10), by rw [ofNat, Nat.toDigits_of_base_le (by decide) (by omega)]; rfl⟩

/-- The digits without the zeros at their end are those of another number. -/
theorem exists_significant (pos : 0 < n) : ∃ m zeros, 0 < m ∧ Binary64.significant (ofNat n) = ofNat m ∧ n = m * 10 ^ zeros := by
  induction n using Nat.strongRecOn with
  | _ n ih =>
  by_cases tens : n % 10 = 0
  · obtain ⟨m, zeros, positive, shown, same⟩ := ih (n / 10) (by omega) (by omega)
    refine ⟨m, zeros + 1, positive, ?_, ?_⟩
    · rw [← shown, show n = n / 10 * 10 by omega, ofNat_mul_ten (by omega), Binary64.significant, dropTrailing_concat, if_pos rfl,
        Nat.mul_div_cancel _ (by decide)]
      rfl
    · rw [Nat.pow_succ, ← Nat.mul_assoc, ← same]
      omega
  · obtain ⟨before, written⟩ := exists_ofNat_concat n
    have other : Nat.digitChar (n % 10) ≠ '0' :=
      (show ∀ d < 10, d ≠ 0 → Nat.digitChar d ≠ '0' by decide) _ (Nat.mod_lt n (by decide)) tens
    refine ⟨n, 0, pos, ?_, (Nat.mul_one n).symm⟩
    rw [written, Binary64.significant, dropTrailing_concat, if_neg other]

theorem length_ofNat_pos (n : Nat) : 0 < (ofNat n).length := List.length_pos_iff.mpr (ofNat_ne_nil n)

/-- A decimal below one is read. -/
theorem number_fraction (n zeros : Nat) (ends : EndsValue rest) :
    number negative (("0." : Text) ++ List.replicate zeros '0' ++ ofNat n ++ rest) =
      .ok (.real (.ofDecimal negative n (-(zeros + (ofNat n).length : Nat))), rest) := by
  have plain : ArePlain (List.replicate zeros '0' ++ ofNat n) := (arePlain_zeros zeros).append (arePlain_ofNat n)
  have some : List.replicate zeros '0' ++ ofNat n ≠ [] := List.append_ne_nil_of_right_ne_nil _ (ofNat_ne_nil n)
  have value : digitsSize (['0'] ++ (List.replicate zeros '0' ++ ofNat n)) = n :=
    (digitsSize_zeros 1 _).trans ((digitsSize_zeros zeros _).trans (digitsSize_ofNat n))
  have read := @number_decimal _ _ _ _ negative ['0'] none rfl (arePlain_zeros 1) (List.cons_ne_nil _ _) (by rintro _ ⟨⟩; rfl)
    (fraction_point plain some ends.stopsDigits) ends.exponent (.inl some)
  rw [value, List.length_append, List.length_replicate, Option.getD_none, zero_sub] at read
  rw [← read, List.append_assoc, List.append_assoc, ← List.append_assoc _ _ rest]
  rfl

/-- The first digits of a number are read as they are. -/
theorem wholeDigits_take (pos : 0 < n) {count : Nat} (some : 0 < count) :
    wholeDigits ((ofNat n).take count) = (ofNat n).take count ∧ ArePlain ((ofNat n).take count) ∧ (ofNat n).take count ≠ [] := by
  refine ⟨wholeDigits_of_head? ?_, fun c member => arePlain_ofNat n c (List.mem_of_mem_take member), ?_⟩
  · rw [List.head?_take, if_neg some.ne']
    exact head?_ofNat pos
  · rw [ne_eq, List.take_eq_nil_iff]
    rintro (zero | empty)
    · exact some.ne' zero
    · exact ofNat_ne_nil n empty

theorem arePlain_drop (n count : Nat) : ArePlain ((ofNat n).drop count) :=
  fun c member => arePlain_ofNat n c (List.mem_of_mem_drop member)

/-- A decimal with its point among its digits is read. -/
theorem number_point (pos : 0 < n) {count : Nat} (some : 0 < count) (less : count < (ofNat n).length) (ends : EndsValue rest) :
    number negative ((ofNat n).take count ++ '.' :: (ofNat n).drop count ++ rest) =
      .ok (.real (.ofDecimal negative n (count - (ofNat n).length)), rest) := by
  have behind : (ofNat n).drop count ≠ [] := by
    rw [ne_eq, List.drop_eq_nil_iff]
    omega
  obtain ⟨own, plain, before⟩ := wholeDigits_take pos some
  have read := @number_decimal _ _ _ _ negative _ none own plain before (by rintro _ ⟨⟩; rfl)
    (fraction_point (arePlain_drop n count) behind ends.stopsDigits) ends.exponent (.inl behind)
  rw [List.take_append_drop, digitsSize_ofNat, List.length_drop, Option.getD_none, zero_sub] at read
  rw [List.append_assoc, List.cons_append, read]
  congr 4
  omega

/-- A decimal without places behind its point is read. -/
theorem number_point_zero (pos : 0 < n) (zeros : Nat) (ends : EndsValue rest) :
    number negative (ofNat n ++ List.replicate zeros '0' ++ '.' :: ['0'] ++ rest) = .ok (.real (.ofDecimal negative n zeros), rest) := by
  have positive : 0 < n * 10 ^ zeros := Nat.mul_pos pos (Nat.pow_pos (by decide))
  have value : digitsSize (ofNat n ++ List.replicate zeros '0' ++ ['0']) = n * 10 ^ (zeros + 1) := by
    rw [← ofNat_mul_pow pos, ← ofNat_mul_ten positive, digitsSize_ofNat, Nat.mul_assoc, ← Nat.pow_succ]
  have read := @number_decimal _ _ _ _ negative (ofNat n ++ List.replicate zeros '0') none
    (by rw [← ofNat_mul_pow pos, wholeDigits_ofNat]) ((arePlain_ofNat n).append (arePlain_zeros zeros))
    (List.append_ne_nil_of_left_ne_nil (ofNat_ne_nil n) _) (by rintro _ ⟨⟩; rfl)
    (fraction_point (show ArePlain ['0'] from arePlain_zeros 1) (List.cons_ne_nil _ _) ends.stopsDigits) ends.exponent
    (.inl (List.cons_ne_nil _ _))
  rw [value] at read
  rw [← Binary64.ofDecimal_mul_pow negative pos zeros (zeros + 1), List.append_assoc, List.cons_append, read]
  congr 4
  simp

/-- Digits with a power of ten are read. -/
theorem number_power (pos : 0 < n) (below : Bool) (power : Nat) (ends : EndsValue rest) :
    number negative ((ofNat n).take 1 ++ (if ((ofNat n).drop 1).isEmpty then [] else '.' :: (ofNat n).drop 1) ++
      (if below then ['e', '-'] else ['e', '+']) ++ ofNatPadded 2 power ++ rest) =
      .ok (.real (.ofDecimal negative n ((if below then -(power : Int) else power) + 1 - (ofNat n).length)), rest) := by
  obtain ⟨written, same⟩ : ∃ written, (if below then ['e', '-'] else ['e', '+']) ++ ofNatPadded 2 power ++ rest = 'e' :: written := by
    cases below <;> exact ⟨_, rfl⟩
  have powered := exponent_power below power ends
  have point : fraction ((if ((ofNat n).drop 1).isEmpty then [] else '.' :: (ofNat n).drop 1) ++
      ((if below then ['e', '-'] else ['e', '+']) ++ ofNatPadded 2 power ++ rest)) =
      ((ofNat n).drop 1, (if below then ['e', '-'] else ['e', '+']) ++ ofNatPadded 2 power ++ rest) := by
    rw [same]
    split
    · rename_i single
      rw [List.isEmpty_iff.mp single]
      rfl
    · rename_i several
      rw [List.isEmpty_iff] at several
      refine fraction_point (arePlain_drop n 1) several ?_
      rintro _ ⟨⟩
      rfl
  have stops : StopsDigits ((if ((ofNat n).drop 1).isEmpty then [] else '.' :: (ofNat n).drop 1) ++
      ((if below then ['e', '-'] else ['e', '+']) ++ ofNatPadded 2 power ++ rest)) := by
    rw [same]
    split <;> rintro _ ⟨⟩ <;> rfl
  obtain ⟨own, plain, before⟩ := wholeDigits_take pos Nat.one_pos
  have read := @number_decimal _ _ _ _ negative _ _ own plain before stops point powered (.inr rfl)
  rw [List.take_append_drop, digitsSize_ofNat, List.length_drop, Option.getD_some] at read
  have length := length_ofNat_pos n
  rw [List.append_assoc, List.append_assoc, List.append_assoc, ← List.append_assoc _ _ rest, read]
  congr 4
  omega

/-- Digits with their first at a place are read as the decimal that has its last digit there. -/
theorem number_placed (pos : 0 < n) (first : Int) (ends : EndsValue rest) : number negative (Binary64.placed (ofNat n) first ++ rest) =
    .ok (.real (.ofDecimal negative n (first + 1 - (ofNat n).length)), rest) := by
  have length := length_ofNat_pos n
  unfold Binary64.placed
  dsimp only
  split
  · rename_i near
    split
    · rename_i below
      rw [number_fraction n _ ends]
      congr 4
      omega
    · rename_i notBelow
      obtain ⟨count, rfl⟩ := Int.eq_ofNat_of_zero_le (not_lt.mp notBelow)
      rw [Int.toNat_natCast]
      by_cases short : (ofNat n).length ≤ count + 1
      · rw [List.take_of_length_le short, List.drop_of_length_le short]
        rw [show (if ([] : Text).isEmpty then ['0'] else []) = ['0'] from rfl, padRight, number_point_zero pos _ ends]
        congr 4
        omega
      · have several : ¬ ((ofNat n).drop (count + 1)).isEmpty = true := by
          rw [List.isEmpty_iff, List.drop_eq_nil_iff]
          exact short
        have full : count + 1 - ((ofNat n).take (count + 1)).length = 0 := by
          rw [List.length_take]
          omega
        rw [if_neg several, padRight, full, List.replicate_zero, List.append_nil,
          number_point pos (Nat.succ_pos count) (Nat.lt_of_not_le short) ends]
        congr 4
  · have power := @number_power rest n negative pos (decide (first < 0)) first.natAbs ends
    simp only [decide_eq_true_eq] at power
    rw [power]
    congr 5
    split <;> omega

/-- A decimal is read as it was written. -/
theorem number_decimalText (pos : 0 < n) (last : Int) (ends : EndsValue rest) :
    number negative (Binary64.decimalText n last ++ rest) = .ok (.real (.ofDecimal negative n last), rest) := by
  obtain ⟨m, zeros, positive, shown, rfl⟩ := exists_significant pos
  unfold Binary64.decimalText
  dsimp only
  have place : last + (ofNat (m * 10 ^ zeros)).length - 1 + 1 - (ofNat m).length = last + zeros := by
    rw [ofNat_mul_pow positive, List.length_append, List.length_replicate]
    omega
  rw [shown, number_placed positive _ ends, place, ← Binary64.ofDecimal_mul_pow negative positive _ zeros, add_sub_cancel_right]

end Json

end Cadence
