import Mathlib.Algebra.Group.Nat.Defs
import Cadence.Proofs.Text.Cutting
import Cadence.Text.Numeral

/-!
# Numbers read back

A number that was written in plain digits, filled with zeros or not, is read back, unless it has more
digits than are read.
-/

namespace Cadence.Text

/-- A row of plain digits. -/
def row (digits : List Nat) : Text := digits.map Nat.digitChar

/-- All are digits. -/
def AreDigits (digits : List Nat) : Prop := ∀ d ∈ digits, d < 10

/-- Characters that stand between numbers or before them. -/
def numberMarks : List Char := ['_', '+', '-', ',', ';', '=', ':', '.', 'T', 'Z', '(']

/-! ### Plain digits -/

theorem digitValue?_digitChar : ∀ d < 10, digitValue? (Nat.digitChar d) = some d := by decide

theorem digitValue?_lt {c : Char} {d : Nat} (found : digitValue? c = some d) : d < 10 := by
  unfold digitValue? at found
  split at found
  · split at found
    · rename_i plain
      obtain rfl := Option.some.inj found
      have last : c.toNat ≤ '9'.toNat := plain.2
      have nine : '9'.toNat = 57 := rfl
      omega
    · cases found
  · obtain ⟨least, listed, rfl⟩ := Option.map_eq_some_iff.mp found
    have within := List.find?_some listed
    simp only [Bool.and_eq_true, decide_eq_true_eq] at within
    omega

theorem isBlank_digitChar : ∀ d < 10, isBlank (Nat.digitChar d) = false := by decide

theorem capital_digitChar : ∀ d < 10, capital (Nat.digitChar d) = [Nat.digitChar d] := by decide

theorem isDigit_digitChar : ∀ d < 10, isDigit (Nat.digitChar d) = true := by decide

theorem digitChar_not_mem : ∀ d < 10, Nat.digitChar d ∉ numberMarks := by decide

section Row
variable {digits more : List Nat}

theorem mem_row {c : Char} (h : AreDigits digits) (hc : c ∈ row digits) : ∃ d < 10, c = Nat.digitChar d := by
  obtain ⟨d, hd, rfl⟩ := List.mem_map.mp hc
  exact ⟨d, h d hd, rfl⟩

theorem row_append (digits more : List Nat) : row (digits ++ more) = row digits ++ row more := List.map_append

theorem AreDigits.append (h : AreDigits digits) (hm : AreDigits more) : AreDigits (digits ++ more) := by
  intro d hd
  rcases List.mem_append.mp hd with h' | h'
  · exact h d h'
  · exact hm d h'

theorem not_mem_row {c : Char} (h : AreDigits digits) (hc : c ∈ numberMarks) :
    c ∉ row digits := by
  intro hmem
  obtain ⟨d, hd, rfl⟩ := mem_row h hmem
  exact digitChar_not_mem d hd hc

theorem noBlank_row (h : AreDigits digits) : NoBlank (row digits) := by
  intro c hc
  obtain ⟨d, hd, rfl⟩ := mem_row h hc
  exact isBlank_digitChar d hd

theorem upper_row (h : AreDigits digits) : Upper (row digits) := by
  intro c hc
  obtain ⟨d, hd, rfl⟩ := mem_row h hc
  exact capital_digitChar d hd

theorem digitValues?_row (h : AreDigits digits) : digitValues? (row digits) = some digits := by
  induction digits with
  | nil => rfl
  | cons d digits ih =>
    have ih := ih fun x hx => h x (List.mem_cons_of_mem d hx)
    unfold digitValues? row at ih ⊢
    rw [List.map_cons, List.mapM_cons, digitValue?_digitChar d (h d List.mem_cons_self), ih]
    rfl

/-- A row of digits is read as a number. -/
theorem readNat?_row (h : AreDigits digits) (hne : digits ≠ []) :
    readNat? (row digits) = if digits.length ≤ maxDigits then some (digitsValue digits) else none := by
  have hrow : row digits ≠ [] := by simpa [row] using hne
  unfold readNat?
  rw [splitOn_of_not_mem (not_mem_row h (by decide))]
  simp only [List.any_cons, List.any_nil, Bool.or_false, List.isEmpty_iff, hrow, if_false, List.flatten_cons,
    List.flatten_nil, List.append_nil, digitValues?_row h, Option.bind_eq_bind, Option.bind_some]

end Row

/-! ### Written numbers -/

theorem digitsValue_concat (digits : List Nat) (d : Nat) : digitsValue (digits ++ [d]) = 10 * digitsValue digits + d := by
  simp [digitsValue]

/-- Digits that are read behind others move these up by as many places. -/
theorem foldl_digits (digits : List Nat) (n : Nat) :
    digits.foldl (fun n d => 10 * n + d) n = n * 10 ^ digits.length + digitsValue digits := by
  induction digits generalizing n with
  | nil => simp [digitsValue]
  | cons d digits ih =>
    rw [digitsValue, List.foldl_cons, List.foldl_cons, ih, ih (10 * 0 + d), List.length_cons, Nat.pow_succ]
    calc (10 * n + d) * 10 ^ digits.length + digitsValue digits
        = n * (10 ^ digits.length * 10) + (d * 10 ^ digits.length + digitsValue digits) := by
          rw [Nat.add_mul, Nat.add_assoc, Nat.mul_comm 10 n, Nat.mul_assoc, Nat.mul_comm 10]
      _ = _ := by rw [Nat.mul_zero, Nat.zero_add]

theorem digitsValue_append (digits more : List Nat) :
    digitsValue (digits ++ more) = digitsValue digits * 10 ^ more.length + digitsValue more := by
  rw [digitsValue, List.foldl_append, foldl_digits more]
  rfl

/-- A row of digits is worth less than a one with as many zeros behind it. -/
theorem digitsValue_lt {digits : List Nat} (h : AreDigits digits) : digitsValue digits < 10 ^ digits.length := by
  induction digits with
  | nil => decide
  | cons d digits ih =>
    have hd := h d List.mem_cons_self
    have rest := ih fun x hx => h x (List.mem_cons_of_mem d hx)
    have first : digitsValue (d :: digits) = d * 10 ^ digits.length + digitsValue digits := by
      rw [digitsValue, List.foldl_cons, foldl_digits, Nat.mul_zero, Nat.zero_add]
    rw [first, List.length_cons, Nat.pow_succ']
    calc d * 10 ^ digits.length + digitsValue digits < (d + 1) * 10 ^ digits.length := by
          rw [Nat.succ_mul]
          exact Nat.add_lt_add_left rest _
      _ ≤ 10 * 10 ^ digits.length := Nat.mul_le_mul_right _ hd

/-- The digits in which a number is written, the last one being split off. -/
theorem exists_digits (n : Nat) : ∃ digits, ofNat n = row digits ∧ digits ≠ [] ∧ AreDigits digits ∧
    digitsValue digits = n := by
  induction n using Nat.strongRecOn with
  | _ n ih =>
  by_cases h : n < 10
  · refine ⟨[n], Nat.toDigits_of_lt_base h, by simp, ?_, by simp [digitsValue]⟩
    intro d hd
    rw [List.mem_singleton.mp hd]
    exact h
  · obtain ⟨digits, hrow, hne, hd, hv⟩ := ih (n / 10) (by omega)
    refine ⟨digits ++ [n % 10], ?_, by simp, ?_, ?_⟩
    · rw [ofNat, Nat.toDigits_of_base_le (by decide) (by omega), row_append]
      exact congrArg (· ++ _) hrow
    · refine hd.append fun d h' => ?_
      rw [List.mem_singleton.mp h']
      exact Nat.mod_lt _ (by decide)
    · rw [digitsValue_concat, hv]
      omega

/-- A number other than zero is written without a zero in front. -/
theorem exists_ofNat_eq_cons {n : Nat} (positive : 0 < n) : ∃ d rest, 0 < d ∧ d < 10 ∧ ofNat n = Nat.digitChar d :: rest := by
  induction n using Nat.strongRecOn with
  | _ n ih =>
  by_cases short : n < 10
  · exact ⟨n, [], positive, short, Nat.toDigits_of_lt_base short⟩
  · obtain ⟨d, rest, some, digit, written⟩ := ih (n / 10) (by omega) (by omega)
    refine ⟨d, rest ++ [Nat.digitChar (n % 10)], some, digit, ?_⟩
    rw [ofNat, Nat.toDigits_of_base_le (by decide) (by omega), ← ofNat, written]
    rfl

/-- A number with zeros put in front. -/
theorem padLeft_row (width : Nat) (digits : List Nat) :
    padLeft width '0' (row digits) = row (List.replicate (width - digits.length) 0 ++ digits) := by
  rw [padLeft, row_append, row, row, List.length_map, List.map_replicate]
  rfl

theorem digitsValue_zeros (count : Nat) (digits : List Nat) : digitsValue (List.replicate count 0 ++ digits) = digitsValue digits := by
  induction count with
  | zero => rfl
  | succ count ih => exact ih

/-- A number that is filled with zeros to a width is a row of as many digits. -/
theorem exists_padded {width n : Nat} (short : (ofNat n).length ≤ width) : ∃ digits, ofNatPadded width n = row digits ∧
    digits.length = width ∧ AreDigits digits ∧ digitsValue digits = n := by
  obtain ⟨digits, written, -, areDigits, value⟩ := exists_digits n
  have length : digits.length ≤ width := by
    rw [written, row, List.length_map] at short
    exact short
  refine ⟨List.replicate (width - digits.length) 0 ++ digits, ?_, ?_, ?_, ?_⟩
  · rw [ofNatPadded, written, padLeft_row]
  · rw [List.length_append, List.length_replicate]
    omega
  · refine AreDigits.append (fun d member => ?_) areDigits
    rw [List.eq_of_mem_replicate member]
    decide
  · rw [digitsValue_zeros, value]

/-- The four digits of a number in a base, zeros in front included. -/
theorem padLeft_four {base n : Nat} (two_le : 2 ≤ base) (lt : n < base * base * base * base) : padLeft 4 '0' (Nat.toDigits base n) =
    row [n / base / base / base, n / base / base % base, n / base % base, n % base] := by
  have zero {m : Nat} (less : m < base) : m / base = 0 ∧ m % base = m := ⟨Nat.div_eq_of_lt less, Nat.mod_eq_of_lt less⟩
  have less {m k : Nat} (lt : m < k * base) : m / base < k := Nat.div_lt_of_lt_mul (Nat.mul_comm k base ▸ lt)
  have three : n / base / base / base < base := less (less (less lt))
  by_cases h₁ : n < base
  · rw [Nat.toDigits_of_lt_base h₁, show [Nat.digitChar n] = row [n] from rfl, padLeft_row, (zero h₁).1, (zero h₁).2]
    simp
  by_cases h₂ : n / base < base
  · rw [Nat.toDigits_of_base_le (by omega) (by omega), Nat.toDigits_of_lt_base h₂,
      show [Nat.digitChar (n / base)] ++ [Nat.digitChar (n % base)] = row [n / base, n % base] from rfl, padLeft_row, (zero h₂).1,
      (zero h₂).2]
    simp
  by_cases h₃ : n / base / base < base
  · rw [Nat.toDigits_of_base_le (by omega) (by omega), Nat.toDigits_of_base_le (by omega) (by omega), Nat.toDigits_of_lt_base h₃,
      show [Nat.digitChar (n / base / base)] ++ [Nat.digitChar (n / base % base)] ++ [Nat.digitChar (n % base)] =
        row [n / base / base, n / base % base, n % base] from rfl, padLeft_row, (zero h₃).1, (zero h₃).2]
    simp
  · rw [Nat.toDigits_of_base_le (by omega) (by omega), Nat.toDigits_of_base_le (by omega) (by omega),
      Nat.toDigits_of_base_le (by omega) (by omega), Nat.toDigits_of_lt_base three]
    rfl

theorem ofNat_ne_nil (n : Nat) : ofNat n ≠ [] := Nat.toDigits_ne_nil

theorem noBlank_ofNat (n : Nat) : NoBlank (ofNat n) := by
  obtain ⟨digits, hrow, -, hd, -⟩ := exists_digits n
  exact hrow ▸ noBlank_row hd

theorem upper_ofNat (n : Nat) : Upper (ofNat n) := by
  obtain ⟨digits, hrow, -, hd, -⟩ := exists_digits n
  exact hrow ▸ upper_row hd

theorem not_mem_ofNat (n : Nat) {c : Char} (hc : c ∈ numberMarks) :
    c ∉ ofNat n := by
  obtain ⟨digits, hrow, -, hd, -⟩ := exists_digits n
  exact hrow ▸ not_mem_row hd hc

/-- A number is read back as long as it has no more digits than are read. -/
theorem readNat?_ofNat (n : Nat) : readNat? (ofNat n) = if (ofNat n).length ≤ maxDigits then some n else none := by
  obtain ⟨digits, hrow, hne, hd, hv⟩ := exists_digits n
  rw [hrow, readNat?_row hd hne, hv, row, List.length_map]

theorem trimNumber_eq_self {s : Text} (h : NoBlank s) : trimNumber s = s := by
  have hdrop : ∀ t : Text, NoBlank t → t.dropWhile isNumberBlank = t := by
    intro t ht
    cases t with
    | nil => rfl
    | cons c t => rw [List.dropWhile_cons_of_neg (by simp [isNumberBlank, ht c List.mem_cons_self])]
  have hrev : NoBlank s.reverse := fun c hc => h c (List.mem_reverse.mp hc)
  rw [trimNumber, hdrop s h, hdrop _ hrev, List.reverse_reverse]

theorem readInt?_ofNat (n : Nat) :
    readInt? (ofNat n) = if (ofNat n).length ≤ maxDigits then some (n : Int) else none := by
  have hminus : ∀ rest, ofNat n ≠ '-' :: rest := fun rest he => not_mem_ofNat n (c := '-') (by decide) (by simp [he])
  have hplus : ∀ rest, ofNat n ≠ '+' :: rest := fun rest he => not_mem_ofNat n (c := '+') (by decide) (by simp [he])
  unfold readInt?
  rw [trimNumber_eq_self (noBlank_ofNat n)]
  split
  · rename_i he
    exact absurd he (hminus _)
  · rename_i he
    exact absurd he (hplus _)
  · rw [readNat?_ofNat]
    split <;> rfl

theorem all_isDigit_ofNat (n : Nat) : (ofNat n).all isDigit = true := by
  obtain ⟨digits, hrow, -, hd, -⟩ := exists_digits n
  rw [hrow, List.all_eq_true]
  intro c hc
  obtain ⟨d, hd, rfl⟩ := mem_row hd hc
  exact isDigit_digitChar d hd

end Cadence.Text
