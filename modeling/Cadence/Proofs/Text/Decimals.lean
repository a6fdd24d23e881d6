import Cadence.Proofs.Text.Ends
import Cadence.Proofs.Text.Numeral
import Cadence.Text.Letter

/-!
# Decimal digits of any script

A number may be written in the digits of any script. Whatever the script, a digit has a value below ten, and it is
no blank, no letter and none of the marks that stand between numbers.
-/

namespace Cadence.Text

variable {s t : Text} {c : Char}

/-- The value of a decimal digit, zero for other characters. -/
def digit (c : Char) : Nat := (digitValue? c).getD 0

theorem digitValue?_eq_some (decimal : isDecimal c = true) : digitValue? c = some (digit c) := by
  obtain ⟨d, found⟩ := Option.isSome_iff_exists.mp decimal
  rw [digit, found, Option.getD_some]

theorem digitValue?_plain {c : Char} (least : '0' ≤ c) (most : c ≤ '9') : digitValue? c = some (c.toNat - 48) := by
  have small : c.toNat < 128 := Nat.lt_of_le_of_lt (show c.toNat ≤ 57 from most) (by decide)
  rw [digitValue?, if_pos small, if_pos ⟨least, most⟩]

theorem digit_lt (c : Char) : digit c < 10 := by
  unfold digit
  cases found : digitValue? c with
  | none => decide
  | some d => exact digitValue?_lt found

theorem isDecimal_digitChar : ∀ d < 10, isDecimal (Nat.digitChar d) = true := by decide

/-! ### Digits among other characters -/

/-- The codes from `low` to `high` lie in none of the ranges. -/
def areApart (ranges : List (Nat × Nat)) (low high : Nat) : Bool :=
  ranges.all fun range => Nat.blt range.2 low || Nat.blt high range.1

theorem inRanges_eq_false {ranges : List (Nat × Nat)} {low high : Nat} (apart : areApart ranges low high = true)
    (least : low ≤ c.toNat) (most : c.toNat ≤ high) : inRanges ranges c = false := by
  rw [Bool.eq_false_iff]
  intro inside
  obtain ⟨range, member, within⟩ := List.any_eq_true.mp inside
  have out := List.all_eq_true.mp apart range member
  simp only [Nat.blt_eq, Bool.or_eq_true, Bool.and_eq_true, decide_eq_true_eq] at out within
  omega

theorem zeros_apart_blanks : (decimalZeros.all fun z => areApart blankRanges z (z + 9)) = true := by decide +kernel

theorem zeros_apart_letters : (decimalZeros.all fun z => areApart letterRanges z (z + 9)) = true := by decide +kernel

/-- A digit is one of the ten that begin with its script's zero. -/
theorem exists_zero (decimal : isDecimal c = true) : ∃ z ∈ decimalZeros, z ≤ c.toNat ∧ c.toNat ≤ z + 9 := by
  unfold isDecimal digitValue? at decimal
  split at decimal
  · split at decimal
    · rename_i plain
      exact ⟨48, by decide, plain.1, plain.2⟩
    · cases decimal
  · rw [Option.isSome_map] at decimal
    obtain ⟨z, found⟩ := Option.isSome_iff_exists.mp decimal
    have within := List.find?_some found
    simp only [Bool.and_eq_true, decide_eq_true_eq] at within
    exact ⟨z, List.mem_of_find?_eq_some found, within⟩

theorem isBlank_of_isDecimal (decimal : isDecimal c = true) : isBlank c = false := by
  obtain ⟨z, member, least, most⟩ := exists_zero decimal
  exact inRanges_eq_false (List.all_eq_true.mp zeros_apart_blanks z member) least most

theorem isPlainLetter_of_isDecimal (decimal : isDecimal c = true) : isPlainLetter c = false := by
  have least : ∀ z ∈ decimalZeros, areApart [(65, 90), (97, 122)] z (z + 9) = true := by decide +kernel
  obtain ⟨z, member, bounds⟩ := exists_zero decimal
  have out := inRanges_eq_false (least z member) bounds.1 bounds.2
  simpa [inRanges, isPlainLetter, Char.le_def, UInt32.le_iff_toNat_le, Bool.or_comm] using out

theorem isLetter_of_isDecimal (decimal : isDecimal c = true) : isLetter c = false := by
  unfold isLetter
  split
  · exact isPlainLetter_of_isDecimal decimal
  · obtain ⟨z, member, least, most⟩ := exists_zero decimal
    exact inRanges_eq_false (List.all_eq_true.mp zeros_apart_letters z member) least most

/-! ### Texts of digits -/

/-- A text of decimal digits alone. -/
def Decimals (s : Text) : Prop := ∀ c ∈ s, isDecimal c = true

instance (s : Text) : Decidable (Decimals s) := List.decidableBAll _ s

theorem Decimals.append (hs : Decimals s) (ht : Decimals t) : Decimals (s ++ t) := List.forall_mem_append.mpr ⟨hs, ht⟩

theorem Decimals.of_subset (decimals : Decimals s) (sub : t ⊆ s) : Decimals t := fun c member => decimals c (sub member)

theorem Decimals.noBlank (decimals : Decimals s) : NoBlank s := fun c member => isBlank_of_isDecimal (decimals c member)

theorem Decimals.not_mem (decimals : Decimals s) (other : isDecimal c = false) : c ∉ s := by
  intro member
  rw [decimals c member] at other
  cases other

theorem Decimals.digitValues?_eq (decimals : Decimals s) : digitValues? s = some (s.map digit) := by
  induction s with
  | nil => rfl
  | cons c s ih =>
    have ih := ih fun d member => decimals d (List.mem_cons_of_mem c member)
    unfold digitValues? at ih ⊢
    rw [List.mapM_cons, digitValue?_eq_some (decimals c List.mem_cons_self), ih]
    rfl

theorem decimals_of_digitValues? {digits : List Nat} (found : digitValues? s = some digits) : Decimals s := by
  unfold digitValues? at found
  induction s generalizing digits with
  | nil => exact nofun
  | cons c s ih =>
    rw [List.mapM_cons] at found
    obtain ⟨d, first, found⟩ := Option.bind_eq_some_iff.mp found
    obtain ⟨rest, others, -⟩ := Option.bind_eq_some_iff.mp found
    exact List.forall_mem_cons.mpr ⟨by rw [isDecimal, first]; rfl, ih others⟩

theorem areDigits_digit (s : Text) : AreDigits (s.map digit) := by
  intro d member
  obtain ⟨c, -, rfl⟩ := List.mem_map.mp member
  exact digit_lt c

/-- The number that a text of digits writes. -/
def value (s : Text) : Nat := digitsValue (s.map digit)

theorem value_lt (s : Text) : value s < 10 ^ s.length := by
  have less := digitsValue_lt (areDigits_digit s)
  rwa [List.length_map] at less

theorem value_singleton (c : Char) : value [c] = digit c := Nat.zero_add _

theorem value_pair (a b : Char) : value [a, b] = 10 * digit a + digit b := by
  simp [value, digitsValue]

theorem value_append (s t : Text) : value (s ++ t) = value s * 10 ^ t.length + value t := by
  rw [value, List.map_append, digitsValue_append, List.length_map]
  rfl

section Row
variable {digits : List Nat} (areDigits : AreDigits digits)
include areDigits

theorem decimals_row : Decimals (row digits) := by
  intro c member
  obtain ⟨d, less, rfl⟩ := mem_row areDigits member
  exact isDecimal_digitChar d less

theorem value_row : value (row digits) = digitsValue digits := by
  have same := (decimals_row areDigits).digitValues?_eq.symm.trans (digitValues?_row areDigits)
  rw [value, Option.some.inj same]

end Row

/-- A text of digits is read as the number that they write. -/
theorem Decimals.readNat?_eq (decimals : Decimals s) (some : s ≠ []) (short : s.length ≤ maxDigits) :
    readNat? s = .some (value s) := by
  unfold readNat?
  rw [splitOn_of_not_mem (decimals.not_mem (by decide))]
  simp only [List.any_cons, List.any_nil, Bool.or_false, List.isEmpty_iff, some, if_false, List.flatten_cons,
    List.flatten_nil, List.append_nil, decimals.digitValues?_eq, Option.bind_eq_bind, Option.bind_some, List.length_map,
    if_pos short, value]

end Cadence.Text
