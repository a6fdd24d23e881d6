import Mathlib.Tactic.SplitIfs
import Cadence.Json.Reader
import Cadence.Json.Writer
import Cadence.Proofs.Text.Numeral

/-!
# Strings read back

A text that was written as a JSON string is read back, unless it holds the first half of a pair right before a second
half: written as two escapes, they are read as the one character that they make together.
-/

namespace Cadence

namespace Text

/-! ### Halves of pairs -/

/-- The character holds the place of a first half. -/
def standsForHigh (c : Char) : Bool := (half? c).any isHighHalf

/-- The character holds the place of a second half. -/
def standsForLow (c : Char) : Bool := (half? c).any isLowHalf

/-- No first half in the text stands right before a second half. -/
def isPaired : Text → Bool
  | high :: low :: rest => ! (standsForHigh high && standsForLow low) && isPaired (low :: rest)
  | _ => true

theorem isPaired_tail {c : Char} {s : Text} (paired : isPaired (c :: s) = true) : isPaired s = true := by
  cases s with
  | nil => rfl
  | cons d s => exact (Bool.and_eq_true_iff.mp paired).2

/-- A text with no half in it is one without two halves beside one another. -/
theorem isPaired_of_isWhole {s : Text} (whole : isWhole s = true) : isPaired s = true := by
  induction s with
  | nil => rfl
  | cons c s ih =>
    obtain ⟨first, rest⟩ := Bool.and_eq_true_iff.mp (show ((half? c).isNone && isWhole s) = true from whole)
    cases s with
    | nil => rfl
    | cons d s =>
      have none : standsForHigh c = false := by rw [standsForHigh, Option.isNone_iff_eq_none.mp first]; rfl
      rw [isPaired, none, Bool.false_and, Bool.not_false, Bool.true_and]
      exact ih rest

end Text

namespace Json

open Text

variable {c : Char} {s rest : Text} {n : Nat}

/-! ### Characters -/

theorem hexDigit?_digitChar : ∀ d < 16, hexDigit? (Nat.digitChar d) = some d := by decide

/-- An escape of a unit is read as the unit. -/
theorem stringCodes?_unitEscape (lt : n < 0x10000) (rest : Text) : stringCodes? (unitEscape n ++ rest) =
    (stringCodes? rest).map fun read => (n :: read.1, read.2) := by
  have unit : hexUnit? (Nat.digitChar (n / 16 / 16 / 16)) (Nat.digitChar (n / 16 / 16 % 16)) (Nat.digitChar (n / 16 % 16))
      (Nat.digitChar (n % 16)) = some n := by
    rw [hexUnit?, hexDigit?_digitChar _ (by omega), hexDigit?_digitChar _ (by omega), hexDigit?_digitChar _ (by omega),
      hexDigit?_digitChar _ (by omega)]
    simp only [Option.bind_eq_bind, Option.bind_some, Option.some.injEq]
    omega
  rw [unitEscape, hex, padLeft_four (by decide) lt]
  simp only [row, List.map_cons, List.map_nil, List.cons_append, List.nil_append, stringCodes?, unit]
  cases stringCodes? rest <;> rfl

/-- An escape of a letter is read as the code of the character that it stands for. -/
theorem stringCodes?_escape {letter : Char} (stands : escaped? letter = some n) (rest : Text) :
    stringCodes? ('\\' :: letter :: rest) = (stringCodes? rest).map fun read => (n :: read.1, read.2) := by
  have other : letter ≠ 'u' := by
    rintro rfl
    cases stands
  rw [stringCodes?.eq_4 letter rest fun _ _ _ _ _ same _ => other same, stands]
  cases stringCodes? rest <;> rfl

/-- Other characters are read as their own codes, unless they may not stand in a string. -/
theorem stringCodes?_own (quote : c ≠ '"') (escape : c ≠ '\\') (visible : 32 ≤ c.toNat) (rest : Text) :
    stringCodes? (c :: rest) = (stringCodes? rest).map fun read => (c.toNat :: read.1, read.2) := by
  rw [stringCodes?.eq_5 c rest quote (fun _ _ _ _ _ same _ => escape same) (fun _ _ same _ => escape same), if_neg (by omega)]
  cases stringCodes? rest <;> rfl

/-- The codes that a character is written in: its own, that of a half, or those of two halves. -/
def unitsOf (c : Char) : List Nat :=
  match half? c with
  | some half => [half]
  | none =>
    if c.toNat < 0x10000 then [c.toNat] else [0xD800 + (c.toNat - 0x10000) / 0x400, 0xDC00 + (c.toNat - 0x10000) % 0x400]

theorem toNat_lt (c : Char) : c.toNat < 0x110000 := by
  have valid := c.valid
  simp only [UInt32.isValidChar, Nat.isValidChar] at valid
  show c.val.toNat < _
  omega

theorem of_half? {half : Nat} (found : half? c = some half) : 0xD800 ≤ half ∧ half < 0xE000 ∧ c = ofHalf half := by
  unfold half? at found
  split at found
  · rename_i between
    obtain rfl := Option.some.inj found
    unfold ofHalf halfDistance
    refine ⟨by omega, by omega, ?_⟩
    rw [Nat.sub_add_cancel (by omega), Char.ofNat_toNat]
  · cases found

theorem unitsOf_of_lt (lt : c.toNat < 0x10000) : unitsOf c = [c.toNat] := by
  rw [unitsOf, half?, if_neg (by omega)]
  exact if_pos lt

/-- A character is read as its codes. -/
theorem stringCodes?_writeChar (c : Char) (rest : Text) : stringCodes? (writeChar c ++ rest) =
    (stringCodes? rest).map fun read => (unitsOf c ++ read.1, read.2) := by
  have code {n : Nat} (same : c.toNat = n) : c = Char.ofNat n := by rw [← same, Char.ofNat_toNat]
  unfold writeChar
  split_ifs with quote escape line feed tab back form visible basic
  · subst quote
    exact stringCodes?_escape rfl rest
  · subst escape
    exact stringCodes?_escape rfl rest
  · subst line
    exact stringCodes?_escape rfl rest
  · subst feed
    exact stringCodes?_escape rfl rest
  · subst tab
    exact stringCodes?_escape rfl rest
  · rw [code back]
    exact stringCodes?_escape rfl rest
  · rw [code form]
    exact stringCodes?_escape rfl rest
  · rw [unitsOf_of_lt (by omega)]
    exact stringCodes?_own quote escape visible.1 rest
  · rw [unitsOf_of_lt basic]
    exact stringCodes?_unitEscape basic rest
  · unfold unitsOf
    cases found : half? c with
    | some half => exact stringCodes?_unitEscape (Nat.lt_trans (of_half? found).2.1 (by decide)) rest
    | none =>
      have last := toNat_lt c
      dsimp only
      rw [if_neg basic, List.append_assoc, stringCodes?_unitEscape (by omega), stringCodes?_unitEscape (by omega)]
      cases stringCodes? rest <;> rfl

theorem stringCodes?_writeString (s rest : Text) :
    stringCodes? (s.flatMap writeChar ++ '"' :: rest) = some (s.flatMap unitsOf, rest) := by
  induction s with
  | nil => rfl
  | cons c s ih =>
    rw [List.flatMap_cons, List.append_assoc, stringCodes?_writeChar, ih]
    rfl

/-! ### Pairs -/

theorem isValid (c : Char) : c.toNat < 0xD800 ∨ 0xDFFF < c.toNat := by
  have valid := c.valid
  simp only [UInt32.isValidChar, Nat.isValidChar] at valid
  show c.val.toNat < _ ∨ _ < c.val.toNat
  omega

/-- The first code of a text is that of a second half only if the text begins with such a half. -/
theorem standsForLow_of_units {low : Nat} {more : List Nat} (units : (c :: s).flatMap unitsOf = low :: more)
    (isLow : isLowHalf low = true) : standsForLow c = true := by
  have between : 0xDC00 ≤ low ∧ low < 0xE000 := by
    simpa only [isLowHalf, Bool.and_eq_true, decide_eq_true_eq] using isLow
  rw [List.flatMap_cons] at units
  unfold unitsOf at units
  unfold standsForLow
  cases found : half? c with
  | some half =>
    rw [found] at units
    obtain ⟨rfl, -⟩ := List.cons.inj units
    exact isLow
  | none =>
    rw [found] at units
    dsimp only at units
    split at units
    · obtain ⟨rfl, -⟩ := List.cons.inj units
      have := isValid c
      omega
    · obtain ⟨rfl, -⟩ := List.cons.inj units
      have := toNat_lt c
      omega

/-- A code that does not begin a pair is that of a character by itself. -/
theorem charsOf_cons {code : Nat} {units : List Nat}
    (apart : isHighHalf code = true → ∀ low more, units = low :: more → isLowHalf low = false) :
    charsOf (code :: units) = charOf code :: charsOf units := by
  cases units with
  | nil => rfl
  | cons low more =>
    rw [charsOf, if_neg]
    intro pair
    obtain ⟨high, isLow⟩ := Bool.and_eq_true_iff.mp pair
    rw [apart high low more rfl] at isLow
    cases isLow

/-- The codes of a text without two halves beside one another are those of its characters. -/
theorem charsOf_units (paired : isPaired s = true) : charsOf (s.flatMap unitsOf) = s := by
  induction s with
  | nil => rfl
  | cons c s ih =>
    have ih := ih (isPaired_tail paired)
    rw [List.flatMap_cons]
    cases found : half? c with
    | some half =>
      obtain ⟨least, greatest, same⟩ := of_half? found
      have own : charOf half = c := by
        rw [charOf, if_pos, same]
        simp only [isHighHalf, isLowHalf, Bool.or_eq_true, Bool.and_eq_true, decide_eq_true_eq]
        omega
      rw [show unitsOf c = [half] by rw [unitsOf, found], List.singleton_append, charsOf_cons, own, ih]
      intro high low more units
      cases s with
      | nil => cases units
      | cons d s =>
        rw [isPaired, standsForHigh, found, Option.any_some, high, Bool.true_and, Bool.and_eq_true_iff, Bool.not_eq_true'] at paired
        refine Bool.eq_false_iff.mpr fun isLow => ?_
        rw [standsForLow_of_units units isLow] at paired
        exact absurd paired.1 (by decide)
    | none =>
      by_cases basic : c.toNat < 0x10000
      · have valid := isValid c
        rw [unitsOf_of_lt basic, List.singleton_append, charsOf_cons, ih, charOf, if_neg, Char.ofNat_toNat]
        · simp only [isHighHalf, isLowHalf, Bool.or_eq_true, Bool.and_eq_true, decide_eq_true_eq]
          omega
        · intro high
          simp only [isHighHalf, Bool.and_eq_true, decide_eq_true_eq] at high
          omega
      · have last := toNat_lt c
        have units : unitsOf c = [0xD800 + (c.toNat - 0x10000) / 0x400, 0xDC00 + (c.toNat - 0x10000) % 0x400] := by
          rw [unitsOf, found]
          exact if_neg basic
        rw [units, List.cons_append, List.singleton_append, charsOf, if_pos, ih]
        · have code : 0x10000 + (0xD800 + (c.toNat - 0x10000) / 0x400 - 0xD800) * 0x400 +
              (0xDC00 + (c.toNat - 0x10000) % 0x400 - 0xDC00) = c.toNat := by omega
          exact congrArg (· :: s) ((congrArg Char.ofNat code).trans (Char.ofNat_toNat c))
        · simp only [isHighHalf, isLowHalf, Bool.and_eq_true, decide_eq_true_eq]
          omega

/-- A text without two halves beside one another is read back from its string. -/
theorem string?_writeString (paired : isPaired s = true) (rest : Text) : string? (s.flatMap writeChar ++ '"' :: rest) = some (s, rest) := by
  rw [string?, stringCodes?_writeString, Option.map_some]
  dsimp only
  rw [charsOf_units paired]

end Json

end Cadence
