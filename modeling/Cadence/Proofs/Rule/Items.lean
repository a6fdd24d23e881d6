import Cadence.Proofs.Rule.Aligned
import Cadence.Proofs.Text.Decimals

/-!
# Items of lists

An item of a list of numbers, and what stands before the symbol of a weekday, is a row of digits of any script with a sign
before it or none. Every such row is read, so an item is refused for its form or for being out of range, and never
because its number could not be made out.
-/

namespace Cadence

namespace Text

variable {s sign digits : Text} {limit : Nat}

/-- What may stand before the digits of a number. -/
def signs : List Text := [[], ['+'], ['-']]

theorem mem_signs_iff : sign ∈ signs ↔ sign.length ≤ 1 ∧ ∀ c ∈ sign, (c = '+' || c = '-') = true := by
  constructor
  · intro listed
    simp only [signs, List.mem_cons, List.not_mem_nil, or_false] at listed
    rcases listed with rfl | rfl | rfl <;> simp
  · rintro ⟨one, marks⟩
    match sign with
    | [] => exact List.mem_cons_self
    | [c] =>
      have mark := marks c List.mem_cons_self
      rw [Bool.or_eq_true, decide_eq_true_eq, decide_eq_true_eq] at mark
      rcases mark with rfl | rfl <;> simp [signs]
    | _ :: _ :: _ => simp at one

theorem not_sign_of_isDecimal {c : Char} (decimal : isDecimal c = true) : (c = '+' || c = '-') = false := by
  refine Bool.eq_false_iff.mpr fun mark => ?_
  rw [Bool.or_eq_true, decide_eq_true_eq, decide_eq_true_eq] at mark
  rcases mark with rfl | rfl <;> exact absurd decimal (by decide)

/-- A row of digits, at most so many, with a sign before it or none. -/
def IsSignedRow (limit : Nat) (s : Text) : Prop :=
  ∃ sign digits, s = sign ++ digits ∧ sign ∈ signs ∧ digits ≠ [] ∧ digits.length ≤ limit ∧ Decimals digits

theorem takeWhile_append_of_stop {p : Char → Bool} {t : Text} (all : ∀ c ∈ s, p c = true)
    (stops : ∀ c, t.head? = some c → p c = false) : (s ++ t).takeWhile p = s := by
  rw [List.takeWhile_append_of_pos all]
  cases t with
  | nil => rw [List.takeWhile_nil, List.append_nil]
  | cons c rest => rw [List.takeWhile_cons_of_neg (by simp [stops c rfl]), List.append_nil]

/-- A row of digits with a sign is read, in the digits of any script. -/
theorem IsSignedRow.exists_readInt? (row : IsSignedRow limit s) (countable : limit ≤ maxDigits) : ∃ n, readInt? s = some n := by
  obtain ⟨sign, digits, rfl, listed, some, short, decimals⟩ := row
  have number : readNat? digits = .some (value digits) := decimals.readNat?_eq some (Nat.le_trans short countable)
  have noBlank : NoBlank sign := by
    simp only [signs, List.mem_cons, List.not_mem_nil, or_false] at listed
    rcases listed with rfl | rfl | rfl <;> decide
  unfold readInt?
  rw [trimNumber_eq_self (noBlank.append decimals.noBlank)]
  simp only [signs, List.mem_cons, List.not_mem_nil, or_false] at listed
  rcases listed with rfl | rfl | rfl
  · rw [List.nil_append]
    split
    · exact absurd List.mem_cons_self (decimals.not_mem (c := '-') (by decide))
    · exact absurd List.mem_cons_self (decimals.not_mem (c := '+') (by decide))
    · exact ⟨_, by rw [number]; rfl⟩
  · exact ⟨value digits, by simp [number]⟩
  · exact ⟨-value digits, by simp [number]⟩

end Text

open Text

namespace RuleText

variable {r : RuleText} {s token : Text} {key : RuleKey} {limit : Nat} {signed : Bool} {flaw : RuleFlaw}

/-! ### Numbers -/

/-- An item of a list of numbers is read just if it is a row of one to three digits, with a sign or without. -/
theorem exists_shortInt?_iff : (∃ n, shortInt? s = some n) ↔ IsSignedRow 3 s := by
  constructor
  · rintro ⟨n, read⟩
    unfold shortInt? at read
    dsimp only at read
    have pieces := List.prefix_iff_eq_append.mp (List.takeWhile_prefix (fun c => c = '+' || c = '-') : _ <+: s)
    have marks : ∀ c ∈ s.takeWhile (fun c => c = '+' || c = '-'), (c = '+' || c = '-') = true := fun c member =>
      List.all_eq_true.mp List.all_takeWhile c member
    split at read
    · cases read
    · rename_i form
      simp only [not_or, Nat.not_lt, Decidable.not_not, List.isEmpty_iff] at form
      obtain ⟨one, some, short, decimals⟩ := form
      exact ⟨_, _, pieces.symm, mem_signs_iff.mpr ⟨one, marks⟩, some, short, List.all_eq_true.mp decimals⟩
  · intro row
    obtain ⟨n, read⟩ := row.exists_readInt? (by decide)
    obtain ⟨sign, digits, rfl, listed, some, short, decimals⟩ := row
    obtain ⟨one, marks⟩ := mem_signs_iff.mp listed
    have stops : ∀ c, digits.head? = .some c → (c = '+' || c = '-') = false := fun c first =>
      not_sign_of_isDecimal (decimals c (List.mem_of_mem_head? first))
    have form : ¬ (1 < sign.length ∨ digits.isEmpty = true ∨ 3 < digits.length ∨ ¬ digits.all isDecimal = true) := by
      simp only [not_or, Nat.not_lt, Decidable.not_not, List.isEmpty_iff]
      exact ⟨one, some, short, List.all_eq_true.mpr decimals⟩
    refine ⟨n, ?_⟩
    unfold shortInt?
    dsimp only
    rw [takeWhile_append_of_stop marks stops, List.drop_left, if_neg form, read]

/-- A list of numbers is refused for the first item that is no short row of digits, or whose number is out of range. -/
theorem exists_of_checkNumbers_error (refused : r.checkNumbers key limit signed = .error flaw) :
    ∃ item ∈ nonEmptyItems (r.value key),
      flaw = .badNumber key.name item ∧ ¬ IsSignedRow 3 item ∨
      flaw = .numberOutOfRange key.name item ∧ ∃ n, readInt? item = some n ∧ ¬ (1 ≤ n.natAbs ∧ n.natAbs ≤ limit ∧ (0 ≤ n ∨ signed = true)) := by
  obtain ⟨item, listed, failed⟩ := exists_of_forM_error refused
  refine ⟨item, listed, ?_⟩
  split at failed
  · rename_i unread
    cases failed
    refine .inl ⟨rfl, fun row => ?_⟩
    obtain ⟨n, read⟩ := exists_shortInt?_iff.mpr row
    cases unread.symm.trans read
  · rename_i n short
    split at failed
    · cases failed
    · rename_i outside
      cases failed
      exact .inr ⟨rfl, n, readInt?_of_shortInt? short, outside⟩

/-! ### Weekdays -/

/-- An item of a weekday list: a symbol, and before it a row of one or two digits or nothing. -/
def IsWeekdayItem (token : Text) : Prop := ∃ lead day, token = lead ++ Weekday.symbol day ∧ (lead = [] ∨ IsSignedRow 2 lead)

/-- A symbol behind digits and a sign is read with the number that they write, if they write one. -/
theorem weekdayItem?_append {sign digits : Text} (marks : ∀ c ∈ sign, (c = '+' || c = '-') = true) (decimals : Decimals digits)
    (day : Weekday) : weekdayItem? (sign ++ (digits ++ day.symbol)) =
      if sign.isEmpty ∧ digits.isEmpty then some (none, day)
      else if 1 < sign.length ∨ digits.isEmpty ∨ 2 < digits.length then none
      else (readInt? (sign ++ digits)).map fun n => (some n, day) := by
  have letter : ∀ c, day.symbol.head? = some c → (c = '+' || c = '-') = false ∧ isDecimal c = false := by
    cases day <;> rintro c ⟨⟩ <;> decide
  have stops : ∀ c, (digits ++ day.symbol).head? = some c → (c = '+' || c = '-') = false := by
    intro c first
    cases digits with
    | nil => exact (letter c first).1
    | cons d more =>
      cases first
      exact not_sign_of_isDecimal (decimals c List.mem_cons_self)
  have ends : (digits ++ day.symbol).takeWhile isDecimal = digits := takeWhile_append_of_stop decimals fun c first => (letter c first).2
  unfold weekdayItem?
  dsimp only
  rw [takeWhile_append_of_stop marks stops, List.drop_left, ends, List.drop_left, Weekday.ofSymbol?_symbol]

/-- An item of a weekday list is read just if it has the form of one. -/
theorem exists_weekdayItem?_iff : (∃ item, weekdayItem? token = some item) ↔ IsWeekdayItem token := by
  constructor
  · rintro ⟨item, read⟩
    unfold weekdayItem? at read
    dsimp only at read
    have pieces := List.prefix_iff_eq_append.mp (List.takeWhile_prefix (fun c => c = '+' || c = '-') : _ <+: token)
    have marks : ∀ c ∈ token.takeWhile (fun c => c = '+' || c = '-'), (c = '+' || c = '-') = true := fun c member =>
      List.all_eq_true.mp List.all_takeWhile c member
    generalize token.takeWhile (fun c => c = '+' || c = '-') = sign at read pieces marks
    generalize token.drop sign.length = rest at read pieces
    have pieces' := List.prefix_iff_eq_append.mp (List.takeWhile_prefix isDecimal : _ <+: rest)
    have decimals : Decimals (rest.takeWhile isDecimal) := fun c member => List.all_eq_true.mp List.all_takeWhile c member
    generalize rest.takeWhile isDecimal = digits at read pieces' decimals
    split at read
    · cases read
    · rename_i day named
      rw [eq_symbol_of_ofSymbol? named] at pieces'
      subst pieces'
      subst pieces
      split at read
      · rename_i bare
        simp only [List.isEmpty_iff] at bare
        obtain ⟨rfl, rfl⟩ := bare
        exact ⟨[], day, rfl, .inl rfl⟩
      · split at read
        · cases read
        · rename_i form
          simp only [not_or, Nat.not_lt, List.isEmpty_iff] at form
          obtain ⟨one, some, short⟩ := form
          exact ⟨sign ++ digits, day, (List.append_assoc ..).symm, .inr ⟨sign, digits, rfl, mem_signs_iff.mpr ⟨one, marks⟩, some, short, decimals⟩⟩
  · rintro ⟨lead, day, rfl, rfl | row⟩
    · have bare : weekdayItem? ([] ++ ([] ++ day.symbol)) = some (none, day) :=
        weekdayItem?_append (List.forall_mem_nil _) (List.forall_mem_nil _) day
      exact ⟨(none, day), bare⟩
    · obtain ⟨n, read⟩ := row.exists_readInt? (by decide)
      obtain ⟨sign, digits, rfl, listed, some, short, decimals⟩ := row
      obtain ⟨one, marks⟩ := mem_signs_iff.mp listed
      refine ⟨(.some n, day), ?_⟩
      rw [List.append_assoc, weekdayItem?_append marks decimals day, read, if_neg fun bare => some (List.isEmpty_iff.mp bare.2), if_neg]
      · rfl
      · simp only [not_or, Nat.not_lt, List.isEmpty_iff]
        exact ⟨one, some, short⟩

/-- A weekday list is refused for the first item that has not the form of one, or whose position is out of range. -/
theorem exists_of_checkWeekdays_error (refused : r.checkWeekdays = .error flaw) :
    ∃ item ∈ nonEmptyItems (r.value .byDay),
      flaw = .badWeekday item ∧ ¬ IsWeekdayItem item ∨
      flaw = .positionOutOfRange item ∧ ∃ n day, weekdayItem? item = some (some n, day) ∧ ¬ (1 ≤ n.natAbs ∧ n.natAbs ≤ maxPosition) := by
  obtain ⟨item, listed, failed⟩ := exists_of_forM_error refused
  refine ⟨item, listed, ?_⟩
  unfold checkWeekday at failed
  split at failed
  · rename_i unread
    cases failed
    refine .inl ⟨rfl, fun form => ?_⟩
    obtain ⟨found, read⟩ := exists_weekdayItem?_iff.mpr form
    cases unread.symm.trans read
  · cases failed
  · rename_i n day read
    split at failed
    · cases failed
    · rename_i outside
      cases failed
      exact .inr ⟨rfl, n, day, read, outside⟩

end RuleText

end Cadence
