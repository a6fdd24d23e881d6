import Cadence.DateText.Reader
import Cadence.Proofs.Calendar.Numbering
import Cadence.Proofs.DateText.Numbers

/-!
# ISO dates read back

A local timestamp that was written in the ISO format is read back to the microsecond. No format of a locale is needed
for that.
-/

namespace Cadence

open Text

variable {n : Nat} {rest : Text}

theorem Text.readInt?_row {digits : List Nat} (h : AreDigits digits) : readInt? (row digits) = (readNat? (row digits)).map fun n => (n : Int) := by
  have minus : ∀ rest, row digits ≠ '-' :: rest := fun rest same => not_mem_row (c := '-') h (by decide) (by simp [same])
  have plus : ∀ rest, row digits ≠ '+' :: rest := fun rest same => not_mem_row (c := '+') h (by decide) (by simp [same])
  unfold readInt?
  rw [trimNumber_eq_self (noBlank_row h)]
  split
  · rename_i same
    exact absurd same (minus _)
  · rename_i same
    exact absurd same (plus _)
  · rfl

namespace Iso

/-! ### The time of day -/

theorem beginsZone_digitChar : ∀ d < 10, beginsZone (Nat.digitChar d) = false := by decide

theorem stopsHere_pair (h : n < 100) (rest : Text) : stopsHere (row (pair n) ++ rest) = false :=
  beginsZone_digitChar (n / 10) (by omega)

theorem pair?_pair (h : n < 100) (rest : Text) : pair? (row (pair n) ++ rest) = some ((n : Int), rest) := by
  show (readInt? (row (pair n))).map (fun n => (n, rest)) = _
  rw [readInt?_row (areDigits_pair h), readNat?_pair h]
  rfl

/-- Digits after a decimal point are the microseconds that they count. -/
theorem fraction_row {digits : List Nat} (h : AreDigits digits) (six : digits.length = 6) :
    fraction ('.' :: row digits) = (digitsValue digits, []) := by
  have plain : ∀ d < 10, ('0' ≤ Nat.digitChar d && Nat.digitChar d ≤ '9') = true ∧ (Nat.digitChar d).toNat - 48 = d := by decide
  have length : (row digits).length = 6 := by rw [row, List.length_map, six]
  have all : (row digits).takeWhile (fun c => '0' ≤ c && c ≤ '9') = row digits := by
    have digit : ∀ c ∈ row digits, (decide ('0' ≤ c) && decide (c ≤ '9')) = true := by
      intro c member
      obtain ⟨d, digit, rfl⟩ := mem_row h member
      exact (plain d digit).1
    rw [← List.append_nil (row digits), List.takeWhile_append_of_pos digit, List.takeWhile_nil]
  have values : (row digits).map (fun c => c.toNat - 48) = digits := by
    rw [row, List.map_map]
    exact (List.map_congr_left fun d member => (plain d (h d member)).2).trans (List.map_id digits)
  have nonempty : (row digits).isEmpty = false := by
    cases written : row digits with
    | nil => rw [written] at length; cases length
    | cons => rfl
  unfold fraction
  dsimp only
  rw [all, nonempty, List.take_of_length_le (Nat.le_of_eq length), List.drop_of_length_le (Nat.le_refl _)]
  have padded : padRight 6 '0' (row digits) = row digits := by
    unfold padRight
    simp [length]
  rw [padded, values]
  rfl

/-- The fraction of a second as it is written behind the time of day. -/
def fractionText (micro : Nat) : Text := if micro = 0 then [] else '.' :: ofNatPadded 6 micro

theorem secondText_eq (c : Clock) : c.secondText = row (pair c.hour) ++ (':' :: (row (pair c.minute) ++ (':' :: row (pair c.second)))) := by
  obtain ⟨hour, minute, second, -⟩ := c.valid
  rw [Clock.secondText, Clock.minuteText, ofNatPadded_two _ (by omega), ofNatPadded_two _ (by omega), ofNatPadded_two _ (by omega)]
  simp

/-- A time of day is read back, with its fraction of a second. -/
theorem time?_secondText (c : Clock) : time? (c.secondText ++ fractionText c.micro) =
    some { hour := c.hour, minute := c.minute, second := c.second, micro := c.micro } := by
  obtain ⟨hour, minute, second, micro⟩ := c.valid
  have written : c.secondText ++ fractionText c.micro =
      row (pair c.hour) ++ (':' :: (row (pair c.minute) ++ (':' :: (row (pair c.second) ++ fractionText c.micro)))) := by
    rw [secondText_eq]
    simp
  have long : ¬ (row (pair c.hour) ++ (':' :: (row (pair c.minute) ++ (':' :: (row (pair c.second) ++ fractionText c.micro))))).length < 2 := by
    simp [row, pair]
  have colon : ∀ rest, stopsHere (':' :: rest) = false := fun _ => rfl
  unfold time?
  rw [written, if_neg long, stopsHere_pair (by omega), pair?_pair (by omega)]
  simp only [Bool.false_eq_true, if_false, Option.bind_eq_bind, Option.bind_some, colon, pair?_pair (show c.minute < 100 by omega),
    pair?_pair (show c.second < 100 by omega), if_true, following?]
  unfold fractionText
  split
  · rename_i whole
    rw [whole]
    rfl
  · have short : (ofNat c.micro).length ≤ 6 := (Nat.length_toDigits_le_iff (by decide) (by decide)).mpr micro
    obtain ⟨digits, written, six, areDigits, value⟩ := exists_padded short
    have point : stopsHere ('.' :: row digits) = false := rfl
    rw [written, point, fraction_row areDigits six, value]
    rfl

/-! ### The whole text -/

/-- A local timestamp as it is written, its day in rows of digits. -/
theorem text_eq {s : Stamp} (naive : s.zone = none) : s.text = row (quad s.day.year) ++ ('-' :: (row (pair s.day.month) ++
    ('-' :: (row (pair s.day.day) ++ ('T' :: (s.clock.secondText ++ fractionText s.clock.micro)))))) := by
  obtain ⟨year, month, day⟩ := s.day.parts_lt
  rw [Stamp.text, Day.text, ofNatPadded_four year, ofNatPadded_two _ month, ofNatPadded_two _ day, naive]
  simp only [fractionText, List.append_assoc, List.append_nil]
  rfl

/-- A character of a written timestamp: a digit, or a mark between digits. -/
def IsOfStamp (c : Char) : Prop := (∃ d < 10, c = Nat.digitChar d) ∨ c ∈ ['-', 'T', ':', '.']

theorem isOfStamp_of_mem_row {digits : List Nat} (h : AreDigits digits) {c : Char} (member : c ∈ row digits) : IsOfStamp c :=
  .inl (mem_row h member)

theorem isOfStamp_of_mem_fractionText {micro : Nat} (less : micro < 1000000) {c : Char} (member : c ∈ fractionText micro) :
    IsOfStamp c := by
  unfold fractionText at member
  split at member
  · cases member
  · have short : (ofNat micro).length ≤ 6 := (Nat.length_toDigits_le_iff (by decide) (by decide)).mpr less
    obtain ⟨digits, written, -, areDigits, -⟩ := exists_padded short
    rw [written] at member
    rcases List.mem_cons.mp member with rfl | member
    · exact .inr (by decide)
    · exact isOfStamp_of_mem_row areDigits member

theorem isOfStamp_of_mem_text {s : Stamp} (naive : s.zone = none) : ∀ c ∈ s.text, IsOfStamp c := by
  obtain ⟨year, month, day⟩ := s.day.parts_lt
  obtain ⟨hour, minute, second, micro⟩ := s.clock.valid
  have two {n : Nat} (less : n < 100) {c : Char} (member : c ∈ row (pair n)) : IsOfStamp c :=
    isOfStamp_of_mem_row (areDigits_pair less) member
  intro c member
  rw [text_eq naive, secondText_eq] at member
  simp only [List.append_assoc, List.cons_append, List.mem_append, List.mem_cons] at member
  rcases member with member | rfl | member | rfl | member | rfl | member | rfl | member | rfl | member | member
  · exact isOfStamp_of_mem_row (areDigits_quad year) member
  · exact .inr (by decide)
  · exact two month member
  · exact .inr (by decide)
  · exact two day member
  · exact .inr (by decide)
  · exact two (by omega) member
  · exact .inr (by decide)
  · exact two (by omega) member
  · exact .inr (by decide)
  · exact two (by omega) member
  · exact isOfStamp_of_mem_fractionText micro member

theorem IsOfStamp.of_decide {p : Char → Bool} (digits : ∀ d < 10, p (Nat.digitChar d) = true) (marks : ['-', 'T', ':', '.'].all p = true)
    {c : Char} (own : IsOfStamp c) : p c = true := by
  rcases own with ⟨d, digit, rfl⟩ | mark
  · exact digits d digit
  · exact List.all_eq_true.mp marks c mark

/-- A day and a time behind it are read as the timestamp that they make. -/
theorem read?_text {s : Stamp} (naive : s.zone = none) : read? s.text = some s := by
  obtain ⟨year, month, day⟩ := s.day.parts_lt
  obtain ⟨hour, minute, second, micro⟩ := s.clock.valid
  have plain : s.text.all isPlain = true := List.all_eq_true.mpr fun c member =>
    (isOfStamp_of_mem_text naive c member).of_decide (by decide) (by decide)
  have shape := text_eq naive
  have yearText : s.text.take 4 = row (quad s.day.year) := by rw [shape]; rfl
  have monthText : (s.text.drop 5).take 2 = row (pair s.day.month) := by rw [shape]; rfl
  have dayText : (s.text.drop 8).take 2 = row (pair s.day.day) := by rw [shape]; rfl
  have behind : s.text.drop 10 = 'T' :: (s.clock.secondText ++ fractionText s.clock.micro) := by rw [shape]; rfl
  have clock : Clock.of? s.clock.hour s.clock.minute s.clock.second s.clock.micro = some s.clock := dif_pos s.clock.valid
  have at_ : stampAt? s.day { hour := s.clock.hour, minute := s.clock.minute, second := s.clock.second, micro := s.clock.micro } = some s := by
    unfold stampAt?
    dsimp only
    rw [if_neg (by omega), if_neg (by omega), Int.toNat_natCast, Int.toNat_natCast, Int.toNat_natCast, clock]
    obtain ⟨d, c, zone⟩ := s
    cases naive
    rfl
  unfold read?
  rw [plain, yearText, monthText, dayText, behind, readNat?_quad year, readNat?_pair month, readNat?_pair day]
  simp only [Bool.not_true, Bool.false_eq_true, if_false, Option.bind_eq_bind, Option.bind_some, Day.of?_eq s.day.valid,
    time?_secondText]
  exact at_

theorem hasForm_text {s : Stamp} (naive : s.zone = none) : hasForm s.text = true := by
  obtain ⟨year, month, day⟩ := s.day.parts_lt
  have shape := text_eq naive
  have decimal {digits : List Nat} (h : AreDigits digits) : (row digits).all isDecimal = true := List.all_eq_true.mpr fun c member => by
    obtain ⟨d, digit, rfl⟩ := mem_row h member
    exact isDecimal_digitChar d digit
  have digits : (row (quad s.day.year) ++ row (pair s.day.month) ++ row (pair s.day.day)).all isDecimal = true := by
    rw [List.all_append, List.all_append, decimal (areDigits_quad year), decimal (areDigits_pair month), decimal (areDigits_pair day)]
    rfl
  have solid : (s.clock.secondText ++ fractionText s.clock.micro).any isBlank = false := List.any_eq_false.mpr fun c member => by
    have own := isOfStamp_of_mem_text naive c (by simp [shape, List.mem_append.mp member])
    simpa using own.of_decide (p := fun c => ! isBlank c) (by decide) (by decide)
  have there : (s.clock.secondText ++ fractionText s.clock.micro).isEmpty = false := by rw [secondText_eq]; rfl
  rw [shape]
  show (_ && (! (s.clock.secondText ++ fractionText s.clock.micro).isEmpty && ! (s.clock.secondText ++ fractionText s.clock.micro).any isBlank)) = true
  rw [solid, there]
  exact Bool.and_eq_true_iff.mpr ⟨digits, rfl⟩

end Iso

/-- A local timestamp that is written in the ISO format is read back, whatever the format of the locale. -/
theorem DateText.resolve_text {s : Stamp} (naive : s.zone = none) (currentYear : Nat) (format : Except Fault LocaleFormat) :
    resolve currentYear format s.text = .ok (some s) := by
  have noBlank : NoBlank s.text := fun c member => by
    simpa using (Iso.isOfStamp_of_mem_text naive c member).of_decide (p := fun c => ! isBlank c) (by decide) (by decide)
  unfold resolve
  rw [noBlank.trim_eq]
  simp only [Iso.hasForm_text naive, if_true, Iso.read?_text naive]

end Cadence
