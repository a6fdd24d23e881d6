import Cadence.DateText.Compact
import Cadence.DateText.FreeForm
import Cadence.Proofs.Calendar.Numbering
import Cadence.Proofs.Text.Numeral

/-!
# Dates in rule text read back

A date and time of whole seconds that is written for a rule text is read back, both in the form of rule
text and as a date in words, if its year has four digits. A shorter year is written without zeros in
front, and is not read.
-/

namespace Cadence

namespace Text

/-- The digits of a number of two digits. -/
def pair (n : Nat) : List Nat := [n / 10, n % 10]

theorem areDigits_pair {n : Nat} (h : n < 100) : AreDigits (pair n) := by
  intro d hd
  simp only [pair, List.mem_cons, List.not_mem_nil, or_false] at hd
  omega

theorem digitsValue_pair (n : Nat) : digitsValue (pair n) = n := by
  simp only [digitsValue, pair, List.foldl_cons, List.foldl_nil]
  omega

theorem ofNatPadded_two : ∀ n < 100, ofNatPadded 2 n = row (pair n) := by decide

/-- The digits of a number of four digits. -/
def quad (n : Nat) : List Nat := [n / 10 / 10 / 10, n / 10 / 10 % 10, n / 10 % 10, n % 10]

theorem areDigits_quad {n : Nat} (h : n < 10000) : AreDigits (quad n) := by
  intro d hd
  simp only [quad, List.mem_cons, List.not_mem_nil, or_false] at hd
  omega

theorem digitsValue_quad (n : Nat) : digitsValue (quad n) = n := by
  simp only [digitsValue, quad, List.foldl_cons, List.foldl_nil]
  omega

theorem ofNat_quad {n : Nat} (h₁ : 1000 ≤ n) (h₂ : n < 10000) : ofNat n = row (quad n) := by
  rw [ofNat, Nat.toDigits_of_base_le (by decide) (by omega), Nat.toDigits_of_base_le (by decide) (by omega),
    Nat.toDigits_of_base_le (by decide) (by omega), Nat.toDigits_of_lt_base (by omega)]
  rfl

theorem readNat?_pair {n : Nat} (h : n < 100) : readNat? (row (pair n)) = some n := by
  rw [readNat?_row (areDigits_pair h) (by simp [pair]), digitsValue_pair, if_pos (by simp [pair, maxDigits])]

theorem readNat?_quad {n : Nat} (h : n < 10000) : readNat? (row (quad n)) = some n := by
  rw [readNat?_row (areDigits_quad h) (by simp [quad]), digitsValue_quad, if_pos (by simp [quad, maxDigits])]

end Text

open Text

namespace Day

/-- The digits of a day in rule text. -/
def digits (d : Day) : List Nat := quad d.year ++ (pair d.month ++ pair d.day)

theorem parts_lt (d : Day) : d.year < 10000 ∧ d.month < 100 ∧ d.day < 100 := by
  have := d.year_bounds
  have := d.month_bounds
  have := d.day_bounds
  have := daysInMonth_le d.year d.month
  omega

theorem areDigits_digits (d : Day) : AreDigits d.digits :=
  (areDigits_quad d.parts_lt.1).append ((areDigits_pair d.parts_lt.2.1).append (areDigits_pair d.parts_lt.2.2))

end Day

namespace Clock

/-- The digits of a time of whole seconds in rule text. -/
def digits (c : Clock) : List Nat := pair c.hour ++ (pair c.minute ++ pair c.second)

theorem areDigits_digits (c : Clock) : AreDigits c.digits := by
  obtain ⟨hh, hm, hs, -⟩ := c.valid
  exact (areDigits_pair (by omega)).append ((areDigits_pair (by omega)).append (areDigits_pair (by omega)))

end Clock

namespace Compact

theorem text_eq {s : Stamp} (h : 1000 ≤ s.day.year) : text s = row s.day.digits ++ 'T' :: row s.clock.digits := by
  obtain ⟨hy, hm, hd⟩ := s.day.parts_lt
  obtain ⟨hh, hn, hs, -⟩ := s.clock.valid
  rw [text, ofNat_quad h hy, ofNatPadded_two _ hm, ofNatPadded_two _ hd, ofNatPadded_two _ (by omega),
    ofNatPadded_two _ (by omega), ofNatPadded_two _ (by omega)]
  simp only [Day.digits, Clock.digits, row_append, List.append_assoc, List.cons_append]

/-- A timestamp is written with digits alone before and after its mark, whatever its year. -/
theorem exists_text_eq (s : Stamp) : ∃ digits, AreDigits digits ∧ text s = row digits ++ 'T' :: row s.clock.digits := by
  obtain ⟨-, hm, hd⟩ := s.day.parts_lt
  obtain ⟨hh, hn, hs, -⟩ := s.clock.valid
  obtain ⟨year, hyear, -, digits, -⟩ := exists_digits s.day.year
  refine ⟨year ++ (pair s.day.month ++ pair s.day.day), digits.append ((areDigits_pair hm).append (areDigits_pair hd)), ?_⟩
  rw [text, hyear, ofNatPadded_two _ hm, ofNatPadded_two _ hd, ofNatPadded_two _ (by omega), ofNatPadded_two _ (by omega),
    ofNatPadded_two _ (by omega)]
  simp only [Clock.digits, row_append, List.append_assoc, List.cons_append]

/-! ### The form of rule text -/

section Pairs
variable {a b : Nat} (ha : a < 10) (hb : b < 10) (rest : Text)
include ha hb

theorem plainPair_digits (low high : Nat) :
    plainPair low high (Nat.digitChar a :: Nat.digitChar b :: rest) =
      if low ≤ 10 * a + b ∧ 10 * a + b ≤ high then [(10 * a + b, rest)] else [] := by
  have hplain : ∀ d < 10, '0' ≤ Nat.digitChar d ∧ Nat.digitChar d ≤ '9' := by decide
  rw [plainPair, if_pos ⟨(hplain a ha).1, (hplain a ha).2, (hplain b hb).1, (hplain b hb).2⟩]
  rw [Nat.toNat_digitChar_sub_48_of_lt_ten ha, Nat.toNat_digitChar_sub_48_of_lt_ten hb]

theorem pairIn_digits (firsts : List Char) :
    pairIn firsts (Nat.digitChar a :: Nat.digitChar b :: rest) =
      if firsts.contains (Nat.digitChar a) then [(10 * a + b, rest)] else [] := by
  rw [pairIn, digitValue?_digitChar a ha, digitValue?_digitChar b hb]

end Pairs

/-- Of several readings of the text, the first one takes a number and leaves the rest. -/
def ReadsFirst (readings : Readings) (n : Nat) (rest : Text) : Prop := ∃ more, readings = (n, rest) :: more

theorem readsFirst_append_left {l : Readings} {n : Nat} {rest : Text} (h : l = [(n, rest)]) (l' : Readings) :
    ReadsFirst (l ++ l') n rest := ⟨l', by rw [h]; rfl⟩

theorem readsFirst_month {n : Nat} (h₁ : 1 ≤ n) (h₂ : n ≤ 12) (rest : Text) :
    ReadsFirst (month (row (pair n) ++ rest)) n rest := by
  have hv : 10 * (n / 10) + n % 10 = n := by omega
  simp only [month, row, pair, List.map_cons, List.map_nil, List.cons_append, List.nil_append]
  rw [plainPair_digits (by omega) (by omega), plainPair_digits (by omega) (by omega), hv]
  by_cases h : 10 ≤ n
  · rw [if_pos ⟨h, h₂⟩, List.append_assoc]
    exact readsFirst_append_left rfl _
  · rw [if_neg (by omega), if_pos ⟨h₁, by omega⟩, List.nil_append]
    exact readsFirst_append_left rfl _

theorem readsFirst_day {n : Nat} (h₁ : 1 ≤ n) (h₂ : n ≤ 31) (rest : Text) :
    ReadsFirst (day (row (pair n) ++ rest)) n rest := by
  have hv : 10 * (n / 10) + n % 10 = n := by omega
  have hfirst : ∀ d < 4, (['1', '2'].contains (Nat.digitChar d)) = decide (1 ≤ d ∧ d ≤ 2) := by decide
  simp only [day, row, pair, List.map_cons, List.map_nil, List.cons_append, List.nil_append, List.append_assoc]
  rw [plainPair_digits (by omega) (by omega), plainPair_digits (by omega) (by omega),
    pairIn_digits (by omega) (by omega), hfirst _ (by omega), hv]
  by_cases h : 30 ≤ n
  · rw [if_pos ⟨h, h₂⟩]
    exact readsFirst_append_left rfl _
  · rw [if_neg (by omega), List.nil_append]
    by_cases h10 : 10 ≤ n
    · rw [if_pos (by simp; omega)]
      exact readsFirst_append_left rfl _
    · rw [if_neg (by simp; omega), if_pos ⟨h₁, by omega⟩, List.nil_append]
      exact readsFirst_append_left rfl _

theorem readsFirst_hour {n : Nat} (h : n < 24) (rest : Text) : ReadsFirst (hour (row (pair n) ++ rest)) n rest := by
  have hv : 10 * (n / 10) + n % 10 = n := by omega
  have hfirst : ∀ d < 3, (['0', '1'].contains (Nat.digitChar d)) = decide (d ≤ 1) := by decide
  simp only [hour, row, pair, List.map_cons, List.map_nil, List.cons_append, List.nil_append, List.append_assoc]
  rw [plainPair_digits (by omega) (by omega), pairIn_digits (by omega) (by omega), hfirst _ (by omega), hv]
  by_cases h20 : 20 ≤ n
  · rw [if_pos ⟨h20, by omega⟩]
    exact readsFirst_append_left rfl _
  · rw [if_neg (by omega), if_pos (by simp; omega), List.nil_append]
    exact readsFirst_append_left rfl _

theorem contains_tens : ∀ d < 6, (['0', '1', '2', '3', '4', '5'].contains (Nat.digitChar d)) = true := by decide

theorem readsFirst_minute {n : Nat} (h : n < 60) (rest : Text) : ReadsFirst (minute (row (pair n) ++ rest)) n rest := by
  simp only [minute, row, pair, List.map_cons, List.map_nil, List.cons_append, List.nil_append]
  rw [pairIn_digits (by omega) (by omega), if_pos (contains_tens _ (by omega)),
    show 10 * (n / 10) + n % 10 = n from by omega]
  exact readsFirst_append_left rfl _

theorem readsFirst_second {n : Nat} (h : n < 60) (rest : Text) : ReadsFirst (second (row (pair n) ++ rest)) n rest := by
  simp only [second, row, pair, List.map_cons, List.map_nil, List.cons_append, List.nil_append, List.append_assoc]
  rw [plainPair_digits (by omega) (by omega), if_neg (by omega), pairIn_digits (by omega) (by omega),
    if_pos (contains_tens _ (by omega)), show 10 * (n / 10) + n % 10 = n from by omega, List.nil_append]
  exact readsFirst_append_left rfl _

theorem year?_quad {n : Nat} (h : n < 10000) (rest : Text) : year? (row (quad n) ++ rest) = some (n, rest) := by
  have := digitValues?_row (areDigits_quad h)
  simp only [row, quad, List.map_cons, List.map_nil] at this
  simp only [row, quad, List.map_cons, List.map_nil, List.cons_append, List.nil_append, year?, this, Option.map_some]
  rw [← quad, digitsValue_quad]

/-- The first reading of the digits of a day. -/
theorem dates_digits (d : Day) (rest : Text) :
    ∃ more, dates (row d.digits ++ rest) = ((d.year, d.month, d.day), rest) :: more := by
  have hd := d.day_bounds
  obtain ⟨m, hm⟩ := readsFirst_month d.month_bounds.1 d.month_bounds.2 (row (pair d.day) ++ rest)
  obtain ⟨n, hn⟩ := readsFirst_day hd.1 (Nat.le_trans hd.2 (daysInMonth_le _ _)) rest
  simp only [dates, Day.digits, row_append, List.append_assoc, year?_quad d.parts_lt.1, hm, List.flatMap_cons, hn,
    List.map_cons, List.cons_append]
  exact ⟨_, rfl⟩

theorem times_digits (c : Clock) (rest : Text) :
    ∃ more, times (row c.digits ++ rest) = ((c.hour, c.minute, c.second), rest) :: more := by
  obtain ⟨hh, hm, hs, -⟩ := c.valid
  obtain ⟨a, ha⟩ := readsFirst_hour hh (row (pair c.minute) ++ (row (pair c.second) ++ rest))
  obtain ⟨b, hb⟩ := readsFirst_minute hm (row (pair c.second) ++ rest)
  obtain ⟨e, he⟩ := readsFirst_second hs rest
  simp only [times, Clock.digits, row_append, List.append_assoc, ha, List.flatMap_cons, hb, he, List.map_cons,
    List.cons_append]
  exact ⟨_, rfl⟩

end Compact

namespace Stamp

/-- The timestamp as rule text keeps it: without its zone and without the part of a second. -/
def plain (s : Stamp) : Stamp := s.wholeSecond.withoutZone

theorem of?_plain (s : Stamp) :
    Stamp.of? s.day.year s.day.month s.day.day s.clock.hour s.clock.minute s.clock.second 0 = some s.plain := by
  have hd : Day.of? s.day.year s.day.month s.day.day = some s.day := Day.of?_eq_some.mpr ⟨rfl, rfl, rfl⟩
  have hc : Clock.of? s.clock.hour s.clock.minute s.clock.second 0 = some s.clock.wholeSecond :=
    dif_pos s.clock.wholeSecond.valid
  simp only [Stamp.of?, hd, hc]
  rfl

theorem day_of_of? {year month day hour minute second micro : Nat} {s : Stamp}
    (made : Stamp.of? year month day hour minute second micro = some s) : s.day.year = year ∧ s.day.month = month ∧ s.day.day = day := by
  unfold Stamp.of? at made
  split at made
  · rename_i found _
    cases made
    exact Day.of?_eq_some.mp found
  · cases made

theorem clock_of_of? {year month day hour minute second micro : Nat} {s : Stamp}
    (made : Stamp.of? year month day hour minute second micro = some s) :
    s.clock.hour = hour ∧ s.clock.minute = minute ∧ s.clock.second = second ∧ s.clock.micro = micro := by
  unfold Stamp.of? Clock.of? at made
  split at made
  · rename_i found
    split at found <;> cases found
    cases made
    exact ⟨rfl, rfl, rfl, rfl⟩
  · cases made

theorem zone_of_of? {year month day hour minute second micro : Nat} {s : Stamp}
    (made : Stamp.of? year month day hour minute second micro = some s) : s.zone = none := by
  unfold Stamp.of? at made
  split at made
  · cases made
    rfl
  · cases made

theorem zone_of_addDays? {s t : Stamp} {n : Int} (moved : s.addDays? n = some t) : t.zone = s.zone := by
  obtain ⟨day, -, rfl⟩ := Option.map_eq_some_iff.mp moved
  rfl

theorem plain_of_of? {year month day hour minute second : Nat} {s : Stamp}
    (made : Stamp.of? year month day hour minute second 0 = some s) : s.plain = s := by
  unfold Stamp.of? Clock.of? at made
  split at made
  · rename_i clock
    split at clock <;> cases clock
    cases made
    rfl
  · cases made

theorem plain_eq_self {s : Stamp} (hz : s.zone = none) (hm : s.clock.micro = 0) : s.plain = s := by
  obtain ⟨day, ⟨hour, minute, second, micro, valid⟩, zone⟩ := s
  subst hz hm
  rfl

end Stamp

namespace Compact

variable {s : Stamp}

theorem noBlank_text (s : Stamp) : NoBlank (text s) := by
  obtain ⟨digits, areDigits, written⟩ := exists_text_eq s
  rw [written]
  exact (noBlank_row areDigits).append ((noBlank_row s.clock.areDigits_digits).cons (by decide))

theorem upper_text (s : Stamp) : Upper (text s) := by
  obtain ⟨digits, areDigits, written⟩ := exists_text_eq s
  rw [written]
  exact (upper_row areDigits).append ((upper_row s.clock.areDigits_digits).cons (by decide))

theorem text_ne_nil (s : Stamp) : text s ≠ [] := by
  obtain ⟨digits, -, written⟩ := exists_text_eq s
  rw [written]
  simp

theorem not_mem_text (s : Stamp) {c : Char} (hc : c ∈ numberMarks) (hT : c ≠ 'T') : c ∉ text s := by
  obtain ⟨digits, areDigits, written⟩ := exists_text_eq s
  rw [written, List.mem_append, List.mem_cons, not_or, not_or]
  exact ⟨not_mem_row areDigits hc, hT, not_mem_row s.clock.areDigits_digits hc⟩

/-- What rule text writes is a local time of whole seconds. -/
theorem plain_of_read? {value : Text} (read : read? value = some s) : s.plain = s := by
  rw [read?, Option.orElse_eq_orElse, Option.orElse_eq_or, Option.or_eq_some_iff] at read
  rcases read with read | ⟨-, read⟩
  · unfold dateTime? at read
    dsimp only at read
    split at read
    · exact Stamp.plain_of_of? read
    · cases read
  · unfold date? at read
    split at read
    · exact Stamp.plain_of_of? read
    · cases read

/-- A written timestamp is read as it stands. -/
theorem read?_text_eq (s : Stamp) : read? (text s) = (dateTime? (text s) <|> date? (text s)) := by
  rw [read?, (noBlank_text s).trim_eq, (upper_text s).upper_eq, dropTrailing_of_not_mem (not_mem_text s (by decide) (by decide))]

/-- A written timestamp is read back from rule text. -/
theorem read?_text (h : 1000 ≤ s.day.year) : read? (text s) = some s.plain := by
  have htime : dateTime? (text s) = some s.plain := by
    obtain ⟨m, hm⟩ := dates_digits s.day ('T' :: row s.clock.digits)
    obtain ⟨n, hn⟩ := times_digits s.clock []
    rw [List.append_nil] at hn
    simp only [dateTime?, text_eq h, hm, List.flatMap_cons, hn, List.map_cons, List.cons_append]
    exact s.of?_plain
  rw [read?_text_eq, htime]
  rfl

theorem le_of_year? {d n : Nat} {rest more : Text} (positive : 0 < d) (digit : d < 10)
    (read : year? (Nat.digitChar d :: rest) = some (n, more)) : 1000 ≤ n := by
  unfold year? at read
  split at read
  · rename_i c₀ c₁ c₂ c₃ tail same
    obtain ⟨rfl, -⟩ := List.cons_eq_cons.mp same
    obtain ⟨digits, values, rfl, rfl⟩ := Option.map_eq_some_iff.mp read
    unfold digitValues? at values
    simp only [List.mapM_cons, List.mapM_nil, digitValue?_digitChar d digit, Option.bind_eq_bind, Option.bind_eq_some_iff,
      Option.some.injEq, Option.pure_def] at values
    obtain ⟨_, rfl, _, ⟨d₁, -, _, ⟨d₂, -, _, ⟨d₃, -, _, rfl, rfl⟩, rfl⟩, rfl⟩, rfl⟩ := values
    simp only [digitsValue, List.foldl_cons, List.foldl_nil]
    omega
  · cases read

theorem year_of_mem_dates {text : Text} {first : (Nat × Nat × Nat) × Text} (member : first ∈ dates text) :
    ∃ rest, year? text = some (first.1.1, rest) := by
  unfold dates at member
  split at member
  · cases member
  · rename_i y rest found
    obtain ⟨⟨m, after⟩, -, member⟩ := List.mem_flatMap.mp member
    obtain ⟨⟨d, left⟩, -, rfl⟩ := List.mem_map.mp member
    exact ⟨rest, found⟩

/-- The year that is read stands at the start of the text. -/
theorem year_of_read?_text {read : Stamp} (found : read? (text s) = some read) :
    ∃ rest, year? (text s) = some (read.day.year, rest) := by
  rw [read?_text_eq, Option.orElse_eq_orElse, Option.orElse_eq_or, Option.or_eq_some_iff] at found
  rcases found with found | ⟨-, found⟩
  · unfold dateTime? at found
    dsimp only at found
    split at found
    · rename_i y m d h n k _ readings
      rw [(Stamp.day_of_of? found).1]
      have member := readings ▸ List.mem_cons_self
      obtain ⟨⟨date, rest⟩, inside, member⟩ := List.mem_flatMap.mp member
      split at member
      · obtain ⟨time, -, same⟩ := List.mem_map.mp member
        obtain rfl : date = (y, m, d) := congrArg (·.1.1) same
        exact year_of_mem_dates inside
      · cases member
    · cases found
  · unfold date? at found
    split at found
    · rename_i readings
      rw [(Stamp.day_of_of? found).1]
      exact year_of_mem_dates (readings ▸ List.mem_cons_self)
    · cases found

/-- What is read of a written timestamp has a year of four digits, whatever the year that was written. -/
theorem le_year_of_read?_text {read : Stamp} (found : read? (text s) = some read) : 1000 ≤ read.day.year := by
  obtain ⟨more, year⟩ := year_of_read?_text found
  obtain ⟨d, rest, positive, digit, written⟩ := exists_ofNat_eq_cons (show 0 < s.day.year from s.day.year_bounds.1)
  simp only [text, written, List.cons_append] at year
  exact le_of_year? positive digit year

end Compact

end Cadence
