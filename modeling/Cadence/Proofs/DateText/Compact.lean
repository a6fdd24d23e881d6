import Cadence.Proofs.DateText.Digits

/-!
# Dates in rule text as their digits say

A date in rule text is a row of digits, perhaps another one behind its mark, and letters of universal time. The first
four digits are the year; each of the other numbers has one digit or two. In words the same digits are read with two
digits to a number throughout. The two readings of a text agree where each number has its full digits, and on a time of
four digits where the last two are zeros.
-/

namespace Cadence.Compact

open Text

variable {s v field date time rest : Text} {n : Nat} {reading : Nat × Text}

/-! ### Numbers -/

/-- A number of one digit or two. -/
structure IsField (s : Text) : Prop where
  decimals : Decimals s
  length : s.length = 1 ∨ s.length = 2

/-- A number is read at the start of a text, and the rest is left. -/
def Takes (s : Text) (reading : Nat × Text) : Prop :=
  ∃ field, IsField field ∧ s = field ++ reading.2 ∧ value field = reading.1

theorem takes_one {a : Char} (found : digitValue? a = some n) (rest : Text) : Takes (a :: rest) (n, rest) := by
  have decimal : isDecimal a = true := by rw [isDecimal, found]; rfl
  refine ⟨[a], ⟨List.forall_mem_singleton.mpr decimal, .inl rfl⟩, rfl, ?_⟩
  rw [value_singleton, digit, found, Option.getD_some]

theorem takes_two {a b : Char} {m : Nat} (found : digitValue? a = some m) (found' : digitValue? b = some n) (rest : Text) :
    Takes (a :: b :: rest) (10 * m + n, rest) := by
  have decimal : isDecimal a = true := by rw [isDecimal, found]; rfl
  have decimal' : isDecimal b = true := by rw [isDecimal, found']; rfl
  refine ⟨[a, b], ⟨List.forall_mem_cons.mpr ⟨decimal, List.forall_mem_singleton.mpr decimal'⟩, .inr rfl⟩, rfl, ?_⟩
  rw [value_pair, digit, digit, found, found', Option.getD_some, Option.getD_some]

theorem takes_of_pairIn {firsts : List Char} (member : reading ∈ pairIn firsts s) : Takes s reading := by
  unfold pairIn at member
  split at member
  · split at member
    · rename_i found found'
      split at member
      · obtain rfl := List.mem_singleton.mp member
        exact takes_two found found' _
      · cases member
    · cases member
  · cases member

theorem takes_of_plainPair {low high : Nat} (member : reading ∈ plainPair low high s) : Takes s reading := by
  unfold plainPair at member
  split at member
  · split at member
    · rename_i plain
      dsimp only at member
      split at member
      · obtain rfl := List.mem_singleton.mp member
        exact takes_two (digitValue?_plain plain.1 plain.2.1) (digitValue?_plain plain.2.2.1 plain.2.2.2) _
      · cases member
    · cases member
  · cases member

theorem takes_of_single (member : reading ∈ single s) : Takes s reading := by
  unfold single at member
  split at member
  · split at member
    · rename_i found
      obtain rfl := List.mem_singleton.mp member
      exact takes_one found _
    · cases member
  · cases member

theorem takes_of_singlePositive (member : reading ∈ singlePositive s) : Takes s reading := by
  unfold singlePositive at member
  split at member
  · split at member
    · rename_i plain
      obtain rfl := List.mem_singleton.mp member
      have least : '0' ≤ _ := Char.le_trans (show '0' ≤ '1' by decide) plain.1
      exact takes_one (digitValue?_plain least plain.2) _
    · cases member
  · cases member

theorem takes_of_month (member : reading ∈ month s) : Takes s reading := by
  rcases List.mem_append.mp member with member | member
  · exact (List.mem_append.mp member).elim takes_of_plainPair takes_of_plainPair
  · exact takes_of_singlePositive member

theorem takes_of_day (noBlank : NoBlank s) (member : reading ∈ day s) : Takes s reading := by
  rcases List.mem_append.mp member with member | member
  · rcases List.mem_append.mp member with member | member
    · rcases List.mem_append.mp member with member | member
      · exact (List.mem_append.mp member).elim takes_of_plainPair takes_of_pairIn
      · exact takes_of_plainPair member
    · exact takes_of_singlePositive member
  · split at member
    · exact absurd (noBlank ' ' List.mem_cons_self) (by decide)
    · cases member

theorem takes_of_hour (member : reading ∈ hour s) : Takes s reading := by
  rcases List.mem_append.mp member with member | member
  · exact (List.mem_append.mp member).elim takes_of_plainPair takes_of_pairIn
  · exact takes_of_single member

theorem takes_of_minute (member : reading ∈ minute s) : Takes s reading :=
  (List.mem_append.mp member).elim takes_of_pairIn takes_of_single

theorem takes_of_second (member : reading ∈ second s) : Takes s reading := by
  rcases List.mem_append.mp member with member | member
  · exact (List.mem_append.mp member).elim takes_of_plainPair takes_of_pairIn
  · exact takes_of_single member

/-! ### Dates and times -/

/-- The digits of a date: those of the year, the month and the day. -/
structure AreDate (y m d : Text) : Prop where
  year : Decimals y
  four : y.length = 4
  month : IsField m
  day : IsField d

/-- The digits of a time of day: those of the hour, the minute and the second. -/
structure AreTime (h m x : Text) : Prop where
  hour : IsField h
  minute : IsField m
  second : IsField x

theorem AreDate.decimals {y m d : Text} (date : AreDate y m d) : Decimals (y ++ (m ++ d)) :=
  date.year.append (date.month.decimals.append date.day.decimals)

theorem AreTime.isTimeRow {h m x : Text} (time : AreTime h m x) : FreeForm.IsTimeRow (h ++ (m ++ x)) where
  decimals := time.hour.decimals.append (time.minute.decimals.append time.second.decimals)
  length := by
    have := time.hour.length
    have := time.minute.length
    have := time.second.length
    simp only [List.length_append]
    omega

theorem exists_of_year? (found : year? s = some reading) :
    ∃ y, Decimals y ∧ y.length = 4 ∧ s = y ++ reading.2 ∧ value y = reading.1 := by
  unfold year? at found
  split at found
  · rename_i a b c d rest
    obtain ⟨digits, read, rfl⟩ := Option.map_eq_some_iff.mp found
    have decimals := decimals_of_digitValues? read
    rw [decimals.digitValues?_eq] at read
    exact ⟨[a, b, c, d], decimals, rfl, rfl, congrArg digitsValue (Option.some.inj read)⟩
  · cases found

theorem exists_of_dates (noBlank : NoBlank s) {y m d : Nat} (member : ((y, m, d), rest) ∈ dates s) :
    ∃ year month day, AreDate year month day ∧ s = (year ++ (month ++ day)) ++ rest ∧ value year = y ∧ value month = m ∧
      value day = d := by
  unfold dates at member
  split at member
  · cases member
  · rename_i behind found
    obtain ⟨year, decimals, four, rfl, rfl⟩ := exists_of_year? found
    obtain ⟨⟨m, behind'⟩, listed, member⟩ := List.mem_flatMap.mp member
    obtain ⟨⟨d, rest'⟩, listed', same⟩ := List.mem_map.mp member
    obtain ⟨⟨rfl, rfl, rfl⟩, rfl⟩ : ((_ = y ∧ _ = _ ∧ _ = _) ∧ _ = rest) := by simpa using same
    obtain ⟨month, isMonth, split, rfl⟩ := takes_of_month listed
    have clear : NoBlank behind' := fun c inside => noBlank c (by
      rw [split]
      exact List.mem_append_right _ (List.mem_append_right _ inside))
    obtain ⟨day, isDay, rfl, rfl⟩ := takes_of_day clear listed'
    exact ⟨year, month, day, ⟨decimals, four, isMonth, isDay⟩, by rw [split, List.append_assoc, List.append_assoc], rfl, rfl, rfl⟩

theorem exists_of_times {h m x : Nat} (member : ((h, m, x), rest) ∈ times s) :
    ∃ hour minute second, AreTime hour minute second ∧ s = (hour ++ (minute ++ second)) ++ rest ∧ value hour = h ∧
      value minute = m ∧ value second = x := by
  obtain ⟨⟨h', behind⟩, listed, member⟩ := List.mem_flatMap.mp member
  obtain ⟨⟨m', behind'⟩, listed', member⟩ := List.mem_flatMap.mp member
  obtain ⟨⟨x', rest'⟩, listed'', same⟩ := List.mem_map.mp member
  obtain ⟨⟨rfl, rfl, rfl⟩, rfl⟩ : ((_ = h ∧ _ = m ∧ _ = x) ∧ _ = rest) := by simpa using same
  obtain ⟨hour, isHour, rfl, rfl⟩ := takes_of_hour listed
  obtain ⟨minute, isMinute, split, rfl⟩ := takes_of_minute listed'
  obtain ⟨second, isSecond, rfl, rfl⟩ := takes_of_second listed''
  exact ⟨hour, minute, second, ⟨isHour, isMinute, isSecond⟩, by rw [split, List.append_assoc, List.append_assoc], rfl, rfl, rfl⟩

/-! ### Readings -/

theorem exists_of_date? {u : Stamp} (noBlank : NoBlank s) (read : date? s = some u) :
    ∃ year month day, AreDate year month day ∧ s = year ++ (month ++ day) ∧
      Stamp.of? (value year) (value month) (value day) 0 0 0 0 = some u := by
  unfold date? at read
  split at read
  · rename_i y m d more found
    have member : ((y, m, d), []) ∈ dates s := found ▸ List.mem_cons_self
    obtain ⟨year, month, day, areDate, split, rfl, rfl, rfl⟩ := exists_of_dates noBlank member
    exact ⟨year, month, day, areDate, split.trans (List.append_nil _), read⟩
  · cases read

theorem exists_of_dateTime? {u : Stamp} (noBlank : NoBlank s) (read : dateTime? s = some u) :
    ∃ year month day hour minute second, AreDate year month day ∧ AreTime hour minute second ∧
      s = (year ++ (month ++ day)) ++ 'T' :: (hour ++ (minute ++ second)) ∧
      (times (hour ++ (minute ++ second))).head? = some ((value hour, value minute, value second), []) ∧
      Stamp.of? (value year) (value month) (value day) (value hour) (value minute) (value second) 0 = some u := by
  unfold dateTime? at read
  dsimp only at read
  split at read
  · rename_i y m d h n x more found
    have first := (List.head?_flatMap).symm.trans (congrArg List.head? found)
    obtain ⟨⟨⟨y', m', d'⟩, behind⟩, listed, first⟩ := List.exists_of_findSome?_eq_some first
    obtain ⟨year, month, day, areDate, split, rfl, rfl, rfl⟩ := exists_of_dates noBlank listed
    dsimp only at first
    split at first
    · rename_i time
      rw [List.head?_map] at first
      obtain ⟨⟨⟨h', n', x'⟩, rest⟩, first, same⟩ := Option.map_eq_some_iff.mp first
      obtain ⟨⟨⟨rfl, rfl, rfl⟩, rfl, rfl, rfl⟩, rfl⟩ : (((_ = y ∧ _ = m ∧ _ = d) ∧ _ = h ∧ _ = n ∧ _ = x) ∧ _ = []) := by
        simpa using same
      obtain ⟨hour, minute, second, areTime, written, rfl, rfl, rfl⟩ := exists_of_times (List.mem_of_head? first)
      rw [List.append_nil] at written
      subst written
      exact ⟨year, month, day, hour, minute, second, areDate, areTime, split, first, read⟩
    · cases first
  · cases read

/-- What a time of day is first read as, midnight if there is none. -/
inductive ReadsTime : Option Text → Nat → Nat → Nat → Prop
  | none : ReadsTime none 0 0 0
  | some {h m x : Text} (areTime : AreTime h m x)
      (first : (times (h ++ (m ++ x))).head? = some ((value h, value m, value x), [])) :
      ReadsTime (some (h ++ (m ++ x))) (value h) (value m) (value x)

theorem ReadsTime.isTimeRow {time : Option Text} {hour minute second : Nat} (reads : ReadsTime time hour minute second) :
    ∀ t ∈ time, FreeForm.IsTimeRow t := by
  cases reads with
  | none => exact nofun
  | some areTime => exact fun t same => Option.some.inj same ▸ areTime.isTimeRow

/-- What is read as a date in rule text is a row of digits, perhaps with a time of day behind its mark. -/
theorem exists_of_read? {u : Stamp} (noBlank : NoBlank v) (upper : Upper v) (read : read? v = some u) :
    ∃ y m d time k hour minute second, AreDate y m d ∧ v = FreeForm.rowsText (y ++ (m ++ d)) time k ∧
      ReadsTime time hour minute second ∧ Stamp.of? (value y) (value m) (value d) hour minute second 0 = some u := by
  obtain ⟨k, written⟩ := exists_dropTrailing 'Z' v
  have clear : NoBlank (dropTrailing 'Z' v) := fun c member => noBlank c (by
    rw [written]
    exact List.mem_append_left _ member)
  rw [read?, noBlank.trim_eq, upper.upper_eq, Option.orElse_eq_orElse, Option.orElse_eq_or, Option.or_eq_some_iff] at read
  rcases read with read | ⟨-, read⟩
  · obtain ⟨y, m, d, h, i, x, areDate, areTime, split, first, made⟩ := exists_of_dateTime? clear read
    rw [split, List.append_assoc, List.cons_append] at written
    exact ⟨y, m, d, some (h ++ (i ++ x)), k, _, _, _, areDate, written, .some areTime first, made⟩
  · obtain ⟨y, m, d, areDate, split, made⟩ := exists_of_date? clear read
    rw [split] at written
    exact ⟨y, m, d, none, k, 0, 0, 0, areDate, written, .none, made⟩

/-! ### Times of four digits -/

/-- The hour at the start of a text is first read with two digits. -/
def opensWithPair (time : Text) : Bool := (hour time).head? = some (value (time.take 2), time.drop 2)

theorem pairIn_of_decimals {a b : Char} (decimal : isDecimal a = true) (decimal' : isDecimal b = true) (firsts : List Char) :
    pairIn firsts (a :: b :: rest) = if firsts.contains a then [(value [a, b], rest)] else [] := by
  rw [pairIn, digitValue?_eq_some decimal, digitValue?_eq_some decimal', value_pair]

theorem single_of_decimal {a : Char} (decimal : isDecimal a = true) : single (a :: rest) = [(value [a], rest)] := by
  rw [single, digitValue?_eq_some decimal, value_singleton]

/-- An hour that is read with two digits leaves a digit each for the minute and the second of a time of four. -/
theorem times_of_opensWithPair {a b c d : Char} (decimals : Decimals [a, b, c, d]) (opens : opensWithPair [a, b, c, d] = true) :
    (times [a, b, c, d]).head? = some ((value [a, b], value [c], value [d]), []) := by
  simp only [Decimals, List.forall_mem_cons] at decimals
  obtain ⟨-, -, hc, hd, -⟩ := decimals
  have seconds : second [d] = [(value [d], [])] := by
    rw [second, single_of_decimal hd]
    rfl
  have none : second [] = [] := rfl
  obtain ⟨more, first⟩ := List.head?_eq_some_iff.mp (of_decide_eq_true opens)
  rw [times, first, List.flatMap_cons]
  simp only [List.drop_succ_cons, List.drop_zero, List.take_succ_cons, List.take_zero, minute, pairIn_of_decimals hc hd, single_of_decimal hc]
  split <;> simp [seconds, none]

theorem plainPair_cases (low high : Nat) (a b : Char) (rest : Text) :
    plainPair low high (a :: b :: rest) = [] ∨ plainPair low high (a :: b :: rest) = [(value [a, b], rest)] := by
  rw [plainPair]
  split
  · rename_i plain
    have first : digit a = a.toNat - 48 := by rw [digit, digitValue?_plain plain.1 plain.2.1, Option.getD_some]
    have second : digit b = b.toNat - 48 := by rw [digit, digitValue?_plain plain.2.2.1 plain.2.2.2, Option.getD_some]
    rw [value_pair, first, second]
    dsimp only
    split
    · exact .inr rfl
    · exact .inl rfl
  · exact .inl rfl

/-- An hour that is not read with two digits is the first digit. -/
theorem hour_of_times {a b c d : Char} (decimals : Decimals [a, b, c, d]) (opens : opensWithPair [a, b, c, d] = false)
    {h m x : Nat} (member : ((h, m, x), rest) ∈ times [a, b, c, d]) : h = value [a] := by
  simp only [Decimals, List.forall_mem_cons] at decimals
  obtain ⟨ha, hb, -⟩ := decimals
  have closed : (hour [a, b, c, d]).head? ≠ some (value [a, b], [c, d]) := of_decide_eq_false opens
  have one : hour [a, b, c, d] = [(value [a], [b, c, d])] := by
    rw [hour, pairIn_of_decimals ha hb, single_of_decimal ha] at closed ⊢
    rcases plainPair_cases 20 23 a b [c, d] with none | two
    · rw [none] at closed ⊢
      split at closed
      · exact absurd rfl closed
      · rename_i other
        rw [if_neg other]
        rfl
    · rw [two] at closed
      exact absurd rfl closed
  obtain ⟨⟨h', behind⟩, listed, member⟩ := List.mem_flatMap.mp member
  obtain ⟨⟨m', behind'⟩, -, member⟩ := List.mem_flatMap.mp member
  obtain ⟨⟨x', rest'⟩, -, same⟩ := List.mem_map.mp member
  rw [one] at listed
  obtain rfl : h' = h := congrArg (·.1.1) same
  exact congrArg Prod.fst (List.mem_singleton.mp listed)

/-! ### Full digits -/

/-- A time of day has six digits, or four of which the last two are zeros and the first two are read as the hour. -/
def hasFullTime (time : Text) : Bool :=
  time.length = 6 ||
    (time.length = 4 && value (time.drop 2) = 0 && (opensWithPair time || value (time.take 2) = 0))

/-- A date has eight digits, and the time of day behind it is written in full. -/
def hasFullDigits (v : Text) : Bool :=
  let s := dropTrailing 'Z' v
  match cut? 'T' s with
  | none => s.length = 8
  | some (date, time) => date.length = 8 && hasFullTime time

theorem hasFullDigits_rowsText (decimals : Decimals date) {time : Option Text} (rows : ∀ t ∈ time, FreeForm.IsTimeRow t) (k : Nat) :
    hasFullDigits (FreeForm.rowsText date time k) = true ↔ date.length = 8 ∧ ∀ t ∈ time, hasFullTime t = true := by
  have noMark : 'T' ∉ date := decimals.not_mem (by decide)
  have noZone : 'Z' ∉ date := decimals.not_mem (by decide)
  cases time with
  | none =>
    rw [FreeForm.rowsText, hasFullDigits, dropTrailing_append_replicate noZone, cut?_of_not_mem noMark]
    simp
  | some time =>
    have noZone' : 'Z' ∉ date ++ 'T' :: time := by
      rw [List.mem_append, List.mem_cons]
      rintro (member | mark | member)
      · exact noZone member
      · cases mark
      · exact (rows time rfl).decimals.not_mem (by decide) member
    have whole : FreeForm.rowsText date (some time) k = (date ++ 'T' :: time) ++ List.replicate k 'Z' := by
      rw [FreeForm.rowsText, List.append_assoc, List.cons_append]
    rw [whole, hasFullDigits, dropTrailing_append_replicate noZone', cut?_append noMark]
    simp

/-! ### Both readings -/

section Both
variable {u last : Stamp} {today : Day} {currentYear k hour minute second : Nat} {y m d h i x t : Text}

theorem eq_iff_of_of? {year month day hour minute second hour' minute' second' : Nat}
    (made : Stamp.of? year month day hour minute second 0 = some u)
    (made' : Stamp.of? year month day hour' minute' second' 0 = some last) :
    last = u ↔ hour' = hour ∧ minute' = minute ∧ second' = second := by
  constructor
  · rintro rfl
    have clock := Stamp.clock_of_of? made
    have clock' := Stamp.clock_of_of? made'
    omega
  · rintro ⟨rfl, rfl, rfl⟩
    exact Option.some.inj (made'.symm.trans made)

theorem AreDate.take_four (areDate : AreDate y m d) : (y ++ (m ++ d)).take 4 = y := List.take_left' areDate.four

theorem AreDate.drop_four (areDate : AreDate y m d) : (y ++ (m ++ d)).drop 4 = m ++ d := List.drop_left' areDate.four

theorem AreDate.length_eq (areDate : AreDate y m d) : (y ++ (m ++ d)).length = 4 + m.length + d.length := by
  rw [List.length_append, List.length_append, areDate.four, Nat.add_assoc]

/-- A date of seven digits is read as a year of seven digits. -/
theorem ne_of_seven (areDate : AreDate y m d) (seven : (y ++ (m ++ d)).length = 7) {time : Option Text}
    (rows : ∀ t ∈ time, FreeForm.IsTimeRow t) (year : u.day.year = value y)
    (reads : FreeForm.readLocal currentYear (.ofDay today) (FreeForm.rowsText (y ++ (m ++ d)) time k) = .ok last) : last ≠ u := by
  rintro rfl
  have whole : value (y ++ (m ++ d)) = value y * 1000 + value (m ++ d) := by
    have length := areDate.length_eq
    rw [value_append, show (m ++ d).length = 3 by rw [List.length_append]; omega]
    rfl
  have positive := last.day.year_bounds
  have same := FreeForm.readLocal_seven areDate.decimals rows seven (by omega) reads
  omega

theorem fullYear_short (currentYear : Nat) {n : Nat} (short : n < 100) :
    FreeForm.fullYear currentYear n false = 0 ∨ FreeForm.fullYear currentYear n false % 100 = n := by
  unfold FreeForm.fullYear
  dsimp only
  split
  · omega
  · split
    · omega
    · split <;> omega

/-- A date of six digits is read as three numbers of two digits. -/
theorem ne_of_six (areDate : AreDate y m d) (six : (y ++ (m ++ d)).length = 6) {time : Option Text}
    (rows : ∀ t ∈ time, FreeForm.IsTimeRow t) (onDay : u.day.year = value y ∧ u.day.month = value m ∧ u.day.day = value d)
    (reads : FreeForm.readLocal currentYear (.ofDay today) (FreeForm.rowsText (y ++ (m ++ d)) time k) = .ok last) : last ≠ u := by
  rintro rfl
  have length := areDate.length_eq
  have one : m.length = 1 ∧ d.length = 1 := by
    have := areDate.month.length
    have := areDate.day.length
    omega
  have positive := last.day.year_bounds
  have months := last.day.month_bounds
  have dayDigit := value_lt d
  have monthDigit := value_lt m
  have lastPair : value (m ++ d) = value m * 10 + value d := by rw [value_append, one.2, Nat.pow_one]
  have yearPairs : value y = value (y.take 2) * 100 + value (y.drop 2) := by
    rw [← List.take_append_drop 2 y, value_append, List.take_append_drop, List.length_drop, areDate.four]
    rfl
  have secondPair := value_lt (y.drop 2)
  have short := fullYear_short currentYear (n := value (m ++ d))
  rw [one.2] at dayDigit
  rw [one.1] at monthDigit
  rw [List.length_drop, areDate.four] at secondPair
  have first : (y ++ (m ++ d)).take 2 = y.take 2 := List.take_append_of_le_length (by rw [areDate.four]; decide)
  have second : ((y ++ (m ++ d)).drop 2).take 2 = y.drop 2 := by
    rw [List.drop_append_of_le_length (by rw [areDate.four]; decide), List.take_left' (by rw [List.length_drop, areDate.four])]
  have read := FreeForm.readLocal_six areDate.decimals rows six reads
  rw [areDate.drop_four, first, second] at read
  omega

theorem IsField.cases (isField : IsField s) : (∃ a, s = [a]) ∨ ∃ a b, s = [a, b] := by
  match s, isField.length with
  | [a], _ => exact .inl ⟨a, rfl⟩
  | [a, b], _ => exact .inr ⟨a, b, rfl⟩

/-- The digits of a time of four are two of one number and one each of the two others. -/
theorem AreTime.cases {a b c e : Char} (areTime : AreTime h i x) (digits : h ++ (i ++ x) = [a, b, c, e]) :
    (h = [a, b] ∧ i = [c] ∧ x = [e]) ∨ (h = [a] ∧ i = [b, c] ∧ x = [e]) ∨ (h = [a] ∧ i = [b] ∧ x = [c, e]) := by
  rcases areTime.hour.cases with ⟨a', rfl⟩ | ⟨a', b', rfl⟩ <;> rcases areTime.minute.cases with ⟨c', rfl⟩ | ⟨c', e', rfl⟩ <;>
    rcases areTime.second.cases with ⟨p, rfl⟩ | ⟨p, q, rfl⟩ <;> simp_all

/-- On a time of four digits the readings agree where it is written in full. -/
theorem eq_iff_of_four (areTime : AreTime h i x) (row : t = h ++ (i ++ x)) (four : t.length = 4)
    (first : (times t).head? = some ((value h, value i, value x), [])) :
    (value (t.take 2) = value h ∧ value (t.drop 2) = value i ∧ 0 = value x) ↔ hasFullTime t = true := by
  obtain ⟨a, b, c, e, digits⟩ : ∃ a b c e, t = [a, b, c, e] := by
    match t, four with
    | [a, b, c, e], _ => exact ⟨a, b, c, e, rfl⟩
  have decimals : Decimals t := row ▸ areTime.isTimeRow.decimals
  have full : hasFullTime t = true ↔ value (t.drop 2) = 0 ∧ (opensWithPair t = true ∨ value (t.take 2) = 0) := by
    simp [hasFullTime, four]
  rw [full]
  subst digits
  simp only [List.take_succ_cons, List.take_zero, List.drop_succ_cons, List.drop_zero]
  cases opens : opensWithPair [a, b, c, e] with
  | true =>
    rw [times_of_opensWithPair decimals opens] at first
    obtain ⟨hour, minute, second⟩ : value [a, b] = value h ∧ value [c] = value i ∧ value [e] = value x := by
      simpa using first
    rw [← hour, ← minute, ← second, value_pair c e, value_singleton, value_singleton]
    simp
    omega
  | false =>
    have hour := hour_of_times decimals opens (List.mem_of_head? first)
    rw [value_pair a b, value_pair c e]
    rcases areTime.cases row.symm with ⟨rfl, rfl, rfl⟩ | ⟨rfl, rfl, rfl⟩ | ⟨rfl, rfl, rfl⟩ <;>
      simp only [value_pair, value_singleton, Bool.false_eq_true, false_or, true_and] at hour ⊢ <;> omega

/-- On a time of six digits the readings agree. -/
theorem eq_of_six (areTime : AreTime h i x) (row : t = h ++ (i ++ x)) (six : t.length = 6) :
    value (t.take 2) = value h ∧ value ((t.drop 2).take 2) = value i ∧ value (t.drop 4) = value x := by
  have lengths : h.length = 2 ∧ i.length = 2 := by
    have := areTime.hour.length
    have := areTime.minute.length
    have := areTime.second.length
    rw [row, List.length_append, List.length_append] at six
    omega
  have behind : t.drop 2 = i ++ x := row ▸ List.drop_left' lengths.1
  refine ⟨?_, ?_, ?_⟩
  · rw [row, List.take_left' lengths.1]
  · rw [behind, List.take_left' lengths.2]
  · rw [show (4 : Nat) = 2 + 2 from rfl, ← List.drop_drop, behind, List.drop_left' lengths.2]

/-- The date of a row of eight digits is read alike. -/
theorem value_of_eight (areDate : AreDate y m d) (eight : (y ++ (m ++ d)).length = 8) :
    value ((y ++ (m ++ d)).take 4) = value y ∧ value (((y ++ (m ++ d)).drop 4).take 2) = value m ∧
      value ((y ++ (m ++ d)).drop 6 |>.take 2) = value d := by
  have lengths : m.length = 2 ∧ d.length = 2 := by
    have := areDate.length_eq
    have := areDate.month.length
    have := areDate.day.length
    omega
  refine ⟨?_, ?_, ?_⟩
  · rw [areDate.take_four]
  · rw [areDate.drop_four, List.take_left' lengths.1]
  · rw [show (6 : Nat) = 4 + 2 from rfl, ← List.drop_drop, areDate.drop_four, List.drop_left' lengths.1,
      List.take_of_length_le (Nat.le_of_eq lengths.2)]

/-- A date and time are read alike in rule text and in words where each number has its full digits. -/
theorem eq_iff_hasFullDigits (noBlank : NoBlank v) (upper : Upper v) (read : read? v = some u)
    (reads : FreeForm.readLocal currentYear (.ofDay today) v = .ok last) : last = u ↔ hasFullDigits v = true := by
  obtain ⟨y, m, d, time, k, hour, minute, second, areDate, rfl, readsTime, made⟩ := exists_of_read? noBlank upper read
  have rows := readsTime.isTimeRow
  have onDay := Stamp.day_of_of? made
  have length := areDate.length_eq
  rw [hasFullDigits_rowsText areDate.decimals rows]
  have lengths : (y ++ (m ++ d)).length = 6 ∨ (y ++ (m ++ d)).length = 7 ∨ (y ++ (m ++ d)).length = 8 := by
    have := areDate.month.length
    have := areDate.day.length
    omega
  rcases lengths with six | seven | eight
  · exact iff_of_false (ne_of_six areDate six rows onDay reads) (by omega)
  · exact iff_of_false (ne_of_seven areDate seven rows onDay.1 reads) (by omega)
  · obtain ⟨hour', minute', second', made', timed⟩ := FreeForm.readLocal_eight areDate.decimals rows eight reads
    obtain ⟨onYear, onMonth, onDay⟩ := value_of_eight areDate eight
    rw [onYear, onMonth, onDay] at made'
    rw [eq_iff_of_of? made made', and_iff_right eight]
    cases readsTime with
    | none =>
      obtain ⟨-, rfl, rfl, rfl⟩ | ⟨t, same, -⟩ | ⟨t, same, -⟩ := timed
      · simp
      · cases same
      · cases same
    | @some h i x areTime first =>
      obtain ⟨same, -⟩ | ⟨t, same, six, rfl, rfl, rfl⟩ | ⟨t, same, four, rfl, rfl, rfl⟩ := timed
      · cases same
      · obtain rfl := Option.some.inj same
        have full : hasFullTime (h ++ (i ++ x)) = true := by simp [hasFullTime, six]
        exact iff_of_true (eq_of_six areTime rfl six) fun t same => Option.some.inj same ▸ full
      · obtain rfl := Option.some.inj same
        rw [eq_iff_of_four areTime rfl four first]
        simp

end Both

end Cadence.Compact
