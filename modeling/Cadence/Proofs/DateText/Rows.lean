import Cadence.DateText.FreeForm
import Cadence.Proofs.Text.Decimals

/-!
# Rows of digits among words

A row of digits in any script, a letter and another row, with letters of universal time behind them, are tokens each.
At the beginning of a date in words a row of eight digits is year, month and day, and one of six digits three numbers
of two digits. Behind the letter a row of six digits is a time of day, and so is one of four behind a full date.
-/

namespace Cadence

open Text

variable {date time run rest : Text} {k : Nat}

/-! ### Tokens -/

namespace DateToken

/-- The token of `k` letters of universal time, if there are any. -/
def zones (k : Nat) : List Text := if k = 0 then [] else [List.replicate k 'Z']

theorem readRun_decimals (decimals : Decimals run) (read : Text) (stops : ∀ c ∈ rest.head?, c = 'T' ∨ c = 'Z') :
    readRun { run := .digits, backwards := read } (run ++ rest) =
      ({ run := .digits, backwards := run.reverse ++ read }, rest) := by
  induction run generalizing read with
  | nil =>
    cases rest with
    | nil => rfl
    | cons c rest => obtain rfl | rfl := stops c rfl <;> rfl
  | cons d run ih =>
    have digit : isDigit d = true := by simp [isDigit, decimals d List.mem_cons_self]
    rw [List.cons_append, readRun]
    simp only [Run.extend?, digit, if_true]
    rw [List.reverse_cons, List.append_assoc]
    exact ih (fun c member => decimals c (List.mem_cons_of_mem d member)) (d :: read)

theorem tokensFrom_decimals (decimals : Decimals run) (some : run ≠ []) (fuel : Nat)
    (stops : ∀ c ∈ rest.head?, c = 'T' ∨ c = 'Z') :
    tokensFrom (fuel + 1) (run ++ rest) = run :: tokensFrom fuel rest := by
  obtain ⟨d, run, rfl⟩ := List.exists_cons_of_ne_nil some
  have decimal := decimals d List.mem_cons_self
  have digit : isDigit d = true := by simp [isDigit, decimal]
  rw [List.cons_append, tokensFrom, isLetter_of_isDecimal decimal, digit]
  simp only [Bool.false_eq_true, if_false, if_true]
  rw [readRun_decimals (fun c member => decimals c (List.mem_cons_of_mem d member)) _ stops]
  simp [Reading.tokens]

theorem tokensFrom_mark (decimals : Decimals run) (some : run ≠ []) (fuel : Nat) :
    tokensFrom (fuel + 1) ('T' :: (run ++ rest)) = ['T'] :: tokensFrom fuel (run ++ rest) := by
  obtain ⟨d, run, rfl⟩ := List.exists_cons_of_ne_nil some
  have decimal := decimals d List.mem_cons_self
  have point : d ≠ '.' := by
    rintro rfl
    cases decimal
  rw [tokensFrom, show isLetter 'T' = true from by decide, if_pos rfl, List.cons_append, readRun]
  simp only [Run.extend?, isLetter_of_isDecimal decimal, point, Bool.false_eq_true, if_false]
  rfl

theorem tokensFrom_nil (fuel : Nat) : tokensFrom fuel [] = [] := by cases fuel <;> rfl

theorem exists_readRun_zone (k : Nat) (read : Text) (lettered : Bool) : ∃ lettered',
    readRun { run := .letters, backwards := read, lettered } (List.replicate k 'Z') =
      ({ run := .letters, backwards := List.replicate k 'Z' ++ read, lettered := lettered' }, []) := by
  induction k generalizing read lettered with
  | zero => exact ⟨lettered, rfl⟩
  | succ k ih =>
    obtain ⟨lettered', reads⟩ := ih ('Z' :: read) true
    refine ⟨lettered', ?_⟩
    rw [List.replicate_succ, readRun]
    simp only [Run.extend?, show isLetter 'Z' = true from by decide, if_true, Reading.seen, decide_true, Bool.or_true, Bool.true_or]
    rw [reads, ← List.replicate_succ, List.replicate_succ', List.append_assoc]
    rfl

theorem tokensFrom_zone (k fuel : Nat) (enough : k ≤ fuel) : tokensFrom fuel (List.replicate k 'Z') = zones k := by
  cases k with
  | zero => exact tokensFrom_nil fuel
  | succ k =>
    obtain ⟨fuel, rfl⟩ := Nat.exists_eq_add_of_le' enough
    obtain ⟨lettered, reads⟩ := exists_readRun_zone k ['Z'] false
    have token : (List.replicate k 'Z' ++ ['Z']).reverse = List.replicate (k + 1) 'Z' := by
      rw [← List.replicate_succ', List.reverse_replicate]
    rw [List.replicate_succ, ← Nat.add_assoc, tokensFrom, show isLetter 'Z' = true from by decide, if_pos rfl, reads]
    simp [Reading.tokens, token, zones, tokensFrom_nil]

/-- Digits and letters hold no null character. -/
theorem filter_decimals (decimals : Decimals run) (rest : Text) :
    (run ++ rest).filter (·.toNat ≠ 0) = run ++ rest.filter (·.toNat ≠ 0) := by
  rw [List.filter_append]
  congr 1
  rw [List.filter_eq_self]
  intro c member
  have notNull : c ≠ Char.ofNat 0 := by
    rintro rfl
    cases decimals _ member
  refine decide_eq_true fun zero => notNull ?_
  exact Char.toNat_inj.mp zero

theorem filter_zone (k : Nat) : (List.replicate k 'Z').filter (·.toNat ≠ 0) = List.replicate k 'Z' :=
  List.filter_replicate_of_pos (by decide)

theorem head?_zone (k : Nat) : ∀ c ∈ (List.replicate k 'Z').head?, c = 'T' ∨ c = 'Z' := by
  intro c first
  exact .inr (List.eq_of_mem_replicate (List.mem_of_mem_head? first))

/-- The tokens of a row of digits with letters of universal time behind it. -/
theorem tokens_date (decimals : Decimals date) (some : date ≠ []) (k : Nat) :
    tokens (date ++ List.replicate k 'Z') = date :: zones k := by
  obtain ⟨count, length⟩ : ∃ count, date.length = count + 1 :=
    Nat.exists_eq_succ_of_ne_zero fun none => some (List.length_eq_zero_iff.mp none)
  have fuel : (date ++ List.replicate k 'Z').length = (count + k) + 1 := by
    rw [List.length_append, List.length_replicate, length]
    omega
  rw [tokens, filter_decimals decimals, filter_zone, fuel, tokensFrom_decimals decimals some _ (head?_zone k),
    tokensFrom_zone k _ (Nat.le_add_left k count)]

/-- The tokens of two rows of digits with the letter between them and letters of universal time behind. -/
theorem tokens_dateTime (decimals : Decimals date) (some : date ≠ []) (decimals' : Decimals time) (some' : time ≠ [])
    (k : Nat) : tokens (date ++ 'T' :: (time ++ List.replicate k 'Z')) = date :: ['T'] :: time :: zones k := by
  obtain ⟨count, length⟩ : ∃ count, date.length = count + 1 :=
    Nat.exists_eq_succ_of_ne_zero fun none => some (List.length_eq_zero_iff.mp none)
  obtain ⟨count', length'⟩ : ∃ count, time.length = count + 1 :=
    Nat.exists_eq_succ_of_ne_zero fun none => some' (List.length_eq_zero_iff.mp none)
  have clear : (date ++ 'T' :: (time ++ List.replicate k 'Z')).filter (·.toNat ≠ 0) =
      date ++ 'T' :: (time ++ List.replicate k 'Z') := by
    rw [filter_decimals decimals, List.filter_cons_of_pos (by decide), filter_decimals decimals', filter_zone]
  have fuel : (date ++ 'T' :: (time ++ List.replicate k 'Z')).length = (count + count' + k) + 3 := by
    simp only [List.length_append, List.length_cons, List.length_replicate, length, length']
    omega
  have mark : ∀ c ∈ ('T' :: (time ++ List.replicate k 'Z')).head?, c = 'T' ∨ c = 'Z' := by simp
  rw [tokens, clear, fuel, tokensFrom_decimals decimals some _ mark, tokensFrom_mark decimals' some',
    tokensFrom_decimals decimals' some' _ (head?_zone k), tokensFrom_zone k _ (Nat.le_add_left k _)]

theorem tokens_moment (decimals : Decimals date) (some : date ≠ []) (decimals' : Decimals time) (some' : time ≠ []) :
    tokens (date ++ 'T' :: time) = [date, ['T'], time] := by
  have cut := tokens_dateTime decimals some decimals' some' 0
  rwa [List.replicate_zero, List.append_nil] at cut

end DateToken
/-! ### Words -/

namespace FreeForm

open DateToken

variable {f g : Fields} {x : Decimal} {back next : List Text} {currentYear fuel used : Nat}

theorem ofToken?_decimals (decimals : Decimals run) (some : run ≠ []) : Decimal.ofToken? run = .some ⟨value run, 0⟩ := by
  simp [Decimal.ofToken?, cut?_of_not_mem (decimals.not_mem (c := '.') (by decide)), decimals.digitValues?_eq, some, value]

theorem small_of_isDecimal {c : Char} (decimal : isDecimal c = true) : small c = c := by
  have other := isPlainLetter_of_isDecimal decimal
  simp only [isPlainLetter, Bool.or_eq_false_iff, Bool.and_eq_false_iff, decide_eq_false_iff_not] at other
  exact if_neg fun capital => other.2.elim (absurd capital.1) (absurd capital.2)

theorem isNoNumber_decimals (decimals : Decimals run) (some : run ≠ []) : isNoNumber run = false := by
  obtain ⟨d, run, rfl⟩ := List.exists_cons_of_ne_nil some
  have decimal := decimals d List.mem_cons_self
  have notN : d ≠ 'n' := by
    rintro rfl
    cases decimal
  have notI : d ≠ 'i' := by
    rintro rfl
    cases decimal
  simp [isNoNumber, lower, small_of_isDecimal decimal, notN, notI]

theorem weekday?_decimals (decimals : Decimals run) (some : run ≠ []) : weekday? run = none := by
  obtain ⟨d, run, rfl⟩ := List.exists_cons_of_ne_nil some
  have decimal := decimals d List.mem_cons_self
  have head : (lower (d :: run)).head? = .some d := congrArg Option.some (small_of_isDecimal decimal)
  have initials : (Weekday.all.all fun day => (lower day.name).head?.any isPlainLetter) = true := by decide
  have other (day : Weekday) (listed : day ∈ Weekday.all) : (lower day.name).head? ≠ .some d := by
    intro first
    have letter : (lower day.name).head?.any isPlainLetter = true := List.all_eq_true.mp initials day listed
    rw [first, Option.any_some, isPlainLetter_of_isDecimal decimal] at letter
    cases letter
  refine List.find?_eq_none.mpr fun day listed same => other day listed ?_
  rw [Bool.or_eq_true, decide_eq_true_eq, decide_eq_true_eq] at same
  rcases same with same | same
  · rw [← same, head]
  · rw [same, List.head?_take, if_neg (by decide)] at head
    exact head

theorem afternoon?_decimals (decimals : Decimals run) (some : run ≠ []) : afternoon? run = none := by
  obtain ⟨d, run, rfl⟩ := List.exists_cons_of_ne_nil some
  have decimal := decimals d List.mem_cons_self
  have notA : d ≠ 'a' := by
    rintro rfl
    cases decimal
  have notP : d ≠ 'p' := by
    rintro rfl
    cases decimal
  simp [afternoon?, lower, small_of_isDecimal decimal, notA, notP]

/-- No word begins as letters of universal time do. -/
theorem zone_words (k : Nat) :
    isNoNumber (List.replicate (k + 1) 'Z') = false ∧ Decimal.ofToken? (List.replicate (k + 1) 'Z') = none ∧
      weekday? (List.replicate (k + 1) 'Z') = none ∧ month? (List.replicate (k + 1) 'Z') = none ∧
      afternoon? (List.replicate (k + 1) 'Z') = none ∧ unit? (List.replicate (k + 1) 'Z') = none ∧
      isFiller (List.replicate (k + 1) 'Z') = false := by
  have first : lower (List.replicate (k + 1) 'Z') = 'z' :: lower (List.replicate k 'Z') := rfl
  have head : (lower (List.replicate (k + 1) 'Z')).head? = some 'z' := rfl
  refine ⟨?_, ?_, ?_, ?_, ?_, ?_, ?_⟩
  · simp [isNoNumber, first]
  · have noPoint : '.' ∉ List.replicate (k + 1) 'Z' := fun member => by
      have := List.eq_of_mem_replicate member
      simp at this
    rw [Decimal.ofToken?, cut?_of_not_mem noPoint]
    rfl
  · have initials : ∀ day ∈ Weekday.all, (lower day.name).head? ≠ some 'z' := by decide
    refine List.find?_eq_none.mpr fun day listed same => initials day listed ?_
    rw [Bool.or_eq_true, decide_eq_true_eq, decide_eq_true_eq] at same
    rcases same with same | same
    · rw [← same, head]
    · rw [same, List.head?_take, if_neg (by decide)] at head
      exact head
  · have initials : ∀ month ∈ (List.range 12).map (· + 1),
        (lower (monthName month)).head? ≠ some 'z' ∧ (lower (monthAbbreviation month)).head? ≠ some 'z' := by decide
    have notSept : lower (List.replicate (k + 1) 'Z') ≠ "sept".toList := by simp [first]
    rw [month?, if_neg notSept]
    refine List.find?_eq_none.mpr fun month listed same => ?_
    rw [Bool.or_eq_true, decide_eq_true_eq, decide_eq_true_eq] at same
    rcases same with same | same
    · exact (initials month listed).1 (same ▸ head)
    · exact (initials month listed).2 (same ▸ head)
  · simp [afternoon?, first]
  · simp [unit?, first]
  · simp [isFiller, fillers, first]

/-! ### Numbers -/

theorem readNat?_part (decimals : Decimals run) (first size : Nat) (inside : first < run.length) (some : 0 < size) (few : size ≤ 4) :
    readNat? ((run.drop first).take size) = .some (value ((run.drop first).take size)) := by
  have sub : (run.drop first).take size ⊆ run := ((List.take_sublist _ _).trans (List.drop_sublist _ _)).subset
  have length : ((run.drop first).take size).length = min size (run.length - first) := by simp
  refine (decimals.of_subset sub).readNat?_eq (List.ne_nil_of_length_pos (by omega)) ?_
  unfold maxDigits
  omega

/-- The numbers of a row of eight digits: year, month and day. -/
def fullNumbers (date : Text) : DateNumbers where
  values := [value (date.take 4), value ((date.drop 4).take 2), value ((date.drop 6).take 2)]
  yearAt := some 0
  century := true

/-- The numbers of a row of six digits, two digits each. -/
def shortNumbers (date : Text) : DateNumbers where
  values := [value (date.take 2), value ((date.drop 2).take 2), value (date.drop 4)]

theorem opensTime_of_length (few : f.numbers.values.length ≠ 3) (token : Text) : opensTime f token next = false := by
  simp [opensTime, few]

/-- A row of eight digits at the beginning is year, month and day. -/
theorem number_eight (decimals : Decimals date) (eight : date.length = 8) (x : Decimal) (back next : List Text) :
    number {} date x back next = .ok (0, { numbers := fullNumbers date }) := by
  have opens : opensTime {} date next = false := opensTime_of_length (by decide) date
  have point : date[6]? ≠ some '.' := fun found => decimals.not_mem (by decide) (List.mem_of_getElem? found)
  have year := readNat?_part decimals 0 4 (by omega) (by decide) (by decide)
  have month := readNat?_part decimals 4 2 (by omega) (by decide) (by decide)
  have day := readNat?_part decimals 6 2 (by omega) (by decide) (by decide)
  have long : longDigits? {} date = some { numbers := fullNumbers date } := by
    rw [List.drop_zero] at year
    simp [longDigits?, DateNumbers.pushYearText?, DateNumbers.pushText?, year, month, day, eight, DateNumbers.pushYear?,
      DateNumbers.push, fullNumbers]
  simp only [number, opens, eight, point, long, Bool.false_eq_true, if_false, false_and, and_false, or_false, if_true, true_or,
    show (8 : Nat) ≠ 6 from by decide, known]
  rfl

/-- A row of six digits at the beginning is three numbers. -/
theorem number_six (decimals : Decimals date) (six : date.length = 6) (x : Decimal) (back next : List Text) :
    number {} date x back next = .ok (0, { numbers := shortNumbers date }) := by
  have opens : opensTime {} date next = false := opensTime_of_length (by decide) date
  have first := readNat?_part decimals 0 2 (by omega) (by decide) (by decide)
  have second := readNat?_part decimals 2 2 (by omega) (by decide) (by decide)
  have third := readNat?_part decimals 4 2 (by omega) (by decide) (by decide)
  have short : sixDigits? {} date = some { numbers := shortNumbers date } := by
    have noPoint : '.' ∉ date := decimals.not_mem (by decide)
    rw [List.drop_zero] at first
    rw [List.take_of_length_le (by simp [six])] at third
    simp [sixDigits?, DateNumbers.pushText?, first, second, third, six, noPoint, DateNumbers.push, shortNumbers]
  simp only [number, opens, six, short, Bool.false_eq_true, if_false, if_true, true_or, known]
  rfl

/-- The fields with the time of day that a row of six digits is. -/
def Fields.withSix (f : Fields) (time : Text) : Fields :=
  { f with hour := some (value (time.take 2)), minute := some (value ((time.drop 2).take 2)), second := some (value (time.drop 4)),
           micro := some 0 }

/-- The fields with the time of day that a row of four digits is. -/
def Fields.withFour (f : Fields) (time : Text) : Fields :=
  { f with hour := some (value (time.take 2)), minute := some (value (time.drop 2)) }

/-- Behind a date a row of six digits is a time of day. -/
theorem number_timeSix (decimals : Decimals time) (six : time.length = 6) (begun : f.numbers.values ≠ []) (x : Decimal)
    (back next : List Text) : number f time x back next = .ok (0, f.withSix time) := by
  have opens : opensTime f time next = false := by simp [opensTime, six]
  have hour := readNat?_part decimals 0 2 (by omega) (by decide) (by decide)
  have minute := readNat?_part decimals 2 2 (by omega) (by decide) (by decide)
  have second := readNat?_part decimals 4 2 (by omega) (by decide) (by decide)
  have short : sixDigits? f time = some (f.withSix time) := by
    have whole : splitOn '.' (time.drop 4) = [time.drop 4] :=
      splitOn_of_not_mem ((decimals.of_subset (List.drop_subset 4 time)).not_mem (by decide))
    rw [List.drop_zero] at hour
    rw [List.take_of_length_le (by simp [six])] at second
    simp [sixDigits?, begun, hour, minute, second, Fields.withSeconds?, seconds?, whole, Fields.withSix]
  simp only [number, opens, six, short, Bool.false_eq_true, if_false, if_true, true_or, known]
  rfl

/-- Behind a full date a row of four digits is hour and minute. -/
theorem number_timeFour (decimals : Decimals time) (four : time.length = 4) (full : f.numbers.values.length = 3)
    (noHour : f.hour = none) (x : Decimal) (back : List Text) (k : Nat) :
    number f time x back (zones k) = .ok (0, f.withFour time) := by
  have hour := readNat?_part decimals 0 2 (by omega) (by decide) (by decide)
  have minute := readNat?_part decimals 2 2 (by omega) (by decide) (by decide)
  have opens : opensTime f time (zones k) = true := by
    cases k with
    | zero => simp [opensTime, full, four, noHour, zones]
    | succ k =>
      obtain ⟨-, -, -, -, -, unit, -⟩ := zone_words k
      have notColon : List.replicate (k + 1) 'Z' ≠ [':'] := by simp [List.replicate_succ]
      simp only [opensTime, full, four, noHour, zones, Nat.succ_ne_zero, if_false, unit]
      simp [notColon]
  have read : hourDigits? f time = some (f.withFour time) := by
    rw [List.drop_zero] at hour
    rw [List.take_of_length_le (by simp [four])] at minute
    simp [hourDigits?, hour, minute, four, Fields.withFour]
  simp only [number, opens, if_true, read, known]
  rfl

/-! ### The letter between -/

theorem mark_words : isNoNumber ['T'] = false ∧ Decimal.ofToken? ['T'] = none ∧ unit? ['T'] = none ∧ isFiller ['T'] = true := by decide

/-- The letter between a date and a time is passed over. -/
theorem word?_mark (noHour : f.hour = none) (next : List Text) : word? f currentYear ['T'] next = some (0, f) := by
  have weekday : weekday? ['T'] = none := by decide
  have month : month? ['T'] = none := by decide
  have half : afternoon? ['T'] = none := by decide
  simp [word?, weekday, month, half, mark_words, Fields.mayNameZone, noHour]

/-! ### One token after the other -/

/-- The tokens that one token uses up behind it, and the fields. -/
def readToken (currentYear : Nat) (back : List Text) (token : Text) (tokens : List Text) (f : Fields) : Except Flaw (Nat × Fields) :=
  match Decimal.ofToken? token with
  | some x => number f token x back tokens
  | none => known (word? f currentYear token tokens)

theorem fields_cons (currentYear fuel : Nat) (back : List Text) (token : Text) (tokens : List Text) (f : Fields) :
    fields currentYear (fuel + 1) back (token :: tokens) f =
      if isNoNumber token then .error .unknown
      else readToken currentYear back token tokens f >>= fun read =>
        fields currentYear fuel ((tokens.take read.1).reverse ++ token :: back) (tokens.drop read.1) read.2 := by
  rw [fields, readToken]
  cases Decimal.ofToken? token <;> rfl

/-- A token that is read as it stands leaves the tokens behind it. -/
theorem fields_number (decimals : Decimals run) (some : run ≠ []) {later : Fields}
    (one : number f run ⟨value run, 0⟩ back next = .ok (used, later)) (fuel : Nat) :
    fields currentYear (fuel + 1) back (run :: next) f =
      fields currentYear fuel ((next.take used).reverse ++ run :: back) (next.drop used) later := by
  rw [fields_cons, isNoNumber_decimals decimals some, if_neg (by decide), readToken, ofToken?_decimals decimals some]
  dsimp only
  rw [one]
  rfl

theorem fields_mark (noHour : f.hour = none) (fuel : Nat) :
    fields currentYear (fuel + 1) back (['T'] :: next) f = fields currentYear fuel (['T'] :: back) next f := by
  obtain ⟨number, decimal, -⟩ := mark_words
  rw [fields_cons, number, if_neg (by decide), readToken, decimal]
  dsimp only
  rw [word?_mark noHour]
  rfl

end FreeForm

end Cadence
