import Cadence.Proofs.DateText.Scale

/-!
# Dates of digits alone among dates in words

A text of digits, and perhaps a letter and more digits, with letters of universal time behind them, may be read as a
date in words. Of eight digits it is the date that they say, of six digits the order of the three numbers follows from
their size, and seven digits are a year. What stands behind the letter is a time of day or one number too many.
-/

namespace Cadence

open Text

variable {date time run rest : Text} {k : Nat}

namespace FreeForm

open DateToken

variable {f g : Fields} {x : Decimal} {back next : List Text} {currentYear fuel used : Nat}

/-! ### Letters of universal time -/

/-- Letters of universal time are a zone behind an hour, and nothing else. -/
theorem word?_zone (read : word? f currentYear (List.replicate (k + 1) 'Z') next = some (used, g)) :
    f.hour.isSome = true ∧ used = 0 ∧ g = zoneName f (List.replicate (k + 1) 'Z') next := by
  obtain ⟨-, -, weekday, month, half, -, filler⟩ := zone_words k
  have notSign : ¬ (List.replicate (k + 1) 'Z' = ['+'] ∨ List.replicate (k + 1) 'Z' = ['-']) := by simp [List.replicate_succ]
  unfold word? at read
  rw [weekday, month, half] at read
  dsimp only at read
  split at read
  · rename_i names
    cases read
    have hour : f.hour.isSome = true := by
      unfold Fields.mayNameZone at names
      simp only [Bool.and_eq_true] at names
      exact names.1.1.1.1
    exact ⟨hour, rfl, rfl⟩
  · rw [if_neg fun signed => notSign signed.2, filler] at read
    cases read

theorem fields_zone (enough : (zones k).length ≤ fuel) (read : fields currentYear fuel back (zones k) f = .ok g) :
    k = 0 ∧ g = f ∨ f.hour.isSome = true ∧ g = zoneName f (List.replicate k 'Z') [] := by
  cases k with
  | zero =>
    cases fuel <;> exact .inl ⟨rfl, (Except.ok.inj read).symm⟩
  | succ k =>
    obtain ⟨fuel, rfl⟩ := Nat.exists_eq_add_of_le' enough
    obtain ⟨number, decimal, -⟩ := zone_words k
    have token : zones (k + 1) = [List.replicate (k + 1) 'Z'] := if_neg (Nat.succ_ne_zero k)
    rw [token, List.length_singleton, fields_cons, number] at read
    obtain ⟨⟨used, later⟩, one, read⟩ := bind_eq_ok.mp read
    rw [readToken, decimal] at one
    obtain ⟨hour, rfl, rfl⟩ := word?_zone (known_eq_ok.mp one)
    rw [List.drop_zero] at read
    cases fuel <;> exact .inr ⟨hour, (Except.ok.inj read).symm⟩

/-! ### Other rows -/

theorem label?_eq_none (before : ∀ t ∈ back.head?, unit? t = none ∧ t ≠ [' ']) (behind : ∀ t ∈ next.head?, unit? t = none ∧ t ≠ [' ']) :
    label? back next = none := by
  unfold label?
  cases next with
  | nil =>
    cases back with
    | nil => rfl
    | cons last back =>
      obtain ⟨noUnit, notBlank⟩ := before last rfl
      simp [noUnit, notBlank]
  | cons first next =>
    obtain ⟨noUnit, notBlank⟩ := behind first rfl
    cases back with
    | nil => simp [noUnit, notBlank]
    | cons last back => simp [noUnit, notBlank, (before last rfl).1]

/-- A row of three, four, five or seven digits that opens no time is a number by itself. -/
theorem number_other (decimals : Decimals run) (length : run.length = 3 ∨ run.length = 4 ∨ run.length = 5 ∨ run.length = 7)
    (opens : opensTime f run next = false) (before : ∀ t ∈ back.head?, unit? t = none ∧ t ≠ [' '])
    (behind : ∀ t ∈ next.head?, unit? t = none ∧ t ≠ [' ']) (x : Decimal) :
    number f run x back next = unlabelled f run x next := by
  have point : run[6]? ≠ some '.' := fun found => decimals.not_mem (by decide) (List.mem_of_getElem? found)
  unfold number
  dsimp only
  rw [opens, label?_eq_none before behind, if_neg (by decide), if_neg fun six => ?_, if_neg (by omega)]
  rcases six with six | ⟨-, dot, -⟩
  · omega
  · exact point dot

theorem behind_zones (k : Nat) : ∀ t ∈ (zones k).head?, unit? t = none ∧ t ≠ [' '] := by
  intro t first
  cases k with
  | zero => cases first
  | succ k =>
    obtain ⟨-, -, -, -, -, unit, -⟩ := zone_words k
    obtain rfl : List.replicate (k + 1) 'Z' = t := by simpa [zones] using first
    exact ⟨unit, by simp [List.replicate_succ]⟩

/-- A number right before letters of universal time gives no hour. -/
theorem unlabelled_zone (read : unlabelled f run x [List.replicate (k + 1) 'Z'] = .ok (used, g)) : used = 0 ∧ g.hour = f.hour := by
  obtain ⟨-, -, -, -, half, -, filler⟩ := zone_words k
  have notMark : List.replicate (k + 1) 'Z' ≠ ['-'] ∧ List.replicate (k + 1) 'Z' ≠ ['/'] ∧ List.replicate (k + 1) 'Z' ≠ ['.'] := by
    simp [List.replicate_succ]
  have joined : joined? f x (List.replicate (k + 1) 'Z') = some (used, g) := by
    unfold unlabelled at read
    split at read
    · contradiction
    · rename_i same
      cases (List.cons.inj same).2
    · rename_i same
      obtain ⟨rfl, rfl⟩ := List.cons.inj same
      rw [if_neg (by simpa using notMark), filler] at read
      exact known_eq_ok.mp read
  rw [joined?, half] at joined
  dsimp only at joined
  rw [Option.ite_none_right_eq_some] at joined
  obtain ⟨numbers, -, same⟩ := Option.map_eq_some_iff.mp joined.2
  obtain ⟨rfl, rfl⟩ := Prod.mk.inj same
  exact ⟨rfl, rfl⟩

/-- A number by itself, with no hour before it, is the last token: letters of universal time do not fit behind it. -/
theorem fields_lone (decimals : Decimals run) (some : run ≠ [])
    (length : run.length = 3 ∨ run.length = 4 ∨ run.length = 5 ∨ run.length = 7) (noHour : f.hour = none)
    (opens : opensTime f run (zones k) = false) (before : ∀ t ∈ back.head?, unit? t = none ∧ t ≠ [' '])
    (enough : (zones k).length ≤ fuel) (read : fields currentYear (fuel + 1) back (run :: zones k) f = .ok g) :
    k = 0 ∧ ∃ numbers, f.numbers.pushDecimal? ⟨value run, 0⟩ = .some numbers ∧ g = { f with numbers } := by
  rw [fields_cons, isNoNumber_decimals decimals some, if_neg (by decide)] at read
  obtain ⟨⟨used, later⟩, one, read⟩ := bind_eq_ok.mp read
  rw [readToken, ofToken?_decimals decimals some] at one
  dsimp only at one
  rw [number_other decimals length opens before (behind_zones k)] at one
  cases k with
  | zero =>
    obtain ⟨numbers, pushed, same⟩ := Option.map_eq_some_iff.mp (known_eq_ok.mp one)
    obtain ⟨rfl, rfl⟩ := Prod.mk.inj same
    rcases fields_zone (k := 0) enough read with ⟨-, rfl⟩ | ⟨hour, -⟩
    · exact ⟨rfl, numbers, pushed, rfl⟩
    · dsimp only at hour
      rw [noHour] at hour
      cases hour
  | succ k =>
    obtain ⟨rfl, hour⟩ := unlabelled_zone one
    rcases fields_zone (k := k + 1) enough read with ⟨zero, -⟩ | ⟨hour', -⟩
    · cases zero
    · rw [hour, noHour] at hour'
      cases hour'

/-! ### Runs -/

/-- The fields with the name of a zone or without. -/
def Fields.IsZoned (f g : Fields) : Prop := g = f ∨ ∃ zone, g = FreeForm.zoneName f zone []

theorem isZoned_of_fields (enough : (zones k).length ≤ fuel) (read : fields currentYear fuel back (zones k) f = .ok g) :
    f.IsZoned g := by
  rcases fields_zone enough read with ⟨-, rfl⟩ | ⟨-, rfl⟩
  · exact .inl rfl
  · exact .inr ⟨_, rfl⟩

theorem Fields.IsZoned.numbers_eq (zoned : f.IsZoned g) : g.numbers = f.numbers := by
  obtain rfl | ⟨zone, rfl⟩ := zoned <;> rfl

theorem Fields.IsZoned.stamp_eq (zoned : f.IsZoned g) : stamp g = stamp f := by
  obtain rfl | ⟨zone, rfl⟩ := zoned <;> rfl

/-- Behind a date and the letter a row of digits is a time of day or another number of the date. -/
theorem fields_time (decimals : Decimals time) (some : time ≠ []) (length : 3 ≤ time.length ∧ time.length ≤ 6)
    (begun : f.numbers.values ≠ []) (noHour : f.hour = none) (enough : (zones k).length ≤ fuel)
    (read : fields currentYear (fuel + 1) (['T'] :: back) (time :: zones k) f = .ok g) :
    (time.length = 6 ∧ (f.withSix time).IsZoned g) ∨
      (time.length = 4 ∧ f.numbers.values.length = 3 ∧ (f.withFour time).IsZoned g) ∨
      ∃ numbers, f.numbers.pushDecimal? ⟨value time, 0⟩ = .some numbers ∧ g = { f with numbers } := by
  have before : ∀ t ∈ (['T'] :: back).head?, unit? t = none ∧ t ≠ [' '] := by
    intro t first
    obtain rfl := Option.some.inj first
    decide
  by_cases six : time.length = 6
  · rw [fields_number decimals some (number_timeSix decimals six begun _ _ _)] at read
    exact .inl ⟨six, isZoned_of_fields enough read⟩
  by_cases four : time.length = 4 ∧ f.numbers.values.length = 3
  · rw [fields_number decimals some (number_timeFour decimals four.1 four.2 noHour _ _ k)] at read
    exact .inr (.inl ⟨four.1, four.2, isZoned_of_fields enough read⟩)
  · have opens : opensTime f time (zones k) = false := by
      rw [Bool.eq_false_iff]
      intro opens
      simp only [opensTime, Bool.and_eq_true, Bool.or_eq_true, decide_eq_true_eq] at opens
      omega
    obtain ⟨-, lone⟩ := fields_lone decimals some (by omega) noHour opens before enough read
    exact .inr (.inr lone)

/-! ### Dates -/

/-- What a text is read as follows from its fields. -/
theorem exists_stamp {default last : Stamp} {s : Text} (read : readLocal currentYear default s = .ok last) :
    ∃ f year month day, fields currentYear (tokens s).length [] (tokens s) {} = .ok f ∧
      f.numbers.resolve? false = some (year, month, day) ∧
      stamp f (year.map (fullYear currentYear · f.numbers.century), month, day) default = .ok last := by
  obtain ⟨⟨last', zoned⟩, read, rfl⟩ := map_eq_ok.mp read
  unfold readZoned at read
  obtain ⟨f, found, read⟩ := bind_eq_ok.mp read
  obtain ⟨⟨year, month, day⟩, resolved, read⟩ := bind_eq_ok.mp read
  dsimp only at read
  split at read
  · cases read
  · obtain ⟨stamp', dated, read⟩ := bind_eq_ok.mp read
    cases read
    exact ⟨f, year, month, day, found, known_eq_ok.mp resolved, dated⟩

/-- Without a weekday the date is the one that the numbers give. -/
theorem of?_of_stamp {default last : Stamp} {year month day : Option Nat} (weekday : f.weekday = none)
    (read : stamp f (year, month, day) default = .ok last) :
    ∃ number, dayOf (year.getD default.day.year) (month.getD default.day.month) default.day.day day = .ok number ∧
      Stamp.of? (year.getD default.day.year) (month.getD default.day.month) number (f.hour.getD default.clock.hour)
        (f.minute.getD default.clock.minute) (f.second.getD default.clock.second) (f.micro.getD default.clock.micro) = some last := by
  obtain ⟨number, found, given, made, rfl | ⟨day', named, -⟩⟩ := stamp_cases read
  · exact ⟨number, given, made⟩
  · rw [weekday] at named
    cases named

/-- Four numbers are no date. -/
theorem resolve?_eq_none {d : DateNumbers} (many : 3 < d.values.length) (dayFirst : Bool) : d.resolve? dayFirst = none := by
  unfold DateNumbers.resolve?
  split <;> simp_all

theorem length_pushDecimal? {d next : DateNumbers} (pushed : d.pushDecimal? x = some next) :
    next.values.length = d.values.length + 1 := by
  unfold DateNumbers.pushDecimal? DateNumbers.pushYear? at pushed
  split at pushed
  · obtain rfl := Option.some.inj pushed
    simp [DateNumbers.push]
  · split at pushed
    · cases pushed
    · obtain rfl := Option.some.inj pushed
      simp [DateNumbers.push]

/-- The text of a date and perhaps a time of day, `k` letters of universal time behind. -/
def rowsText (date : Text) (time : Option Text) (k : Nat) : Text :=
  match time with
  | none => date ++ List.replicate k 'Z'
  | some time => date ++ 'T' :: (time ++ List.replicate k 'Z')

/-- The tokens behind those of the date. -/
def tail (time : Option Text) (k : Nat) : List Text :=
  match time with
  | none => zones k
  | some time => ['T'] :: time :: zones k

/-- A row of three to six digits. -/
structure IsTimeRow (time : Text) : Prop where
  decimals : Decimals time
  length : 3 ≤ time.length ∧ time.length ≤ 6

theorem IsTimeRow.ne_nil (row : IsTimeRow time) : time ≠ [] := by
  rintro rfl
  exact absurd row.length.1 (by decide)

theorem tokens_rowsText (decimals : Decimals date) (some : date ≠ []) {time : Option Text} (rows : ∀ t ∈ time, IsTimeRow t)
    (k : Nat) : tokens (rowsText date time k) = date :: tail time k := by
  cases time with
  | none => exact tokens_date decimals some k
  | some time =>
    have row := rows time rfl
    exact tokens_dateTime decimals some row.decimals row.ne_nil k

/-- Behind three numbers there is nothing, a time of day, or one number too many. -/
theorem fields_tail {time : Option Text} (rows : ∀ t ∈ time, IsTimeRow t) (full : f.numbers.values.length = 3)
    (noHour : f.hour = none) (read : fields currentYear (tail time k).length back (tail time k) f = .ok g) :
    (time = none ∧ k = 0 ∧ g = f) ∨ (∃ t, time = some t ∧ t.length = 6 ∧ (f.withSix t).IsZoned g) ∨
      (∃ t, time = some t ∧ t.length = 4 ∧ (f.withFour t).IsZoned g) ∨ 3 < g.numbers.values.length := by
  cases time with
  | none =>
    rcases fields_zone (Nat.le_refl _) read with ⟨none, same⟩ | ⟨hour, -⟩
    · exact .inl ⟨rfl, none, same⟩
    · rw [noHour] at hour
      cases hour
  | some time =>
    have row := rows time rfl
    have begun : f.numbers.values ≠ [] := List.ne_nil_of_length_pos (by omega)
    rw [tail, List.length_cons, fields_mark noHour] at read
    rcases fields_time row.decimals row.ne_nil row.length begun noHour (Nat.le_refl _) read with
      ⟨six, zoned⟩ | ⟨four, -, zoned⟩ | ⟨numbers, pushed, rfl⟩
    · exact .inr (.inl ⟨time, rfl, six, zoned⟩)
    · exact .inr (.inr (.inl ⟨time, rfl, four, zoned⟩))
    · have length := length_pushDecimal? pushed
      refine .inr (.inr (.inr ?_))
      dsimp only
      omega

/-- Behind three numbers there is no other number of the date. -/
theorem numbers_of_fields_tail {time : Option Text} (rows : ∀ t ∈ time, IsTimeRow t) (full : f.numbers.values.length = 3)
    (noHour : f.hour = none) (read : fields currentYear (tail time k).length back (tail time k) f = .ok g)
    {resolved : DateNumbers.Resolved} (found : g.numbers.resolve? false = some resolved) :
    g.numbers = f.numbers ∧ g.weekday = f.weekday := by
  rcases fields_tail rows full noHour read with ⟨-, -, rfl⟩ | ⟨t, -, -, rfl | ⟨zone, rfl⟩⟩ | ⟨t, -, -, rfl | ⟨zone, rfl⟩⟩ | many
  · exact ⟨rfl, rfl⟩
  · exact ⟨rfl, rfl⟩
  · exact ⟨rfl, rfl⟩
  · exact ⟨rfl, rfl⟩
  · exact ⟨rfl, rfl⟩
  · rw [resolve?_eq_none many] at found
    cases found

section Rows
variable {time : Option Text} {today : Day} {default last : Stamp} (decimals : Decimals date)
  (rows : ∀ t ∈ time, IsTimeRow t)

/-- Fields with the numbers of eight digits are the date that these say. -/
theorem of?_of_fullNumbers {year month day : Option Nat} (numbers : f.numbers = fullNumbers date) (weekday : f.weekday = none)
    (resolved : f.numbers.resolve? false = some (year, month, day))
    (dated : stamp f (year.map (fullYear currentYear · f.numbers.century), month, day) (.ofDay today) = .ok last) :
    Stamp.of? (value (date.take 4)) (value ((date.drop 4).take 2)) (value ((date.drop 6).take 2)) (f.hour.getD 0)
      (f.minute.getD 0) (f.second.getD 0) (f.micro.getD 0) = some last := by
  have given : f.numbers.resolve? false = some (some (value (date.take 4)), some (value ((date.drop 4).take 2)),
      some (value ((date.drop 6).take 2))) := by
    simp [numbers, fullNumbers, DateNumbers.resolve?]
  obtain ⟨rfl, rfl, rfl⟩ : year = some _ ∧ month = some _ ∧ day = some _ := by
    simpa using (Option.some.inj (resolved.symm.trans given))
  obtain ⟨number, same, made⟩ := of?_of_stamp weekday dated
  obtain rfl := Except.ok.inj same
  have full : fullYear currentYear (value (date.take 4)) f.numbers.century = value (date.take 4) := by
    simp [fullYear, numbers, fullNumbers]
  rwa [Option.map_some, full] at made

/-- The first of the numbers is the year. -/
structure StartsWithYear (d : DateNumbers) (n : Nat) : Prop where
  first : d.values.head? = some n
  yearAt : d.yearAt = some 0
  monthAt : d.monthAt = none

theorem startsWithYear_of_pushDecimal? {n : Nat} (large : 100 < n) :
    ∃ d, ({} : DateNumbers).pushDecimal? ⟨n, 0⟩ = some d ∧ StartsWithYear d n := by
  have whole : (⟨n, 0⟩ : Decimal).whole = n := Nat.div_one n
  have above : (⟨n, 0⟩ : Decimal).atMost 100 = false := by
    refine decide_eq_false ?_
    rw [Nat.pow_eq, Nat.pow_zero, Nat.mul_one]
    exact Nat.not_le.mpr large
  refine ⟨{ values := [n], yearAt := some 0, century := true }, ?_, ⟨rfl, rfl, rfl⟩⟩
  simp [DateNumbers.pushDecimal?, above, whole, DateNumbers.pushYear?, DateNumbers.push]

theorem StartsWithYear.pushDecimal? {d next : DateNumbers} {n : Nat} (starts : StartsWithYear d n)
    (pushed : d.pushDecimal? x = some next) : StartsWithYear next n := by
  unfold DateNumbers.pushDecimal? at pushed
  split at pushed
  · obtain rfl := Option.some.inj pushed
    exact ⟨by simp [DateNumbers.push, starts.first], starts.yearAt, starts.monthAt⟩
  · simp [DateNumbers.pushYear?, starts.yearAt] at pushed

theorem StartsWithYear.year_eq {d : DateNumbers} {n : Nat} (starts : StartsWithYear d n) (large : 31 < n)
    {year month day : Option Nat} (resolved : d.resolve? false = some (year, month, day)) : year = some n := by
  obtain ⟨first, yearAt, monthAt⟩ := starts
  unfold DateNumbers.resolve? at resolved
  split at resolved <;> simp_all

theorem startsWithYear_of_fields {time : Option Text} (decimals : Decimals date) (rows : ∀ t ∈ time, IsTimeRow t)
    (seven : date.length = 7) (large : 100 < value date)
    (found : fields currentYear ((tail time k).length + 1) [] (date :: tail time k) {} = .ok g) :
    StartsWithYear g.numbers (value date) ∧ g.weekday = none := by
  have nonempty : date ≠ [] := List.ne_nil_of_length_pos (by omega)
  have opens (next : List Text) : opensTime {} date next = false := opensTime_of_length (by decide) date
  have first : ∀ t ∈ ([] : List Text).head?, unit? t = none ∧ t ≠ [' '] := nofun
  obtain ⟨d, pushed, starts⟩ := startsWithYear_of_pushDecimal? large
  cases time with
  | none =>
    obtain ⟨-, numbers, pushed', rfl⟩ := fields_lone decimals nonempty (by omega) rfl (opens _) first (Nat.le_refl _) found
    obtain rfl := Option.some.inj (pushed.symm.trans pushed')
    exact ⟨starts, rfl⟩
  | some time =>
    have row := rows time rfl
    have behind : ∀ t ∈ (tail (some time) k).head?, unit? t = none ∧ t ≠ [' '] := by
      intro t first
      obtain rfl := Option.some.inj first
      decide
    have one : number {} date ⟨value date, 0⟩ [] (tail (some time) k) = .ok (1, { numbers := d }) := by
      rw [number_other decimals (by omega) (opens _) first behind]
      simp [unlabelled, tail, mark_words, lone?, afternoon?_decimals row.decimals row.ne_nil, pushed, known]
    have begun : d.values ≠ [] := by
      intro none
      have first := starts.first
      rw [none] at first
      cases first
    rw [fields_number decimals nonempty one] at found
    rcases fields_time row.decimals row.ne_nil row.length begun rfl (Nat.le_succ _) found with
      ⟨-, rfl | ⟨zone, rfl⟩⟩ | ⟨-, -, rfl | ⟨zone, rfl⟩⟩ | ⟨numbers, pushed', rfl⟩
    · exact ⟨starts, rfl⟩
    · exact ⟨starts, rfl⟩
    · exact ⟨starts, rfl⟩
    · exact ⟨starts, rfl⟩
    · exact ⟨starts.pushDecimal? pushed', rfl⟩

include decimals rows

/-- A date of eight digits is read as its digits say, alone or with a time of six or four digits. -/
theorem readLocal_eight (eight : date.length = 8)
    (read : readLocal currentYear (.ofDay today) (rowsText date time k) = .ok last) :
    ∃ hour minute second, Stamp.of? (value (date.take 4)) (value ((date.drop 4).take 2)) (value ((date.drop 6).take 2))
        hour minute second 0 = some last ∧
      ((time = none ∧ hour = 0 ∧ minute = 0 ∧ second = 0) ∨
        (∃ t, time = some t ∧ t.length = 6 ∧ hour = value (t.take 2) ∧ minute = value ((t.drop 2).take 2) ∧
          second = value (t.drop 4)) ∨
        ∃ t, time = some t ∧ t.length = 4 ∧ hour = value (t.take 2) ∧ minute = value (t.drop 2) ∧ second = 0) := by
  have some : date ≠ [] := List.ne_nil_of_length_pos (by omega)
  obtain ⟨g, year, month, day, found, resolved, dated⟩ := exists_stamp read
  rw [tokens_rowsText decimals some rows, List.length_cons,
    fields_number decimals some (number_eight decimals eight _ _ _)] at found
  rcases fields_tail rows (by rfl) rfl found with ⟨rfl, -, rfl⟩ | ⟨t, rfl, six, zoned⟩ | ⟨t, rfl, four, zoned⟩ | many
  · exact ⟨_, _, _, of?_of_fullNumbers rfl rfl resolved dated, .inl ⟨rfl, rfl, rfl, rfl⟩⟩
  · rw [zoned.numbers_eq] at resolved dated
    rw [zoned.stamp_eq] at dated
    exact ⟨_, _, _, of?_of_fullNumbers rfl rfl resolved dated, .inr (.inl ⟨t, rfl, six, rfl, rfl, rfl⟩)⟩
  · rw [zoned.numbers_eq] at resolved dated
    rw [zoned.stamp_eq] at dated
    exact ⟨_, _, _, of?_of_fullNumbers rfl rfl resolved dated, .inr (.inr ⟨t, rfl, four, rfl, rfl, rfl⟩)⟩
  · rw [resolve?_eq_none many] at resolved
    cases resolved

/-- A date of six digits is read with the last two of them as the day, or with the first two where these are above 12,
    or else as month, day and year. -/
theorem readLocal_six (six : date.length = 6) (read : readLocal currentYear default (rowsText date time k) = .ok last) :
    last.day.day = value (date.drop 4) ∨ (12 < last.day.day ∧ last.day.day = value (date.take 2)) ∨
      (last.day.year = fullYear currentYear (value (date.drop 4)) false ∧ last.day.month = value (date.take 2) ∧
        last.day.day = value ((date.drop 2).take 2)) := by
  have some : date ≠ [] := List.ne_nil_of_length_pos (by omega)
  obtain ⟨g, year, month, day, found, resolved, dated⟩ := exists_stamp read
  rw [tokens_rowsText decimals some rows, List.length_cons,
    fields_number decimals some (number_six decimals six _ _ _)] at found
  obtain ⟨numbers, weekday⟩ := numbers_of_fields_tail rows (by rfl) rfl found resolved
  rw [numbers] at resolved dated
  obtain ⟨number, given, made⟩ := of?_of_stamp weekday dated
  obtain ⟨onYear, onMonth, onDay⟩ := Stamp.day_of_of? made
  simp only [shortNumbers, DateNumbers.resolve?, reduceCtorEq, or_false, Bool.false_eq_true, false_and] at resolved
  split at resolved
  · obtain ⟨rfl, rfl, rfl⟩ : year = _ ∧ month = _ ∧ day = _ := by simpa [eq_comm] using resolved
    exact .inl (onDay.trans (Except.ok.inj given).symm)
  · split at resolved
    · rename_i above
      obtain ⟨rfl, rfl, rfl⟩ : year = _ ∧ month = _ ∧ day = _ := by simpa [eq_comm] using resolved
      have same := onDay.trans (Except.ok.inj given).symm
      exact .inr (.inl ⟨same ▸ above, same⟩)
    · obtain ⟨rfl, rfl, rfl⟩ : year = _ ∧ month = _ ∧ day = _ := by simpa [eq_comm] using resolved
      exact .inr (.inr ⟨onYear, onMonth, onDay.trans (Except.ok.inj given).symm⟩)

/-- A date of seven digits is a year. -/
theorem readLocal_seven (seven : date.length = 7) (large : 100 < value date)
    (read : readLocal currentYear default (rowsText date time k) = .ok last) : last.day.year = value date := by
  have some : date ≠ [] := List.ne_nil_of_length_pos (by omega)
  obtain ⟨g, year, month, day, found, resolved, dated⟩ := exists_stamp read
  rw [tokens_rowsText decimals some rows, List.length_cons] at found
  obtain ⟨gives, weekday⟩ := startsWithYear_of_fields decimals rows seven large found
  obtain rfl : year = .some (value date) := gives.year_eq (by omega) resolved
  obtain ⟨number, -, made⟩ := of?_of_stamp weekday dated
  have onYear := (Stamp.day_of_of? made).1
  have full : fullYear currentYear (value date) g.numbers.century = value date := if_pos (.inl (by omega))
  rwa [Option.map_some, full, Option.getD_some] at onYear

end Rows

end FreeForm

end Cadence
