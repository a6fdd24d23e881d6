import Cadence.Proofs.Failure
import Cadence.Proofs.DateText.Moment
import Cadence.Proofs.DateText.Rows

/-!
# A moment among dates in words

The tokens of a written moment are its two rows of digits with the letter between them. Read as a date in
words they are year, month and day, and hour, minute and second, whatever the current year. A day alone is its
start, and the letter of universal time behind a moment does not change it.
-/

namespace Cadence

open Text

/-! ### Digits of a day and of a time -/

theorem Day.decimals_digits (d : Day) : Decimals (row d.digits) := decimals_row d.areDigits_digits

theorem Clock.decimals_digits (c : Clock) : Decimals (row c.digits) := decimals_row c.areDigits_digits

namespace FreeForm

open DateToken

/-- The fields after the digits of a day. -/
def dayFields (d : Day) : Fields :=
  { numbers := { values := [d.year, d.month, d.day], yearAt := some 0, century := true } }

theorem fullNumbers_day (d : Day) : fullNumbers (row d.digits) = (dayFields d).numbers := by
  obtain ⟨hy, hm, hd⟩ := d.parts_lt
  have year : (row d.digits).take 4 = row (quad d.year) := rfl
  have month : ((row d.digits).drop 4).take 2 = row (pair d.month) := rfl
  have day : ((row d.digits).drop 6).take 2 = row (pair d.day) := rfl
  rw [fullNumbers, year, month, day, value_row (areDigits_quad hy), value_row (areDigits_pair hm),
    value_row (areDigits_pair hd), digitsValue_quad, digitsValue_pair, digitsValue_pair, dayFields]

/-- The fields after the digits of a time. -/
def momentFields (s : Stamp) : Fields :=
  { dayFields s.day with
    hour := some s.clock.hour, minute := some s.clock.minute, second := some s.clock.second, micro := some 0 }

theorem withSix_clock (s : Stamp) : (dayFields s.day).withSix (row s.clock.digits) = momentFields s := by
  obtain ⟨hh, hm, hs, -⟩ := s.clock.valid
  have hour : (row s.clock.digits).take 2 = row (pair s.clock.hour) := rfl
  have minute : ((row s.clock.digits).drop 2).take 2 = row (pair s.clock.minute) := rfl
  have second : (row s.clock.digits).drop 4 = row (pair s.clock.second) := rfl
  rw [Fields.withSix, hour, minute, second, value_row (areDigits_pair (by omega)), value_row (areDigits_pair (by omega)),
    value_row (areDigits_pair (by omega)), digitsValue_pair, digitsValue_pair, digitsValue_pair, momentFields]

/-- The fields after the digits of a time and the letter of universal time. -/
def universalFields (s : Stamp) : Fields := { momentFields s with zoneName := some ['Z'] }

theorem word?_universal (s : Stamp) (currentYear : Nat) :
    word? (momentFields s) currentYear ['Z'] [] = some (0, universalFields s) := by
  have hweekday : weekday? ['Z'] = none := by decide
  have hmonth : month? ['Z'] = none := by decide
  have hhalf : afternoon? ['Z'] = none := by decide
  have hzone : (momentFields s).mayNameZone (momentFields s).offset.isSome ['Z'] = true := rfl
  simp only [word?, hweekday, hmonth, hhalf, hzone, if_true]
  rfl

theorem fields_day (d : Day) (currentYear : Nat) : fields currentYear 1 [] [row d.digits] {} = .ok (dayFields d) := by
  rw [fields_number d.decimals_digits (List.cons_ne_nil _ _) (number_eight d.decimals_digits rfl _ _ _), fullNumbers_day]
  rfl

/-- The digits of a day and of a time give their fields, whatever stands behind them. -/
theorem fields_moment (s : Stamp) (currentYear fuel : Nat) (behind : List Text) :
    fields currentYear (fuel + 3) [] (row s.day.digits :: ['T'] :: row s.clock.digits :: behind) {} =
      fields currentYear fuel [row s.clock.digits, ['T'], row s.day.digits] behind (momentFields s) := by
  rw [fields_number s.day.decimals_digits (List.cons_ne_nil _ _) (number_eight s.day.decimals_digits rfl _ _ _),
    fullNumbers_day, List.drop_zero, fields_mark rfl, fields_number s.clock.decimals_digits (List.cons_ne_nil _ _)
      (number_timeSix s.clock.decimals_digits rfl (List.cons_ne_nil _ _) _ _ _)]
  exact congrArg (fields _ _ _ _ ·) (withSix_clock s)

theorem fields_universal (s : Stamp) (currentYear : Nat) :
    fields currentYear 4 [] [row s.day.digits, ['T'], row s.clock.digits, ['Z']] {} = .ok (universalFields s) := by
  have noNumber : isNoNumber ['Z'] = false ∧ Decimal.ofToken? ['Z'] = none := by decide
  rw [fields_moment, fields_cons, noNumber.1, if_neg (by decide), readToken, noNumber.2]
  dsimp only
  rw [word?_universal]
  rfl

/-! ### The date -/

theorem dayOf_eq_ok {year month first n : Nat} {day : Option Nat} : dayOf year month first day = .ok n ↔
    day = some n ∨ (day = none ∧ (1 ≤ month ∧ month ≤ 12) ∧ n = min first (daysInMonth year month)) := by
  cases day with
  | some m => simp [dayOf]
  | none =>
    by_cases bounds : 1 ≤ month ∧ month ≤ 12 <;> simp [dayOf, bounds, eq_comm]

theorem dayOf_eq_error {year month first : Nat} {day : Option Nat} {flaw : Flaw} (failed : dayOf year month first day = .error flaw) :
    flaw = .noMonth month := by
  unfold dayOf at failed
  split at failed
  · cases failed
  · split at failed <;> cases failed
    rfl

/-- The date of fields is on the day that they give, unless they give a weekday and no day of the month: then it is on the next
such weekday. -/
theorem stamp_cases {f : Fields} {year month day : Option Nat} {default s : Stamp} (read : stamp f (year, month, day) default = .ok s) :
    ∃ days found, dayOf (year.getD default.day.year) (month.getD default.day.month) default.day.day day = .ok days ∧
      Stamp.of? (year.getD default.day.year) (month.getD default.day.month) days (f.hour.getD default.clock.hour)
        (f.minute.getD default.clock.minute) (f.second.getD default.clock.second) (f.micro.getD default.clock.micro) = some found ∧
      (s = found ∨ ∃ weekday, f.weekday = some weekday ∧ day = none ∧
        found.addDays? ((7 - found.day.weekday.index + weekday.index) % 7) = some s) := by
  unfold stamp at read
  obtain ⟨days, onDay, read⟩ := bind_eq_ok.mp read
  dsimp only at read
  split at read
  · cases read
  · split at read
    · cases read
    · rename_i found made
      refine ⟨days, found, onDay, made, ?_⟩
      split at read
      · rename_i weekday named noDay
        split at read
        · rename_i moved forward
          cases read
          exact .inr ⟨weekday, named, rfl, forward⟩
        · cases read
      · cases read
        exact .inl rfl

theorem stamp_moment (s default : Stamp) {f : Fields} (weekday : f.weekday = none) (hour : f.hour = some s.clock.hour)
    (minute : f.minute = some s.clock.minute) (second : f.second = some s.clock.second) (micro : f.micro = some 0) :
    stamp f (some s.day.year, some s.day.month, some s.day.day) default = .ok s.plain := by
  obtain ⟨hy, hm, hd⟩ := s.day.parts_lt
  obtain ⟨hh, hn, hs, -⟩ := s.clock.valid
  have hscale : [s.day.year, s.day.month, s.day.day, s.clock.hour, s.clock.minute, s.clock.second].any
      (2147483647 < ·) = false := by
    simp only [List.any_cons, List.any_nil, Bool.or_false, Bool.or_eq_false_iff, decide_eq_false_iff_not]
    omega
  simp only [stamp, weekday, hour, minute, second, micro, dayOf, Option.getD_some, bind, Except.bind, hscale, Bool.false_eq_true,
    if_false, s.of?_plain]
  rfl

theorem stamp_day (d today : Day) :
    stamp (dayFields d) (some d.year, some d.month, some d.day) (.ofDay today) = .ok (.ofDay d) :=
  stamp_moment (f := { dayFields d with hour := some 0, minute := some 0, second := some 0, micro := some 0 })
    (.ofDay d) (.ofDay today) rfl rfl rfl rfl rfl

/-- What a text is read as whose tokens give the numbers of a day. -/
theorem readLocal_of_fields {d : Day} {s : Text} {tokens : List Text} {f : Fields} {currentYear : Nat} (default : Stamp)
    (cut : DateToken.tokens s = tokens) (read : fields currentYear tokens.length [] tokens {} = .ok f)
    (numbers : f.numbers = (dayFields d).numbers) :
    readLocal currentYear default s = stamp f (some d.year, some d.month, some d.day) default := by
  have hresolve : f.numbers.resolve? false = some (some d.year, some d.month, some d.day) := by
    simp [numbers, dayFields, DateNumbers.resolve?]
  have hyear : fullYear currentYear d.year f.numbers.century = d.year := by simp [numbers, dayFields, fullYear]
  have hempty : f.isEmpty (some d.year, some d.month, some d.day) = false := rfl
  rw [readLocal, readZoned, cut]
  simp only [read, hresolve, known, Option.map_some, hyear, hempty, bind, Except.bind, Bool.false_eq_true, if_false]
  cases stamp f (some d.year, some d.month, some d.day) default <;> rfl

section Written
variable (s default : Stamp) (currentYear : Nat)

/-- The digits of a day are read as the start of that day. -/
theorem readLocal_day (d today : Day) : readLocal currentYear (.ofDay today) (row d.digits) = .ok (.ofDay d) := by
  have cut := tokens_date d.decimals_digits (List.cons_ne_nil _ _) 0
  rw [List.replicate_zero, List.append_nil] at cut
  exact (readLocal_of_fields (.ofDay today) cut (fields_day d currentYear) rfl).trans (stamp_day d today)

/-- The digits of a day and of a time are read as a timestamp. -/
theorem readLocal_moment : readLocal currentYear default (row s.day.digits ++ 'T' :: row s.clock.digits) = .ok s.plain :=
  (readLocal_of_fields default (tokens_moment s.day.decimals_digits (List.cons_ne_nil _ _) s.clock.decimals_digits
    (List.cons_ne_nil _ _)) (fields_moment s currentYear 0 []) rfl).trans (stamp_moment s default rfl rfl rfl rfl rfl)

/-- The letter of universal time behind them does not change what is read. -/
theorem readLocal_universal :
    readLocal currentYear default (row s.day.digits ++ 'T' :: (row s.clock.digits ++ ['Z'])) = .ok s.plain :=
  (readLocal_of_fields default (tokens_dateTime s.day.decimals_digits (List.cons_ne_nil _ _) s.clock.decimals_digits
    (List.cons_ne_nil _ _) 1) (fields_universal s currentYear) rfl).trans (stamp_moment s default rfl rfl rfl rfl rfl)

end Written

/-- A written timestamp is read back as a date in words. -/
theorem readLocal_text {s : Stamp} (h : 1000 ≤ s.day.year) (currentYear : Nat) (default : Stamp) :
    readLocal currentYear default (Compact.text s) = .ok s.plain := by
  rw [Compact.text_eq h, readLocal_moment]

end FreeForm

end Cadence
