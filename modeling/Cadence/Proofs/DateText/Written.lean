import Cadence.DateText.Numeric
import Cadence.Proofs.Text.Decimals

/-!
# The form of dates in numbers

A date in numbers is three numbers of one to four digits each with a separator between every two, and perhaps a time
of day behind. Blanks may stand around the separators and, with at most one comma among them, before the time of day.
What is taken for a date in numbers has this form, and its numbers are those of the text in their order. A text of
this form is read so too, if the third number is set apart from the time of day.
-/

namespace Cadence.NumericDate

open Text

variable {s t rest run first second third ending text : Text} {time : Text × Text × Text} {d : NumericDate}

/-! ### The form -/

/-- A number of a date. -/
structure IsNumber (s : Text) : Prop where
  decimals : Decimals s
  ne_nil : s ≠ []
  length_le : s.length ≤ 4

/-- Blanks alone. -/
def Blanks (s : Text) : Prop := ∀ c ∈ s, isBlank c = true

/-- A separator, with blanks around it or without. -/
inductive IsLink : Text → Prop
  | mk {before after : Text} {sep : Char} (blanks : Blanks before) (isSeparator : isSeparator sep = true)
      (blanks' : Blanks after) : IsLink (before ++ sep :: after)

/-- An hour of one or two digits, a minute of two and perhaps a second of two, with colons between them. The numbers
    are given beside the text, that of the second being empty if there is none. -/
inductive IsClock : Text → Text × Text × Text → Prop
  | minutes {hour minute : Text} (hourDecimals : Decimals hour) (minuteDecimals : Decimals minute) (some : hour ≠ [])
      (short : hour.length ≤ 2) (two : minute.length = 2) : IsClock (hour ++ ':' :: minute) (hour, minute, [])
  | seconds {hour minute second : Text} (hourDecimals : Decimals hour) (minuteDecimals : Decimals minute)
      (secondDecimals : Decimals second) (some : hour ≠ []) (short : hour.length ≤ 2) (two : minute.length = 2)
      (two' : second.length = 2) : IsClock (hour ++ ':' :: (minute ++ ':' :: second)) (hour, minute, second)

/-- What sets a time of day apart from the date before it: blanks, with or without a comma among them. -/
inductive IsGap : Text → Prop
  | blanks {gap : Text} (blanks : Blanks gap) : IsGap gap
  | comma {before after : Text} (blanks : Blanks before) (blanks' : Blanks after) : IsGap (before ++ ',' :: after)

/-- What stands behind the third number: nothing, or a time of day. -/
inductive IsEnding : Text → Text × Text × Text → Prop
  | none : IsEnding [] ([], [], [])
  | clock {gap text : Text} {time : Text × Text × Text} (isGap : IsGap gap) (isClock : IsClock text time) :
      IsEnding (gap ++ text) time

/-- The text writes these three numbers in this order, with this ending behind them. -/
structure Writes (s : Text) (d : NumericDate) (ending : Text) : Prop where
  first : IsNumber d.first
  second : IsNumber d.second
  third : IsNumber d.third
  text : ∃ link link', IsLink link ∧ IsLink link' ∧ s = d.first ++ (link ++ (d.second ++ (link' ++ (d.third ++ ending))))
  isEnding : IsEnding ending (d.hour, d.minute, d.secondOfMinute)

/-! ### Blanks and digits -/

theorem trimLeft_blanks (blanks : Blanks s) (t : Text) : trimLeft (s ++ t) = trimLeft t :=
  List.dropWhile_append_of_pos blanks

theorem exists_blanks (s : Text) : ∃ gap, Blanks gap ∧ s = gap ++ trimLeft s :=
  ⟨s.takeWhile isBlank, fun _ member => List.all_eq_true.mp List.all_takeWhile _ member, (List.takeWhile_append_dropWhile).symm⟩

theorem trimLeft_decimals (decimals : Decimals s) (some : s ≠ []) (t : Text) : trimLeft (s ++ t) = s ++ t := by
  obtain ⟨c, s, rfl⟩ := List.exists_cons_of_ne_nil some
  exact trimLeft_cons (isBlank_of_isDecimal (decimals c List.mem_cons_self)) _

/-- The digits at the start of a text end where another character comes, or with the text. -/
theorem digits_append (decimals : Decimals run) (stops : ∀ c ∈ rest.head?, isDecimal c = false) :
    digits (run ++ rest) = run := by
  rw [digits, List.takeWhile_append_of_pos decimals]
  cases rest with
  | nil => simp
  | cons c rest => rw [List.takeWhile_cons_of_neg (by simp [stops c rfl]), List.append_nil]

theorem decimals_digits (s : Text) : Decimals (digits s) := fun _ member => List.all_eq_true.mp List.all_takeWhile _ member

theorem digits_drop (s : Text) : s = digits s ++ s.drop (digits s).length :=
  (List.prefix_iff_eq_append.mp (List.takeWhile_prefix isDecimal)).symm

theorem isSeparator_cases {sep : Char} (h : isSeparator sep = true) : sep = '/' ∨ sep = '.' ∨ sep = '-' := by
  simpa [isSeparator, or_assoc] using h

theorem isBlank_of_isSeparator {c : Char} (sep : isSeparator c = true) : isBlank c = false ∧ isDecimal c = false := by
  rcases isSeparator_cases sep with rfl | rfl | rfl <;> decide

theorem isDecimal_of_isBlank {c : Char} (blank : isBlank c = true) : isDecimal c = false := by
  rw [Bool.eq_false_iff]
  intro decimal
  rw [isBlank_of_isDecimal decimal] at blank
  cases blank

theorem IsLink.stops {link : Text} (isLink : IsLink link) (rest : Text) : ∀ c ∈ (link ++ rest).head?, isDecimal c = false := by
  obtain ⟨blanks, sep, -⟩ := isLink
  rename_i before after _
  intro c first
  cases before with
  | nil =>
    obtain rfl := Option.some.inj first
    exact (isBlank_of_isSeparator sep).2
  | cons b before =>
    obtain rfl := Option.some.inj first
    exact isDecimal_of_isBlank (blanks _ List.mem_cons_self)

/-! ### One number after the other -/

theorem exists_link_of_field? (read : field? s = some (run, rest)) :
    ∃ link, IsNumber run ∧ IsLink link ∧ s = run ++ (link ++ rest) := by
  unfold field? at read
  dsimp only at read
  split at read
  · cases read
  · rename_i bounds
    rw [Bool.or_eq_true, not_or] at bounds
    split at read
    · rename_i sep tail left
      split at read
      · rename_i separator
        obtain ⟨rfl, rfl⟩ := Prod.mk.inj (Option.some.inj read)
        obtain ⟨before, blanks, parts⟩ := exists_blanks (s.drop (digits s).length)
        obtain ⟨after, blanks', parts'⟩ := exists_blanks tail
        have number : IsNumber (digits s) :=
          ⟨decimals_digits s, by simpa using bounds.1, by simpa using bounds.2⟩
        refine ⟨before ++ sep :: after, number, .mk blanks separator blanks', ?_⟩
        calc s = digits s ++ (before ++ sep :: tail) := by rw [← left, ← parts, ← digits_drop]
          _ = digits s ++ (before ++ sep :: (after ++ trimLeft tail)) := by rw [← parts']
          _ = _ := by simp
      · cases read
    · cases read

/-- A number with a separator and another number behind it is read up to that number. -/
theorem field?_append {link : Text} (number : IsNumber run) (isLink : IsLink link) (next : IsNumber first) (rest : Text) :
    field? (run ++ (link ++ (first ++ rest))) = some (run, first ++ rest) := by
  have reads : digits (run ++ (link ++ (first ++ rest))) = run := digits_append number.decimals (isLink.stops _)
  obtain ⟨blanks, separator, blanks'⟩ := isLink
  rename_i before after sep
  have left : trimLeft ((before ++ sep :: after) ++ (first ++ rest)) = sep :: (after ++ (first ++ rest)) := by
    rw [List.append_assoc, List.cons_append, trimLeft_blanks blanks, trimLeft_cons (isBlank_of_isSeparator separator).1]
  have bounds : (run.isEmpty || 4 < run.length) = false := by
    simpa [number.ne_nil] using number.length_le
  unfold field?
  simp only [reads, bounds, List.drop_left, left, separator, if_true, trimLeft_blanks blanks',
    trimLeft_decimals next.decimals next.ne_nil, Bool.false_eq_true, if_false]

/-! ### The time of day -/

theorem exists_of_twoDigits? (read : twoDigits? s = some (run, rest)) : Decimals run ∧ run.length = 2 ∧ s = run ++ rest := by
  unfold twoDigits? at read
  split at read
  · split at read
    · rename_i decimals
      obtain ⟨rfl, rfl⟩ := Prod.mk.inj (Option.some.inj read)
      refine ⟨?_, rfl, rfl⟩
      simpa [Decimals] using decimals
    · cases read
  · cases read

theorem twoDigits?_append (decimals : Decimals run) (two : run.length = 2) (rest : Text) :
    twoDigits? (run ++ rest) = some (run, rest) := by
  match run, two with
  | [a, b], _ => simp [twoDigits?, decimals a (by simp), decimals b (by simp)]

theorem exists_of_clockEnd? {minute second : Text} (read : clockEnd? s = some (minute, second)) :
    Decimals minute ∧ minute.length = 2 ∧
      (second = [] ∧ s = ':' :: minute ∨
        Decimals second ∧ second.length = 2 ∧ s = ':' :: (minute ++ ':' :: second)) := by
  unfold clockEnd? at read
  obtain ⟨tail, colon, read⟩ := Option.bind_eq_some_iff.mp read
  obtain ⟨⟨run, rest⟩, two, read⟩ := Option.bind_eq_some_iff.mp read
  obtain ⟨decimals, length, parts⟩ := exists_of_twoDigits? two
  have whole := following?_eq_some.mp colon
  dsimp only at read
  split at read
  · obtain ⟨rfl, rfl⟩ := Prod.mk.inj (Option.some.inj read)
    exact ⟨decimals, length, .inl ⟨rfl, by rw [whole, parts, List.append_nil]; rfl⟩⟩
  · obtain ⟨⟨run', rest'⟩, two', read⟩ := Option.bind_eq_some_iff.mp read
    obtain ⟨decimals', length', parts'⟩ := exists_of_twoDigits? two'
    dsimp only at read
    split at read
    · rename_i nothing
      obtain ⟨rfl, rfl⟩ := Prod.mk.inj (Option.some.inj read)
      rw [List.isEmpty_iff.mp nothing, List.append_nil] at parts'
      exact ⟨decimals, length, .inr ⟨decimals', length', by rw [whole, parts, parts']; rfl⟩⟩
    · cases read
  · cases read

theorem isClock_of_clock? (read : clock? s = some time) : IsClock s time := by
  unfold clock? at read
  dsimp only at read
  split at read
  · cases read
  · rename_i bounds
    rw [Bool.or_eq_true, not_or] at bounds
    have some : digits s ≠ [] := by simpa using bounds.1
    have short : (digits s).length ≤ 2 := by simpa using bounds.2
    obtain ⟨⟨minute, second⟩, found, rfl⟩ := Option.map_eq_some_iff.mp read
    have hour := decimals_digits s
    have parts := digits_drop s
    obtain ⟨decimals, two, ⟨rfl, rest⟩ | ⟨decimals', two', rest⟩⟩ := exists_of_clockEnd? found
    · rw [rest] at parts
      generalize digits s = run at *
      exact parts ▸ .minutes hour decimals some short two
    · rw [rest] at parts
      generalize digits s = run at *
      exact parts ▸ .seconds hour decimals decimals' some short two two'

theorem IsClock.clock?_eq (isClock : IsClock s time) : clock? s = some time := by
  have stops : ∀ rest : Text, ∀ c ∈ (':' :: rest).head?, isDecimal c = false := by
    intro rest c first
    obtain rfl := Option.some.inj first
    decide
  have bounds {hour : Text} (some : hour ≠ []) (short : hour.length ≤ 2) : (hour.isEmpty || 2 < hour.length) = false := by
    simpa [some] using short
  cases isClock with
  | minutes hourDecimals minuteDecimals some short two =>
    rename_i hour minute
    have minuteRead := twoDigits?_append minuteDecimals two []
    rw [List.append_nil] at minuteRead
    unfold clock?
    simp only [digits_append hourDecimals (stops _), bounds some short, List.drop_left, clockEnd?, following?, minuteRead,
      Option.bind_eq_bind, Option.bind_some, Option.map_some, if_true, Bool.false_eq_true, if_false]
  | seconds hourDecimals minuteDecimals secondDecimals some short two two' =>
    rename_i hour minute second
    have minuteRead := twoDigits?_append minuteDecimals two (':' :: second)
    have secondRead := twoDigits?_append secondDecimals two' []
    rw [List.append_nil] at secondRead
    unfold clock?
    simp only [digits_append hourDecimals (stops _), bounds some short, List.drop_left, clockEnd?, following?, minuteRead,
      secondRead, Option.bind_eq_bind, Option.bind_some, Option.map_some, if_true, List.isEmpty_nil, Bool.false_eq_true,
      if_false]

/-! ### The third number and the ending -/

theorem exists_gap (s : Text) : ∃ gap, IsGap gap ∧ s = gap ++ skipComma s := by
  obtain ⟨before, blanks, parts⟩ := exists_blanks s
  unfold skipComma
  split
  · rename_i rest left
    obtain ⟨after, blanks', parts'⟩ := exists_blanks rest
    refine ⟨before ++ ',' :: after, .comma blanks blanks', ?_⟩
    rw [List.append_assoc, List.cons_append, ← parts', ← left, ← parts]
  · exact ⟨before, .blanks blanks, parts⟩

theorem exists_of_thirdFrom? {count : Nat} (few : count ≤ (digits s).length) (read : thirdFrom? s count = some (third, time)) :
    ∃ ending, Decimals third ∧ third ≠ [] ∧ third.length ≤ count ∧ IsEnding ending time ∧ s = third ++ ending := by
  induction count with
  | zero => cases read
  | succ count ih =>
    have parts := digits_drop s
    have split : digits s = (digits s).take (count + 1) ++ (digits s).drop (count + 1) := (List.take_append_drop _ _).symm
    have decimals := (decimals_digits s).of_subset (List.take_subset (count + 1) _)
    have some : (digits s).take (count + 1) ≠ [] := by
      intro none
      have := congrArg List.length none
      rw [List.length_take, List.length_nil] at this
      omega
    have length : ((digits s).take (count + 1)).length ≤ count + 1 := List.length_take_le _ _
    have whole : s = (digits s).take (count + 1) ++ ((digits s).drop (count + 1) ++ s.drop (digits s).length) := by
      rw [← List.append_assoc, ← split, ← parts]
    unfold thirdFrom? at read
    dsimp only at read
    split at read
    · rename_i hour minute second found
      obtain ⟨rfl, rfl⟩ := Prod.mk.inj (Option.some.inj read)
      refine ⟨_, decimals, some, length, ?_, whole⟩
      split at found
      · -- The digits that are left over begin the time of day.
        have noGap : IsGap [] := .blanks fun _ member => absurd member List.not_mem_nil
        have ending := IsEnding.clock noGap (isClock_of_clock? found)
        rwa [List.nil_append] at ending
      · rename_i noDigits
        obtain none : (digits s).drop (count + 1) = [] := by simpa using noDigits
        rw [none, List.nil_append]
        split at found
        · rename_i nothing
          obtain ⟨rfl, rfl, rfl⟩ : hour = [] ∧ minute = [] ∧ second = [] := by simpa using found
          rw [List.isEmpty_iff.mp nothing]
          exact .none
        · obtain ⟨gap, isGap, rest⟩ := exists_gap (s.drop (digits s).length)
          exact rest ▸ .clock isGap (isClock_of_clock? found)
    · obtain ⟨ending, decimals, some, length, isEnding, parts⟩ := ih (by omega) read
      exact ⟨ending, decimals, some, by omega, isEnding, parts⟩

/-- What is taken for a date in numbers writes the numbers that are taken from it. -/
theorem writes_of_ofText? (read : ofText? s = some d) : ∃ ending, Writes s d ending := by
  unfold ofText? at read
  obtain ⟨⟨first, rest⟩, one, read⟩ := Option.bind_eq_some_iff.mp read
  obtain ⟨⟨second, rest'⟩, two, read⟩ := Option.bind_eq_some_iff.mp read
  obtain ⟨⟨third, hour, minute, second'⟩, three, read⟩ := Option.bind_eq_some_iff.mp read
  obtain rfl := Option.some.inj read
  obtain ⟨link, number, isLink, rfl⟩ := exists_link_of_field? one
  obtain ⟨link', number', isLink', rfl⟩ := exists_link_of_field? two
  obtain ⟨ending, decimals, some, length, isEnding, rfl⟩ := exists_of_thirdFrom? (Nat.min_le_right _ _) three
  exact ⟨ending, number, number', ⟨decimals, some, Nat.le_trans length (Nat.min_le_left _ _)⟩,
    ⟨link, link', isLink, isLink', rfl⟩, isEnding⟩

/-! ### Reading the form -/

/-- A time of day begins with a digit. -/
theorem IsClock.exists_cons (isClock : IsClock s time) : ∃ c rest, isDecimal c = true ∧ s = c :: rest := by
  cases isClock with
  | minutes hourDecimals _ some =>
    obtain ⟨c, rest, rfl⟩ := List.exists_cons_of_ne_nil some
    exact ⟨c, _, hourDecimals c List.mem_cons_self, rfl⟩
  | seconds hourDecimals _ _ some =>
    obtain ⟨c, rest, rfl⟩ := List.exists_cons_of_ne_nil some
    exact ⟨c, _, hourDecimals c List.mem_cons_self, rfl⟩

theorem skipComma_append {gap : Text} (isGap : IsGap gap) (isClock : IsClock s time) : skipComma (gap ++ s) = s := by
  obtain ⟨c, rest, decimal, rfl⟩ := isClock.exists_cons
  have clear := isBlank_of_isDecimal decimal
  have notComma : c ≠ ',' := by
    rintro rfl
    cases decimal
  cases isGap with
  | blanks blanks =>
    unfold skipComma
    rw [trimLeft_blanks blanks, trimLeft_cons clear]
    split
    · rename_i same
      exact absurd (List.cons.inj same).1 notComma
    · rfl
  | comma blanks blanks' =>
    rename_i before after
    have left : trimLeft ((before ++ ',' :: after) ++ c :: rest) = ',' :: (after ++ c :: rest) := by
      rw [List.append_assoc, List.cons_append, trimLeft_blanks blanks, trimLeft_cons (by decide)]
    unfold skipComma
    rw [left]
    exact (trimLeft_blanks blanks' _).trans (trimLeft_cons clear rest)

theorem thirdFrom?_append (number : IsNumber third) (isEnding : IsEnding ending time)
    (apart : ∀ c ∈ ending.head?, isDecimal c = false) :
    thirdFrom? (third ++ ending) (min 4 (digits (third ++ ending)).length) = some (third, time) := by
  have run : digits (third ++ ending) = third := digits_append number.decimals apart
  obtain ⟨count, length⟩ : ∃ count, third.length = count + 1 :=
    Nat.exists_eq_succ_of_ne_zero fun none => number.ne_nil (List.length_eq_zero_iff.mp none)
  rw [run, Nat.min_eq_right number.length_le, length, thirdFrom?]
  simp only [run, ← length, List.take_length, List.drop_length, List.drop_left, List.isEmpty_nil, Bool.not_true,
    Bool.false_eq_true, if_false]
  cases isEnding with
  | none => rfl
  | clock isGap isClock =>
    obtain ⟨c, rest, -, parts⟩ := isClock.exists_cons
    rw [if_neg (by simp [parts]), skipComma_append isGap isClock, isClock.clock?_eq]

/-- A text that writes three numbers, the third one set apart from a time of day, is read as these numbers. -/
theorem Writes.ofText?_eq (writes : Writes s d ending) (apart : ∀ c ∈ ending.head?, isDecimal c = false) :
    ofText? s = some d := by
  obtain ⟨link, link', isLink, isLink', rfl⟩ := writes.text
  unfold ofText?
  simp only [field?_append writes.first isLink writes.second, field?_append writes.second isLink' writes.third,
    thirdFrom?_append writes.third writes.isEnding apart, Option.bind_eq_bind, Option.bind_some]

/-- Without an hour nothing stands behind the third number. -/
theorem IsEnding.eq_nil (isEnding : IsEnding ending time) (noHour : time.1 = []) : ending = [] := by
  cases isEnding with
  | none => rfl
  | clock _ isClock => cases isClock <;> contradiction

end Cadence.NumericDate
