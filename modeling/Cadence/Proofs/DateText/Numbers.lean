import Cadence.DateText.Reader
import Cadence.DateText.Writer
import Cadence.Proofs.DateText.Moment
import Cadence.Proofs.DateText.Written

/-!
# Dates in numbers read back

A timestamp of whole seconds that is written in numbers is read back in the format that it was written
in, whether days and months have a leading zero or not and wherever the year stands. The year has four
digits and is found by that; the numbers that are left are the day and the month in the format's order,
and a number above 12 can only be where the day is. A date with hyphens and the year first may have the
ISO form, which is read as the same day.
-/

namespace Cadence

open Text

namespace Text

/-- The digits of a day or a month, with a leading zero or without. -/
def shortDigits (padded : Bool) (n : Nat) : List Nat := if padded || 10 ≤ n then pair n else [n]

theorem ofNatPadded_short (padded : Bool) {n : Nat} (h : n < 100) :
    ofNatPadded (if padded then 2 else 1) n = row (shortDigits padded n) := by
  have closed : ∀ p : Bool, ∀ n < 100, ofNatPadded (if p then 2 else 1) n = row (shortDigits p n) := by decide
  exact closed padded n h

theorem ofNatPadded_four {n : Nat} (h : n < 10000) : ofNatPadded 4 n = row (quad n) := padLeft_four (by decide) h

theorem shortDigits_eq (padded : Bool) (n : Nat) :
    shortDigits padded n = pair n ∨ n < 10 ∧ shortDigits padded n = [n] := by
  unfold shortDigits
  split
  · exact .inl rfl
  · rename_i h
    simp only [Bool.or_eq_true, decide_eq_true_eq, not_or] at h
    exact .inr ⟨by omega, rfl⟩

theorem digitsValue_short (padded : Bool) (n : Nat) : digitsValue (shortDigits padded n) = n := by
  rcases shortDigits_eq padded n with h | ⟨-, h⟩
  · rw [h, digitsValue_pair]
  · rw [h]
    simp [digitsValue]

end Text

namespace NumericDate

/-! ### The numbers of a text -/

/-- The digits of one number of a date. -/
structure IsField (digits : List Nat) : Prop where
  areDigits : AreDigits digits
  ne_nil : digits ≠ []
  length_le : digits.length ≤ 4

theorem isField_short (padded : Bool) {n : Nat} (h : n < 100) : IsField (shortDigits padded n) := by
  rcases shortDigits_eq padded n with he | ⟨hn, he⟩
  · exact he ▸ ⟨areDigits_pair h, by simp [pair], by simp [pair]⟩
  · refine he ▸ ⟨?_, by simp, by simp⟩
    intro d hd
    rw [List.mem_singleton.mp hd]
    exact hn

theorem isField_quad {n : Nat} (h : n < 10000) : IsField (quad n) :=
  ⟨areDigits_quad h, by simp [quad], by simp [quad]⟩

section Rows
variable {a b c : List Nat} {sep : Char}

theorem IsField.isNumber (h : IsField a) : IsNumber (row a) := by
  refine ⟨decimals_row h.areDigits, by simpa [row] using h.ne_nil, ?_⟩
  rw [row, List.length_map]
  exact h.length_le

/-- The digits of the second, none when it is zero. -/
def writtenSecond (time : Clock) : Text := if time.second = 0 then [] else row (pair time.second)

theorem briefText_eq (time : Clock) : time.briefText = row (pair time.hour) ++
    ':' :: (row (pair time.minute) ++ if time.second = 0 then [] else ':' :: row (pair time.second)) := by
  obtain ⟨hh, hm, hs, -⟩ := time.valid
  have hminute : time.minuteText = row (pair time.hour) ++ ':' :: row (pair time.minute) := by
    rw [Clock.minuteText, ofNatPadded_two _ (by omega), ofNatPadded_two _ (by omega), List.append_assoc]
    rfl
  unfold Clock.briefText
  split
  · rw [hminute, List.append_nil]
  · rw [Clock.secondText, hminute, ofNatPadded_two _ (by omega)]
    simp

theorem isClock_briefText (time : Clock) :
    IsClock time.briefText (row (pair time.hour), row (pair time.minute), writtenSecond time) := by
  obtain ⟨hh, hm, hs, -⟩ := time.valid
  have hour := decimals_row (areDigits_pair (show time.hour < 100 by omega))
  have minute := decimals_row (areDigits_pair (show time.minute < 100 by omega))
  have second := decimals_row (areDigits_pair (show time.second < 100 by omega))
  rw [briefText_eq, writtenSecond]
  split
  · rw [List.append_nil]
    exact .minutes hour minute (List.cons_ne_nil _ _) (Nat.le_refl 2) rfl
  · exact .seconds hour minute second (List.cons_ne_nil _ _) (Nat.le_refl 2) rfl rfl

/-- What stands behind the third number of a date and is read as this time of day. -/
inductive Ends : Text → Text × Text × Text → Prop
  /-- Nothing stands there, and no time is given. -/
  | dateOnly : Ends [] ([], [], [])
  /-- A time of day behind one blank. -/
  | timed (time : Clock) :
      Ends (' ' :: time.briefText) (row (pair time.hour), row (pair time.minute), writtenSecond time)

theorem Ends.isEnding {ending : Text} {time : Text × Text × Text} (h : Ends ending time) : IsEnding ending time := by
  cases h with
  | dateOnly => exact .none
  | timed time =>
    have blanks : Blanks [' '] := List.forall_mem_singleton.mpr (by decide)
    exact .clock (.blanks blanks) (isClock_briefText time)

theorem Ends.apart {ending : Text} {time : Text × Text × Text} (h : Ends ending time) :
    ∀ c ∈ ending.head?, isDecimal c = false := by
  intro c first
  cases h with
  | dateOnly => cases first
  | timed =>
    obtain rfl := Option.some.inj first
    decide

/-- Three numbers with a separator between them and perhaps a time behind are read as written. -/
theorem ofText?_rows (ha : IsField a) (hb : IsField b) (hc : IsField c) (hsep : isSeparator sep = true)
    {ending : Text} {time : Text × Text × Text} (h : Ends ending time) :
    ofText? (row a ++ sep :: (row b ++ sep :: (row c ++ ending))) =
      some { first := row a, second := row b, third := row c,
             hour := time.1, minute := time.2.1, secondOfMinute := time.2.2 } := by
  have empty : Blanks [] := nofun
  have link : IsLink [sep] := .mk empty hsep empty
  have writes : Writes (row a ++ sep :: (row b ++ sep :: (row c ++ ending)))
      { first := row a, second := row b, third := row c,
        hour := time.1, minute := time.2.1, secondOfMinute := time.2.2 } ending :=
    ⟨ha.isNumber, hb.isNumber, hc.isNumber, ⟨[sep], [sep], link, link, rfl⟩, h.isEnding⟩
  exact writes.ofText?_eq h.apart

end Rows

/-! ### What the numbers stand for -/

theorem size_row {a : List Nat} (h : IsField a) : size (row a) = digitsValue a := by
  rw [size, readNat?_row h.areDigits h.ne_nil, if_pos (Nat.le_trans h.length_le (by decide))]
  rfl

theorem size_pair {n : Nat} (h : n < 100) : size (row (pair n)) = n := by
  rw [size, readNat?_pair h]
  rfl

theorem size_short (padded : Bool) {n : Nat} (h : n < 100) : size (row (shortDigits padded n)) = n := by
  rw [size_row (isField_short padded h), digitsValue_short]

theorem size_writtenSecond (time : Clock) : size (writtenSecond time) = time.second := by
  have hs := time.valid.2.2.1
  unfold writtenSecond
  split
  · rename_i h0
    rw [h0]
    rfl
  · exact size_pair (by omega)

theorem marksYear_short (padded : Bool) {n : Nat} (h : n ≤ 31) : marksYear (row (shortDigits padded n)) = false := by
  have hlength : (row (shortDigits padded n)).length ≠ 4 := by
    rcases shortDigits_eq padded n with he | ⟨-, he⟩ <;> simp [he, row, pair]
  rw [marksYear, size_short padded (by omega)]
  simpa [hlength] using h

theorem marksYear_quad (n : Nat) : marksYear (row (quad n)) = true := by
  simp [marksYear, row, quad]

theorem yearOf_quad {n : Nat} (h : n < 10000) : yearOf (row (quad n)) = n := by
  rw [yearOf, if_neg (by simp [row, quad]), size, readNat?_quad h]
  rfl

end NumericDate

open NumericDate

namespace Day

/-- The digits of the three numbers of a day in the order of a format. -/
def writtenDigits (d : Day) (format : LocaleFormat) : List Nat × List Nat × List Nat :=
  let day := shortDigits format.zeroPad d.day
  let month := shortDigits format.zeroPad d.month
  match format.order with
  | .monthDayYear => (month, day, quad d.year)
  | .dayMonthYear => (day, month, quad d.year)
  | .yearMonthDay => (quad d.year, month, day)

variable (d : Day) (format : LocaleFormat)

theorem numericText_eq : d.numericText format = row (d.writtenDigits format).1 ++
    format.separator :: (row (d.writtenDigits format).2.1 ++ format.separator :: row (d.writtenDigits format).2.2) := by
  obtain ⟨hy, hm, hd⟩ := d.parts_lt
  have three : ∀ a b c : Text, joinWith [format.separator] [a, b, c] =
      a ++ format.separator :: (b ++ format.separator :: c) := by
    intro a b c
    simp [joinWith]
  simp only [numericText, ofNatPadded_short format.zeroPad hm, ofNatPadded_short format.zeroPad hd,
    ofNatPadded_four hy, writtenDigits]
  cases format.order <;> exact three _ _ _

theorem isField_writtenDigits : IsField (d.writtenDigits format).1 ∧ IsField (d.writtenDigits format).2.1 ∧
    IsField (d.writtenDigits format).2.2 := by
  obtain ⟨hy, hm, hd⟩ := d.parts_lt
  have hday := isField_short format.zeroPad hd
  have hmonth := isField_short format.zeroPad hm
  have hyear := isField_quad hy
  unfold writtenDigits
  cases format.order
  · exact ⟨hmonth, hday, hyear⟩
  · exact ⟨hday, hmonth, hyear⟩
  · exact ⟨hyear, hmonth, hday⟩

/-- The numbers of a written day stand for it, and for the time that is given with it. -/
theorem stamp?_writtenDigits (time : Text × Text × Text) :
    NumericDate.stamp? { first := row (d.writtenDigits format).1, second := row (d.writtenDigits format).2.1,
                         third := row (d.writtenDigits format).2.2, hour := time.1, minute := time.2.1,
                         secondOfMinute := time.2.2 } format =
      Stamp.of? d.year d.month d.day (size time.1) (size time.2.1) (size time.2.2) 0 := by
  obtain ⟨hy, hm, hd⟩ := d.parts_lt
  have hmonth := d.month_bounds
  have hday : d.day ≤ 31 := Nat.le_trans d.day_bounds.2 (daysInMonth_le _ _)
  have hdayMark := marksYear_short format.zeroPad hday
  have hmonthMark := marksYear_short format.zeroPad (n := d.month) (by omega)
  have hsize := size_short format.zeroPad hm
  have hsize' := size_short format.zeroPad hd
  have hyear := yearOf_quad hy
  unfold NumericDate.stamp? NumericDate.splitYear? writtenDigits
  -- A number above 12 is the day wherever it stands; otherwise the format's order decides.
  cases horder : format.order <;>
    simp only [hdayMark, hmonthMark, marksYear_quad, Option.bind_eq_bind, Option.bind_some, hsize, hsize', hyear] <;>
    unfold dayAndMonth? <;> simp only [horder, DateOrder.dayFirst] <;>
    rw [if_neg (by omega)] <;>
    by_cases h12 : 12 < d.day <;>
    simp [h12, Nat.not_lt.mpr hmonth.2]

/-- A written day is read as numbers that stand for it, and for the time of day that stands behind it. -/
theorem ofText?_numericText (hsep : isSeparator format.separator = true) {ending : Text} {time : Text × Text × Text}
    (h : Ends ending time) : ∃ numbers, NumericDate.ofText? (d.numericText format ++ ending) = some numbers ∧
      numbers.stamp? format = Stamp.of? d.year d.month d.day (size time.1) (size time.2.1) (size time.2.2) 0 := by
  obtain ⟨h₁, h₂, h₃⟩ := d.isField_writtenDigits format
  refine ⟨_, ?_, d.stamp?_writtenDigits format time⟩
  rw [d.numericText_eq]
  simp only [List.append_assoc, List.cons_append]
  exact ofText?_rows h₁ h₂ h₃ hsep h

end Day

/-! ### The ISO form -/

namespace Iso

variable {sep : Char} {ending : Text} {time : Text × Text × Text}

theorem hasForm_short (padded : Bool) (n : Nat) (hsep : isSeparator sep = true) (rest : Text) :
    hasForm (row (shortDigits padded n) ++ sep :: rest) = false := by
  have hdecimal := (isBlank_of_isSeparator hsep).2
  rcases shortDigits_eq padded n with he | ⟨-, he⟩ <;> rw [he] <;> unfold hasForm <;> split <;>
    simp_all [row, pair]

/-- With the year first a date has the ISO form only if every number has all its digits, hyphens stand
    between them, and no time of day follows. -/
theorem of_hasForm {year : Nat} {padded : Bool} {month day : Nat} (hsep : isSeparator sep = true)
    (h : Ends ending time) (hform : hasForm (row (quad year) ++ sep :: (row (shortDigits padded month) ++
      sep :: (row (shortDigits padded day) ++ ending))) = true) :
    sep = '-' ∧ shortDigits padded month = pair month ∧ shortDigits padded day = pair day ∧ ending = [] := by
  have hblank : isDecimal ' ' = false := by decide
  rcases isSeparator_cases hsep with rfl | rfl | rfl
  · simp [hasForm, row, quad] at hform
  · simp [hasForm, row, quad] at hform
  rcases shortDigits_eq padded month with hm | ⟨-, hm⟩ <;> rcases shortDigits_eq padded day with hd | ⟨-, hd⟩ <;>
    cases h <;> simp [hasForm, row, quad, pair, hm, hd, hblank] at hform ⊢

theorem read?_pairs (d : Day) : read? (row (quad d.year) ++ '-' :: (row (pair d.month) ++ '-' :: row (pair d.day))) =
    some (.ofDay d) := by
  obtain ⟨hy, hm, hd⟩ := d.parts_lt
  have hplain : ∀ n < 10, isPlain (Nat.digitChar n) = true := by decide
  have hall : ∀ {digits : List Nat}, AreDigits digits → (row digits).all isPlain = true := by
    intro digits h
    rw [List.all_eq_true]
    intro c hc
    obtain ⟨n, hn, rfl⟩ := mem_row h hc
    exact hplain n hn
  have hyear : Text.readNat? ((row (quad d.year) ++ '-' :: (row (pair d.month) ++ '-' :: row (pair d.day))).take 4) =
      some d.year := readNat?_quad hy
  have hmonth : Text.readNat? (((row (quad d.year) ++ '-' :: (row (pair d.month) ++ '-' :: row (pair d.day))).drop 5).take 2) =
      some d.month := readNat?_pair hm
  have hday : Text.readNat? (((row (quad d.year) ++ '-' :: (row (pair d.month) ++ '-' :: row (pair d.day))).drop 8).take 2) =
      some d.day := readNat?_pair hd
  have hof : Day.of? d.year d.month d.day = some d := Day.of?_eq_some.mpr ⟨rfl, rfl, rfl⟩
  unfold read?
  rw [if_neg, hyear, hmonth, hday]
  · simp only [Option.bind_eq_bind, Option.bind_some, hof]
    rfl
  · simp [List.all_append, hall (areDigits_quad hy), hall (areDigits_pair hm), hall (areDigits_pair hd),
      show isPlain '-' = true from by decide]

/-- Read as an ISO date, a written day is that day or nothing. -/
theorem read?_numericText (d : Day) (format : LocaleFormat) (hsep : isSeparator format.separator = true)
    (h : Ends ending time) :
    (if hasForm (d.numericText format ++ ending) then read? (d.numericText format ++ ending) else none) = none ∨
      ending = [] ∧ (if hasForm (d.numericText format ++ ending) then read? (d.numericText format ++ ending) else none) =
        some (.ofDay d) := by
  split
  · rename_i hform
    refine .inr ?_
    rw [Day.numericText_eq] at hform ⊢
    simp only [List.append_assoc, List.cons_append] at hform ⊢
    unfold Day.writtenDigits at hform ⊢
    cases horder : format.order <;> simp only [horder] at hform ⊢
    · rw [hasForm_short _ _ hsep] at hform
      cases hform
    · rw [hasForm_short _ _ hsep] at hform
      cases hform
    · obtain ⟨hhyphen, hmonth, hday, rfl⟩ := of_hasForm hsep h hform
      refine ⟨rfl, ?_⟩
      rw [hhyphen, hmonth, hday, List.append_nil]
      exact read?_pairs d
  · exact .inl rfl

end Iso

/-! ### Reading what was written -/

theorem NumericDate.noBlank_briefText (time : Clock) : NoBlank time.briefText := by
  obtain ⟨hh, hm, hs, -⟩ := time.valid
  have hminute := noBlank_row (areDigits_pair (show time.minute < 100 by omega))
  have hsecond := noBlank_row (areDigits_pair (show time.second < 100 by omega))
  rw [briefText_eq]
  refine (noBlank_row (areDigits_pair (by omega))).append ((hminute.append ?_).cons (by decide))
  split
  · exact fun c hc => absurd hc List.not_mem_nil
  · exact hsecond.cons (by decide)

theorem Day.noBlank_numericText (d : Day) {format : LocaleFormat} (hsep : isSeparator format.separator = true) :
    NoBlank (d.numericText format) := by
  obtain ⟨h₁, h₂, h₃⟩ := d.isField_writtenDigits format
  have hblank := (isBlank_of_isSeparator hsep).1
  rw [d.numericText_eq]
  exact (noBlank_row h₁.areDigits).append (((noBlank_row h₂.areDigits).append
    ((noBlank_row h₃.areDigits).cons hblank)).cons hblank)

namespace Stamp

/-- The timestamp that a text in numbers keeps: with the time of day or without. -/
def kept (s : Stamp) : DateMode → Stamp
  | .date => .ofDay s.day
  | .dateTime => s.plain

variable {format : LocaleFormat}

/-- A timestamp that is written in numbers is read back, the current year and the part of a second being
    of no account. -/
theorem resolve_textIn (s : Stamp) (hsep : isSeparator format.separator = true) (mode : DateMode) (currentYear : Nat) :
    DateText.resolve currentYear (.ok format) (s.textIn format mode .short) = .ok (some (s.kept mode)) := by
  obtain ⟨hh, hm, hs, -⟩ := s.clock.valid
  have hday := s.day.noBlank_numericText hsep
  have hne : s.day.numericText format ≠ [] := by simp [s.day.numericText_eq]
  obtain ⟨ending, time, htext, hends, htrim, hstamp, hdateOnly⟩ : ∃ ending time,
      s.textIn format mode .short = s.day.numericText format ++ ending ∧ Ends ending time ∧
      trim (s.day.numericText format ++ ending) = s.day.numericText format ++ ending ∧
      Stamp.of? s.day.year s.day.month s.day.day (size time.1) (size time.2.1) (size time.2.2) 0 = some (s.kept mode) ∧
      (ending = [] → s.kept mode = .ofDay s.day) := by
    cases mode with
    | date =>
      refine ⟨[], _, (List.append_nil _).symm, .dateOnly, ?_, (Stamp.ofDay s.day).of?_plain, fun _ => rfl⟩
      rw [List.append_nil]
      exact hday.trim_eq
    | dateTime =>
      refine ⟨' ' :: s.clock.briefText, _, rfl, .timed s.clock, ?_, ?_, fun he => by simp at he⟩
      · exact hday.trim_pair (noBlank_briefText s.clock) hne (by simp [briefText_eq]) [' ']
      · rw [size_pair (by omega), size_pair (by omega), size_writtenSecond]
        exact s.of?_plain
  obtain ⟨numbers, hnumbers, hof⟩ := s.day.ofText?_numericText format hsep hends
  unfold DateText.resolve
  rw [htext, htrim]
  -- The ISO reader comes first; it finds nothing or the same day.
  rcases Iso.read?_numericText s.day format hsep hends with hnone | ⟨rfl, hsome⟩
  · simp only [hnone, hnumbers]
    rw [Except.map, hof, hstamp]
  · simp only [hsome, hdateOnly rfl]

end Stamp

namespace LocaleFormat

/-- Every format that a tag can stand for has a separator that dates in numbers are read with. -/
theorem isSeparator_ofTag (tag : Text) : isSeparator (ofTag tag).separator = true := by
  have hknown : ∀ entry ∈ known, isSeparator entry.2.separator = true := by decide
  unfold ofTag
  split
  · rfl
  · dsimp only
    split
    · rename_i h
      exact hknown _ (List.mem_of_find?_eq_some h)
    · split
      · rename_i h
        exact hknown _ (List.mem_of_find?_eq_some h)
      · rfl

/-- A locale that is given by its tag or not at all has a format. -/
theorem ofDatum_eq_ok (tag : Option Text) : ∃ format, ofDatum (tag.elim .null .text) = .ok format ∧
    isSeparator format.separator = true := by
  cases tag with
  | none => exact ⟨british, ofDatum_null, rfl⟩
  | some tag => exact ⟨ofTag tag, ofDatum_text tag, isSeparator_ofTag tag⟩

end LocaleFormat

/-- In every locale the short text of a timestamp of whole seconds with its time of day is read back as
    the timestamp, and its short text without the time of day as the start of its day. -/
theorem Datum.stampIn_dateText (s : Stamp) (hlocal : s.zone = none) (hwhole : s.clock.micro = 0) (tag : Option Text)
    (currentYear : Nat) :
    (∃ text, (Datum.stamp s).dateText (LocaleFormat.ofDatum (tag.elim .null .text)) (.text DateMode.dateTime.token)
        (.text DateStyle.short.token) = .ok text ∧
      (Datum.text text).stampIn currentYear (LocaleFormat.ofDatum (tag.elim .null .text)) = .ok s) ∧
    ∃ text, (Datum.stamp s).dateText (LocaleFormat.ofDatum (tag.elim .null .text)) (.text DateMode.date.token)
        (.text DateStyle.short.token) = .ok text ∧
      (Datum.text text).stampIn currentYear (LocaleFormat.ofDatum (tag.elim .null .text)) = .ok s.startOfDay := by
  obtain ⟨format, hformat, hsep⟩ := LocaleFormat.ofDatum_eq_ok tag
  have hstart : s.startOfDay = .ofDay s.day := by
    rw [Stamp.startOfDay, hlocal]
    rfl
  have hread : ∀ mode, (Datum.text (s.textIn format mode .short)).stampIn currentYear (.ok format) = .ok (s.kept mode) := by
    intro mode
    rw [Datum.stampIn, DateText.read, s.resolve_textIn hsep]
  rw [hformat]
  refine ⟨⟨s.textIn format .dateTime .short, rfl, ?_⟩, s.textIn format .date .short, rfl, ?_⟩
  · rw [hread, Stamp.kept, Stamp.plain_eq_self hlocal hwhole]
  · rw [hread, Stamp.kept, hstart]

/-- An afternoon in February of year 7. -/
def Stamp.earlyAfternoon : Stamp := ⟨⟨7, 2, 3, by decide⟩, ⟨16, 5, 9, 0, by decide⟩, none⟩

theorem Datum.stampIn_dateText_earlyAfternoon :
    Stamp.earlyAfternoon.zone = none ∧ Stamp.earlyAfternoon.clock.micro = 0 ∧
      (Datum.stamp Stamp.earlyAfternoon).dateText (LocaleFormat.ofDatum (.text "sv-SE".toList))
        (.text DateMode.dateTime.token) (.text DateStyle.short.token) = .ok "0007-02-03 16:05:09".toList ∧
      (Datum.text "0007-02-03 16:05:09".toList).stampIn 2025 (LocaleFormat.ofDatum (.text "sv-SE".toList)) =
        .ok Stamp.earlyAfternoon := by
  have hwritten : (Datum.stamp Stamp.earlyAfternoon).dateText (LocaleFormat.ofDatum (.text "sv-SE".toList))
      (.text DateMode.dateTime.token) (.text DateStyle.short.token) = .ok "0007-02-03 16:05:09".toList := by rfl
  obtain ⟨text, written, read⟩ := (Datum.stampIn_dateText Stamp.earlyAfternoon rfl rfl (some "sv-SE".toList) 2025).1
  obtain rfl := Except.ok.inj (hwritten.symm.trans written)
  exact ⟨rfl, rfl, hwritten, read⟩

end Cadence
