import Cadence.Proofs.Calendar.Week
import Cadence.Proofs.DateText.Words
import Cadence.Proofs.Rule.Reading
import Cadence.Rule.Build

/-!
# Rules built from fields

The parts of the rule that the fields of a recurrence make, and what they say when they are evaluated and
when they are checked: the pattern's frequency, the interval, the end, and the days.
-/

namespace Cadence

open Text

/-! ### Small values -/

theorem ofNat_le_maxDigits {n : Nat} (h : n < 10000) : (Text.ofNat n).length ≤ maxDigits := by
  have : (Text.ofNat n).length ≤ 4 := (Nat.length_toDigits_le_iff (by decide) (by decide)).mpr h
  exact Nat.le_trans this (by decide)

theorem isPlainValue_ofNat (n : Nat) : IsPlainValue (Text.ofNat n) where
  nonempty := ofNat_ne_nil n
  noBlank := noBlank_ofNat n
  upper := upper_ofNat n
  semicolon := not_mem_ofNat n (by decide)
  equals := not_mem_ofNat n (by decide)
  colon := not_mem_ofNat n (by decide)

theorem isPlainValue_compact (s : Stamp) : IsPlainValue (Compact.text s) where
  nonempty := Compact.text_ne_nil s
  noBlank := Compact.noBlank_text s
  upper := Compact.upper_text s
  semicolon := Compact.not_mem_text s (by decide) (by decide)
  equals := Compact.not_mem_text s (by decide) (by decide)
  colon := Compact.not_mem_text s (by decide) (by decide)

theorem shortInt?_ofNat : ∀ n ≤ 31, RuleText.shortInt? (Text.ofNat n) = some (n : Int) := by decide

theorem integers?_ofNat {n : Nat} (h : n < 10000) : RuleSpec.integers? (Text.ofNat n) = some [(n : Int)] := by
  rw [RuleSpec.integers?, splitOn_of_not_mem (not_mem_ofNat n (by decide)), List.mapM_cons,
    readInt?_ofNat, if_pos (ofNat_le_maxDigits h)]
  rfl

theorem nonEmptyItems_ofNat (n : Nat) : nonEmptyItems (Text.ofNat n) = [Text.ofNat n] := by
  have h : ∀ p ∈ [Text.ofNat n], ',' ∉ p ∧ p ≠ [] := by
    intro p hp
    rw [List.mem_singleton.mp hp]
    exact ⟨not_mem_ofNat n (by decide), ofNat_ne_nil n⟩
  exact nonEmptyItems_joinWith h

/-! ### Weekdays with positions -/

/-- The positions that weekdays have in a month. -/
def monthPositions : List Int := [-1, 1, 2, 3, 4, 5]

/-- A weekday and its position as a rule names them. -/
def placedText (w : Weekday) (p : Int) : Text := Text.ofInt p ++ w.symbol

theorem isPlainValue_placedText : ∀ p ∈ monthPositions, ∀ w ∈ Weekday.all, IsPlainValue (placedText w p) := by decide

theorem weekday?_placedText : ∀ p ∈ monthPositions, ∀ w ∈ Weekday.all,
    RuleSpec.weekdays? (placedText w p) = some [(w, some p)] := by decide

theorem nonEmptyItems_placedText : ∀ p ∈ monthPositions, ∀ w ∈ Weekday.all,
    nonEmptyItems (placedText w p) = [placedText w p] := by decide

theorem weekdayItem?_placedText : ∀ p ∈ monthPositions, ∀ w ∈ Weekday.all,
    RuleText.weekdayItem? (placedText w p) = some (some p, w) := by decide

theorem weekday?_symbol : ∀ w ∈ Weekday.all, RuleSpec.weekday? w.symbol = some (w, none) := by decide

theorem weekdayItem?_symbol : ∀ w ∈ Weekday.all, RuleText.weekdayItem? w.symbol = some (none, w) := by decide

theorem symbol_marks : ∀ w ∈ Weekday.all, ',' ∉ w.symbol ∧ w.symbol ≠ [] := by decide

theorem Weekday.mem_all (w : Weekday) : w ∈ Weekday.all := by cases w <;> decide

/-- The symbols of weekdays with commas between them. -/
def symbolsText (days : List Weekday) : Text := Text.joinWith [','] (days.map (·.symbol))

theorem isPlainValue_symbol : ∀ w ∈ Weekday.all, IsPlainValue w.symbol := by decide

theorem mem_symbolsText {days : List Weekday} {c : Char} (member : c ∈ symbolsText days) :
    c = ',' ∨ ∃ w ∈ Weekday.all, c ∈ w.symbol := by
  rcases mem_joinWith member with comma | ⟨symbol, symbols, member⟩
  · exact Or.inl comma
  · obtain ⟨w, -, rfl⟩ := List.mem_map.mp symbols
    exact Or.inr ⟨w, w.mem_all, member⟩

theorem not_mem_symbolsText {days : List Weekday} {c : Char} (comma : c ≠ ',') (symbol : ∀ w ∈ Weekday.all, c ∉ w.symbol) :
    c ∉ symbolsText days := by
  intro member
  rcases mem_symbolsText member with rfl | ⟨w, mem, member⟩
  · exact comma rfl
  · exact symbol w mem member

theorem isPlainValue_symbolsText {days : List Weekday} (hne : days ≠ []) : IsPlainValue (symbolsText days) where
  nonempty := by
    obtain ⟨w, days, rfl⟩ := List.exists_cons_of_ne_nil hne
    have hw := (isPlainValue_symbol w w.mem_all).nonempty
    cases days with
    | nil => exact hw
    | cons v days =>
      rw [symbolsText, List.map_cons, List.map_cons, joinWith_cons_cons]
      simp [hw]
  noBlank := by
    intro c member
    rcases mem_symbolsText member with rfl | ⟨w, mem, member⟩
    · decide
    · exact (isPlainValue_symbol w mem).noBlank c member
  upper := by
    intro c member
    rcases mem_symbolsText member with rfl | ⟨w, mem, member⟩
    · decide
    · exact (isPlainValue_symbol w mem).upper c member
  semicolon := not_mem_symbolsText (by decide) fun w mem => (isPlainValue_symbol w mem).semicolon
  equals := not_mem_symbolsText (by decide) fun w mem => (isPlainValue_symbol w mem).equals
  colon := not_mem_symbolsText (by decide) fun w mem => (isPlainValue_symbol w mem).colon

theorem nonEmptyItems_symbolsText (days : List Weekday) : nonEmptyItems (symbolsText days) = days.map (·.symbol) := by
  refine nonEmptyItems_joinWith fun p hp => ?_
  obtain ⟨w, -, rfl⟩ := List.mem_map.mp hp
  exact symbol_marks w w.mem_all

theorem weekdays?_symbolsText {days : List Weekday} (hne : days ≠ []) :
    RuleSpec.weekdays? (symbolsText days) = some (days.map fun w => (w, none)) := by
  have hcommas : ∀ p ∈ days.map (·.symbol), ',' ∉ p := by
    intro p hp
    obtain ⟨w, -, rfl⟩ := List.mem_map.mp hp
    exact (symbol_marks w w.mem_all).1
  have hread : ∀ l : List Weekday, (l.map (·.symbol)).mapM RuleSpec.weekday? = some (l.map fun w => (w, none)) := by
    intro l
    induction l with
    | nil => rfl
    | cons w l ih =>
      rw [List.map_cons, List.mapM_cons, weekday?_symbol w w.mem_all, ih]
      rfl
  rw [RuleSpec.weekdays?, symbolsText, splitOn_joinWith (by simpa using hne) hcommas]
  exact hread days

/-! ### The parts of the rule -/

namespace Pattern

/-- How often the periods of a pattern follow each other. -/
def rate : Pattern → Frequency
  | day => .daily | week => .weekly | month => .monthly | year => .yearly

theorem isPlainValue_frequency (p : Pattern) : IsPlainValue p.frequency := by cases p <;> decide

theorem ofName?_frequency (p : Pattern) : Frequency.ofName? p.frequency = some p.rate := by cases p <;> decide

theorem isTimed_rate (p : Pattern) : p.rate.isTimed = false := by cases p <;> rfl

end Pattern

namespace RuleFields

variable {f : RuleFields} {p : Int}

/-- The rule falls on a weekday at a position. -/
def isPlaced (f : RuleFields) : Bool :=
  match f.pattern with
  | .month => f.monthlyOption = .weekday
  | .year => f.yearlyOption = .weekday
  | _ => false

/-- The rule falls on a day of the month. -/
def isDated (f : RuleFields) : Bool :=
  match f.pattern with
  | .month => f.monthlyOption = .day
  | .year => f.yearlyOption = .date
  | _ => false

/-- The weekdays of the rule, with the position that they have if they are placed. -/
def byDay (f : RuleFields) (p : Int) : Option Text :=
  if f.isPlaced then some (placedText f.start.day.weekday p)
  else if f.pattern = .week ∧ Weekday.sorted f.selectedDays ≠ [] then some (symbolsText (Weekday.sorted f.selectedDays))
  else none

/-- The day of the month of the rule. -/
def byMonthDay (f : RuleFields) : Option Text := if f.isDated then some (Text.ofNat f.start.day.day) else none

/-- The month of the rule. -/
def byMonth (f : RuleFields) : Option Text := if f.pattern = .year then some (Text.ofNat f.start.day.month) else none

/-- The part with a value, if there is one. -/
def optional (key : RuleKey) (value : Option Text) : List (RuleKey × Text) := (value.map fun v => (key, v)).toList

/-- The position on which the rule falls, if it falls on one. A weekly rule has fewer than seven weekdays. -/
def position (f : RuleFields) : Result Int :=
  if f.pattern = .week ∧ (Weekday.sorted f.selectedDays).length = 7 then .error (.cannotBuild .allWeekdays)
  else if f.isPlaced then orFault .range f.start.day.weekdayPosition?
  else .ok 0

/-- Rules have the parts that their patterns ask for. -/
theorem dayParts_eq (f : RuleFields) : f.dayParts = f.position.map fun p =>
    optional .byDay (f.byDay p) ++ optional .byMonthDay f.byMonthDay ++ optional .byMonth f.byMonth := by
  have placed : f.positionPart =
      (orFault .range f.start.day.weekdayPosition?).map fun p => (.byDay, placedText f.start.day.weekday p) := by
    unfold positionPart Day.positionText?
    cases f.start.day.weekdayPosition? <;> rfl
  cases pattern : f.pattern with
  | day => simp [dayParts, position, byDay, byMonthDay, byMonth, isPlaced, isDated, pattern, optional, Except.map]
  | week =>
    simp only [dayParts, pattern, weekParts, position, true_and, isPlaced, Bool.false_eq_true, if_false]
    split
    · rfl
    · by_cases none : Weekday.sorted f.selectedDays = []
      · simp [byDay, byMonthDay, byMonth, isPlaced, isDated, pattern, none, optional, Except.map]
      · simp [byDay, byMonthDay, byMonth, isPlaced, isDated, pattern, none, optional, Except.map, symbolsText]
  | month =>
    cases option : f.monthlyOption with
    | day =>
      simp [dayParts, position, byDay, byMonthDay, byMonth, isPlaced, isDated, pattern, option, optional, dayPart, Except.map]
    | weekday =>
      cases found : f.start.day.weekdayPosition? <;>
        simp [dayParts, position, byDay, byMonthDay, byMonth, isPlaced, isDated, pattern, option, placed, found, orFault,
          optional, Except.map]
  | year =>
    cases option : f.yearlyOption with
    | date =>
      simp [dayParts, position, byDay, byMonthDay, byMonth, isPlaced, isDated, pattern, option, optional, dayPart, monthPart,
        Except.map]
    | weekday =>
      cases found : f.start.day.weekdayPosition? <;>
        simp [dayParts, position, byDay, byMonthDay, byMonth, isPlaced, isDated, pattern, option, placed, found, orFault,
          optional, monthPart, Except.map]

/-- The rule of the fields when the position is known on which it may fall. -/
def ruleOf (f : RuleFields) (p : Int) : RuleText :=
  { parts := [(.freq, f.pattern.frequency), (.interval, f.interval)] ++ optional .until (f.finish.map Compact.text) ++
      (optional .byDay (f.byDay p) ++ optional .byMonthDay f.byMonthDay ++ optional .byMonth f.byMonth) }

theorem rule_eq (f : RuleFields) : f.rule = f.position.map f.ruleOf := by
  unfold RuleFields.rule ruleOf finishParts
  rw [dayParts_eq]
  cases f.position <;> cases f.finish <;> rfl

theorem position_eq_ok (got : f.position = .ok p) :
    (f.isPlaced = true → f.start.day.weekdayPosition? = some p) ∧
      (f.pattern = .week → (Weekday.sorted f.selectedDays).length ≠ 7) := by
  unfold position at got
  split at got
  · cases got
  · rename_i few
    refine ⟨fun placed => ?_, fun week seven => few ⟨week, seven⟩⟩
    rw [if_pos placed] at got
    cases found : f.start.day.weekdayPosition? with
    | none => simp [found, orFault] at got
    | some q =>
      simp only [found, orFault, Except.ok.injEq] at got
      rw [got]

theorem get?_ruleOf (f : RuleFields) (p : Int) (key : RuleKey) :
    (f.ruleOf p).get? key =
      match key with
      | .freq => some f.pattern.frequency
      | .interval => some f.interval
      | .until => f.finish.map Compact.text
      | .byDay => f.byDay p
      | .byMonthDay => f.byMonthDay
      | .byMonth => f.byMonth
      | _ => none := by
  unfold ruleOf
  generalize f.finish.map Compact.text = u
  generalize f.byDay p = d
  generalize f.byMonthDay = m
  generalize f.byMonth = n
  cases u <;> cases d <;> cases m <;> cases n <;> cases key <;> rfl

theorem isImportable_ruleOf (f : RuleFields) (p : Int) : (f.ruleOf p).IsImportable := by
  intro key hkey
  rw [get?_ruleOf]
  cases key <;> first | rfl | cases hkey

/-- The fields make a rule that can be read back: the interval is a number, and the position is that of the
    start where the rule falls on one. -/
structure IsSound (f : RuleFields) (n : Nat) (p : Int) : Prop where
  interval : f.interval = Text.ofNat n
  pos : 1 ≤ n
  placed : f.isPlaced = true → f.start.day.weekdayPosition? = some p

theorem mem_monthPositions {d : Day} (h : d.weekdayPosition? = some p) : p ∈ monthPositions := by
  have hd := d.day_bounds
  have hle := daysInMonth_le d.year d.month
  obtain ⟨-, rfl⟩ := Day.weekdayPosition?_eq_some.mp h
  split
  · decide
  · have hrange : ∀ k < 5, ((k + 1 : Nat) : Int) ∈ monthPositions := by decide
    rw [d.weekdayOrdinal_eq]
    exact hrange _ (by omega)

section Sound
variable {n : Nat} (hf : f.IsSound n p)
include hf

theorem arePlain_ruleOf : RuleText.ArePlain (f.ruleOf p).parts := by
  have hopt : ∀ {key : RuleKey} {value : Option Text}, (∀ v, value = some v → IsPlainValue v) →
      ∀ part ∈ optional key value, IsPlainValue part.2 := by
    intro key value hv part hp
    cases value with
    | none => simp [optional] at hp
    | some v =>
      obtain rfl : part = (key, v) := by simpa [optional] using hp
      exact hv v rfl
  intro part hp
  simp only [ruleOf, List.mem_append, List.mem_cons, List.not_mem_nil, or_false] at hp
  rcases hp with ((rfl | rfl) | hp) | (hp | hp) | hp
  · exact f.pattern.isPlainValue_frequency
  · exact hf.interval ▸ isPlainValue_ofNat n
  · refine hopt (fun v hv => ?_) part hp
    obtain ⟨e, he, rfl⟩ := Option.map_eq_some_iff.mp hv
    exact isPlainValue_compact e
  · refine hopt (fun v hv => ?_) part hp
    unfold byDay at hv
    split at hv
    · rename_i hplaced
      cases hv
      exact isPlainValue_placedText p (mem_monthPositions (hf.placed hplaced)) _ (Weekday.mem_all _)
    · split at hv
      · rename_i hweek
        cases hv
        exact isPlainValue_symbolsText hweek.2
      · cases hv
  · refine hopt (fun v hv => ?_) part hp
    unfold byMonthDay at hv
    split at hv
    · cases hv
      exact isPlainValue_ofNat _
    · cases hv
  · refine hopt (fun v hv => ?_) part hp
    unfold byMonth at hv
    split at hv
    · cases hv
      exact isPlainValue_ofNat _
    · cases hv

/-! ### What the rule says -/

omit hf in
/-- The rule of the fields as it is evaluated. -/
def spec (f : RuleFields) (n : Nat) (p : Int) : RuleSpec where
  frequency := some f.pattern.rate
  every := n
  finish := f.finish.map (·.plain)
  weekdays :=
    if f.isPlaced then some [(f.start.day.weekday, some p)]
    else if f.pattern = .week ∧ Weekday.sorted f.selectedDays ≠ [] then
      some ((Weekday.sorted f.selectedDays).map fun w => (w, none))
    else none
  monthDays := if f.isDated then some [(f.start.day.day : Int)] else none
  months := if f.pattern = .year then some [(f.start.day.month : Int)] else none

/-- The rule is read to its fields, its end however this is read. -/
theorem readFrom_ruleOf_until (today : Stamp) (hlen : (Text.ofNat n).length ≤ maxDigits) {finish : Option Stamp}
    (hfinish : f.finish.map (fun e => RuleSpec.until? today (Compact.text e)) = finish.map some) :
    RuleSpec.ReadFrom today (f.ruleOf p) { f.spec n p with finish } where
  count := rfl
  setPositions := rfl
  yearDays := rfl
  weekNumbers := rfl
  easterDays := rfl
  hours := rfl
  minutes := rfl
  seconds := rfl
  frequency := by simp only [get?_ruleOf, spec, Option.map_some, Pattern.ofName?_frequency]
  finish := by
    simp only [get?_ruleOf, Option.map_map]
    exact hfinish
  every := by simp only [get?_ruleOf, spec, hf.interval, Option.map_some, readInt?_ofNat, if_pos hlen, Option.getD_some]
  weekdays := by
    simp only [get?_ruleOf, spec, byDay]
    split
    · rename_i hplaced
      have := weekday?_placedText p (mem_monthPositions (hf.placed hplaced)) _ (Weekday.mem_all f.start.day.weekday)
      simp only [Option.map_some, this]
    · split
      · rename_i hweek
        simp only [Option.map_some, weekdays?_symbolsText hweek.2]
      · rfl
  monthDays := by
    have hday := f.start.day.parts_lt
    simp only [get?_ruleOf, spec, byMonthDay]
    split
    · simp only [Option.map_some, integers?_ofNat (show f.start.day.day < 10000 by omega)]
    · rfl
  months := by
    have hday := f.start.day.parts_lt
    simp only [get?_ruleOf, spec, byMonth]
    split
    · simp only [Option.map_some, integers?_ofNat (show f.start.day.month < 10000 by omega)]
    · rfl
  weekStart := by simp only [get?_ruleOf, spec, Option.map_none, Option.getD_none]

/-- An end in a year of four digits is read as it is written. -/
theorem readFrom_ruleOf (today : Stamp) (hlen : (Text.ofNat n).length ≤ maxDigits)
    (hyear : ∀ e, f.finish = some e → 1000 ≤ e.day.year) : RuleSpec.ReadFrom today (f.ruleOf p) (f.spec n p) := by
  refine readFrom_ruleOf_until hf today hlen ?_
  cases hfin : f.finish with
  | none => rfl
  | some e =>
    simp only [Option.map_some, RuleSpec.until?, RuleSpec.finishOf, FreeForm.readLocal_text (hyear e hfin), Except.toOption]

/-- Only an interval that is not too long is read. -/
theorem length_of_readFrom {today : Stamp} {spec : RuleSpec} (h : RuleSpec.ReadFrom today (f.ruleOf p) spec) :
    (Text.ofNat n).length ≤ maxDigits := by
  have hevery := h.every
  simp only [get?_ruleOf, hf.interval, Option.map_some, readInt?_ofNat, Option.getD_some] at hevery
  split at hevery
  · assumption
  · cases hevery

/-- The rule says nothing else than its fields, but for the end. -/
theorem spec_eq_of_readFrom {today : Stamp} {spec : RuleSpec} (h : RuleSpec.ReadFrom today (f.ruleOf p) spec) :
    spec = { f.spec n p with finish := spec.finish } := by
  have hfinish := h.finish
  rw [get?_ruleOf, Option.map_map] at hfinish
  have same := (RuleSpec.ofParts_eq_ok (isImportable_ruleOf f p)).mpr
    (readFrom_ruleOf_until hf today (length_of_readFrom hf h) hfinish)
  exact Except.ok.inj (((RuleSpec.ofParts_eq_ok (isImportable_ruleOf f p)).mpr h).symm.trans same)

/-! ### The checks -/

theorem checkWeekdays_ruleOf : (f.ruleOf p).checkWeekdays = .ok () := by
  have hpos : ∀ p ∈ monthPositions, 1 ≤ p.natAbs ∧ p.natAbs ≤ RuleText.maxPosition := by decide
  unfold RuleText.checkWeekdays RuleText.value
  rw [get?_ruleOf]
  simp only [byDay]
  split
  · rename_i hplaced
    have hp := mem_monthPositions (hf.placed hplaced)
    have hw := Weekday.mem_all f.start.day.weekday
    rw [Option.getD_some, nonEmptyItems_placedText p hp _ hw, forM_eq_ok]
    intro token ht
    rw [List.mem_singleton.mp ht, RuleText.checkWeekday, weekdayItem?_placedText p hp _ hw]
    exact if_pos (hpos p hp)
  · split
    · rw [Option.getD_some, nonEmptyItems_symbolsText, forM_eq_ok]
      intro token ht
      obtain ⟨w, -, rfl⟩ := List.mem_map.mp ht
      rw [RuleText.checkWeekday, weekdayItem?_symbol w w.mem_all]
    · rfl

omit hf in
theorem checkNumbers_of_ofNat {r : RuleText} {key : RuleKey} {limit k : Nat} {signed : Bool} {c : Prop} [Decidable c]
    (h : r.get? key = if c then some (Text.ofNat k) else none) (h₁ : 1 ≤ k) (h₂ : k ≤ limit) (h31 : k ≤ 31) :
    r.checkNumbers key limit signed = .ok () := by
  unfold RuleText.checkNumbers RuleText.value
  rw [h]
  split
  · rw [Option.getD_some, nonEmptyItems_ofNat, forM_eq_ok]
    intro value hv
    rw [List.mem_singleton.mp hv]
    simp only [shortInt?_ofNat k h31, Int.natAbs_natCast, h₁, h₂, Int.natCast_nonneg, true_or, and_self, if_true]
  · rfl

omit hf in
theorem integers_of_ofNat {r : RuleText} {key : RuleKey} {k : Nat} {c : Prop} [Decidable c]
    (h : r.get? key = if c then some (Text.ofNat k) else none) (hk : k < 10000) :
    r.integers key = if c then [(k : Int)] else [] := by
  unfold RuleText.integers RuleText.value
  rw [h]
  split
  · rw [Option.getD_some, nonEmptyItems_ofNat, List.filterMap_cons, readInt?_ofNat, if_pos (ofNat_le_maxDigits hk)]
    rfl
  · rfl

omit hf in
theorem checkMonthDays_ruleOf : (f.ruleOf p).checkMonthDays = .ok () := by
  have hday := f.start.day.day_bounds
  have hmonth := f.start.day.month_bounds
  have hlt := f.start.day.parts_lt
  have hlen := daysInMonth_le_leap f.start.day.year f.start.day.month
  unfold RuleText.checkMonthDays
  rw [integers_of_ofNat (get?_ruleOf f p .byMonth) (by omega), integers_of_ofNat (get?_ruleOf f p .byMonthDay) (by omega)]
  have hfalls : RuleText.fallsInMonth [(f.start.day.month : Int)] [(f.start.day.day : Int)] = true := by
    simp only [RuleText.fallsInMonth, List.any_cons, List.any_nil, Bool.or_false, Int.natAbs_natCast, Int.toNat_natCast,
      decide_eq_true_eq]
    omega
  split <;> split <;> simp [hfalls]

/-- The rule of the fields passes the checks of rule texts. -/
theorem check_ruleOf (hlen : (Text.ofNat n).length ≤ maxDigits) : (f.ruleOf p).check = .ok () := by
  have hday := f.start.day.day_bounds
  have hmonth := f.start.day.month_bounds
  have h31 := daysInMonth_le f.start.day.year f.start.day.month
  have hpos := hf.pos
  have hfreq : (f.ruleOf p).has .freq = true := by rw [RuleText.has, get?_ruleOf]; rfl
  have hinterval : (f.ruleOf p).checkInterval = .ok () := by
    unfold RuleText.checkInterval
    rw [get?_ruleOf]
    simp only [hf.interval, all_isDigit_ofNat, List.isEmpty_iff, ofNat_ne_nil, not_true, or_false, if_false, readInt?_ofNat,
      if_pos hlen]
    rw [if_neg (by omega)]
  unfold RuleText.check
  rw [hfreq, hinterval, checkWeekdays_ruleOf hf, checkNumbers_of_ofNat (get?_ruleOf f p .byMonth) hmonth.1 hmonth.2 (by omega),
    checkNumbers_of_ofNat (get?_ruleOf f p .byMonthDay) hday.1 (by omega) (by omega), checkMonthDays_ruleOf]
  rfl

end Sound

end RuleFields

end Cadence
