import Cadence.Proofs.Rule.Checked
import Cadence.Proofs.Rule.Lists

/-!
# What is evaluated is what was checked

A rule text is read twice: once when it is checked, and once more when it is evaluated, from a line that is
written anew. As long as no value of a part has blanks, both readings agree, whatever else the values hold:
the rule comes to a single schedule from its start on, and the schedule has the frequency, the interval, the
count, the end and the restrictions of the checked parts. A blank in a value ends the line, and what
comes behind it is evaluated as a line of its own.
-/

namespace Cadence

open Text

/-! ### The schedule of what has been read -/

namespace Schedule

variable {spec : RuleSpec} {start : Stamp} {frequency : Frequency} {s : Schedule}

/-- The schedule of a rule whose times have been worked out. -/
def made (spec : RuleSpec) (frequency : Frequency) (start : Stamp) (hours minutes seconds : List Int)
    (times : List Clock) : Schedule where
  frequency
  every := max 1 spec.every.toNat
  start := start.wholeSecond
  count := spec.count.map (·.toNat)
  finish := spec.finish
  weekStart := spec.weekStart
  setPositions := spec.setPositions.getD []
  months := sortedSet (monthsOf spec frequency start)
  monthDays := (sortedSet (monthDaysOf spec frequency start)).filter (· ≠ 0)
  yearDays := sortedSet (spec.yearDays.getD [])
  weekNumbers := sortedSet (spec.weekNumbers.getD [])
  easterDays := sortedSet (spec.easterDays.getD [])
  weekdays := plainWeekdays frequency (weekdaysOf spec frequency start)
  nthWeekdays := placedWeekdays frequency (weekdaysOf spec frequency start)
  hours
  minutes
  seconds
  times

/-- The times of a rule that is evaluated. -/
structure HasTimes (spec : RuleSpec) (frequency : Frequency) (start : Stamp) (hours minutes seconds : List Int)
    (times : List Clock) : Prop where
  hour : clockList spec.hours start.clock.hour 24 (max 1 spec.every.toNat) (frequency = .hourly) (! frequency.isTimed) =
    .ok hours
  minute : clockList spec.minutes start.clock.minute 60 (max 1 spec.every.toNat) (frequency = .minutely)
    (! frequency.isTimed || frequency = .hourly) = .ok minutes
  second : clockList spec.seconds start.clock.second 60 (max 1 spec.every.toNat) (frequency = .secondly)
    (frequency ≠ .secondly) = .ok seconds
  time : (if frequency.isTimed then Except.ok [] else timesOf hours minutes seconds) = .ok times

/-- What a schedule is made of. -/
theorem exists_made (evaluated : Schedule.of spec start = .ok s) : ∃ frequency hours minutes seconds times,
    spec.frequency = some frequency ∧ (spec.finish.isSome = true → start.zone = none) ∧
      (spec.setPositions.getD []).all isSetPosition = true ∧
      HasTimes spec frequency start hours minutes seconds times ∧
      s = made spec frequency start hours minutes seconds times := by
  unfold Schedule.of at evaluated
  cases named : spec.frequency with
  | none =>
    rw [named] at evaluated
    cases evaluated
  | some frequency =>
    rw [named] at evaluated
    dsimp only at evaluated
    split at evaluated
    · cases evaluated
    · rename_i zoned
      split at evaluated
      · cases evaluated
      · rename_i positions
        obtain ⟨hours, hHours, evaluated⟩ := bind_eq_ok.mp evaluated
        obtain ⟨minutes, hMinutes, evaluated⟩ := bind_eq_ok.mp evaluated
        obtain ⟨seconds, hSeconds, evaluated⟩ := bind_eq_ok.mp evaluated
        obtain ⟨times, hTimes, rfl⟩ : ∃ times,
            (if frequency.isTimed then Except.ok [] else timesOf hours minutes seconds) = .ok times ∧
              s = made spec frequency start hours minutes seconds times := by
          split at evaluated <;> rename_i timed
          · cases evaluated
            exact ⟨[], if_pos timed, rfl⟩
          · obtain ⟨times, found, evaluated⟩ := bind_eq_ok.mp evaluated
            cases evaluated
            exact ⟨times, (if_neg timed).trans found, rfl⟩
        refine ⟨frequency, hours, minutes, seconds, times, rfl, fun ends => ?_, by simpa using positions,
          ⟨hHours, hMinutes, hSeconds, hTimes⟩, rfl⟩
        cases zone : start.zone with
        | none => rfl
        | some z => simp [ends, Stamp.wholeSecond, zone] at zoned

/-- The hours, minutes or seconds that are worked out are those given, as far as they are ever reached, or
    the start's own. -/
theorem clockList_eq_ok {given : Option (List Int)} {first base every : Nat} {own longer : Bool} {found : List Int}
    (worked : clockList given first base every own longer = .ok found) :
    found = match given with
      | some numbers =>
        sortedSet (if own then numbers.filter fun n => (n - (first : Int)) % (Nat.gcd every base : Int) = 0 else numbers)
      | none => if longer then [(first : Int)] else [] := by
  unfold clockList at worked
  cases given with
  | none => exact (Except.ok.inj worked).symm
  | some numbers =>
    cases own with
    | false => exact (Except.ok.inj worked).symm
    | true =>
      dsimp only at worked ⊢
      rw [if_pos rfl] at worked ⊢
      unfold reachable at worked
      dsimp only at worked
      split at worked
      · cases worked
      · exact (Except.ok.inj worked).symm

end Schedule

/-! ### What a checked rule says -/

namespace RuleText

/-- The rule names days of its own. -/
def namesDays (r : RuleText) : Bool := r.has .byWeekNo || r.has .byYearDay || r.has .byMonthDay || r.has .byDay

/-- The numbers of a part, or those that stand in for it when it is missing. -/
def numbersOr (r : RuleText) (key : RuleKey) (default : List Int) : List Int :=
  if r.has key then r.integers key else default

/-- The hours, minutes or seconds of a rule: where a period is `own`, those that steps of `every` reach from
    the start's; when the part is missing and periods are `longer`, the start's alone. -/
def clockNumbers (r : RuleText) (key : RuleKey) (first base every : Nat) (own longer : Bool) : List Int :=
  if r.has key then
    Schedule.sortedSet (if own then (r.integers key).filter fun n => (n - (first : Int)) % (Nat.gcd every base : Int) = 0
      else r.integers key)
  else if longer then [(first : Int)] else []

/-- The weekdays of a rule with their positions, the start's when a weekly rule names no days. -/
def weekdaysOr (r : RuleText) (default : List NthWeekday) : List NthWeekday :=
  if r.has .byDay then r.weekdays.map fun item => (item.2, item.1) else default

end RuleText

/-- A schedule is what the parts of a rule say from a start on, the anchor: it begins there and has the frequency,
    interval, count, end and restrictions of the parts. What the parts leave open
    is taken from the anchor. -/
structure Schedule.Keeps (today : Stamp) (r : RuleText) (anchor : Stamp) (s : Schedule) : Prop where
  start : s.start = anchor.wholeSecond
  frequency : (r.get? .freq).map Frequency.ofName? = some (some s.frequency)
  every : (s.every : Int) = r.interval
  count : (r.get? .count).map (fun value => (readInt? value).map Int.toNat) = s.count.map some
  finish : (r.get? .until).map (RuleSpec.until? today) = s.finish.map some
  weekStart : ((r.get? .weekStart).map Weekday.ofSymbol?).getD (some .monday) = some s.weekStart
  months : s.months = sortedSet (r.numbersOr .byMonth
    (if (! r.namesDays) && s.frequency = .yearly then [(anchor.day.month : Int)] else []))
  monthDays : s.monthDays = (sortedSet (r.numbersOr .byMonthDay
    (if (! r.namesDays) && (s.frequency = .yearly || s.frequency = .monthly) then [(anchor.day.day : Int)] else []))).filter
      (· ≠ 0)
  weekdays : s.weekdays = plainWeekdays s.frequency
    (r.weekdaysOr (if (! r.namesDays) && s.frequency = .weekly then [(anchor.day.weekday, none)] else []))
  nthWeekdays : s.nthWeekdays = placedWeekdays s.frequency
    (r.weekdaysOr (if (! r.namesDays) && s.frequency = .weekly then [(anchor.day.weekday, none)] else []))
  yearDays : s.yearDays = sortedSet (r.integers .byYearDay)
  weekNumbers : s.weekNumbers = sortedSet (r.integers .byWeekNo)
  setPositions : s.setPositions = r.integers .bySetPos
  easterDays : s.easterDays = []
  hours : s.hours = r.clockNumbers .byHour anchor.clock.hour 24 s.every (s.frequency = .hourly) (! s.frequency.isTimed)
  minutes : s.minutes = r.clockNumbers .byMinute anchor.clock.minute 60 s.every (s.frequency = .minutely)
    (! s.frequency.isTimed || s.frequency = .hourly)
  seconds : s.seconds = r.clockNumbers .bySecond anchor.clock.second 60 s.every (s.frequency = .secondly)
    (s.frequency ≠ .secondly)
  times : (if s.frequency.isTimed then .ok [] else timesOf s.hours s.minutes s.seconds) = .ok s.times

namespace RuleText

variable {r : RuleText} {today start : Stamp} {spec : RuleSpec} {s : Schedule} {key : RuleKey}

theorem one_le_interval (checked : r.checkInterval = .ok ()) : 1 ≤ r.interval := by
  unfold checkInterval at checked
  unfold interval
  cases found : r.get? .interval with
  | none => exact Int.le_refl 1
  | some value =>
    rw [found] at checked
    dsimp only at checked
    split at checked
    · cases checked
    · cases read : Text.readInt? value with
      | none =>
        rw [read] at checked
        cases checked
      | some n =>
        rw [read] at checked
        dsimp only at checked
        split at checked
        · cases checked
        · rename_i pos
          simpa [read] using pos

theorem every_eq_interval (every : ((r.get? .interval).map readInt?).getD (some 1) = some spec.every) :
    spec.every = r.interval := by
  unfold interval
  cases found : r.get? .interval with
  | none =>
    rw [found] at every
    exact (Option.some.inj every).symm
  | some value =>
    rw [found] at every
    have every : Text.readInt? value = some spec.every := every
    simp only [every, Option.getD_some]

theorem checks_of_check (checked : r.check = .ok ()) : r.checkInterval = .ok () ∧ r.checkWeekdays = .ok () :=
  have passed := (isChecked_of_check checked (.inl rfl)).1
  ⟨passed.interval, passed.weekdays⟩

/-- A list of numbers that was read for evaluation is the checked one, or its default. -/
theorem getD_eq_numbersOr {numbers : Option (List Int)} (read : (r.get? key).map RuleSpec.integers? = numbers.map some)
    (default : List Int) : numbers.getD default = r.numbersOr key default := by
  rw [numbersOr, has_eq_isSome read, integers_eq read]
  cases numbers <;> rfl

theorem clockList_eq_clockNumbers {given : Option (List Int)} {first base every : Nat} {own longer : Bool}
    {found : List Int} (read : (r.get? key).map RuleSpec.integers? = given.map some)
    (worked : Schedule.clockList given first base every own longer = .ok found) :
    found = r.clockNumbers key first base every own longer := by
  rw [Schedule.clockList_eq_ok worked, clockNumbers, has_eq_isSome read, integers_eq read]
  cases given <;> rfl

/-- The schedule of the parts as they were read for evaluation is what the checked parts say. -/
theorem keeps_of_said (said : RuleSpec.Says today r spec) (checked : r.check = .ok ())
    (evaluated : Schedule.of spec start = .ok s) : s.Keeps today r start := by
  obtain ⟨interval, weekdays⟩ := checks_of_check checked
  obtain ⟨frequency, hours, minutes, seconds, times, named, -, -, hasTimes, rfl⟩ := Schedule.exists_made evaluated
  have every := every_eq_interval said.every
  have positive := one_le_interval interval
  have days : Schedule.namesDays spec = r.namesDays := by
    unfold Schedule.namesDays namesDays
    rw [has_eq_isSome said.weekNumbers, has_eq_isSome said.yearDays, has_eq_isSome said.monthDays,
      has_eq_isSome said.weekdays, said.easterDays]
    simp
  have items (default : List NthWeekday) : spec.weekdays.getD default = r.weekdaysOr default := by
    rw [weekdaysOr, has_eq_isSome said.weekdays, weekdays_eq weekdays said.weekdays]
    cases spec.weekdays <;> simp [Function.comp_def]
  exact {
    start := rfl
    frequency := said.frequency.trans (congrArg (Option.map some) named)
    every := by
      show ((max 1 spec.every.toNat : Nat) : Int) = _
      omega
    count := by
      have count := congrArg (Option.map (Option.map Int.toNat)) said.count
      rw [Option.map_map, Option.map_map] at count
      exact count.trans (by cases h : spec.count <;> simp [Schedule.made, h])
    finish := said.finish
    weekStart := said.weekStart
    months := by
      show Schedule.sortedSet (Schedule.monthsOf spec frequency start) = _
      rw [Schedule.monthsOf, days, getD_eq_numbersOr said.months]
      rfl
    monthDays := by
      show (Schedule.sortedSet (Schedule.monthDaysOf spec frequency start)).filter _ = _
      rw [Schedule.monthDaysOf, days, getD_eq_numbersOr said.monthDays]
      rfl
    weekdays := by
      show Schedule.plainWeekdays frequency (Schedule.weekdaysOf spec frequency start) = _
      rw [Schedule.weekdaysOf, days, items]
      rfl
    nthWeekdays := by
      show Schedule.placedWeekdays frequency (Schedule.weekdaysOf spec frequency start) = _
      rw [Schedule.weekdaysOf, days, items]
      rfl
    yearDays := congrArg Schedule.sortedSet (integers_eq said.yearDays).symm
    weekNumbers := congrArg Schedule.sortedSet (integers_eq said.weekNumbers).symm
    setPositions := (integers_eq said.setPositions).symm
    easterDays := by
      show Schedule.sortedSet (spec.easterDays.getD []) = []
      rw [said.easterDays]
      exact Schedule.sortedSet_nil
    hours := clockList_eq_clockNumbers said.hours hasTimes.hour
    minutes := clockList_eq_clockNumbers said.minutes hasTimes.minute
    seconds := clockList_eq_clockNumbers said.seconds hasTimes.second
    times := hasTimes.time }

end RuleText

/-! ### Evaluation -/

section Evaluation
variable {c : Setting} {rule start : Datum} {r : RuleText} {anchor : Stamp} {recurrence : Recurrence}

theorem recurrenceFrom_eq_ok : r.recurrenceFrom c.today anchor = .ok recurrence ↔
    Recurrence.read c.today anchor (RuleText.line r.body) = .ok recurrence := by
  unfold RuleText.recurrenceFrom
  cases Recurrence.read c.today anchor (RuleText.line r.body) with
  | ok found => simp
  | error e => cases e <;> simp

/-- A rule that is evaluated without blanks in its values comes to one schedule, that of its parts. -/
theorem exists_schedule (read : RuleText.read rule = .ok r) (noBlank : ∀ part ∈ r.parts, NoBlank part.2)
    (evaluated : r.recurrenceFrom c.today anchor = .ok recurrence) :
    ∃ spec s, recurrence = .single s ∧ RuleSpec.Says c.today r spec ∧ Schedule.of spec anchor = .ok s := by
  have evaluated := recurrenceFrom_eq_ok.mp evaluated
  have some := RuleText.inOrder_ne_nil_of_check (RuleText.check_of_read read)
  have plain := (RuleText.areRead_of_read read).arePlain noBlank some evaluated
  rw [Recurrence.read_line plain some] at evaluated
  cases parts : RuleSpec.ofParts c.today (r.inOrder RuleKey.all) with
  | error e =>
    rw [parts] at evaluated
    cases evaluated
  | ok spec =>
    rw [parts] at evaluated
    cases made : Schedule.of spec anchor with
    | error e =>
      simp only [Except.bind, made] at evaluated
      cases evaluated
    | ok s =>
      simp only [Except.bind, made] at evaluated
      exact ⟨spec, s, (Except.ok.inj evaluated).symm, RuleSpec.ofParts_eq_ok_iff_said.mp parts, made⟩

/-- The schedule of a rule whose values have no blanks starts at the start that the text names or that is given, and
    says what the checked parts say. -/
theorem recurrenceOf_keeps (read : RuleText.read rule = .ok r) (noBlank : ∀ part ∈ r.parts, NoBlank part.2)
    (evaluated : recurrenceOf c rule start = .ok recurrence) :
    ∃ anchor s, r.anchor c start = .ok anchor ∧ recurrence = .single s ∧ s.Keeps c.today r anchor := by
  unfold recurrenceOf at evaluated
  rw [read] at evaluated
  obtain ⟨anchor, anchored, evaluated⟩ := bind_eq_ok.mp (show r.recurrence c start = .ok recurrence from evaluated)
  obtain ⟨spec, s, single, said, made⟩ := exists_schedule read noBlank evaluated
  exact ⟨anchor, s, anchored, single, RuleText.keeps_of_said said (RuleText.check_of_read read) made⟩

end Evaluation

theorem isDate_firstOf2025 : IsDate 2025 1 1 := by decide

/-- The first day of 2025. -/
def firstOf2025 : Setting := { today := .ofDay ⟨2025, 1, 1, isDate_firstOf2025⟩ }

/-- Four times, every second week on Monday and Wednesday. -/
def fourTimes : RuleText where
  parts := [(.freq, "WEEKLY"), (.interval, "2"), (.count, "4"), (.byDay, "MO,WE")]

theorem recurrenceOf_keeps_fourTimes :
    RuleText.read (.text "FREQ=WEEKLY;INTERVAL=2;COUNT=4;BYDAY=MO,WE".toList) = .ok fourTimes ∧
      (∀ part ∈ fourTimes.parts, NoBlank part.2) ∧
      ∃ s, recurrenceOf firstOf2025 (.text "FREQ=WEEKLY;INTERVAL=2;COUNT=4;BYDAY=MO,WE".toList) .null = .ok (.single s) ∧
        s.start = .ofDay ⟨2025, 1, 1, by decide⟩ ∧ s.every = 2 := by
  have read : RuleText.read (.text "FREQ=WEEKLY;INTERVAL=2;COUNT=4;BYDAY=MO,WE".toList) = .ok fourTimes := rfl
  have noBlank : ∀ part ∈ fourTimes.parts, NoBlank part.2 := by decide
  obtain ⟨recurrence, evaluated⟩ : ∃ recurrence,
      recurrenceOf firstOf2025 (.text "FREQ=WEEKLY;INTERVAL=2;COUNT=4;BYDAY=MO,WE".toList) .null = .ok recurrence := ⟨_, rfl⟩
  obtain ⟨anchor, s, anchored, rfl, keeps⟩ := recurrenceOf_keeps read noBlank evaluated
  obtain rfl : Stamp.ofDay ⟨2025, 1, 1, by decide⟩ = anchor := Except.ok.inj anchored
  have every : (s.every : Int) = 2 := keeps.every
  exact ⟨read, noBlank, s, evaluated, keeps.start, by omega⟩

/-- A rule with a date of its own behind a blank: every day, and besides on the first day of 2020. -/
def strayDate : Text := "RRULE:FREQ=DAILY;WKST=MO RDATE:20200101T000000".toList

/-- The checks take what stands behind the blank for part of a value, and it is evaluated as a further date. -/
theorem recurrenceOf_strayDate : ∃ r recurrence, RuleText.read (.text strayDate) = .ok r ∧
    recurrenceOf firstOf2025 (.text strayDate) .null = .ok recurrence ∧ ∀ s, recurrence ≠ .single s := by
  obtain ⟨r, read⟩ : ∃ r, RuleText.read (.text strayDate) = .ok r := ⟨_, rfl⟩
  obtain ⟨rules, dates, exceptRules, exceptDates, evaluated⟩ : ∃ rules dates exceptRules exceptDates,
      recurrenceOf firstOf2025 (.text strayDate) .null = .ok (.combined rules dates exceptRules exceptDates) :=
    ⟨_, _, _, _, rfl⟩
  refine ⟨r, _, read, evaluated, fun s same => ?_⟩
  cases same

end Cadence
