import Cadence.Proofs.Description.Rebuilt

/-!
# Schedules of imported rules

The text that goes with the fields of an imported rule has the timestamps of the rule from the start of the fields
on: always where the imported text is kept, and where a text is built anew as long as the rule says nothing that the
comparison with it overlooks.
-/

namespace Cadence

variable {d : Description} {c : Setting} {r : RuleText} {spec : RuleSpec} {p : Int} {x : Day}

/-! ### The end -/

/-- The last day of a rule is over before a time of day of the start just if the rule has ended. -/
theorem RuleText.dayClose_before_iff {start e last t : Stamp} (found : lastDay start e = .ok last) (naive : e.zone = none)
    (naive' : t.zone = none) (clock : t.clock = start.clock) (whole : start.clock.micro = 0) :
    last.dayClose.before t = true ↔ e.before t = true := by
  obtain ⟨zone, -, number⟩ := lastDay_eq_ok found naive
  rw [Stamp.dayClose_before_iff (zone.trans naive'.symm) (by rw [clock, whole]),
    Stamp.before_iff (naive.trans naive'.symm), clock]
  split at number <;> omega

/-- The last second of the last day of a rule is read back. -/
theorem RuleText.until?_dayClose {start e last : Stamp} (found : lastDay start e = .ok last) (naive : e.zone = none)
    (year : 1000 ≤ last.day.year) (today : Stamp) :
    RuleSpec.until? today (Compact.text last.dayClose) = some last.dayClose := by
  have plain : last.dayClose.plain = last.dayClose := Stamp.plain_eq_self (lastDay_eq_ok found naive).1 rfl
  have year : 1000 ≤ last.dayClose.day.year := year
  rw [RuleSpec.until?, RuleSpec.finishOf, FreeForm.readLocal_text year, plain]
  rfl

/-- A rule says nothing that is overlooked when the rule of its fields is compared with it: that it is weekly, if the
    fields are daily and it has other restrictions; the start of weeks more than one apart; the months of days in a
    year; and an end that is read in two ways, or falls within the first second of the start's time of day. -/
structure RuleText.IsExpressed (r : RuleText) (today : Stamp) (d : Description) : Prop where
  pattern : r.get? .freq = some d.pattern.frequency ∨ r.get? .byMonth = none ∧ r.get? .byMonthDay = none
  weekStart : d.pattern = .week → r.interval = 1 ∨ r.get? .weekStart = none ∨ r.get? .weekStart = some "MO".toList
  months : d.pattern = .year → r.get? .byMonth = none → r.get? .byDay = none ∧ r.get? .byMonthDay = none
  finish : ∀ value, r.get? .until = some value →
    d.start.clock.micro = 0 ∧ ∃ e, moment value = .ok e ∧ RuleSpec.until? today value = some e
  year : ∀ e, d.finish = some e → 1000 ≤ e.day.year

section Expressed
variable {rule fallback : Datum} {pattern : Pattern} {anchor : Stamp} {recurrence : Recurrence} {finish : Option Stamp}
  (becomes : r.Becomes c rule fallback pattern anchor recurrence d) (reads : RuleSpec.ReadFrom c.today r spec)
  (expressed : r.IsExpressed c.today d)
  (written : d.lastSecond?.map (fun e => RuleSpec.until? c.today (Compact.text e)) = finish.map some)
include becomes reads expressed written

/-- Both rules have no end, or the one ends with the last day of the other. -/
theorem finish_cases : spec.finish = none ∧ finish = none ∨
    ∃ e last, spec.finish = some e ∧ finish = some last.dayClose ∧ RuleText.lastDay d.start e = .ok last ∧
      e.zone = none ∧ d.start.clock.micro = 0 := by
  have said := reads.finish
  cases value : r.get? .until with
  | none =>
    have ends := becomes.finish
    have hasEnd := becomes.hasEnd
    rw [RuleText.finishOf, value] at ends
    rw [value] at said
    rw [← Except.ok.inj ends] at hasEnd
    rw [Description.lastSecond?, hasEnd] at written
    refine .inl ⟨?_, ?_⟩
    · cases found : spec.finish with
      | none => rfl
      | some e =>
        rw [found] at said
        cases said
    · cases finish with
      | none => rfl
      | some e => cases written
  | some value' =>
    obtain ⟨whole, e, read, again⟩ := expressed.finish value' value
    obtain ⟨e', last, read', ends, found⟩ := becomes.exists_lastDay value
    obtain rfl : e = e' := Except.ok.inj (read.symm.trans read')
    rw [value, Option.map_some, again] at said
    have naive := RuleText.zone_of_moment read
    have close := RuleText.until?_dayClose found naive (expressed.year last ends) c.today
    rw [Description.lastSecond?, becomes.hasEnd, ends] at written
    simp only [Option.isSome_some, if_true, Option.map_some, close] at written
    refine .inr ⟨e, last, ?_, ?_, found, naive, whole⟩
    · cases finds : spec.finish with
      | none =>
        rw [finds] at said
        cases said
      | some e' =>
        rw [finds] at said
        exact congrArg some (Option.some.inj (Option.some.inj said)).symm
    · cases finish with
      | none => cases written
      | some e' => exact congrArg some (Option.some.inj (Option.some.inj written)).symm

/-- The rules end on the same day. -/
theorem within_eq (fits : spec.finish.isSome = true → d.start.zone = none) (p : Int) (x : Day) :
    (d.scheduleFrom p finish d.start).within x = (Schedule.ofImportable spec pattern.rate d.start).within x := by
  have own : (d.scheduleFrom p finish d.start).stampOn x =
      (Schedule.ofImportable spec pattern.rate d.start).stampOn x := rfl
  have ends : (d.scheduleFrom p finish d.start).finish = finish := rfl
  have ends' : (Schedule.ofImportable spec pattern.rate d.start).finish = spec.finish := rfl
  rw [Schedule.within, Schedule.within, own, ends, ends']
  rcases finish_cases becomes reads expressed written with ⟨none, none'⟩ | ⟨e, last, found, found', same, naive, whole⟩
  · rw [none, none']
  · have local_ : ((Schedule.ofImportable spec pattern.rate d.start).stampOn x).zone = none := fits (by rw [found]; rfl)
    have clock : ((Schedule.ofImportable spec pattern.rate d.start).stampOn x).clock = d.start.clock := by
      show d.start.wholeSecond.clock = d.start.clock
      rw [Stamp.wholeSecond_eq_self whole]
    have iff := RuleText.dayClose_before_iff same naive local_ clock whole
    rw [found, found', Option.all_some, Option.all_some, Bool.eq_iff_iff, Bool.not_eq_true', Bool.not_eq_true',
      ← Bool.not_eq_true, ← Bool.not_eq_true, iff]

end Expressed

/-! ### The days -/

theorem Schedule.onPhase_of_every {s : Schedule} (every : s.every = 1) (y x : Day) : s.onPhase y x = true := by
  rw [onPhase, every, Nat.mod_one]
  rfl

section Days
variable {rule fallback : Datum} {anchor : Stamp} {recurrence : Recurrence} {finish : Option Stamp}
  (becomes : r.Becomes c rule fallback d.pattern anchor recurrence d) (reads : RuleSpec.ReadFrom c.today r spec)
  (expressed : r.IsExpressed c.today d) (makes : d.MakesRule p)
include becomes reads expressed makes

/-- The rules are on phase on the same days. -/
theorem onPhase_eq (x y : Day) : (d.scheduleFrom p finish d.start).onPhase y x =
    (Schedule.ofImportable spec d.pattern.rate d.start).onPhase y x := by
  have interval := RuleText.every_eq_interval reads.every
  have every : d.every = r.interval := (congrArg Repetition.every becomes.repetition).trans (RuleText.every_repetition r _)
  have pos := makes.every_pos
  have rounds : (d.scheduleFrom p finish d.start).every = (Schedule.ofImportable spec d.pattern.rate d.start).every := by
    show max 1 (d.every.toNat : Int).toNat = max 1 spec.every.toNat
    rw [interval, every]
    omega
  by_cases single : (Schedule.ofImportable spec d.pattern.rate d.start).every = 1
  · rw [Schedule.onPhase_of_every (rounds.trans single), Schedule.onPhase_of_every single]
  · have period (z : Day) : (d.scheduleFrom p finish d.start).periodOf z =
        (Schedule.ofImportable spec d.pattern.rate d.start).periodOf z := by
      have frequency : (d.scheduleFrom p finish d.start).frequency = d.pattern.rate := rfl
      have frequency' : (Schedule.ofImportable spec d.pattern.rate d.start).frequency = d.pattern.rate := rfl
      unfold Schedule.periodOf
      rw [frequency, frequency']
      cases pattern : d.pattern with
      | day | month | year => rfl
      | week =>
        have weekStart := reads.weekStart
        have monday : spec.weekStart = .monday := by
          rcases expressed.weekStart pattern with one | absent | monday
          · refine absurd ?_ single
            show max 1 spec.every.toNat = 1
            rw [interval, one]
            rfl
          · rw [absent] at weekStart
            exact (Option.some.inj weekStart).symm
          · rw [monday] at weekStart
            exact (Option.some.inj weekStart).symm
        show (z.ordinal + 6 - Weekday.monday.index) / 7 = (z.ordinal + 6 - spec.weekStart.index) / 7
        rw [monday]
    rw [Schedule.onPhase, Schedule.onPhase, rounds, period, period]

section Compared
variable {other : RuleText} (checked : r.checkWeekdays = .ok ()) (same : r.sameConstraints other = true)
  (alike : RuleText.SameParts other (d.fields.ruleOf p))
  (written : d.lastSecond?.map (fun e => RuleSpec.until? c.today (Compact.text e)) = finish.map some)
  (fits : spec.finish.isSome = true → d.start.zone = none)
include checked same alike written fits

/-- Rules that have been compared have the same timestamps. -/
theorem toList_trace_of_compared : (d.scheduleFrom p finish d.start).trace.toList.1 =
    (Schedule.ofImportable spec d.pattern.rate d.start).trace.toList.1 := by
  have follows := RuleText.follows_of_sameConstraints reads checked (Description.isSound_fields makes) becomes.repetition same alike
  have yearly : d.pattern = .year → spec.months = none → spec.weekdays = none ∧ spec.monthDays = none := by
    intro year unnamed
    obtain ⟨weekdays, monthDays⟩ := expressed.months year ((RuleText.get?_eq_none_iff reads.months).mpr unnamed)
    exact ⟨(RuleText.get?_eq_none_iff reads.weekdays).mp weekdays, (RuleText.get?_eq_none_iff reads.monthDays).mp monthDays⟩
  have long := Pattern.isTimed_rate d.pattern
  have counts : ∀ x, (Schedule.ofImportable spec d.pattern.rate d.start).counts x = true := by
    intro x
    rw [Schedule.counts, Description.placesAt_eq reads.toIsImportable follows yearly]
    exact Description.counts_schedule makes x
  refine Schedule.toList_trace_congr (Schedule.isPlain_ofImportable spec long d.start)
    (Schedule.isPlain_ofImportable _ long d.start) rfl (fun x _ => counts x)
    (fun x _ => Description.counts_scheduleFrom makes finish d.start x) fun x _ => ?_
  have admits : (d.scheduleFrom p finish d.start).admitsAt x = (d.schedule p).admitsAt x := rfl
  rw [Schedule.fallsOn, Schedule.fallsOn, onPhase_eq becomes reads expressed makes,
    within_eq becomes reads expressed written fits p x, admits, Description.admitsAt_eq reads.toIsImportable follows yearly]
  rfl

end Compared

end Days

/-! ### All weekdays -/

section Weekly
variable (months : spec.months = none) (monthDays : spec.monthDays = none) {l : List NthWeekday}
  (weekdays : spec.weekdays = some l) (all : ∀ w, w ∈ l.map (·.1)) (start : Stamp)
include months monthDays weekdays all

/-- A weekly rule on all weekdays that names no months and no days of them admits every day. -/
theorem admits_allWeekdays (x : Day) : (Schedule.ofImportable spec .weekly start).counts x = true ∧
    (Schedule.ofImportable spec .weekly start).admitsAt x = true := by
  have noMonths : (Schedule.ofImportable spec .weekly start).months = [] := by
    show Schedule.sortedSet (Schedule.monthsOf spec .weekly start) = []
    simp [Schedule.monthsOf, months, Schedule.sortedSet_nil]
  have noDays : (Schedule.ofImportable spec .weekly start).monthDays = [] := by
    show (Schedule.sortedSet (Schedule.monthDaysOf spec .weekly start)).filter (· ≠ 0) = []
    simp [Schedule.monthDaysOf, monthDays, Schedule.sortedSet_nil]
  have noPlaces : (Schedule.ofImportable spec .weekly start).nthWeekdays = [] :=
    Schedule.placedWeekdays_eq_nil (by decide) (by decide) _
  have own : (Schedule.ofImportable spec .weekly start).weekdays.contains x.weekday = true := by
    have plain : (Schedule.ofImportable spec .weekly start).weekdays = l.map (·.1) := by
      show Schedule.plainWeekdays .weekly (Schedule.weekdaysOf spec .weekly start) = _
      simp [Schedule.weekdaysOf, Schedule.plainWeekdays, weekdays]
    rw [plain]
    exact List.contains_iff_mem.mpr (all x.weekday)
  have places : (Schedule.ofImportable spec .weekly start).placesAt x = .ok [] := by
    rw [Schedule.placesAt, RuleYear.nthPlaces, noPlaces]
    rfl
  rw [Schedule.counts, Schedule.admitsAt, places]
  refine ⟨rfl, ?_⟩
  show Schedule.admitsDay _ [] x = true
  rw [Schedule.admitsDay, noMonths, noDays, noPlaces, own]
  simp

end Weekly

section All
variable {rule fallback : Datum} {pattern : Pattern} {anchor : Stamp} {recurrence : Recurrence} {finish : Option Stamp}
  (becomes : r.Becomes c rule fallback pattern anchor recurrence d) (differs : d.pattern ≠ pattern)
include becomes differs

/-- The fields have another pattern than the rule only if they are daily and it has all weekdays every week. -/
theorem RuleText.Becomes.daily : pattern = .week ∧ d.pattern = .day ∧ r.interval = 1 ∧ ∀ w, w ∈ r.weekdays.map (·.2) := by
  have repetition := becomes.repetition
  have named := congrArg Repetition.pattern repetition
  unfold RuleText.repetition at named
  cases pattern with
  | day => exact absurd named differs
  | month | year =>
    dsimp only at named
    split at named <;> exact absurd named differs
  | week =>
    dsimp only at named
    split at named
    · rename_i all
      refine ⟨rfl, named, all.2, fun w => ?_⟩
      have full := List.length_filter_eq_length_iff.mp (show (Weekday.sorted (r.weekdays.map (·.2))).length = Weekday.all.length from all.1)
      exact List.contains_iff_mem.mp (full w w.mem_all)
    · exact absurd named differs

/-- A weekly rule on all weekdays has the timestamps of the daily one. -/
theorem toList_trace_of_daily (reads : RuleSpec.ReadFrom c.today r spec) (expressed : r.IsExpressed c.today d)
    (makes : d.MakesRule p) (frequency : r.get? .freq = some pattern.frequency) (checked : r.checkWeekdays = .ok ())
    (written : d.lastSecond?.map (fun e => RuleSpec.until? c.today (Compact.text e)) = finish.map some)
    (fits : spec.finish.isSome = true → d.start.zone = none) : (d.scheduleFrom p finish d.start).trace.toList.1 =
      (Schedule.ofImportable spec pattern.rate d.start).trace.toList.1 := by
  have within := within_eq becomes reads expressed written fits
  have every : d.every = r.interval := (congrArg Repetition.every becomes.repetition).trans (RuleText.every_repetition r _)
  obtain ⟨rfl, daily, single, all⟩ := becomes.daily differs
  obtain ⟨unnamedMonths, unnamedDays⟩ : spec.months = none ∧ spec.monthDays = none := by
    rcases expressed.pattern with named | ⟨months, monthDays⟩
    · rw [frequency, daily] at named
      cases named
    · exact ⟨(RuleText.get?_eq_none_iff reads.months).mp months, (RuleText.get?_eq_none_iff reads.monthDays).mp monthDays⟩
  obtain ⟨l, named, member⟩ : ∃ l, spec.weekdays = some l ∧ ∀ w, w ∈ l.map (·.1) := by
    have days := RuleText.weekdays_eq checked reads.weekdays
    cases named : spec.weekdays with
    | none =>
      have member := all .monday
      rw [(RuleText.weekdays_eq_nil_iff reads checked).mpr named] at member
      cases member
    | some l =>
      rw [days, named, List.map_map] at all
      exact ⟨l, rfl, all⟩
  have admits := admits_allWeekdays unnamedMonths unnamedDays named member d.start
  have admits' (x : Day) : (d.scheduleFrom p finish d.start).admitsAt x = true := by
    show (d.schedule p).admitsAt x = true
    rw [Description.admits_schedule_iff makes, daily]
    simp [RuleFields.isPlaced, RuleFields.isDated, daily]
  refine Schedule.toList_trace_congr (Schedule.isPlain_ofImportable spec rfl d.start)
    (Schedule.isPlain_ofImportable _ (Pattern.isTimed_rate d.pattern) d.start) rfl
    (fun x _ => (admits x).1)
    (fun x _ => Description.counts_scheduleFrom makes finish d.start x) fun x _ => ?_
  have rounds : (d.scheduleFrom p finish d.start).every = 1 := by
    show max 1 (d.every.toNat : Int).toNat = 1
    rw [every, single]
    rfl
  have rounds' : (Schedule.ofImportable spec .weekly d.start).every = 1 := by
    show max 1 spec.every.toNat = 1
    rw [RuleText.every_eq_interval reads.every, single]
    rfl
  have phase : (d.scheduleFrom p finish d.start).onPhase d.start.day x = true := Schedule.onPhase_of_every rounds _ x
  have phase' : (Schedule.ofImportable spec .weekly d.start).onPhase d.start.day x = true :=
    Schedule.onPhase_of_every rounds' _ x
  rw [Schedule.fallsOn, Schedule.fallsOn, admits', within p x]
  show (Schedule.onPhase _ d.start.day x && true && _) = (Schedule.onPhase (Schedule.ofImportable spec .weekly d.start) d.start.day x &&
    (Schedule.ofImportable spec .weekly d.start).admitsAt x && _)
  rw [phase, phase', (admits x).2]

end All

/-! ### Texts -/

/-- The text of a plain rule is evaluated as the rule. -/
theorem recurrenceOf_body (plain : RuleText.ArePlain r.parts) (checked : r.check = .ok ()) (c : Setting) (start : Stamp) :
    recurrenceOf c (.text r.body) (.stamp start) = r.recurrenceFrom c.today start := by
  rw [recurrenceOf, RuleText.read_body plain checked]
  show RuleText.recurrenceFrom _ c.today start = _
  rw [RuleText.recurrenceFrom, RuleText.recurrenceFrom, (RuleText.sameParts_inOrder r none).body_eq]

section Kept
variable {rule fallback : Datum} {pattern : Pattern} {anchor : Stamp} {recurrence : Recurrence}
  (becomes : r.Becomes c rule fallback pattern anchor recurrence d)
include becomes

theorem RuleText.Becomes.recurrenceOf_eq (read : RuleText.read rule = .ok r) : recurrenceOf c rule fallback = .ok recurrence := by
  rw [recurrenceOf, read]
  show (r.anchor c fallback >>= fun anchor => r.recurrenceFrom c.today anchor) = _
  rw [becomes.anchored]
  exact becomes.evaluated

/-- A rule that has been built anew is evaluated to the timestamps of the imported one. -/
theorem exists_recurrence_of_built {text : Text} (reads : RuleSpec.ReadFrom c.today r spec) (expressed : r.IsExpressed c.today d)
    (frequency : r.get? .freq = some pattern.frequency) (checked : r.check = .ok ())
    (naive : spec.finish.isSome = true → d.start.zone = none) (made : d.ruleText c = .ok text)
    (compared : d.pattern = pattern → ∃ other, RuleText.read (.text text) = .ok other ∧ r.sameConstraints other = true) :
    ∃ built, recurrenceOf c (.text text) (.stamp d.start) = .ok built ∧
      built.trace.toList.1 = (Schedule.ofImportable spec pattern.rate d.start).trace.toList.1 := by
  obtain ⟨p, makes, rfl, _, evaluated⟩ := Description.ruleText_eq_ok.mp made
  have sound := Description.isSound_fields makes
  have plain := RuleFields.arePlain_ruleOf sound
  have checked' := RuleFields.check_ruleOf sound (Description.length_of_recurrenceFrom makes evaluated)
  obtain ⟨finish, written, starting⟩ := Description.recurrenceFrom_of_evaluated makes evaluated
  have naive' : finish.isSome = true → d.start.zone = none := by
    rcases finish_cases becomes reads expressed written with ⟨-, rfl⟩ | ⟨e, last, found, -⟩
    · exact fun given => absurd given Bool.false_ne_true
    · exact fun _ => naive (by rw [found]; rfl)
  have weekdays := (RuleText.checks_of_check checked).2
  refine ⟨_, (recurrenceOf_body plain checked' c d.start).trans (starting d.start naive'), ?_⟩
  by_cases same : d.pattern = pattern
  · obtain ⟨other, found, alike⟩ := compared same
    subst same
    rw [RuleText.read_body plain checked'] at found
    cases found
    exact toList_trace_of_compared becomes reads expressed makes weekdays alike (RuleText.sameParts_inOrder _ none) written naive
  · exact toList_trace_of_daily becomes same reads expressed makes frequency weekdays written naive

end Kept

/-- The text of an imported rule has the timestamps of the rule from the start of the fields on: if no value of a part
    has blanks, and the imported text was kept, or says nothing that is overlooked when a text is built anew. -/
theorem Description.ofRule_keeps {rule fallback : Datum} (read : RuleText.read rule = .ok r)
    (noBlank : ∀ part ∈ r.parts, Text.NoBlank part.2) (made : Description.ofRule c rule fallback = .ok d)
    (expressed : d.rule = .text r.body ∨ r.IsExpressed c.today d) :
    ∃ imported kept, recurrenceOf c rule fallback = .ok imported ∧ recurrenceOf c d.rule (.stamp d.start) = .ok kept ∧
      kept.trace.toList.1 = imported.trace.toList.1.filter (! ·.before d.start.wholeSecond) := by
  rw [Description.ofRule, read] at made
  obtain ⟨pattern, anchor, recurrence, becomes⟩ := RuleText.becomes_of_description made
  have checked := RuleText.check_of_read read
  have plain := (RuleText.areRead_of_read read).arePlain noBlank (RuleText.inOrder_ne_nil_of_check checked)
    (recurrenceFrom_eq_ok.mp becomes.evaluated)
  have patterned := becomes.isPatterned plain
  have evaluated := becomes.recurrenceOf_eq read
  obtain ⟨spec, reads, fits, rfl⟩ := patterned.recurrenceFrom_eq_ok.mp becomes.evaluated
  have long := Pattern.isTimed_rate pattern
  have begins : d.start = anchor ∨ d.start ∈ (Schedule.ofImportable spec pattern.rate anchor).trace.toList.1 :=
    becomes.start_eq_or_mem
  have naive : spec.finish.isSome = true → d.start.zone = none := by
    rcases begins with same | found
    · rw [same]
      exact fits
    · rw [Schedule.toList_trace_fst (Schedule.isPlain_ofImportable spec long anchor)] at found
      obtain ⟨x, -, same⟩ := List.mem_map.mp found
      rw [← same]
      exact fits
  have later := Schedule.toList_trace_ofImportable long begins
  obtain ⟨text, rule, source⟩ := becomes.exists_text
  have source : text = r.body ∨ r.IsExpressed c.today d ∧ d.ruleText c = .ok text ∧
      (d.pattern = pattern → ∃ other, RuleText.read (.text text) = .ok other ∧ r.sameConstraints other = true) := by
    rcases expressed with kept | expressed
    · cases rule.symm.trans kept
      exact .inl rfl
    · exact source.imp id fun built => ⟨expressed, built⟩
  rw [rule]
  rcases source with rfl | ⟨expressed, made, compared⟩
  · refine ⟨_, .single (Schedule.ofImportable spec pattern.rate d.start), evaluated, ?_, later⟩
    rw [recurrenceOf_body plain checked]
    exact patterned.recurrenceFrom_eq_ok.mpr ⟨spec, reads, naive, rfl⟩
  · obtain ⟨built, own, same⟩ :=
      exists_recurrence_of_built becomes reads expressed patterned.frequency checked naive made compared
    exact ⟨_, built, evaluated, own, same.trans later⟩

namespace Description

/-- Every week on Monday, up to noon of the first of August. -/
def mondaysToAugust : RuleText where
  parts := [(.freq, "WEEKLY".toList), (.byDay, "MO".toList), (.until, "20250801T120000".toList)]

theorem ofRule_mondaysToAugust : (ofRule newYear2025 (.text "FREQ=WEEKLY;BYDAY=MO;UNTIL=20250801T120000".toList) .null).toOption.map
    (fun d => (d.start, d.pattern, d.finish)) =
      some (newYear2025.dayStart, .week, some (.ofDay ⟨2025, 8, 1, by decide⟩)) := by
  decide +kernel

theorem isExpressed_mondaysToAugust {d : Description} (start : d.start = newYear2025.dayStart) (pattern : d.pattern = .week)
    (finish : d.finish = some (.ofDay ⟨2025, 8, 1, by decide⟩)) : mondaysToAugust.IsExpressed newYear2025.today d where
  pattern := .inl (by rw [pattern]; rfl)
  weekStart _ := .inr (.inl rfl)
  months year := by
    rw [pattern] at year
    cases year
  finish := by
    intro value found
    cases found
    exact ⟨by rw [start]; rfl, ⟨⟨2025, 8, 1, by decide⟩, ⟨12, 0, 0, 0, by decide⟩, none⟩,
      toOption_eq_some (by decide +kernel), by decide +kernel⟩
  year := by
    intro e found
    rw [finish] at found
    cases found
    decide

theorem ofRule_keeps_mondaysToAugust : ∃ d imported kept,
    RuleText.read (.text "FREQ=WEEKLY;BYDAY=MO;UNTIL=20250801T120000".toList) = .ok mondaysToAugust ∧
      (∀ part ∈ mondaysToAugust.parts, Text.NoBlank part.2) ∧
      ofRule newYear2025 (.text "FREQ=WEEKLY;BYDAY=MO;UNTIL=20250801T120000".toList) .null = .ok d ∧
      mondaysToAugust.IsExpressed newYear2025.today d ∧
      recurrenceOf newYear2025 (.text "FREQ=WEEKLY;BYDAY=MO;UNTIL=20250801T120000".toList) .null = .ok imported ∧
      recurrenceOf newYear2025 d.rule (.stamp d.start) = .ok kept ∧
      kept.trace.toList.1 = imported.trace.toList.1.filter (! ·.before d.start.wholeSecond) := by
  have read : RuleText.read (.text "FREQ=WEEKLY;BYDAY=MO;UNTIL=20250801T120000".toList) = .ok mondaysToAugust := rfl
  have noBlank : ∀ part ∈ mondaysToAugust.parts, Text.NoBlank part.2 := by decide
  obtain ⟨d, made, fields⟩ := Option.map_eq_some_iff.mp ofRule_mondaysToAugust
  obtain ⟨start, fields⟩ := Prod.mk.inj fields
  obtain ⟨pattern, finish⟩ := Prod.mk.inj fields
  have expressed := isExpressed_mondaysToAugust start pattern finish
  obtain ⟨imported, kept, evaluated, evaluated', same⟩ := ofRule_keeps read noBlank (toOption_eq_some made) (.inr expressed)
  exact ⟨d, imported, kept, read, noBlank, toOption_eq_some made, expressed, evaluated, evaluated', same⟩

/-- The fifteenth of every month, written as a yearly rule without months. -/
def fifteenths : Text := "FREQ=YEARLY;BYMONTHDAY=15".toList

/-- The middle of January 2025. -/
def midJanuary : Stamp := .ofDay ⟨2025, 1, 15, by decide⟩

theorem ofRule_fifteenths : (ofRule newYear2025 (.text fifteenths) (.stamp midJanuary)).toOption.map
    (fun d => (d.start, (occurrences newYear2025 d.rule (.int 2) (.stamp d.start)).toOption)) =
      some (midJanuary, some [midJanuary, .ofDay ⟨2026, 1, 15, by decide⟩]) := by
  decide +kernel

theorem occurrences_fifteenths : (occurrences newYear2025 (.text fifteenths) (.int 2) (.stamp midJanuary)).toOption =
    some [midJanuary, .ofDay ⟨2025, 2, 15, by decide⟩] := by
  decide +kernel

/-- The text that is built anew for a yearly rule without months falls in the month of the start only. -/
theorem ofRule_loses_fifteenths : ∃ d, ofRule newYear2025 (.text fifteenths) (.stamp midJanuary) = .ok d ∧
    d.start = midJanuary ∧
    occurrences newYear2025 d.rule (.int 2) (.stamp d.start) = .ok [midJanuary, .ofDay ⟨2026, 1, 15, by decide⟩] ∧
    occurrences newYear2025 (.text fifteenths) (.int 2) (.stamp midJanuary) =
      .ok [midJanuary, .ofDay ⟨2025, 2, 15, by decide⟩] := by
  obtain ⟨d, made, fields⟩ := Option.map_eq_some_iff.mp ofRule_fifteenths
  obtain ⟨start, found⟩ := Prod.mk.inj fields
  exact ⟨d, toOption_eq_some made, start, toOption_eq_some found, toOption_eq_some occurrences_fifteenths⟩

end Description

end Cadence
