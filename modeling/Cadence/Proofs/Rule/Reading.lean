import Cadence.Proofs.Failure
import Cadence.Proofs.Rule.Spelling

/-!
# Plain rules evaluated

The line of a plain rule is evaluated part by part, in the order in which the parts are written. Where the
periods are days or longer and the rule does not name times, it comes to a schedule with the time of its
start.
-/

namespace Cadence

open Text

/-! ### Parts -/

namespace RuleSpec

variable {r : RuleText} {today : Stamp} {spec : RuleSpec}

/-- The parts of a rule read one after the other. -/
def ofParts (today : Stamp) (parts : List (RuleKey × Text)) : Except LineFailure RuleSpec :=
  parts.foldlM (fun spec part => spec.set today part.1.name part.2) {}

theorem add_partText {part : RuleKey × Text} (h : IsPlainValue part.2) :
    add today spec (RuleText.partText part) = spec.set today part.1.name part.2 := by
  have hname := RuleKey.marks_name part.1
  rw [add, RuleText.partText, splitOn_append hname.2.1, splitOn_of_not_mem h.equals]
  simp only [(RuleKey.upper_name part.1).upper_eq, h.upper.upper_eq]

theorem foldlM_add : ∀ {parts : List (RuleKey × Text)} (spec : RuleSpec), RuleText.ArePlain parts →
    (parts.map RuleText.partText).foldlM (add today) spec =
      parts.foldlM (fun spec part => spec.set today part.1.name part.2) spec
  | [], _, _ => rfl
  | part :: parts, spec, h => by
    rw [List.map_cons, List.foldlM_cons, List.foldlM_cons, add_partText (h part List.mem_cons_self)]
    congr 1
    funext next
    exact foldlM_add next fun p hp => h p (List.mem_cons_of_mem part hp)

theorem read_line (h : RuleText.ArePlain r.parts) (hne : r.inOrder RuleKey.all ≠ []) :
    read today (RuleText.line r.body) = ofParts today (r.inOrder RuleKey.all) := by
  have hname : ':' ∉ "RRULE".toList := by decide
  have hsplit : splitOn ':' (RuleText.line r.body) = ["RRULE".toList, r.body] := by
    rw [show RuleText.line r.body = "RRULE".toList ++ ':' :: r.body from rfl, splitOn_append hname,
      splitOn_of_not_mem (RuleText.colon_body h)]
  have hparts : partsText (RuleText.line r.body) = .ok r.body := by
    rw [partsText, hsplit]
    rfl
  rw [read, hparts]
  exact (congrArg (·.foldlM (add today) {}) (RuleText.splitOn_body h.semicolon hne)).trans (foldlM_add {} (h.inOrder _))

end RuleSpec

/-- A plain rule is evaluated as one schedule. -/
theorem Recurrence.read_line {r : RuleText} (h : RuleText.ArePlain r.parts) (hne : r.inOrder RuleKey.all ≠ [])
    (today start : Stamp) :
    Recurrence.read today start (RuleText.line r.body) =
      ((RuleSpec.ofParts today (r.inOrder RuleKey.all)).bind (Schedule.of · start)).map .single := by
  have hwords : words (upper (RuleText.line r.body)) = [RuleText.line r.body] := by
    rw [(RuleText.upper_line h.upper).upper_eq]
    exact (RuleText.noBlank_line h.noBlank).words_eq (List.cons_ne_nil _ _)
  unfold Recurrence.read
  rw [hwords]
  simp only [schedule, RuleSpec.read_line h hne]
  rfl

/-! ### What the parts say -/

/-- The rule has no parts but those that the fields of a recurrence can express. -/
def RuleText.IsImportable (r : RuleText) : Prop := ∀ key : RuleKey, key.isImportable = false → r.get? key = none

namespace RuleSpec

variable {r : RuleText} {today : Stamp} {spec : RuleSpec}

/-- The rule has been read from parts that the fields of a recurrence can express. -/
structure IsImportable (spec : RuleSpec) : Prop where
  count : spec.count = none
  setPositions : spec.setPositions = none
  yearDays : spec.yearDays = none
  weekNumbers : spec.weekNumbers = none
  easterDays : spec.easterDays = none
  hours : spec.hours = none
  minutes : spec.minutes = none
  seconds : spec.seconds = none

/-- The end of a rule as it is evaluated. -/
def until? (today : Stamp) (value : Text) : Option Stamp := (finishOf today RuleKey.until.name value).toOption

/-- The parts of a rule text say what has been read, each part one thing. -/
structure Says (today : Stamp) (r : RuleText) (spec : RuleSpec) : Prop where
  frequency : (r.get? .freq).map Frequency.ofName? = spec.frequency.map some
  finish : (r.get? .until).map (until? today) = spec.finish.map some
  count : (r.get? .count).map readInt? = spec.count.map some
  every : ((r.get? .interval).map readInt?).getD (some 1) = some spec.every
  weekdays : (r.get? .byDay).map weekdays? = spec.weekdays.map some
  monthDays : (r.get? .byMonthDay).map integers? = spec.monthDays.map some
  months : (r.get? .byMonth).map integers? = spec.months.map some
  hours : (r.get? .byHour).map integers? = spec.hours.map some
  minutes : (r.get? .byMinute).map integers? = spec.minutes.map some
  seconds : (r.get? .bySecond).map integers? = spec.seconds.map some
  setPositions : (r.get? .bySetPos).map integers? = spec.setPositions.map some
  weekNumbers : (r.get? .byWeekNo).map integers? = spec.weekNumbers.map some
  yearDays : (r.get? .byYearDay).map integers? = spec.yearDays.map some
  weekStart : ((r.get? .weekStart).map Weekday.ofSymbol?).getD (some .monday) = some spec.weekStart
  easterDays : spec.easterDays = none

/-- The parts of a rule text say what has been read, and none of them says more than the fields of a
    recurrence can. -/
structure ReadFrom (today : Stamp) (r : RuleText) (spec : RuleSpec) : Prop extends spec.IsImportable where
  frequency : (r.get? .freq).map Frequency.ofName? = spec.frequency.map some
  finish : (r.get? .until).map (until? today) = spec.finish.map some
  every : ((r.get? .interval).map readInt?).getD (some 1) = some spec.every
  weekdays : (r.get? .byDay).map weekdays? = spec.weekdays.map some
  monthDays : (r.get? .byMonthDay).map integers? = spec.monthDays.map some
  months : (r.get? .byMonth).map integers? = spec.months.map some
  weekStart : ((r.get? .weekStart).map Weekday.ofSymbol?).getD (some .monday) = some spec.weekStart

/-- The rule with the value of a part, if there is one. -/
def step (today : Stamp) (r : RuleText) (spec : RuleSpec) (key : RuleKey) : Except LineFailure RuleSpec :=
  match r.get? key with
  | none => .ok spec
  | some value => spec.set today key.name value

theorem ofParts_inOrder : ∀ (keys : List RuleKey) (spec : RuleSpec),
    (r.inOrder keys).foldlM (fun spec part => spec.set today part.1.name part.2) spec = keys.foldlM (step today r) spec
  | [], _ => rfl
  | key :: keys, spec => by
    rw [List.foldlM_cons, step]
    cases h : r.get? key with
    | none => rw [RuleText.inOrder_cons_none h, ofParts_inOrder keys]; rfl
    | some value =>
      rw [RuleText.inOrder_cons_some h, List.foldlM_cons]
      exact bind_congr fun next => ofParts_inOrder keys next

/-- A part that may be missing has been read before the rest is. -/
theorem step_bind_eq_ok {α : Type} {key : RuleKey} {k : RuleSpec → Except LineFailure RuleSpec} {res : RuleSpec}
    (read : Text → Option α) (put : Option α → RuleSpec) (hnone : put none = spec)
    (hset : ∀ value next, spec.set today key.name value = .ok next ↔ ∃ a, read value = some a ∧ next = put (some a)) :
    (step today r spec key >>= k) = .ok res ↔ ∃ a, (r.get? key).map read = a.map some ∧ k (put a) = .ok res := by
  rw [bind_eq_ok, step]
  cases r.get? key with
  | none =>
    simp only [Option.map_none, Except.ok.injEq]
    constructor
    · rintro ⟨next, rfl, hk⟩
      exact ⟨none, rfl, hnone ▸ hk⟩
    · rintro ⟨a, ha, hk⟩
      cases a with
      | none => exact ⟨spec, rfl, hnone ▸ hk⟩
      | some a => cases ha
  | some value =>
    simp only [hset, Option.map_some]
    constructor
    · rintro ⟨next, ⟨a, ha, rfl⟩, hk⟩
      exact ⟨some a, by rw [ha]; rfl, hk⟩
    · rintro ⟨a, ha, hk⟩
      cases a with
      | none => cases ha
      | some a => exact ⟨_, ⟨a, by simpa using ha, rfl⟩, hk⟩

theorem map_readable_eq_ok {α : Type} {key value : Text} {o : Option α} {put : α → RuleSpec} {next : RuleSpec} :
    (readable key value o).map put = .ok next ↔ ∃ a, o = some a ∧ next = put a := by
  cases o with
  | none => simp [readable, Except.map]
  | some a => simp [readable, Except.map, eq_comm]

section Steps
variable {k : RuleSpec → Except LineFailure RuleSpec} {res : RuleSpec}

theorem step_freq : (step today r spec .freq >>= k) = .ok res ↔
    ∃ a : Option Frequency, (r.get? .freq).map Frequency.ofName? = a.map some ∧ k { spec with frequency := a <|> spec.frequency } = .ok res :=
  step_bind_eq_ok _ (fun a => { spec with frequency := a <|> spec.frequency }) rfl fun value next => by
    rw [set, RuleKey.ofName?_name]
    exact map_readable_eq_ok

theorem step_until : (step today r spec .until >>= k) = .ok res ↔
    ∃ a : Option Stamp, (r.get? .until).map (until? today) = a.map some ∧ k { spec with finish := a <|> spec.finish } = .ok res :=
  step_bind_eq_ok _ (fun a => { spec with finish := a <|> spec.finish }) rfl fun value next => by
    rw [set, RuleKey.ofName?_name, until?]
    cases finishOf today RuleKey.until.name value with
    | error e => simp [Except.map, Except.toOption]
    | ok a => simp [Except.map, Except.toOption, eq_comm]

theorem step_interval : (step today r spec .interval >>= k) = .ok res ↔
    ∃ a : Option Int, (r.get? .interval).map readInt? = a.map some ∧ k { spec with every := a.getD spec.every } = .ok res :=
  step_bind_eq_ok _ (fun a => { spec with every := a.getD spec.every }) rfl fun value next => by
    rw [set, RuleKey.ofName?_name]
    exact map_readable_eq_ok

theorem step_byDay : (step today r spec .byDay >>= k) = .ok res ↔
    ∃ a : Option (List NthWeekday), (r.get? .byDay).map weekdays? = a.map some ∧ k { spec with weekdays := a <|> spec.weekdays } = .ok res :=
  step_bind_eq_ok _ (fun a => { spec with weekdays := a <|> spec.weekdays }) rfl fun value next => by
    rw [set, RuleKey.ofName?_name]
    exact map_readable_eq_ok

theorem step_count : (step today r spec .count >>= k) = .ok res ↔
    ∃ a : Option Int, (r.get? .count).map readInt? = a.map some ∧ k { spec with count := a <|> spec.count } = .ok res :=
  step_bind_eq_ok _ (fun a => { spec with count := a <|> spec.count }) rfl fun value next => by
    rw [set, RuleKey.ofName?_name]
    exact map_readable_eq_ok

/-- A list of numbers that may be missing; `put` is the rule with it. -/
theorem step_integers {key : RuleKey} {old : Option (List Int)} (put : Option (List Int) → RuleSpec) (same : put old = spec)
    (set : ∀ value, spec.set today key.name value = (readable key.name value (integers? value)).map fun l => put (some l)) :
    (step today r spec key >>= k) = .ok res ↔
      ∃ a : Option (List Int), (r.get? key).map integers? = a.map some ∧ k (put (a <|> old)) = .ok res :=
  step_bind_eq_ok _ (fun a => put (a <|> old)) same fun value next => by
    rw [set]
    exact map_readable_eq_ok

theorem step_byMonthDay : (step today r spec .byMonthDay >>= k) = .ok res ↔
    ∃ a : Option (List Int), (r.get? .byMonthDay).map integers? = a.map some ∧ k { spec with monthDays := a <|> spec.monthDays } = .ok res :=
  step_integers (fun a => { spec with monthDays := a }) rfl fun value => by rw [set, RuleKey.ofName?_name]

theorem step_byMonth : (step today r spec .byMonth >>= k) = .ok res ↔
    ∃ a : Option (List Int), (r.get? .byMonth).map integers? = a.map some ∧ k { spec with months := a <|> spec.months } = .ok res :=
  step_integers (fun a => { spec with months := a }) rfl fun value => by rw [set, RuleKey.ofName?_name]

theorem step_byHour : (step today r spec .byHour >>= k) = .ok res ↔
    ∃ a : Option (List Int), (r.get? .byHour).map integers? = a.map some ∧ k { spec with hours := a <|> spec.hours } = .ok res :=
  step_integers (fun a => { spec with hours := a }) rfl fun value => by rw [set, RuleKey.ofName?_name]

theorem step_byMinute : (step today r spec .byMinute >>= k) = .ok res ↔
    ∃ a : Option (List Int), (r.get? .byMinute).map integers? = a.map some ∧ k { spec with minutes := a <|> spec.minutes } = .ok res :=
  step_integers (fun a => { spec with minutes := a }) rfl fun value => by rw [set, RuleKey.ofName?_name]

theorem step_bySecond : (step today r spec .bySecond >>= k) = .ok res ↔
    ∃ a : Option (List Int), (r.get? .bySecond).map integers? = a.map some ∧ k { spec with seconds := a <|> spec.seconds } = .ok res :=
  step_integers (fun a => { spec with seconds := a }) rfl fun value => by rw [set, RuleKey.ofName?_name]

theorem step_bySetPos : (step today r spec .bySetPos >>= k) = .ok res ↔
    ∃ a : Option (List Int), (r.get? .bySetPos).map integers? = a.map some ∧ k { spec with setPositions := a <|> spec.setPositions } = .ok res :=
  step_integers (fun a => { spec with setPositions := a }) rfl fun value => by rw [set, RuleKey.ofName?_name]

theorem step_byWeekNo : (step today r spec .byWeekNo >>= k) = .ok res ↔
    ∃ a : Option (List Int), (r.get? .byWeekNo).map integers? = a.map some ∧ k { spec with weekNumbers := a <|> spec.weekNumbers } = .ok res :=
  step_integers (fun a => { spec with weekNumbers := a }) rfl fun value => by rw [set, RuleKey.ofName?_name]

theorem step_byYearDay : (step today r spec .byYearDay >>= k) = .ok res ↔
    ∃ a : Option (List Int), (r.get? .byYearDay).map integers? = a.map some ∧ k { spec with yearDays := a <|> spec.yearDays } = .ok res :=
  step_integers (fun a => { spec with yearDays := a }) rfl fun value => by rw [set, RuleKey.ofName?_name]

theorem step_weekStart : (step today r spec .weekStart >>= k) = .ok res ↔
    ∃ a : Option Weekday, (r.get? .weekStart).map Weekday.ofSymbol? = a.map some ∧ k { spec with weekStart := a.getD spec.weekStart } = .ok res :=
  step_bind_eq_ok _ (fun a => { spec with weekStart := a.getD spec.weekStart }) rfl fun value next => by
    rw [set, RuleKey.ofName?_name]
    exact map_readable_eq_ok

end Steps

/-- A part with a default has its own value or the default. -/
theorem getD_map_eq_some {α : Type} {value : Option Text} {read : Text → Option α} {default a : α} :
    (value.map read).getD (some default) = some a ↔ ∃ o : Option α, value.map read = o.map some ∧ a = o.getD default := by
  cases value with
  | none =>
    constructor
    · intro h
      exact ⟨none, rfl, (Option.some.inj h).symm⟩
    · rintro ⟨o, ho, rfl⟩
      cases o with
      | none => rfl
      | some x => cases ho
  | some v =>
    constructor
    · intro h
      exact ⟨some a, congrArg some h, rfl⟩
    · rintro ⟨o, ho, rfl⟩
      cases o with
      | none => cases ho
      | some x => exact Option.some.inj ho

/-- A rule has been read if and only if its parts say what has been read. -/
theorem ofParts_eq_ok_iff_said : ofParts today (r.inOrder RuleKey.all) = .ok spec ↔ Says today r spec := by
  rw [ofParts, ofParts_inOrder]
  simp only [RuleKey.all, List.foldlM_cons, List.foldlM_nil, step_freq, step_until, step_count, step_interval, step_byDay,
    step_byMonthDay, step_byMonth, step_byHour, step_byMinute, step_bySecond, step_bySetPos, step_byWeekNo, step_byYearDay,
    step_weekStart]
  constructor
  · rintro ⟨F, hF, U, hU, C, hC, n, hn, D, hD, M, hM, N, hN, H, hH, I, hI, S, hS, P, hP, K, hK, Y, hY, W, hW, hspec⟩
    obtain rfl := Except.ok.inj hspec
    exact {
      easterDays := rfl
      frequency := by simpa using hF
      finish := by simpa using hU
      count := by simpa using hC
      every := getD_map_eq_some.mpr ⟨n, hn, rfl⟩
      weekdays := by simpa using hD
      monthDays := by simpa using hM
      months := by simpa using hN
      hours := by simpa using hH
      minutes := by simpa using hI
      seconds := by simpa using hS
      setPositions := by simpa using hP
      weekNumbers := by simpa using hK
      yearDays := by simpa using hY
      weekStart := getD_map_eq_some.mpr ⟨W, hW, rfl⟩ }
  · intro said
    obtain ⟨n, hn, hevery⟩ := getD_map_eq_some.mp said.every
    obtain ⟨W, hW, hweek⟩ := getD_map_eq_some.mp said.weekStart
    refine ⟨_, said.frequency, _, said.finish, _, said.count, n, hn, _, said.weekdays, _, said.monthDays, _, said.months,
      _, said.hours, _, said.minutes, _, said.seconds, _, said.setPositions, _, said.weekNumbers, _, said.yearDays, W, hW, ?_⟩
    have heaster := said.easterDays
    obtain ⟨frequency, every, count, finish, weekStart, weekdays, setPositions, months, monthDays, yearDays, weekNumbers,
      easterDays, hours, minutes, seconds⟩ := spec
    simp only at heaster hevery hweek
    subst heaster hevery hweek
    simp [pure, Except.pure]

theorem eq_none_of_map_eq {α : Type} {value : Option Text} {read : Text → Option α} {a : Option α}
    (said : value.map read = a.map some) (missing : value = none) : a = none := by
  rw [missing] at said
  exact Option.map_eq_none_iff.mp said.symm

/-- A rule with importable parts only has been read if and only if its parts say what has been read. -/
theorem ofParts_eq_ok (h : r.IsImportable) :
    ofParts today (r.inOrder RuleKey.all) = .ok spec ↔ ReadFrom today r spec := by
  rw [ofParts_eq_ok_iff_said]
  have missing : ∀ {key : RuleKey} {α : Type} (read : Text → Option α), key.isImportable = false →
      (r.get? key).map read = (none : Option α).map some := by
    intro key α read foreign
    rw [h key foreign]
    rfl
  constructor
  · intro said
    exact {
      count := eq_none_of_map_eq said.count (h .count rfl)
      setPositions := eq_none_of_map_eq said.setPositions (h .bySetPos rfl)
      yearDays := eq_none_of_map_eq said.yearDays (h .byYearDay rfl)
      weekNumbers := eq_none_of_map_eq said.weekNumbers (h .byWeekNo rfl)
      easterDays := said.easterDays
      hours := eq_none_of_map_eq said.hours (h .byHour rfl)
      minutes := eq_none_of_map_eq said.minutes (h .byMinute rfl)
      seconds := eq_none_of_map_eq said.seconds (h .bySecond rfl)
      frequency := said.frequency, finish := said.finish, every := said.every, weekdays := said.weekdays
      monthDays := said.monthDays, months := said.months, weekStart := said.weekStart }
  · intro reads
    exact {
      count := by rw [reads.count]; exact missing _ rfl
      setPositions := by rw [reads.setPositions]; exact missing _ rfl
      yearDays := by rw [reads.yearDays]; exact missing _ rfl
      weekNumbers := by rw [reads.weekNumbers]; exact missing _ rfl
      hours := by rw [reads.hours]; exact missing _ rfl
      minutes := by rw [reads.minutes]; exact missing _ rfl
      seconds := by rw [reads.seconds]; exact missing _ rfl
      easterDays := reads.easterDays
      frequency := reads.frequency, finish := reads.finish, every := reads.every, weekdays := reads.weekdays
      monthDays := reads.monthDays, months := reads.months, weekStart := reads.weekStart }

end RuleSpec

/-! ### The schedule -/

namespace Schedule

variable {spec : RuleSpec} {start : Stamp} {frequency : Frequency}

/-- The months of a rule, that of the start if a yearly rule names no days. -/
def monthsOf (spec : RuleSpec) (frequency : Frequency) (start : Stamp) : List Int :=
  spec.months.getD (if (! namesDays spec) && frequency = .yearly then [(start.day.month : Int)] else [])

/-- The days of the month, that of the start if a yearly or monthly rule names no days. -/
def monthDaysOf (spec : RuleSpec) (frequency : Frequency) (start : Stamp) : List Int :=
  spec.monthDays.getD
    (if (! namesDays spec) && (frequency = .yearly || frequency = .monthly) then [(start.day.day : Int)] else [])

/-- The weekdays, that of the start if a weekly rule names no days. -/
def weekdaysOf (spec : RuleSpec) (frequency : Frequency) (start : Stamp) : List NthWeekday :=
  spec.weekdays.getD (if (! namesDays spec) && frequency = .weekly then [(start.day.weekday, none)] else [])

/-- The schedule of a rule with importable parts only, whose periods are days or longer. -/
def ofImportable (spec : RuleSpec) (frequency : Frequency) (start : Stamp) : Schedule where
  frequency
  every := max 1 spec.every.toNat
  start := start.wholeSecond
  count := none
  finish := spec.finish
  weekStart := spec.weekStart
  setPositions := []
  months := sortedSet (monthsOf spec frequency start)
  monthDays := (sortedSet (monthDaysOf spec frequency start)).filter (· ≠ 0)
  yearDays := []
  weekNumbers := []
  easterDays := []
  weekdays := plainWeekdays frequency (weekdaysOf spec frequency start)
  nthWeekdays := placedWeekdays frequency (weekdaysOf spec frequency start)
  hours := [(start.clock.hour : Int)]
  minutes := [(start.clock.minute : Int)]
  seconds := [(start.clock.second : Int)]
  times := [start.clock.wholeSecond]

theorem sortedSet_nil : sortedSet [] = [] := by simp [sortedSet]

theorem timeOfDay_clock (c : Clock) : timeOfDay c.hour c.minute c.second = .ok c.wholeSecond := by
  obtain ⟨hh, hm, hs, -⟩ := c.valid
  have hfit : ∀ n : Nat, n < 60 → fitsWord (n : Int) = true := by
    intro n hn
    simp only [fitsWord, Bool.and_eq_true, decide_eq_true_eq]
    omega
  have hclock : Clock.of? c.hour c.minute c.second 0 = some c.wholeSecond := dif_pos c.wholeSecond.valid
  simp only [timeOfDay, hfit _ hm, hfit _ hs, hfit c.hour (by omega), Bool.and_self, Bool.not_true, Bool.false_eq_true,
    if_false, Int.toNat_natCast, hclock]
  rw [if_neg (by omega), if_neg (by omega), if_neg (by omega)]

theorem of_importable (h : spec.IsImportable) (hfreq : spec.frequency = some frequency)
    (htimed : frequency.isTimed = false) (hzone : spec.finish.isSome → start.zone = none) :
    Schedule.of spec start = .ok (ofImportable spec frequency start) := by
  have hend : (spec.finish.isSome && start.wholeSecond.zone.isSome) = false := by
    cases hf : spec.finish with
    | none => rfl
    | some e => simp [Stamp.wholeSecond, hzone (by simp [hf])]
  have hsecond : decide (frequency ≠ .secondly) = true := by
    cases frequency with
    | secondly => simp [Frequency.isTimed] at htimed
    | yearly | monthly | weekly | daily | hourly | minutely => rfl
  have htimes : timesOf [(start.wholeSecond.clock.hour : Int)] [(start.wholeSecond.clock.minute : Int)]
      [(start.wholeSecond.clock.second : Int)] = .ok [start.clock.wholeSecond] := by
    simp [Stamp.wholeSecond, Clock.wholeSecond, timesOf, timeOfDay_clock, pure, Except.pure, bind, Except.bind]
  unfold Schedule.of
  simp only [hfreq, hend, h.count, h.setPositions, h.yearDays, h.weekNumbers, h.easterDays, h.hours, h.minutes, h.seconds,
    clockList, htimed, Bool.not_false, Bool.true_or, if_true, Bool.false_eq_true, if_false, Option.getD_none,
    Option.map_none, List.all_nil, Bool.not_true, bind, Except.bind, pure, Except.pure]
  rw [hsecond, if_pos rfl, htimes]
  simp only [sortedSet_nil]
  rfl

end Schedule

end Cadence
