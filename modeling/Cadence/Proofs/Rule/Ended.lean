import Cadence.Proofs.DateText.Compact
import Cadence.Proofs.Rule.Agreement
import Cadence.Proofs.Rule.Dates

/-!
# Where a rule ends

The end of a rule is read twice: as a date in rule text, where it is told and imported, and as a date in words, where
the rule is evaluated. The timestamps of the rule go as far as the second reading says. That is where the first one
says that they end just if each number of the date has its full digits, and a time of four digits ends in two zeros.
-/

namespace Cadence

open Text

namespace Schedule

variable {s : Schedule} {last : Stamp}

/-! ### Schedules with another end -/

/-- The schedule with another end, or without one. -/
def endingAt (s : Schedule) (finish : Option Stamp) : Schedule := { s with finish }

section EndingAt
variable (s : Schedule) (finish : Option Stamp)

theorem seekTick_endingAt (rounds tick : Nat) : (s.endingAt finish).seekTick rounds tick = s.seekTick rounds tick := by
  induction rounds generalizing tick with
  | zero => rfl
  | succ rounds ih =>
    unfold seekTick
    simp only [ih]
    rfl

theorem next_endingAt (c : Cursor) (passOver : Bool) : (s.endingAt finish).next c passOver = s.next c passOver := by
  unfold next nextTick
  simp only [seekTick_endingAt]
  rfl

theorem stampsOf_endingAt (y : RuleYear) (times : List Clock) (days : List YearDay) :
    (s.endingAt finish).stampsOf y times days = s.stampsOf y times days := by
  induction days with
  | nil => rfl
  | cons d days ih =>
    unfold stampsOf
    rw [ih]
    rfl

theorem step_endingAt (c : Cursor) : (s.endingAt finish).step c = s.step c := by
  unfold step
  simp only [stampsOf_endingAt, next_endingAt]
  rfl

theorem traceFrom_endingAt (fuel : Nat) (c : Cursor) : (s.endingAt finish).traceFrom fuel c = s.traceFrom fuel c := by
  induction fuel generalizing c with
  | zero => rfl
  | succ fuel ih =>
    unfold traceFrom
    simp only [step_endingAt, ih]

/-- The periods of a schedule go on behind its end. -/
theorem periods_endingAt : (s.endingAt finish).periods = s.periods := by
  unfold periods
  simp only [traceFrom_endingAt]
  rfl

end EndingAt

/-- A schedule has the timestamps that it has without its end, up to the first that comes after the end. -/
theorem toList_trace_endingAt (ordered : s.IsOrdered) (naive : last.zone = s.start.zone) :
    (s.endingAt (some last)).trace.toList.1 = (s.endingAt none).trace.toList.1.takeWhile (! last.before ·) := by
  obtain ⟨sorted, zones⟩ := pairwise_periods ordered
  have closed {l : List Stamp} (sub : l.Sublist s.periods.toList.1) :
      l.Pairwise fun a b => (! last.before b) = true → (! last.before a) = true := by
    refine (sorted.sublist sub).imp_of_mem fun {a b} inside inside' precedes reached => ?_
    have zone := naive.trans (zones a (sub.subset inside)).symm
    have zone' := naive.trans (zones b (sub.subset inside')).symm
    rw [Bool.not_eq_true', ← Bool.not_eq_true, Stamp.before_iff_precedes zone'] at reached
    rw [Bool.not_eq_true', ← Bool.not_eq_true, Stamp.before_iff_precedes zone]
    exact fun after => reached (after.trans precedes)
  -- What the end leaves of the periods begins with the start all the same.
  have begun : ((s.periods.upTo last).onwards s.start).toList.1 =
      (s.periods.onwards s.start).toList.1.takeWhile (! last.before ·) := by
    rw [Trace.toList_onwards, Trace.toList_onwards, Trace.toList_upTo]
    dsimp only
    rw [takeWhile_eq_filter (closed (List.Sublist.refl _)), takeWhile_eq_filter (closed List.filter_sublist),
      List.filter_filter, List.filter_filter]
    exact List.filter_congr fun x _ => Bool.and_comm _ _
  have start : ∀ finish, (s.endingAt finish).start = s.start := fun _ => rfl
  have count : ∀ finish, (s.endingAt finish).count = s.count := fun _ => rfl
  have ends : ∀ finish, (s.endingAt finish).finish = finish := fun _ => rfl
  simp only [trace, periods_endingAt, start, count, ends]
  cases s.count with
  | none => exact begun
  | some count => rw [Trace.toList_first, Trace.toList_first, begun, List.take_takeWhile]

/-- A plain schedule keeps its timestamps with another end that admits the same of its days. -/
theorem toList_trace_of_within (plain : s.IsPlain) {finish : Option Stamp}
    (same : ∀ x, (s.endingAt finish).within x = s.within x) : (s.endingAt finish).trace.toList.1 = s.trace.toList.1 := by
  have plain' : (s.endingAt finish).IsPlain := { plain with }
  have dates : (s.endingAt finish).dates = ((s.visits.takeWhile s.counts).filter s.admitsAt).filter (s.endingAt finish).within := rfl
  rw [toList_trace_fst plain', toList_trace_fst plain, dates, Schedule.dates, List.filter_congr fun x _ => same x]
  rfl

end Schedule

/-! ### The end of a rule text -/

theorem RuleText.read?_of_moment {value : Text} {u : Stamp} (told : moment value = .ok u) : Compact.read? value = some u := by
  unfold moment at told
  split at told
  · cases told
    assumption
  · cases told

theorem RuleSpec.readLocal_of_until? {today last : Stamp} {value : Text} (ends : until? today value = some last) :
    FreeForm.readLocal today.day.year (.ofDay today.day) value = .ok last := by
  unfold until? finishOf at ends
  split at ends
  · cases ends
    assumption
  · cases ends
  · cases ends
  · cases ends

section Ends
variable {c : Setting} {rule start : Datum} {r : RuleText} {value : Text} {u : Stamp} {recurrence : Recurrence}

/-- The end of a rule is evaluated as the time as which it is told just if it has full digits. -/
theorem RuleText.until?_eq_iff (read : RuleText.read rule = .ok r) (noBlank : ∀ part ∈ r.parts, NoBlank part.2)
    (ends : r.get? .until = some value) (told : moment value = .ok u) {today last : Stamp}
    (evaluated : RuleSpec.until? today value = some last) : last = u ↔ Compact.hasFullDigits value = true := by
  have written := mem_of_get? ends
  exact Compact.eq_iff_hasFullDigits (noBlank _ written) ((areRead_of_read read).upper _ written) (read?_of_moment told)
    (RuleSpec.readLocal_of_until? evaluated)

/-- A rule whose values have no blanks has the timestamps that it has without its end, up to a local time. That is the
    time as which the end is told and imported just if the end has full digits. -/
theorem recurrence_ends (read : RuleText.read rule = .ok r) (noBlank : ∀ part ∈ r.parts, NoBlank part.2)
    (ends : r.get? .until = some value) (told : RuleText.moment value = .ok u)
    (evaluated : recurrenceOf c rule start = .ok recurrence) :
    ∃ s last, recurrence = .single s ∧ s.finish = some last ∧ last.zone = none ∧
      s.trace.toList.1 = (s.endingAt none).trace.toList.1.takeWhile (! last.before ·) ∧
      (last = u ↔ Compact.hasFullDigits value = true) := by
  unfold recurrenceOf at evaluated
  rw [read] at evaluated
  obtain ⟨anchor, anchored, evaluated⟩ := bind_eq_ok.mp (show r.recurrence c start = .ok recurrence from evaluated)
  obtain ⟨spec, s, rfl, said, made⟩ := exists_schedule read noBlank evaluated
  obtain ⟨fits, finish, start⟩ : (spec.finish.isSome = true → anchor.zone = none) ∧ s.finish = spec.finish ∧
      s.start.zone = anchor.zone := by
    obtain ⟨_, _, _, _, _, -, fits, -, -, rfl⟩ := Schedule.exists_made made
    exact ⟨fits, rfl, rfl⟩
  have said := said.finish
  rw [ends, Option.map_some] at said
  obtain ⟨last, given, again⟩ := Option.map_eq_some_iff.mp said.symm
  have naive := RuleSpec.zone_of_until? again.symm
  refine ⟨s, last, rfl, finish.trans given, naive, ?_, RuleText.until?_eq_iff read noBlank ends told again.symm⟩
  have same : s.endingAt (some last) = s := by
    rw [← given, ← finish]
    rfl
  have zone : last.zone = s.start.zone := by rw [naive, start, fits (by rw [given]; rfl)]
  have listed := Schedule.toList_trace_endingAt (Schedule.isOrdered_of made) zone
  rwa [same] at listed

end Ends

theorem isDate_twentieth : IsDate 2025 6 20 := by decide

theorem isDate_twentyThird : IsDate 2025 6 23 := by decide

theorem isTime_tenPast : IsTime 12 10 0 0 := by decide

theorem isTime_three : IsTime 15 0 0 0 := by decide

/-- The twentieth of June 2025, ten past noon. -/
def juneNoon : Stamp := { day := ⟨2025, 6, 20, isDate_twentieth⟩, clock := ⟨12, 10, 0, 0, isTime_tenPast⟩ }

/-- Three in the afternoon of the twenty-third. -/
def laterAfternoon : Stamp := { day := ⟨2025, 6, 23, isDate_twentyThird⟩, clock := ⟨15, 0, 0, 0, isTime_three⟩ }

/-- Every day, up to that time, which is written with four digits. -/
def untilAfternoon : Text := "FREQ=DAILY;UNTIL=20250623T1500Z".toList

theorem recurrence_ends_afternoon : ∃ r recurrence, RuleText.read (.text untilAfternoon) = .ok r ∧
    (∀ part ∈ r.parts, NoBlank part.2) ∧ r.get? .until = some "20250623T1500Z".toList ∧
    RuleText.moment "20250623T1500Z".toList = .ok laterAfternoon ∧
    recurrenceOf firstOf2025 (.text untilAfternoon) (.stamp juneNoon) = .ok recurrence ∧
    ∃ s, recurrence = .single s ∧ s.finish = some laterAfternoon := by
  obtain ⟨r, read, noBlank, ends⟩ : ∃ r, RuleText.read (.text untilAfternoon) = .ok r ∧ (∀ part ∈ r.parts, NoBlank part.2) ∧
      r.get? .until = some "20250623T1500Z".toList := ⟨_, rfl, by decide, rfl⟩
  have told : RuleText.moment "20250623T1500Z".toList = .ok laterAfternoon := rfl
  obtain ⟨recurrence, evaluated⟩ : ∃ recurrence,
      recurrenceOf firstOf2025 (.text untilAfternoon) (.stamp juneNoon) = .ok recurrence := ⟨_, rfl⟩
  obtain ⟨s, last, single, finish, -, -, same⟩ := recurrence_ends read noBlank ends told evaluated
  have full : Compact.hasFullDigits "20250623T1500Z".toList = true := by decide
  exact ⟨r, recurrence, read, noBlank, ends, told, evaluated, s, single, same.mpr full ▸ finish⟩

/-- Every day, up to a time of day of four digits that are not read two by two. -/
def untilShort : Text := "FREQ=DAILY;UNTIL=20250623T1234".toList

/-- The end is told as three minutes past twelve, and the rule goes on to thirty-four minutes past. -/
theorem recurrence_ends_late : ∃ r u s last, RuleText.read (.text untilShort) = .ok r ∧
    (∀ part ∈ r.parts, NoBlank part.2) ∧ r.get? .until = some "20250623T1234".toList ∧
    RuleText.moment "20250623T1234".toList = .ok u ∧
    recurrenceOf firstOf2025 (.text untilShort) (.stamp juneNoon) = .ok (.single s) ∧ s.finish = some last ∧ last ≠ u ∧
    ∃ x ∈ s.trace.toList.1, u.before x = true :=
  ⟨_, _, _, _, rfl, by decide, rfl, rfl, rfl, rfl, by decide, by decide +kernel⟩

end Cadence
