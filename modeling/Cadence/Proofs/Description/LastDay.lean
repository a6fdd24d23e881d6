import Cadence.Proofs.Description.Kept
import Cadence.Proofs.Rule.Ended

/-!
# The last day of an imported rule

The last day of the fields is the day of the rule's end, or the day before if the end comes before the time of day of
the start. The rule falls on whole seconds. So the last day is the last on which the rule may fall, unless the start
has a part of a second and the rule ends at the very second in which it falls.
-/

namespace Cadence

open Text

variable {d : Description} {c : Setting} {r : RuleText} {rule fallback : Datum} {value : Text} {u last start : Stamp}

/-! ### Days at a time of day -/

theorem Clock.micros_wholeSecond (c : Clock) : c.micros = c.wholeSecond.micros + c.micro := by
  simp only [micros, wholeSecond, Nat.add_zero]

theorem Clock.exists_seconds {c : Clock} (whole : c.micro = 0) : ∃ n, c.micros = n * 1000000 :=
  ⟨_, by rw [micros, whole, Nat.add_zero]⟩

/-- The days up to the last one are those that have a time of day no later than the end. -/
def Stamp.LeavesDays (u : Stamp) (clock : Clock) (last : Day) : Prop :=
  ∀ day : Day, u.before { day, clock } = false ↔ day.ordinal ≤ last.ordinal

/-- The last day is the last that has the start's whole second no later than the end, unless the end is that second and
    the start has a part of it. -/
theorem RuleText.leavesDays_iff (found : lastDay start u = .ok last) (plain : u.plain = u) :
    u.LeavesDays start.clock.wholeSecond last.day ↔ start.clock.micro = 0 ∨ u.clock ≠ start.clock.wholeSecond := by
  have zone : u.zone = none := by rw [← plain]; rfl
  have whole : u.clock.micro = 0 := by rw [← plain]; rfl
  obtain ⟨-, -, number⟩ := lastDay_eq_ok found zone
  have late (day : Day) : u.before { day, clock := start.clock.wholeSecond } = false ↔
      ¬ (u.day.ordinal < day.ordinal ∨ u.day.ordinal = day.ordinal ∧ u.clock.micros < start.clock.wholeSecond.micros) := by
    rw [← Bool.not_eq_true, Stamp.before_iff zone]
  have split := start.clock.micros_wholeSecond
  have part : start.clock.micro < 1000000 := start.clock.valid.2.2.2
  obtain ⟨n, seconds⟩ := Clock.exists_seconds whole
  obtain ⟨n', seconds'⟩ := Clock.exists_seconds (c := start.clock.wholeSecond) rfl
  constructor
  · intro leaves
    refine Classical.byContradiction fun both => ?_
    obtain ⟨some, same⟩ := not_or.mp both
    have same := congrArg Clock.micros (Classical.not_not.mp same)
    -- The day of the end itself is lost.
    have own := (late u.day).symm.trans (leaves u.day)
    rw [if_pos (by omega)] at number
    omega
  · intro fits day
    rw [late]
    have apart : u.clock.micros = start.clock.wholeSecond.micros → start.clock.micro = 0 := fun same =>
      fits.elim id fun other => absurd (Clock.eq_of_micros same) other
    split at number <;> omega

/-! ### Timestamps of the rule -/

section Imported
variable {pattern : Pattern} {anchor : Stamp} {recurrence : Recurrence} {spec : RuleSpec}

/-- The fields start at the time of day at which the rule falls. -/
theorem RuleText.Becomes.wholeSecond_start
    (becomes : r.Becomes c rule fallback pattern anchor (.single (Schedule.ofImportable spec pattern.rate anchor)) d) :
    d.start.clock.wholeSecond = anchor.clock.wholeSecond := by
  rcases becomes.start_eq_or_mem with same | found
  · rw [same]
  · have plain := Schedule.isPlain_ofImportable spec (Pattern.isTimed_rate pattern) anchor
    have found : d.start ∈ (Schedule.ofImportable spec pattern.rate anchor).trace.toList.1 := found
    rw [Schedule.toList_trace_fst plain] at found
    obtain ⟨x, -, same⟩ := List.mem_map.mp found
    rw [← same]
    rfl

/-- The last day of an imported rule is the last on which the rule has its time of day no later than its end, unless the
    rule ends at the whole second of its start and the start has a part of a second. Where the end is read in one way
    and no value has blanks, the rule then has the same timestamps up to the last second of that day. -/
theorem Description.ofRule_lastDay (read : RuleText.read rule = .ok r) (made : Description.ofRule c rule fallback = .ok d)
    (ends : r.get? .until = some value) :
    ∃ u last, RuleText.moment value = .ok u ∧ d.finish = some last ∧
      (u.LeavesDays d.start.clock.wholeSecond last.day ↔ d.start.clock.micro = 0 ∨ u.clock ≠ d.start.clock.wholeSecond) ∧
      ((∀ part ∈ r.parts, NoBlank part.2) → Compact.hasFullDigits value = true →
        u.LeavesDays d.start.clock.wholeSecond last.day → ∃ s, recurrenceOf c rule fallback = .ok (.single s) ∧
          (s.endingAt (some last.dayClose)).trace.toList.1 = s.trace.toList.1) := by
  rw [Description.ofRule, read] at made
  obtain ⟨pattern, anchor, recurrence, becomes⟩ := RuleText.becomes_of_description made
  obtain ⟨u, last, told, finish, found⟩ := becomes.exists_lastDay ends
  have plain := RuleText.plain_of_moment told
  refine ⟨u, last, told, finish, RuleText.leavesDays_iff found plain, fun noBlank full leaves => ?_⟩
  have areRead := RuleText.areRead_of_read read
  have checked := RuleText.check_of_read read
  have arePlain := areRead.arePlain noBlank (RuleText.inOrder_ne_nil_of_check checked) (recurrenceFrom_eq_ok.mp becomes.evaluated)
  have evaluated := becomes.recurrenceOf_eq read
  obtain ⟨spec, reads, fits, rfl⟩ := (becomes.isPatterned arePlain).recurrenceFrom_eq_ok.mp becomes.evaluated
  have said := reads.finish
  rw [ends, Option.map_some] at said
  obtain ⟨e, given, again⟩ := Option.map_eq_some_iff.mp said.symm
  obtain rfl : e = u := (RuleText.until?_eq_iff read noBlank ends told again.symm).mpr full
  refine ⟨_, evaluated, Schedule.toList_trace_of_within (Schedule.isPlain_ofImportable spec (Pattern.isTimed_rate pattern) anchor)
    fun x => ?_⟩
  have zone : anchor.zone = none := fits (by rw [given]; rfl)
  have naive := RuleText.zone_of_moment told
  have stamp : (Schedule.ofImportable spec pattern.rate anchor).stampOn x = { day := x, clock := d.start.clock.wholeSecond } := by
    rw [becomes.wholeSecond_start, ← zone]
    rfl
  have ends' : (Schedule.ofImportable spec pattern.rate anchor).finish = some e := given
  have zone' := (RuleText.lastDay_eq_ok found naive).1
  have close : last.dayClose.before { day := x, clock := d.start.clock.wholeSecond } =
      e.before { day := x, clock := d.start.clock.wholeSecond } := by
    have reached := leaves x
    have closes := Stamp.dayClose_before_iff (b := { day := x, clock := d.start.clock.wholeSecond }) zone' rfl
    rw [Bool.eq_iff_iff, closes, ← Bool.not_eq_false, reached, Nat.not_le]
  have own : ((Schedule.ofImportable spec pattern.rate anchor).endingAt (some last.dayClose)).within x =
      ! last.dayClose.before ((Schedule.ofImportable spec pattern.rate anchor).stampOn x) := rfl
  rw [own, Schedule.within, ends', Option.all_some, stamp, close]

end Imported

namespace Description

theorem isTime_pastNoon : IsTime 12 0 0 500000 := by decide

theorem isTime_noon : IsTime 12 0 0 0 := by decide

/-- Half a second past noon on the twentieth of June. -/
def pastNoon : Stamp := { day := ⟨2025, 6, 20, isDate_twentieth⟩, clock := ⟨12, 0, 0, 500000, isTime_pastNoon⟩ }

/-- Noon of the twenty-third. -/
def laterNoon : Stamp := { day := ⟨2025, 6, 23, isDate_twentyThird⟩, clock := ⟨12, 0, 0, 0, isTime_noon⟩ }

/-- Every day up to a second before that. -/
def untilBeforeNoon : Text := "FREQ=DAILY;UNTIL=20250623T115959".toList

theorem ofRule_untilBeforeNoon : (ofRule firstOf2025 (.text untilBeforeNoon) (.stamp pastNoon)).toOption.map (·.start) =
    some pastNoon := by
  decide +kernel

theorem ofRule_lastDay_beforeNoon : ∃ r d u last s, RuleText.read (.text untilBeforeNoon) = .ok r ∧
    ofRule firstOf2025 (.text untilBeforeNoon) (.stamp pastNoon) = .ok d ∧ r.get? .until = some "20250623T115959".toList ∧
    (∀ part ∈ r.parts, NoBlank part.2) ∧ Compact.hasFullDigits "20250623T115959".toList = true ∧
    RuleText.moment "20250623T115959".toList = .ok u ∧ d.finish = some last ∧
    u.LeavesDays d.start.clock.wholeSecond last.day ∧
    recurrenceOf firstOf2025 (.text untilBeforeNoon) (.stamp pastNoon) = .ok (.single s) ∧
    (s.endingAt (some last.dayClose)).trace.toList.1 = s.trace.toList.1 := by
  obtain ⟨r, read, noBlank, ends⟩ : ∃ r, RuleText.read (.text untilBeforeNoon) = .ok r ∧ (∀ part ∈ r.parts, NoBlank part.2) ∧
      r.get? .until = some "20250623T115959".toList := ⟨_, rfl, by decide, rfl⟩
  have full : Compact.hasFullDigits "20250623T115959".toList = true := by decide
  obtain ⟨d, made, start⟩ := Option.map_eq_some_iff.mp ofRule_untilBeforeNoon
  have made := toOption_eq_some made
  obtain ⟨u, last, told, finish, iff, same⟩ := ofRule_lastDay read made ends
  -- The end is another second than that of the start.
  have apart : u.clock ≠ d.start.clock.wholeSecond := by
    have beforeNoon : RuleText.moment "20250623T115959".toList = .ok ⟨⟨2025, 6, 23, by decide⟩, ⟨11, 59, 59, 0, by decide⟩, none⟩ := rfl
    rw [beforeNoon] at told
    rw [start, ← Except.ok.inj told]
    decide
  have leaves := iff.mpr (.inr apart)
  obtain ⟨s, evaluated, kept⟩ := same noBlank full leaves
  exact ⟨r, d, u, last, s, read, made, ends, noBlank, full, told, finish, leaves, evaluated, kept⟩

/-- Every day up to noon of the twenty-third. -/
def untilNoon : Text := "FREQ=DAILY;UNTIL=20250623T120000".toList

theorem ofRule_untilNoon : (ofRule firstOf2025 (.text untilNoon) (.stamp pastNoon)).toOption.map (fun d => (d.start, d.finish)) =
    some (pastNoon, some (.ofDay ⟨2025, 6, 22, by decide⟩)) := by
  decide +kernel

/-- A rule that ends at the second of its start loses its last day, if the start has a part of that second. -/
theorem ofRule_loses_lastDay : ∃ d u last s, ofRule firstOf2025 (.text untilNoon) (.stamp pastNoon) = .ok d ∧
    RuleText.moment "20250623T120000".toList = .ok u ∧ d.finish = some last ∧
    ¬ u.LeavesDays d.start.clock.wholeSecond last.day ∧
    recurrenceOf firstOf2025 (.text untilNoon) (.stamp pastNoon) = .ok (.single s) ∧
    ∃ x ∈ s.trace.toList.1, last.dayClose.before x = true := by
  obtain ⟨d, made, fields⟩ := Option.map_eq_some_iff.mp ofRule_untilNoon
  obtain ⟨start, finish⟩ := Prod.mk.inj fields
  have told : RuleText.moment "20250623T120000".toList = .ok laterNoon := rfl
  have inside : laterNoon.before { day := laterNoon.day, clock := pastNoon.clock.wholeSecond } = false := by decide +kernel
  have outside : ¬ laterNoon.day.ordinal ≤ (Day.mk 2025 6 22 (by decide)).ordinal := by decide +kernel
  obtain ⟨s, evaluated, found⟩ : ∃ s, recurrenceOf firstOf2025 (.text untilNoon) (.stamp pastNoon) = .ok (.single s) ∧
      ∃ x ∈ s.trace.toList.1, (Stamp.ofDay ⟨2025, 6, 22, by decide⟩).dayClose.before x = true := ⟨_, rfl, by decide +kernel⟩
  refine ⟨d, laterNoon, _, s, toOption_eq_some made, told, finish, fun leaves => ?_, evaluated, found⟩
  rw [start] at leaves
  exact outside ((leaves laterNoon.day).mp inside)

end Description

end Cadence
