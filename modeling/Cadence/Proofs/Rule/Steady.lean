import Mathlib.Data.Int.GCD
import Mathlib.Data.Int.ModEq
import Mathlib.Tactic.Ring
import Cadence.Proofs.Rule.Aligned
import Cadence.Proofs.Rule.Faults
import Cadence.Proofs.Rule.Increasing

/-!
# Looking for occurrences

Looking for the occurrences of a rule may fail on the way. The queries recover from failures about a value or the range
of the calendar, and there are no others where the hours, minutes or seconds with which the periods of a rule are named
are on the clock and the positions of its weekdays are not far beyond a month: a number on the clock is reached again
from every period, because all periods agree with it up to the common divisor of the interval and the clock.
-/

namespace Cadence

/-! ### Traces -/

/-- The queries recover from what looking for timestamps runs into. -/
def Trace.Recovers (t : Trace) : Prop := ∀ f ∈ t.toList.2, (Failure.fault f).isValueOrRange = true

namespace Trace

variable {t : Trace} {f : Fault} {low high : Stamp}

theorem Recovers.upTo (recovers : t.Recovers) (last : Stamp) : (t.upTo last).Recovers := by
  intro f fault
  rw [toList_upTo] at fault
  dsimp only at fault
  split at fault
  · exact recovers f fault
  · cases fault

theorem Recovers.onwards (recovers : t.Recovers) (first : Stamp) : (t.onwards first).Recovers := by
  intro f fault
  rw [toList_onwards] at fault
  exact recovers f fault

theorem Recovers.first (recovers : t.Recovers) (count : Nat) : (t.first count).Recovers := by
  induction t generalizing count with
  | done => rwa [Trace.first]
  | failed f => rwa [Trace.first]
  | item s rest ih =>
    intro f fault
    cases count with
    | zero => cases fault
    | succ count =>
      rw [Trace.first, toList_item] at fault
      exact ih () recovers count f fault

theorem fault_of_take {n : Nat} (failed : t.take n = .error f) : t.toList.2 = some f := by
  rcases t.take_eq_or n with ⟨found, taken⟩ | ⟨g, fault, met⟩
  · cases failed.symm.trans taken
  · cases failed.symm.trans met
    exact fault

theorem fault_of_after (comparable : ∀ x ∈ t.toList.1, x.comparable low = true) {inclusive : Bool}
    (failed : t.after low inclusive = .error f) : t.toList.2 = some f := by
  rw [after_eq comparable] at failed
  split at failed
  · cases failed
  · rename_i fault
    cases failed
    exact fault
  · cases failed

theorem fault_of_between (lower : ∀ x ∈ t.toList.1, x.comparable low = true) (upper : ∀ x ∈ t.toList.1, x.comparable high = true)
    (failed : t.between low high = .error f) : t.toList.2 = some f := by
  induction t with
  | done => cases failed
  | failed g =>
    cases failed
    rfl
  | item s rest ih =>
    rw [toList_item] at lower upper ⊢
    obtain ⟨comparableLow, lower⟩ := List.forall_mem_cons.mp lower
    obtain ⟨comparableHigh, upper⟩ := List.forall_mem_cons.mp upper
    rw [Trace.between, comparableLow, comparableHigh] at failed
    simp only [Bool.not_true, Bool.false_eq_true, if_false] at failed
    split at failed
    · cases failed
    · split at failed
      · exact ih () lower upper failed
      · exact ih () lower upper (map_eq_error.mp failed)

end Trace

namespace Schedule

variable {s : Schedule} {c c' : Cursor} {tick next : Nat} {passOver : Bool} {f : Fault}

/-! ### Numbers on the clock -/

/-- Steps of `every` lead from a number to every other one that it agrees with up to their common divisor with the base. -/
theorem exists_steps {every base n : Nat} (below : n < base) (same : n ≡ tick [MOD Nat.gcd every base]) :
    ∃ k, 1 ≤ k ∧ k ≤ base ∧ (tick + k * every) % base = n := by
  obtain ⟨q, apart⟩ : (Nat.gcd every base : Int) ∣ (n : Int) - tick := Nat.modEq_iff_dvd.mp same.symm
  have bezout := Nat.gcd_eq_gcd_ab every base
  have positive : (0 : Int) < base := by omega
  have least := Int.emod_nonneg (Nat.gcdA every base * q - 1) positive.ne'
  have most := Int.emod_lt_of_pos (Nat.gcdA every base * q - 1) positive
  obtain ⟨j, steps⟩ := Int.eq_ofNat_of_zero_le least
  refine ⟨j + 1, by omega, by omega, ?_⟩
  have reached : ((tick + (j + 1) * every : Nat) : Int) ≡ n [ZMOD base] := by
    have turns : ((j : Int) + 1) ≡ Nat.gcdA every base * q [ZMOD base] := by
      have := (steps ▸ Int.mod_modEq (Nat.gcdA every base * q - 1) base).add_right 1
      rwa [sub_add_cancel] at this
    have goal : (n : Int) = tick + Nat.gcdA every base * q * every + base * (Nat.gcdB every base * q) := by
      have : (n : Int) = tick + (Nat.gcd every base : Int) * q := by omega
      rw [this, bezout]
      ring
    calc ((tick + (j + 1) * every : Nat) : Int) = tick + ((j : Int) + 1) * every := by push_cast; rfl
      _ ≡ tick + Nat.gcdA every base * q * every [ZMOD base] := (turns.mul_right _).add_left _
      _ ≡ n [ZMOD base] := by
        rw [goal]
        exact (Int.modEq_iff_dvd.mpr ⟨Nat.gcdB every base * q, by ring⟩)
  rw [Int.natCast_modEq_iff.mp reached, Nat.mod_eq_of_lt below]

/-- The rule does not name its periods, or one of the numbers that it gives them is on the clock and agrees with a part of
    a day up to the common divisor of the interval and the clock. -/
def Reaches (s : Schedule) (tick : Nat) : Prop :=
  s.ownNumbers.1 = [] ∨ ∃ n < s.ownNumbers.2, (n : Int) ∈ s.ownNumbers.1 ∧ n ≡ tick [MOD Nat.gcd s.every s.ownNumbers.2]

theorem Reaches.congr (reaches : s.Reaches tick) (same : tick ≡ next [MOD Nat.gcd s.every s.ownNumbers.2]) : s.Reaches next :=
  reaches.imp_right fun ⟨n, below, listed, agrees⟩ => ⟨n, below, listed, agrees.trans same⟩

theorem Reaches.add (reaches : s.Reaches tick) (k : Nat) : s.Reaches (tick + k * s.every) := by
  refine reaches.congr ?_
  have multiple : k * s.every ≡ 0 [MOD Nat.gcd s.every s.ownNumbers.2] :=
    (Nat.modEq_zero_iff_dvd).mpr ((Nat.gcd_dvd_left _ _).mul_left k)
  simpa using (multiple.add_left tick).symm

/-- The parts of a day come round again every day. -/
theorem Reaches.mod (reaches : s.Reaches tick) : s.Reaches (tick % s.frequency.perDay) := by
  have divides : s.ownNumbers.2 ∣ s.frequency.perDay := by
    unfold ownNumbers
    cases s.frequency <;> simp only [Frequency.perDay] <;> decide
  exact reaches.congr (((Nat.mod_modEq tick s.frequency.perDay).of_dvd divides).of_dvd (Nat.gcd_dvd_right _ _)).symm

theorem Reaches.exists_steps (reaches : s.Reaches tick) : ∃ k, s.stepsToOwn tick = some k := by
  unfold stepsToOwn
  rcases reaches with none | ⟨n, below, listed, agrees⟩
  · dsimp only
    rw [none]
    exact ⟨1, rfl⟩
  · dsimp only
    split
    · exact ⟨1, rfl⟩
    · obtain ⟨k, least, most, reached⟩ := Schedule.exists_steps below agrees
      refine Option.isSome_iff_exists.mp (List.find?_isSome.mpr ⟨k, List.mem_map.mpr ⟨k - 1, List.mem_range.mpr (by omega), by omega⟩, ?_⟩)
      rw [reached]
      exact List.contains_iff_mem.mpr listed

/-! ### The next period -/

/-- From a part of a day the next one is found, or there is none that the rule admits. -/
theorem seekTick_spec (reaches : s.Reaches tick) (rounds : Nat) :
    s.seekTick rounds tick = .error .value ∨ ∃ next, s.seekTick rounds tick = .ok next ∧ s.Reaches next := by
  induction rounds generalizing tick with
  | zero => exact .inl rfl
  | succ rounds ih =>
    obtain ⟨k, steps⟩ := reaches.exists_steps
    rw [seekTick, steps]
    dsimp only
    split
    · exact .inr ⟨_, rfl, reaches.add k⟩
    · exact ih (reaches.add k)

theorem nextTick_spec (reaches : s.Reaches tick) (passOver : Bool) :
    s.nextTick tick passOver = .error .value ∨ ∃ next, s.nextTick tick passOver = .ok next ∧ s.Reaches next := by
  unfold nextTick
  cases passOver with
  | false => exact seekTick_spec reaches _
  | true => exact seekTick_spec (reaches.add _) _

theorem recovers_timesAt (failed : s.timesAt tick = .error f) : (Failure.fault f).isValueOrRange = true := by
  have recovers {hours minutes seconds : List Int} (failed : (timesOf hours minutes seconds).mapError (·.toFault) = .error f) :
      (Failure.fault f).isValueOrRange = true := by
    cases made : timesOf hours minutes seconds with
    | ok times =>
      rw [made] at failed
      cases failed
    | error e =>
      rw [made] at failed
      cases failed
      cases e with
      | flaw reason => rfl
      | fault f =>
        rw [range_of_timesOf made]
        rfl
  unfold timesAt at failed
  dsimp only at failed
  split at failed
  · exact recovers failed
  · exact recovers failed
  · exact recovers failed
  · cases failed

/-- Going on with the next period. -/
theorem next_spec (reaches : s.Reaches c.tick) (passOver : Bool) :
    (∃ f, s.next c passOver = .error f ∧ (Failure.fault f).isValueOrRange = true) ∨
      ∃ c', s.next c passOver = .ok c' ∧ ∀ next ∈ c', s.Reaches next.tick := by
  unfold next
  split
  · rcases nextTick_spec reaches passOver with failed | ⟨tick, found, later⟩
    · exact .inl ⟨.value, by rw [failed]; rfl, rfl⟩
    · rw [found]
      cases listed : s.timesAt (tick % s.frequency.perDay) with
      | error f => exact .inl ⟨f, by simp only [bind, Except.bind, listed], recovers_timesAt listed⟩
      | ok times =>
        refine .inr ⟨_, by simp only [bind, Except.bind, listed]; rfl, fun next member => ?_⟩
        obtain ⟨day, -, rfl⟩ := Option.map_eq_some_iff.mp member
        exact later.mod
  · refine .inr ⟨_, rfl, fun next member => ?_⟩
    obtain ⟨day, -, rfl⟩ := Option.map_eq_some_iff.mp member
    exact reaches

/-! ### All periods -/

/-- Nothing that a schedule names is out of reach: a number of its periods is on the clock, and the positions of its weekdays
    can be counted in every month. -/
structure IsSteady (s : Schedule) : Prop where
  reaches : s.Reaches (s.tickOf s.start.clock)
  places : ∀ y : RuleYear, ∀ month, 1 ≤ month → month ≤ 12 → ∃ places, y.nthPlaces s month = .ok places
  easterDays : s.easterDays = []

/-- Weeks are numbered in all years but for the first. -/
theorem value_of_weekSpans {y : RuleYear} {weekStart : Weekday} {numbers : List Int}
    (failed : y.weekSpans weekStart numbers = .error f) : f = .value := by
  unfold RuleYear.weekSpans at failed
  split at failed
  · cases failed
  · dsimp only at failed
    split at failed
    · cases failed
    · rcases bind_eq_error.mp failed with failed | ⟨last, -, failed⟩
      · have failed := map_eq_error.mp failed
        unfold RuleYear.lastWeekBefore at failed
        split at failed
        · cases failed
        · split at failed <;> cases failed
          rfl
      · cases failed

theorem IsSteady.value_of_marks (steady : s.IsSteady) {y : RuleYear} {month : Nat} (pos : 1 ≤ month) (le : month ≤ 12)
    (failed : y.marks s month = .error f) : f = .value := by
  obtain ⟨places, placed⟩ := steady.places y month pos le
  have easter : y.easterPlaces s.easterDays = .ok [] := by
    rw [steady.easterDays]
    rfl
  unfold RuleYear.marks at failed
  rw [placed, easter] at failed
  rcases bind_eq_error.mp failed with failed | ⟨weeks, -, failed⟩
  · exact value_of_weekSpans failed
  · cases failed

theorem value_of_stampsOf {y : RuleYear} {times : List Clock} {days : List YearDay} (fault : (s.stampsOf y times days).2 = some f) :
    f = .value := by
  induction days with
  | nil => cases fault
  | cons d days ih =>
    unfold stampsOf at fault
    split at fault
    · exact (Option.some.inj fault).symm
    · exact ih fault

theorem value_of_stampsPlaced {y : RuleYear} {times : List Clock} {days : List YearDay}
    (fault : (s.stampsPlaced y times days).2 = some f) : f = .value := by
  unfold stampsPlaced at fault
  dsimp only at fault
  split at fault
  · cases fault
  · exact (Option.some.inj fault).symm

/-- The evaluation of a period runs into nothing but what the queries recover from, and goes on with a period from which
    the numbers of the rule are reached as well. -/
theorem IsSteady.step_spec (steady : s.IsSteady) (reaches : s.Reaches c.tick) :
    (∀ found f, s.step c = .fault found f → (Failure.fault f).isValueOrRange = true) ∧
      ∀ found next, s.step c = .more found next → s.Reaches next.tick := by
  obtain ⟨pos, le⟩ := c.day.month_bounds
  have value : ∀ f : Fault, f = .value → (Failure.fault f).isValueOrRange = true := by
    rintro f rfl
    rfl
  unfold step
  dsimp only
  split
  · rename_i failed
    refine ⟨?_, nofun⟩
    rintro _ _ ⟨⟩
    exact value _ (steady.value_of_marks pos le failed)
  · have stamps : ∀ (times : List Clock) (days : List YearDay) f, (if s.setPositions.isEmpty || times.isEmpty then
        s.stampsOf ⟨c.day.year⟩ times days else s.stampsPlaced ⟨c.day.year⟩ times days).2 = some f → f = .value := by
      intro times days f fault
      split at fault
      · exact value_of_stampsOf fault
      · exact value_of_stampsPlaced fault
    split
    · rename_i fault
      refine ⟨?_, nofun⟩
      rintro _ _ ⟨⟩
      exact value _ (stamps _ _ _ fault)
    · generalize decide ((List.filter _ _).length < _) = passOver
      rcases next_spec reaches passOver with ⟨f, failed, recovers⟩ | ⟨c', found, later⟩
      · rw [failed]
        refine ⟨?_, nofun⟩
        rintro _ _ ⟨⟩
        exact recovers
      · rw [found]
        cases c' with
        | none => exact ⟨nofun, nofun⟩
        | some next =>
          refine ⟨nofun, ?_⟩
          rintro _ _ ⟨⟩
          exact later next rfl

theorem IsSteady.recovers_traceFrom (steady : s.IsSteady) (fuel : Nat) (reaches : s.Reaches c.tick) :
    (s.traceFrom fuel c).Recovers := by
  induction fuel generalizing c with
  | zero => exact nofun
  | succ fuel ih =>
    obtain ⟨faults, goesOn⟩ := steady.step_spec reaches
    intro f fault
    unfold traceFrom at fault
    split at fault
    · rename_i failed
      rw [Trace.toList_prepend] at fault
      cases fault
      exact faults _ _ failed
    · rw [Trace.toList_ofList] at fault
      cases fault
    · rename_i next goes
      exact ih (goesOn _ next goes) f fault
    · rename_i first found next goes
      rw [Trace.toList_item, Trace.toList_prepend] at fault
      exact ih (goesOn _ next goes) f fault

/-- Looking for the occurrences of a steady schedule runs into nothing but what the queries recover from. -/
theorem IsSteady.recovers_trace (steady : s.IsSteady) : s.trace.Recovers := by
  have periods : s.periods.Recovers := by
    unfold periods
    dsimp only
    split
    · rename_i failed
      rintro f ⟨⟩
      split at failed
      · exact recovers_timesAt failed
      · cases failed
    · exact steady.recovers_traceFrom _ steady.reaches
  have ended : s.ended.Recovers := by
    unfold ended
    split
    · exact periods.upTo _
    · exact periods
  have begun := ended.onwards s.start
  unfold trace
  cases s.count with
  | none => exact begun
  | some count => exact begun.first count

end Schedule

/-! ### Steady rules -/

/-- The part that names the periods of a frequency, and how many of them make the next larger period; none where periods
    are days or longer. -/
def Frequency.clockPart? : Frequency → Option (RuleKey × Nat)
  | hourly => some (.byHour, 24)
  | minutely => some (.byMinute, 60)
  | secondly => some (.bySecond, 60)
  | _ => none

namespace RuleText

variable {r : RuleText} {today anchor : Stamp} {spec : RuleSpec} {s : Schedule}

/-- Where the periods of a rule are parts of a day, the numbers that it gives them are on the clock. -/
def IsOnClock (r : RuleText) : Prop := ∀ frequency key size, (r.get? .freq).map Frequency.ofName? = some (some frequency) →
  frequency.clockPart? = some (key, size) → ∀ n ∈ r.integers key, 0 ≤ n ∧ n < size

/-- Numbers on the clock that are worked out are reached from the start. -/
theorem exists_reached {key : RuleKey} {first size every : Nat} (onClock : ∀ n ∈ r.integers key, 0 ≤ n ∧ n < size) :
    r.clockNumbers key first size every true false = [] ∨
      ∃ n < size, (n : Int) ∈ r.clockNumbers key first size every true false ∧ n ≡ first [MOD Nat.gcd every size] := by
  cases numbers : r.clockNumbers key first size every true false with
  | nil => exact .inl rfl
  | cons n others =>
    have member : n ∈ r.clockNumbers key first size every true false := numbers ▸ List.mem_cons_self
    unfold clockNumbers at member
    split at member
    · obtain ⟨listed, agrees⟩ := List.mem_filter.mp (Schedule.mem_sortedSet.mp member)
      obtain ⟨least, most⟩ := onClock n listed
      obtain ⟨m, rfl⟩ := Int.eq_ofNat_of_zero_le least
      refine .inr ⟨m, by omega, List.mem_cons_self, (Nat.modEq_iff_dvd.mpr (Int.dvd_of_emod_eq_zero ?_)).symm⟩
      exact of_decide_eq_true agrees
    · cases member

theorem reaches_of_keeps (keeps : s.Keeps today r anchor) (onClock : r.IsOnClock) : s.Reaches (s.tickOf s.start.clock) := by
  have named := fun key size => onClock s.frequency key size keeps.frequency
  have onwards : ∀ n m : Nat, n ≡ n + m * 60 [MOD Nat.gcd s.every 60] := by
    intro n m
    have multiple : m * 60 ≡ 0 [MOD Nat.gcd s.every 60] := Nat.modEq_zero_iff_dvd.mpr ((Nat.gcd_dvd_right _ _).mul_left m)
    simpa using (multiple.add_left n).symm
  unfold Schedule.Reaches Schedule.ownNumbers Schedule.tickOf
  rw [keeps.start]
  cases rate : s.frequency with
  | yearly | monthly | weekly | daily => exact .inl rfl
  | hourly =>
    have hours := keeps.hours
    rw [rate] at hours named
    dsimp only
    rw [hours]
    exact exists_reached (named .byHour 24 rfl)
  | minutely =>
    have minutes := keeps.minutes
    rw [rate] at minutes named
    dsimp only
    rw [minutes]
    refine (exists_reached (named .byMinute 60 rfl)).imp_right fun ⟨n, below, listed, agrees⟩ => ⟨n, below, listed, ?_⟩
    rw [Nat.add_comm]
    exact agrees.trans (onwards _ _)
  | secondly =>
    have seconds := keeps.seconds
    rw [rate] at seconds named
    dsimp only
    rw [seconds]
    refine (exists_reached (named .bySecond 60 rfl)).imp_right fun ⟨n, below, listed, agrees⟩ => ⟨n, below, listed, ?_⟩
    rw [Nat.add_comm]
    exact agrees.trans (onwards _ _)

/-- A checked rule comes to a steady schedule if its numbers are on the clock and its positions near. -/
theorem isSteady_of_made (said : RuleSpec.Says today r spec) (checked : r.check = .ok ()) (made : Schedule.of spec anchor = .ok s)
    (onClock : r.IsOnClock) (near : ∀ pattern, Pattern.ofFrequency? (r.value .freq) = some pattern → r.HasNearPositions pattern) :
    s.IsSteady where
  reaches := reaches_of_keeps (keeps_of_said said checked made) onClock
  easterDays := (keeps_of_said said checked made).easterDays
  places y month pos le := by
    obtain ⟨frequency, _, _, _, _, named, -, -, -, rfl⟩ := Schedule.exists_made made
    refine exists_nthPlaces checked said.months said.weekdays anchor (fun counted => ?_) rfl rfl rfl y pos le
    have written : (r.get? .freq).map Frequency.ofName? = some (some frequency) := said.frequency.trans (by rw [named]; rfl)
    obtain ⟨value, got, found⟩ := Option.map_eq_some_iff.mp written
    have name : frequency.name = value := by simpa using List.find?_some found
    have pattern (p : Pattern) (rate : frequency = p.rate) : Pattern.ofFrequency? (r.value .freq) = some p := by
      have spelled : p.rate.name = p.frequency := by cases p <;> rfl
      rw [RuleText.value, got, Option.getD_some, ← name, rate, spelled, Pattern.ofFrequency?_frequency]
    rcases counted with monthly | ⟨yearly, months⟩
    · exact near .month (pattern .month monthly) (.inl rfl)
    · exact near .year (pattern .year yearly) (.inr ⟨rfl, months⟩)

end RuleText

end Cadence
