import Cadence.Proofs.Rule.Times
import Cadence.Proofs.Rule.Trace

/-!
# Timestamps come in order

Whatever its parts, a rule finds its timestamps one strictly after the other. Those of a period lie within
the period, which for periods shorter than a day is a part of a day, and come in the order of their days and
times; positions pick some of them out and put them in order again. The next period begins after them.
-/

namespace Cadence

namespace Schedule

variable {s : Schedule} {c c' : Cursor} {y : RuleYear} {times : List Clock} {days : List YearDay} {x : Stamp}

/-! ### The timestamps of a period -/

/-- The timestamp is at one of the times on one of the days, in the zone of the rule. -/
structure IsAt (s : Schedule) (y : RuleYear) (times : List Clock) (days : List YearDay) (x : Stamp) : Prop where
  zone : x.zone = s.start.zone
  clock : x.clock ∈ times
  day : ∃ d ∈ days, x.day.ordinal = y.firstOrdinal + d.index

theorem isAt_of_mem_stampsOf (found : x ∈ (s.stampsOf y times days).1) : s.IsAt y times days x := by
  induction days with
  | nil => cases found
  | cons d days ih =>
    rw [stampsOf] at found
    split at found
    · cases found
    · rename_i day here
      rcases List.mem_append.mp found with first | rest
      · obtain ⟨clock, listed, rfl⟩ := List.mem_map.mp first
        exact ⟨rfl, listed, d, List.mem_cons_self, Day.ordinal_of_ofOrdinal? here⟩
      · obtain ⟨zone, clock, e, member, same⟩ := ih rest
        exact ⟨zone, clock, e, List.mem_cons_of_mem d member, same⟩

theorem pairwise_stampsOf (sorted : times.Pairwise Earlier) (ordered : days.Pairwise fun d e => d.index < e.index) :
    (s.stampsOf y times days).1.Pairwise Stamp.Precedes := by
  induction days with
  | nil => exact List.Pairwise.nil
  | cons d days ih =>
    obtain ⟨first, rest⟩ := List.pairwise_cons.mp ordered
    rw [stampsOf]
    split
    · exact List.Pairwise.nil
    · rename_i day here
      have ordinal := Day.ordinal_of_ofOrdinal? here
      refine List.pairwise_append.mpr ⟨?_, ih rest, fun a member b later => ?_⟩
      · refine List.pairwise_map.mpr (sorted.imp fun {a b} earlier => ?_)
        unfold Earlier at earlier
        simp only [Stamp.Precedes, Stamp.ticks, stampAt]
        omega
      · obtain ⟨clock, -, rfl⟩ := List.mem_map.mp member
        obtain ⟨-, -, e, inside, same⟩ := isAt_of_mem_stampsOf later
        have before := first e inside
        have inDay := clock.micros_lt
        simp only [Stamp.Precedes, Stamp.ticks, stampAt]
        unfold Clock.microsPerDay at inDay ⊢
        omega

theorem mem_inOrder {found : List Stamp} : x ∈ inOrder found ↔ x ∈ found :=
  mem_withoutRepeats.trans List.mem_mergeSort

/-- Timestamps of one zone are put in order. -/
theorem pairwise_inOrder {found : List Stamp} {zone : Option Int} (zones : ∀ x ∈ found, x.zone = zone) :
    (inOrder found).Pairwise Stamp.Precedes := by
  have sorted := @List.pairwise_mergeSort Stamp (fun a b => decide (a.ticks ≤ b.ticks)) (by simp; omega) (by simp; omega) found
  have zones : ∀ x ∈ found.mergeSort fun a b => decide (a.ticks ≤ b.ticks), x.zone = zone :=
    fun x member => zones x (List.mem_mergeSort.mp member)
  have ordered : (found.mergeSort fun a b => decide (a.ticks ≤ b.ticks)).Pairwise fun a b => a = b ∨ a.Precedes b := by
    refine (List.Pairwise.and_mem.mp sorted).imp fun {a b} inside => ?_
    obtain ⟨first, second, le⟩ := inside
    have le : a.ticks ≤ b.ticks := of_decide_eq_true le
    rcases Int.lt_or_eq_of_le le with lt | same
    · exact .inr lt
    · exact .inl (Stamp.eq_of_ticks ((zones a first).trans (zones b second).symm) same)
  exact pairwise_withoutRepeats ordered fun _ _ _ => Stamp.Precedes.trans

theorem mem_of_placed {position : Int} {d : YearDay} {clock : Clock} (found : placed days times position = some (d, clock)) :
    d ∈ days ∧ clock ∈ times := by
  unfold placed at found
  dsimp only at found
  generalize (if position < 0 then position else position - 1) = place at found
  generalize (if place / (times.length : Int) < 0 then place / (times.length : Int) + (days.length : Int)
    else place / (times.length : Int)) = dayPlace at found
  split at found
  · cases found
  · obtain ⟨d', here, found⟩ := Option.bind_eq_some_iff.mp found
    obtain ⟨clock', there, found⟩ := Option.bind_eq_some_iff.mp found
    cases found
    exact ⟨List.mem_of_getElem? here, List.mem_of_getElem? there⟩

theorem exists_of_mem_mapM? {α β : Type} {f : α → Option β} {l : List α} {results : List β} (ran : l.mapM f = some results) :
    ∀ b ∈ results, ∃ a ∈ l, f a = some b := by
  induction l generalizing results with
  | nil =>
    cases ran
    exact nofun
  | cons a l ih =>
    rw [List.mapM_cons] at ran
    obtain ⟨b, first, ran⟩ := Option.bind_eq_some_iff.mp ran
    obtain ⟨rest, others, ran⟩ := Option.bind_eq_some_iff.mp ran
    cases ran
    refine List.forall_mem_cons.mpr ⟨⟨a, List.mem_cons_self, first⟩, fun b member => ?_⟩
    obtain ⟨a', member, found⟩ := ih others b member
    exact ⟨a', List.mem_cons_of_mem a member, found⟩

/-- The timestamps at positions are in order, each at one of the times on one of the days. -/
theorem stampsPlaced_spec (s : Schedule) (y : RuleYear) (times : List Clock) (days : List YearDay) :
    (s.stampsPlaced y times days).1.Pairwise Stamp.Precedes ∧
      ∀ x ∈ (s.stampsPlaced y times days).1, s.IsAt y times days x := by
  unfold stampsPlaced
  dsimp only
  split
  · rename_i found picked
    have isAt : ∀ x ∈ found, s.IsAt y times days x := by
      intro x member
      obtain ⟨⟨d, clock⟩, listed, here⟩ := exists_of_mem_mapM? picked x member
      obtain ⟨position, -, here'⟩ := List.mem_filterMap.mp listed
      obtain ⟨day, number, rfl⟩ := Option.map_eq_some_iff.mp here
      obtain ⟨dayListed, clockListed⟩ := mem_of_placed here'
      exact ⟨rfl, clockListed, d, dayListed, Day.ordinal_of_ofOrdinal? number⟩
    exact ⟨pairwise_inOrder fun x member => (isAt x member).zone, fun x member => isAt x (mem_inOrder.mp member)⟩
  · exact ⟨List.Pairwise.nil, nofun⟩

/-! ### Periods -/

/-- The times of a period are in order, and its part of the day holds them. -/
structure Fits (s : Schedule) (c : Cursor) : Prop where
  inDay : c.tick < s.frequency.perDay
  sorted : c.times.Pairwise Earlier
  inTick : ∀ clock ∈ c.times, s.InTick c.tick clock

/-- The timestamp lies in a period. -/
structure InPeriod (s : Schedule) (c : Cursor) (x : Stamp) : Prop where
  zone : x.zone = s.start.zone
  lower : s.spanStart c.day ≤ x.day.ordinal
  upper : x.day.ordinal < s.spanEnd c.day
  inTick : s.InTick c.tick x.clock

/-- The ticks with which a period begins. -/
def begins (s : Schedule) (c : Cursor) : Int := ((s.spanStart c.day * Clock.microsPerDay + c.tick * s.tickSpan : Nat) : Int)

theorem InPeriod.begins_le (inside : s.InPeriod c x) : s.begins c ≤ x.ticks := by
  have lower := Nat.mul_le_mul_right Clock.microsPerDay inside.lower
  have tick := inside.inTick.1
  unfold begins Stamp.ticks
  omega

/-- What the evaluation of a period has found. -/
def Step.timestamps : Step → List Stamp
  | fault found _ => found
  | last found => found
  | more found _ => found

/-- The timestamps of a period are in order and lie in it. -/
theorem timestamps_step (fits : s.Fits c) :
    (s.step c).timestamps.Pairwise Stamp.Precedes ∧ ∀ x ∈ (s.step c).timestamps, s.InPeriod c x := by
  have first := RuleYear.firstOrdinal_le c.day
  have starts := s.spanStart_le c.day
  have span : RuleYear.firstOrdinal ⟨c.day.year⟩ ≤ s.spanStart c.day := by
    unfold RuleYear.firstOrdinal at first ⊢
    cases hf : s.frequency <;> simp only [spanStart, hf] at starts ⊢ <;> omega
  unfold step
  dsimp only
  split
  · exact ⟨List.Pairwise.nil, fun _ member => absurd member List.not_mem_nil⟩
  · rename_i marks found
    have ordered : ((s.periodDays ⟨c.day.year⟩ c.day).filter (RuleYear.admits ⟨c.day.year⟩ s marks)).Pairwise
        fun d e => d.index < e.index := by
      refine List.Pairwise.filter _ ?_
      rw [periodDays_eq, List.pairwise_map]
      refine (List.Pairwise.and_mem.mp (List.pairwise_lt_range' 1)).imp fun {m n} inside => ?_
      obtain ⟨first, second, lt⟩ := inside
      rw [index_dayAt, index_dayAt]
      have := List.mem_range'_1.mp first
      omega
    have inside : ∀ x, s.IsAt ⟨c.day.year⟩ c.times
        ((s.periodDays ⟨c.day.year⟩ c.day).filter (RuleYear.admits ⟨c.day.year⟩ s marks)) x → s.InPeriod c x := by
      rintro x ⟨zone, clock, d, member, ordinal⟩
      have listed := (List.mem_filter.mp member).1
      rw [periodDays_eq] at listed
      obtain ⟨n, range, rfl⟩ := List.mem_map.mp listed
      have range := List.mem_range'_1.mp range
      rw [index_dayAt] at ordinal
      exact ⟨zone, by omega, by omega, fits.inTick _ clock⟩
    generalize (s.periodDays ⟨c.day.year⟩ c.day).filter (RuleYear.admits ⟨c.day.year⟩ s marks) = days at ordered inside
    have all : ∀ result, (if (s.setPositions.isEmpty || c.times.isEmpty) = true then s.stampsOf ⟨c.day.year⟩ c.times days
        else s.stampsPlaced ⟨c.day.year⟩ c.times days) = result →
        result.1.Pairwise Stamp.Precedes ∧ ∀ x ∈ result.1, s.InPeriod c x := by
      rintro result rfl
      split
      · exact ⟨pairwise_stampsOf fits.sorted ordered, fun x member => inside x (isAt_of_mem_stampsOf member)⟩
      · obtain ⟨sorted, isAt⟩ := stampsPlaced_spec s ⟨c.day.year⟩ c.times days
        exact ⟨sorted, fun x member => inside x (isAt x member)⟩
    generalize (if (s.setPositions.isEmpty || c.times.isEmpty) = true then s.stampsOf ⟨c.day.year⟩ c.times days
      else s.stampsPlaced ⟨c.day.year⟩ c.times days) = result at all
    have all := all result rfl
    split
    · exact all
    · split <;> exact all

/-- Evaluation goes on with the next period. -/
theorem next_of_step {found : List Stamp} (goes : s.step c = .more found c') :
    ∃ passOver, s.next c passOver = .ok (some c') := by
  unfold step at goes
  dsimp only at goes
  split at goes
  · cases goes
  · split at goes
    · cases goes
    · split at goes
      · cases goes
      · cases goes
      · rename_i found
        cases goes
        exact ⟨_, found⟩

/-! ### The next period -/

/-- The next part of a day that is looked for comes later. -/
theorem lt_of_seekTick (every : 1 ≤ s.every) {rounds tick next : Nat} (found : s.seekTick rounds tick = .ok next) :
    tick < next := by
  induction rounds generalizing tick with
  | zero => cases found
  | succ rounds ih =>
    rw [seekTick] at found
    split at found
    · cases found
    · rename_i k steps
      have positive : 1 ≤ k := by
        unfold stepsToOwn at steps
        dsimp only at steps
        split at steps
        · cases steps
          exact Nat.le_refl 1
        · have listed := List.mem_of_find?_eq_some steps
          obtain ⟨j, -, rfl⟩ := List.mem_map.mp listed
          exact Nat.le_add_left 1 j
      have further : 1 ≤ k * s.every := Nat.mul_le_mul positive every
      dsimp only at found
      split at found
      · cases found
        omega
      · have later := ih found
        omega

/-- Parts of a day are looked at on one day. -/
theorem span_of_timed (timed : s.frequency.isTimed = true) (d : Day) :
    s.spanStart d = d.ordinal ∧ s.spanEnd d = d.ordinal + 1 := by
  unfold spanStart spanEnd
  cases hf : s.frequency <;> first | exact ⟨rfl, rfl⟩ | simp [hf, Frequency.isTimed] at timed

theorem lt_of_nextTick (every : 1 ≤ s.every) {tick next : Nat} {passOver : Bool}
    (found : s.nextTick tick passOver = .ok next) : tick < next := by
  unfold nextTick at found
  dsimp only at found
  have later := lt_of_seekTick every found
  split at later <;> omega

/-- The ticks of a part of a day that is counted on from midnight of an earlier day. -/
theorem begins_of_tick {day : Day} {tick : Nat} (timed : s.frequency.isTimed = true)
    (number : day.ordinal = c.day.ordinal + tick / s.frequency.perDay) (times : List Clock) :
    s.begins { day, tick := tick % s.frequency.perDay, times } =
      ((c.day.ordinal * Clock.microsPerDay + tick * s.tickSpan : Nat) : Int) := by
  have parts : tick / s.frequency.perDay * Clock.microsPerDay + tick % s.frequency.perDay * s.tickSpan =
      tick * s.tickSpan := by
    rw [← s.perDay_mul_tickSpan, ← Nat.mul_assoc, ← Nat.add_mul, Nat.div_add_mod']
  unfold begins
  rw [(span_of_timed timed day).1, number, Nat.add_mul, Nat.add_assoc]
  simp only [parts]

/-- The next period fits, and it begins after the one before it has ended. -/
theorem fits_next (ordered : s.IsOrdered) (fits : s.Fits c) {passOver : Bool} (found : s.next c passOver = .ok (some c')) :
    s.Fits c' ∧ s.begins c ≤ s.begins c' ∧ ∀ x, s.InPeriod c x → x.ticks < s.begins c' := by
  unfold next at found
  split at found
  · rename_i timed
    obtain ⟨tick, later, found⟩ := bind_eq_ok.mp found
    obtain ⟨times, listed, found⟩ := bind_eq_ok.mp found
    obtain ⟨day, number, rfl⟩ := Option.map_eq_some_iff.mp (Except.ok.inj found)
    have number := Day.addDays?_eq_some.mp number
    have inDay := Nat.mod_lt tick s.perDay_pos
    obtain ⟨sorted, inTick⟩ := timesAt_eq_ok ordered inDay listed
    have number : day.ordinal = c.day.ordinal + tick / s.frequency.perDay := by omega
    have begins := begins_of_tick timed number times
    have further := Nat.mul_le_mul_right s.tickSpan (lt_of_nextTick ordered.every_pos later)
    refine ⟨⟨inDay, sorted, inTick⟩, ?_, fun x inside => ?_⟩
    · rw [begins]
      unfold Schedule.begins
      rw [(span_of_timed timed c.day).1]
      rw [Nat.succ_mul] at further
      omega
    · have upper := inside.upper
      have lower := inside.lower
      rw [(span_of_timed timed c.day).1] at lower
      rw [(span_of_timed timed c.day).2] at upper
      have tick := inside.inTick.2
      have same : x.day.ordinal = c.day.ordinal := by omega
      rw [begins, Stamp.ticks, same]
      rw [Nat.succ_mul] at further tick
      omega
  · rename_i long
    obtain ⟨day, number, rfl⟩ := Option.map_eq_some_iff.mp (Except.ok.inj found)
    have later := spanEnd_le_next ordered.every_pos number
    have starts := (nextDay?_eq_some number).2.spanStart_eq
    have here := s.lt_spanEnd c.day
    have before := s.spanStart_le c.day
    refine ⟨⟨fits.inDay, fits.sorted, fits.inTick⟩, ?_, fun x inside => ?_⟩
    · have further := Nat.mul_le_mul_right Clock.microsPerDay (show s.spanStart c.day ≤ day.ordinal by omega)
      unfold begins
      dsimp only
      rw [starts]
      omega
    · have inDay := x.clock.micros_lt
      have upper := inside.upper
      have further := Nat.mul_le_mul_right Clock.microsPerDay (show x.day.ordinal + 1 ≤ day.ordinal by omega)
      rw [Nat.add_mul, Nat.one_mul] at further
      unfold begins Stamp.ticks
      dsimp only
      rw [starts]
      omega

/-! ### All periods -/

/-- From a period on a rule finds its timestamps in order, none of them before the period begins. -/
theorem pairwise_traceFrom (ordered : s.IsOrdered) : ∀ (fuel : Nat) {c : Cursor}, s.Fits c →
    (s.traceFrom fuel c).toList.1.Pairwise Stamp.Precedes ∧
      ∀ x ∈ (s.traceFrom fuel c).toList.1, x.zone = s.start.zone ∧ s.begins c ≤ x.ticks
  | 0, c, _ => ⟨List.Pairwise.nil, nofun⟩
  | fuel + 1, c, fits => by
    obtain ⟨sorted, inside⟩ := timestamps_step fits
    have own : ∀ x ∈ (s.step c).timestamps, x.zone = s.start.zone ∧ s.begins c ≤ x.ticks :=
      fun x member => ⟨(inside x member).zone, (inside x member).begins_le⟩
    have list : (s.traceFrom (fuel + 1) c).toList.1 = (s.step c).timestamps ++
        match s.step c with
        | .more _ next => (s.traceFrom fuel next).toList.1
        | _ => [] := by
      rw [traceFrom]
      split <;> rename_i goes <;> rw [goes]
      · simp only [Trace.toList_prepend, Trace.toList, Step.timestamps]
      · simp only [Trace.toList_ofList, Step.timestamps, List.append_nil]
      · rfl
      · simp only [Trace.toList_item, Trace.toList_prepend, Step.timestamps, List.cons_append]
    rw [list]
    cases goes : s.step c with
    | fault found f =>
      rw [goes] at sorted own
      simpa using ⟨sorted, own⟩
    | last found =>
      rw [goes] at sorted own
      simpa using ⟨sorted, own⟩
    | more found c' =>
      rw [goes] at sorted own inside
      obtain ⟨passOver, next⟩ := next_of_step goes
      obtain ⟨fits', begins, apart⟩ := fits_next ordered fits next
      obtain ⟨sorted', own'⟩ := pairwise_traceFrom ordered fuel fits'
      refine ⟨List.pairwise_append.mpr ⟨sorted, sorted', fun a member b later => ?_⟩, ?_⟩
      · exact Int.lt_of_lt_of_le (apart a (inside a member)) (own' b later).2
      · refine List.forall_mem_append.mpr ⟨own, fun x member => ?_⟩
        exact ⟨(own' x member).1, Int.le_trans begins (own' x member).2⟩

/-- The timestamps of all periods are in order and in the zone of the start. -/
theorem pairwise_periods (ordered : s.IsOrdered) :
    s.periods.toList.1.Pairwise Stamp.Precedes ∧ ∀ x ∈ s.periods.toList.1, x.zone = s.start.zone := by
  unfold periods
  dsimp only
  split
  · exact ⟨List.Pairwise.nil, nofun⟩
  · rename_i times listed
    have inDay := s.tickOf_lt s.start.clock
    have fits : s.Fits { day := s.start.day, tick := s.tickOf s.start.clock, times } := by
      split at listed
      · obtain ⟨sorted, inTick⟩ := timesAt_eq_ok ordered inDay listed
        exact ⟨inDay, sorted, inTick⟩
      · cases listed
        exact ⟨inDay, List.Pairwise.nil, nofun⟩
    obtain ⟨sorted, own⟩ := pairwise_traceFrom ordered _ fits
    exact ⟨sorted, fun x member => (own x member).1⟩

end Schedule

end Cadence
