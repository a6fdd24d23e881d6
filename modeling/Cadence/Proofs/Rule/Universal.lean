import Cadence.Proofs.Rule.Evaluated
import Cadence.Proofs.Rule.Increasing

/-!
# Rules at universal time

A timestamp without a zone may be taken to be at universal time. A rule whose start and end are taken so has the
timestamps that it had, taken so: its periods, days and times are those of its start's own calendar and clock, and what is
compared is compared by instants.
-/

namespace Cadence

/-- The timestamp in its zone, or at universal time if it has none. -/
def Stamp.zoned (s : Stamp) : Stamp := { s with zone := some (s.zone.getD 0) }

theorem Stamp.instant_zoned (s : Stamp) : s.zoned.instant = s.instant := rfl

/-! ### Traces -/

namespace Trace

variable {f : Stamp → Stamp}

/-- Another timestamp in place of each one. -/
def map (f : Stamp → Stamp) : Trace → Trace
  | done => done
  | failed fault => failed fault
  | item s rest => item (f s) fun _ => map f (rest ())

theorem map_prepend (found : List Stamp) (rest : Unit → Trace) :
    (prepend found rest).map f = prepend (found.map f) fun _ => (rest ()).map f := by
  induction found with
  | nil => rfl
  | cons s found ih =>
    show item (f s) (fun _ => (prepend found rest).map f) = _
    rw [ih]
    rfl

theorem map_ofList (found : List Stamp) : (ofList found).map f = ofList (found.map f) := map_prepend found _

theorem take_map (n : Nat) (t : Trace) : (t.map f).take n = (t.take n).map (·.map f) := by
  induction n generalizing t with
  | zero => rfl
  | succ n ih =>
    cases t with
    | done | failed _ => rfl
    | item s rest =>
      show ((rest ()).map f |>.take n).map (f s :: ·) = ((take n (rest ())).map (s :: ·)).map _
      rw [ih]
      cases take n (rest ()) <;> rfl

section Compared
variable (compared : ∀ s, (f s).instant = s.instant)
include compared

theorem before_of_compared (s t : Stamp) : (f s).before (f t) = s.before t := by
  rw [Stamp.before, Stamp.before, compared, compared]

theorem map_upTo (last : Stamp) (t : Trace) : (t.upTo last).map f = (t.map f).upTo (f last) := by
  induction t with
  | done | failed _ => rfl
  | item s rest ih =>
    rw [upTo, map, upTo, before_of_compared compared]
    split
    · rfl
    · rw [map, ih]

theorem map_onwards (first : Stamp) (t : Trace) : (t.onwards first).map f = (t.map f).onwards (f first) := by
  induction t with
  | done | failed _ => rfl
  | item s rest ih =>
    rw [onwards, map, onwards, before_of_compared compared]
    split
    · exact ih ()
    · rw [map, ih]

end Compared

theorem map_first (count : Nat) (t : Trace) : (t.first count).map f = (t.map f).first count := by
  induction t generalizing count with
  | done | failed _ => cases count <;> rfl
  | item s rest ih =>
    cases count with
    | zero => rfl
    | succ count =>
      show item (f s) (fun _ => ((rest ()).first count).map f) = item (f s) fun _ => ((rest ()).map f).first count
      rw [ih]

end Trace

namespace Schedule

variable {s : Schedule} {y : RuleYear} {times : List Clock} {days : List YearDay} {found : List Stamp}

/-- The rule with its start and its end in their zones, or at universal time. -/
def zoned (s : Schedule) : Schedule := { s with start := s.start.zoned, finish := s.finish.map Stamp.zoned }

theorem map_stampsOf (s : Schedule) (y : RuleYear) (times : List Clock) (days : List YearDay) :
    s.zoned.stampsOf y times days = ((s.stampsOf y times days).1.map Stamp.zoned, (s.stampsOf y times days).2) := by
  induction days with
  | nil => rfl
  | cons d days ih =>
    unfold stampsOf
    rw [ih]
    cases Day.ofOrdinal? (y.firstOrdinal + d.index) with
    | none => rfl
    | some day =>
      simp only [List.map_append, List.map_map]
      rfl

theorem withoutRepeats_map {α β : Type} [DecidableEq α] [DecidableEq β] {f : α → β} {l : List α}
    (injective : ∀ a ∈ l, ∀ b ∈ l, f a = f b → a = b) : withoutRepeats (l.map f) = (withoutRepeats l).map f := by
  induction l with
  | nil => rfl
  | cons a l ih =>
    have later := ih fun b member c other => injective b (List.mem_cons_of_mem a member) c (List.mem_cons_of_mem a other)
    have first : ((withoutRepeats l).map f).head? = some (f a) ↔ (withoutRepeats l).head? = some a := by
      rw [List.head?_map, Option.map_eq_some_iff]
      constructor
      · rintro ⟨b, found, same⟩
        have member := List.mem_cons_of_mem a (mem_withoutRepeats.mp (List.mem_of_mem_head? found))
        rw [found, injective b member a List.mem_cons_self same]
      · exact fun found => ⟨a, found, rfl⟩
    rw [List.map_cons, withoutRepeats_cons, withoutRepeats_cons, later]
    simp only [first]
    split <;> rfl

/-- Timestamps of one zone keep their order, and what repeats goes on repeating. -/
theorem inOrder_map {zone : Option Int} (own : ∀ t ∈ found, t.zone = zone) :
    inOrder (found.map Stamp.zoned) = (inOrder found).map Stamp.zoned := by
  have sorted : ∀ t ∈ found.mergeSort fun a b => decide (a.ticks ≤ b.ticks), t.zone = zone :=
    fun t member => own t (List.mem_mergeSort.mp member)
  show withoutRepeats ((found.map Stamp.zoned).mergeSort fun a b => decide (a.ticks ≤ b.ticks)) = _
  rw [← List.map_mergeSort (f := Stamp.zoned) (r := fun a b => decide (a.ticks ≤ b.ticks)) fun _ _ _ _ => rfl]
  refine withoutRepeats_map fun a first b second same => ?_
  have ticks : a.zoned.ticks = b.zoned.ticks := congrArg Stamp.ticks same
  exact Stamp.eq_of_ticks ((sorted a first).trans (sorted b second).symm) ticks

theorem mapM_map {α : Type} {g h : α → Option Stamp} {f : Stamp → Stamp} (own : ∀ x, g x = (h x).map f) (items : List α) :
    items.mapM g = (items.mapM h).map (·.map f) := by
  induction items with
  | nil => rfl
  | cons x items ih =>
    rw [List.mapM_cons, List.mapM_cons, own, ih]
    cases h x with
    | none => rfl
    | some t => cases items.mapM h <;> rfl

theorem zone_of_mem_placed {items : List (YearDay × Clock)}
    (made : items.mapM (fun item => (Day.ofOrdinal? (y.firstOrdinal + item.1.index)).map (s.stampAt · item.2)) = some found) :
    ∀ t ∈ found, t.zone = s.start.zone := by
  intro t member
  obtain ⟨item, -, placed⟩ := exists_of_mem_mapM? made t member
  obtain ⟨day, -, rfl⟩ := Option.map_eq_some_iff.mp placed
  rfl

theorem stampsPlaced_eq (s : Schedule) (y : RuleYear) (times : List Clock) (days : List YearDay) :
    s.stampsPlaced y times days = ((s.setPositions.filterMap (placed days times)).mapM fun item =>
      (Day.ofOrdinal? (y.firstOrdinal + item.1.index)).map (s.stampAt · item.2)).elim ([], some .value) fun found => (inOrder found, none) := by
  unfold stampsPlaced
  dsimp only
  -- Both branches are the two values that the elimination takes.
  split <;> rename_i made
  all_goals exact (congrArg (fun o : Option (List Stamp) => o.elim ([], some Fault.value) fun found => (inOrder found, none)) made).symm

theorem map_stampsPlaced (s : Schedule) (y : RuleYear) (times : List Clock) (days : List YearDay) :
    s.zoned.stampsPlaced y times days = ((s.stampsPlaced y times days).1.map Stamp.zoned, (s.stampsPlaced y times days).2) := by
  have placed := mapM_map (g := fun item : YearDay × Clock => (Day.ofOrdinal? (y.firstOrdinal + item.1.index)).map (s.zoned.stampAt · item.2))
    (h := fun item => (Day.ofOrdinal? (y.firstOrdinal + item.1.index)).map (s.stampAt · item.2)) (f := Stamp.zoned)
    (fun item => by cases Day.ofOrdinal? (y.firstOrdinal + item.1.index) <;> rfl) (s.setPositions.filterMap (Schedule.placed days times))
  rw [stampsPlaced_eq, stampsPlaced_eq, show s.zoned.setPositions = s.setPositions from rfl, placed]
  cases made : List.mapM (fun item : YearDay × Clock => (Day.ofOrdinal? (y.firstOrdinal + item.1.index)).map (s.stampAt · item.2))
      (s.setPositions.filterMap (Schedule.placed days times)) with
  | none => rfl
  | some found =>
    show (inOrder (found.map Stamp.zoned), (none : Option Fault)) = _
    rw [inOrder_map (zone_of_mem_placed made)]
    rfl

/-! ### Periods -/

theorem seekTick_zoned (s : Schedule) (rounds tick : Nat) : s.zoned.seekTick rounds tick = s.seekTick rounds tick := by
  induction rounds generalizing tick with
  | zero => rfl
  | succ rounds ih =>
    unfold seekTick
    simp only [ih]
    rfl

/-- The next period does not depend on the zone. -/
theorem next_zoned (s : Schedule) (c : Cursor) (passOver : Bool) : s.zoned.next c passOver = s.next c passOver := by
  unfold next nextTick
  simp only [seekTick_zoned]
  rfl

/-- What a period comes to, with other timestamps. -/
def Step.map (f : Stamp → Stamp) : Step → Step
  | .fault found e => .fault (found.map f) e
  | .last found => .last (found.map f)
  | .more found next => .more (found.map f) next

theorem step_zoned (s : Schedule) (c : Cursor) : s.zoned.step c = (s.step c).map Stamp.zoned := by
  have marks : (RuleYear.mk c.day.year).marks s.zoned c.day.month = (RuleYear.mk c.day.year).marks s c.day.month := rfl
  have days : s.zoned.periodDays ⟨c.day.year⟩ c.day = s.periodDays ⟨c.day.year⟩ c.day := rfl
  have admits (m : RuleYear.Marks) : RuleYear.admits ⟨c.day.year⟩ s.zoned m = RuleYear.admits ⟨c.day.year⟩ s m := rfl
  have positions : s.zoned.setPositions = s.setPositions := rfl
  unfold step
  simp only [marks, days, admits, positions, map_stampsOf, map_stampsPlaced, next_zoned]
  cases (RuleYear.mk c.day.year).marks s c.day.month with
  | error e => rfl
  | ok m =>
    dsimp only
    generalize (s.periodDays ⟨c.day.year⟩ c.day).filter (RuleYear.admits ⟨c.day.year⟩ s m) = admitted
    have stamps : (if s.setPositions.isEmpty || c.times.isEmpty then
          ((s.stampsOf ⟨c.day.year⟩ c.times admitted).1.map Stamp.zoned, (s.stampsOf ⟨c.day.year⟩ c.times admitted).2)
        else ((s.stampsPlaced ⟨c.day.year⟩ c.times admitted).1.map Stamp.zoned, (s.stampsPlaced ⟨c.day.year⟩ c.times admitted).2)) =
        Prod.map (List.map Stamp.zoned) id (if s.setPositions.isEmpty || c.times.isEmpty then
          s.stampsOf ⟨c.day.year⟩ c.times admitted else s.stampsPlaced ⟨c.day.year⟩ c.times admitted) := by
      split <;> rfl
    rw [stamps]
    rcases (if s.setPositions.isEmpty || c.times.isEmpty then s.stampsOf ⟨c.day.year⟩ c.times admitted
      else s.stampsPlaced ⟨c.day.year⟩ c.times admitted) with ⟨found, fault⟩
    cases fault with
    | some f => rfl
    | none =>
      dsimp only [Prod.map, id]
      rcases s.next c (decide (admitted.length < (s.periodDays ⟨c.day.year⟩ c.day).length)) with f | next
      · rfl
      · cases next <;> rfl

theorem traceFrom_zoned (s : Schedule) (fuel : Nat) (c : Cursor) : s.zoned.traceFrom fuel c = (s.traceFrom fuel c).map Stamp.zoned := by
  induction fuel generalizing c with
  | zero => rfl
  | succ fuel ih =>
    unfold traceFrom
    rw [step_zoned]
    cases s.step c with
    | fault found e => exact (Trace.map_prepend found fun _ => .failed e).symm
    | last found => exact (Trace.map_ofList found).symm
    | more found next =>
      cases found with
      | nil => exact ih next
      | cons first found =>
        show Trace.item _ _ = Trace.item _ _
        congr 1
        funext _
        rw [Trace.map_prepend]
        simp only [ih]

theorem periods_zoned (s : Schedule) : s.zoned.periods = s.periods.map Stamp.zoned := by
  have tick : s.zoned.tickOf s.zoned.start.clock = s.tickOf s.start.clock := rfl
  have accepts : s.zoned.acceptsTick = s.acceptsTick := rfl
  have times : s.zoned.timesAt = s.timesAt := rfl
  have day : s.zoned.start.day = s.start.day := rfl
  unfold periods
  simp only [tick, accepts, times, day, traceFrom_zoned]
  generalize (if s.acceptsTick (s.tickOf s.start.clock) = true then s.timesAt (s.tickOf s.start.clock) else Except.ok []) = first
  cases first <;> rfl

/-- A rule has the same timestamps when those without a zone are taken to be at universal time. -/
theorem trace_zoned (s : Schedule) : s.zoned.trace = s.trace.map Stamp.zoned := by
  have start : s.zoned.start = s.start.zoned := rfl
  have finish : s.zoned.finish = s.finish.map Stamp.zoned := rfl
  have count : s.zoned.count = s.count := rfl
  unfold trace
  rw [periods_zoned, start, finish, count]
  cases s.finish <;> cases s.count <;>
    simp only [Option.map_none, Option.map_some, Trace.map_first, Trace.map_onwards Stamp.instant_zoned, Trace.map_upTo Stamp.instant_zoned]

/-- The rule is evaluated from its start at universal time as from the start itself, its end being left aside. -/
theorem of_zoned {spec : RuleSpec} {start : Stamp} (evaluated : Schedule.of spec start = .ok s) :
    Schedule.of { spec with finish := none } start.wholeSecond.zoned = .ok { s.zoned with finish := none } := by
  obtain ⟨frequency, hours, minutes, seconds, times, named, -, positions, ⟨hour, minute, second, time⟩, rfl⟩ := exists_made evaluated
  unfold Schedule.of
  simp only [named, Option.isSome_none, Bool.false_and, Bool.false_eq_true, if_false, positions, Bool.not_true]
  refine bind_eq_ok.mpr ⟨hours, hour, bind_eq_ok.mpr ⟨minutes, minute, bind_eq_ok.mpr ⟨seconds, second, ?_⟩⟩⟩
  split at time <;> rename_i timed
  · obtain rfl := Except.ok.inj time
    rw [if_pos timed]
    rfl
  · rw [if_neg timed]
    exact bind_eq_ok.mpr ⟨times, time, rfl⟩

end Schedule

end Cadence
