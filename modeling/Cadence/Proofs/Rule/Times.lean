import Cadence.Proofs.Rule.Evaluated
import Cadence.Proofs.Calendar.Order
import Cadence.Rule.Occurrence

/-!
# The times of day of a rule

The lists of a schedule are in order and without repetitions, and so are the times of day that are made of
them. Where periods are parts of a day, the times of a period lie within its part.
-/

namespace Cadence

/-! ### Lists in order -/

section Distinct
variable {α : Type} [DecidableEq α]

/-- A list without elements that repeat the one before. -/
def withoutRepeats (l : List α) : List α := l.foldr (fun a rest => if rest.head? = some a then rest else a :: rest) []

theorem withoutRepeats_cons (a : α) (l : List α) :
    withoutRepeats (a :: l) = if (withoutRepeats l).head? = some a then withoutRepeats l else a :: withoutRepeats l := rfl

theorem mem_withoutRepeats {a : α} {l : List α} : a ∈ withoutRepeats l ↔ a ∈ l := by
  induction l with
  | nil => exact Iff.rfl
  | cons b l ih =>
    rw [withoutRepeats_cons, List.mem_cons, ← ih]
    split
    · rename_i repeated
      have member : b ∈ withoutRepeats l := List.mem_of_mem_head? repeated
      constructor
      · exact Or.inr
      · rintro (rfl | inside)
        · exact member
        · exact inside
    · exact List.mem_cons

/-- In an ordered list what does not repeat comes strictly later. -/
theorem pairwise_withoutRepeats {lt : α → α → Prop} {l : List α} (sorted : l.Pairwise fun a b => a = b ∨ lt a b)
    (trans : ∀ a b c, lt a b → lt b c → lt a c) : (withoutRepeats l).Pairwise lt := by
  induction l with
  | nil => exact List.Pairwise.nil
  | cons a l ih =>
    obtain ⟨first, rest⟩ := List.pairwise_cons.mp sorted
    have strict := ih rest
    rw [withoutRepeats_cons]
    split
    · exact strict
    · rename_i fresh
      refine List.Pairwise.cons (fun b member => ?_) strict
      cases found : withoutRepeats l with
      | nil =>
        rw [found] at member
        cases member
      | cons c more =>
        rw [found] at member strict fresh
        have later : lt a c := by
          have inside : c ∈ l := mem_withoutRepeats.mp (found ▸ List.mem_cons_self)
          rcases first c inside with rfl | later
          · exact absurd rfl fresh
          · exact later
        rcases List.mem_cons.mp member with rfl | inside
        · exact later
        · exact trans a c b later ((List.pairwise_cons.mp strict).1 b inside)

end Distinct

namespace Schedule

variable {s : Schedule} {spec : RuleSpec} {start : Stamp} {frequency : Frequency}

theorem pairwise_sortedSet (numbers : List Int) : (sortedSet numbers).Pairwise (· < ·) := by
  have sorted := @List.pairwise_mergeSort Int (fun a b => decide (a ≤ b)) (by simp; omega) (by simp; omega) numbers
  have ordered : (numbers.mergeSort fun a b => decide (a ≤ b)).Pairwise fun a b => a = b ∨ a < b := by
    refine sorted.imp fun {a b} le => ?_
    have le : a ≤ b := of_decide_eq_true le
    omega
  exact pairwise_withoutRepeats ordered fun a b c => Int.lt_trans

theorem mem_sortedSet {n : Int} {numbers : List Int} : n ∈ sortedSet numbers ↔ n ∈ numbers :=
  mem_withoutRepeats.trans List.mem_mergeSort

/-! ### Times made of hours, minutes and seconds -/

theorem timeOfDay_eq_ok {hour minute second : Int} {c : Clock} (h : timeOfDay hour minute second = .ok c) :
    (c.hour : Int) = hour ∧ (c.minute : Int) = minute ∧ (c.second : Int) = second ∧ c.micro = 0 := by
  unfold timeOfDay at h
  split at h
  · cases h
  · split at h
    · cases h
    · split at h
      · cases h
      · split at h
        · rename_i clock made
          split at h
          · cases h
          · cases h
            unfold Clock.of? at made
            split at made
            · cases made
              refine ⟨?_, ?_, ?_, rfl⟩
              · show (hour.toNat : Int) = hour
                omega
              · show (minute.toNat : Int) = minute
                omega
              · show (second.toNat : Int) = second
                omega
            · cases made
        · cases h

/-- One time comes before another on a day. -/
def Earlier (a b : Clock) : Prop := a.micros < b.micros

theorem exists_of_mem_timesOf {hours minutes seconds : List Int} {times : List Clock}
    (made : timesOf hours minutes seconds = .ok times) {c : Clock} (member : c ∈ times) :
    (c.hour : Int) ∈ hours ∧ (c.minute : Int) ∈ minutes ∧ (c.second : Int) ∈ seconds ∧ c.micro = 0 := by
  obtain ⟨⟨hour, minute, second⟩, listed, found⟩ := exists_of_mem_mapM made c member
  obtain ⟨rfl, rfl, rfl, whole⟩ := timeOfDay_eq_ok found
  simp only [List.mem_flatMap, List.mem_map, Prod.mk.injEq] at listed
  obtain ⟨h, hours, m, minutes, s, seconds, rfl, rfl, rfl⟩ := listed
  exact ⟨hours, minutes, seconds, whole⟩

/-- Of lists in order, the times are in order. -/
theorem pairwise_timesOf {hours minutes seconds : List Int} {times : List Clock} (hourly : hours.Pairwise (· < ·))
    (minutely : minutes.Pairwise (· < ·)) (secondly : seconds.Pairwise (· < ·))
    (made : timesOf hours minutes seconds = .ok times) : times.Pairwise Earlier := by
  let before (a b : Int × Int × Int) : Prop :=
    a.1 < b.1 ∨ a.1 = b.1 ∧ (a.2.1 < b.2.1 ∨ a.2.1 = b.2.1 ∧ a.2.2 < b.2.2)
  have sorted : (hours.flatMap fun h => minutes.flatMap fun m => seconds.map fun s => (h, m, s)).Pairwise before := by
    rw [List.pairwise_flatMap]
    constructor
    · intro h _
      rw [List.pairwise_flatMap]
      constructor
      · intro m _
        exact List.pairwise_map.mpr (secondly.imp fun lt => .inr ⟨rfl, .inr ⟨rfl, lt⟩⟩)
      · refine minutely.imp fun lt x first y second => ?_
        obtain ⟨_, -, rfl⟩ := List.mem_map.mp first
        obtain ⟨_, -, rfl⟩ := List.mem_map.mp second
        exact .inr ⟨rfl, .inl lt⟩
    · refine hourly.imp fun lt x first y second => ?_
      simp only [List.mem_flatMap, List.mem_map] at first second
      obtain ⟨_, -, _, -, rfl⟩ := first
      obtain ⟨_, -, _, -, rfl⟩ := second
      exact .inl lt
  refine pairwise_of_mapM ?_ sorted made
  rintro ⟨h, m, n⟩ ⟨h', m', n'⟩ a b order first second
  obtain ⟨rfl, rfl, rfl, whole⟩ := timeOfDay_eq_ok first
  obtain ⟨rfl, rfl, rfl, whole'⟩ := timeOfDay_eq_ok second
  obtain ⟨-, hm, hs, -⟩ := a.valid
  obtain ⟨-, hm', hs', -⟩ := b.valid
  have order : (a.hour : Int) < b.hour ∨ (a.hour : Int) = b.hour ∧
      ((a.minute : Int) < b.minute ∨ (a.minute : Int) = b.minute ∧ (a.second : Int) < b.second) := order
  unfold Earlier Clock.micros
  rw [whole, whole']
  omega

/-! ### Schedules -/

/-- The parts of a schedule that its times are made of are in order. -/
structure IsOrdered (s : Schedule) : Prop where
  every_pos : 1 ≤ s.every
  times : s.times.Pairwise Earlier
  minutes : s.minutes.Pairwise (· < ·)
  seconds : s.seconds.Pairwise (· < ·)
  whole : s.start.clock.micro = 0

theorem pairwise_clockList {given : Option (List Int)} {first base every : Nat} {own longer : Bool} {found : List Int}
    (worked : clockList given first base every own longer = .ok found) : found.Pairwise (· < ·) := by
  rw [clockList_eq_ok worked]
  cases given with
  | some numbers => exact pairwise_sortedSet _
  | none => cases longer <;> simp

/-- Every schedule that a rule comes to is ordered. -/
theorem isOrdered_of (evaluated : Schedule.of spec start = .ok s) : s.IsOrdered := by
  obtain ⟨frequency, hours, minutes, seconds, times, -, -, -, hasTimes, rfl⟩ := exists_made evaluated
  have minutely := pairwise_clockList hasTimes.minute
  have secondly := pairwise_clockList hasTimes.second
  have sorted : times.Pairwise Earlier := by
    have time := hasTimes.time
    split at time
    · cases time
      exact List.Pairwise.nil
    · exact pairwise_timesOf (pairwise_clockList hasTimes.hour) minutely secondly time
  exact ⟨Nat.le_max_left _ _, sorted, minutely, secondly, rfl⟩

/-! ### The part of a day -/

theorem perDay_pos (s : Schedule) : 0 < s.frequency.perDay := by cases s.frequency <;> decide

/-- The microseconds of a part of a day, or of a whole day where periods are not parts of one. -/
def tickSpan (s : Schedule) : Nat := Clock.microsPerDay / s.frequency.perDay

theorem perDay_mul_tickSpan (s : Schedule) : s.frequency.perDay * s.tickSpan = Clock.microsPerDay := by
  unfold tickSpan
  cases s.frequency <;> rfl

/-- A time lies in a part of a day. -/
def InTick (s : Schedule) (tick : Nat) (c : Clock) : Prop :=
  tick * s.tickSpan ≤ c.micros ∧ c.micros < (tick + 1) * s.tickSpan

theorem inTick_of_long (long : s.frequency.isTimed = false) (c : Clock) : s.InTick 0 c := by
  have inDay := c.micros_lt
  have span : s.tickSpan = Clock.microsPerDay := by
    unfold tickSpan
    cases hf : s.frequency <;> first | rfl | simp [hf, Frequency.isTimed] at long
  rw [InTick, span]
  omega

/-- The times of a part of a day are in order and lie in it. -/
theorem timesAt_eq_ok (ordered : s.IsOrdered) {tick : Nat} {times : List Clock} (inside : tick < s.frequency.perDay)
    (found : s.timesAt tick = .ok times) : times.Pairwise Earlier ∧ ∀ c ∈ times, s.InTick tick c := by
  have one (n : Int) : [n].Pairwise (· < ·) := List.pairwise_singleton _ n
  cases hf : s.frequency with
  | yearly | monthly | weekly | daily =>
    simp only [timesAt, hf, Except.ok.injEq] at found
    rw [← found]
    simp only [hf, Frequency.perDay] at inside
    obtain rfl : tick = 0 := by omega
    exact ⟨ordered.times, fun c _ => inTick_of_long (by rw [hf]; rfl) c⟩
  | hourly =>
    simp only [timesAt, clockOfTick, hf] at found
    have made := mapError_eq_ok.mp found
    refine ⟨pairwise_timesOf (one _) ordered.minutes ordered.seconds made, fun c member => ?_⟩
    obtain ⟨hour, -⟩ := exists_of_mem_timesOf made member
    have hour := List.mem_singleton.mp hour
    obtain ⟨-, hm, hs, hu⟩ := c.valid
    simp only [InTick, tickSpan, hf, Frequency.perDay, Clock.microsPerDay, Clock.micros]
    omega
  | minutely =>
    simp only [timesAt, clockOfTick, hf] at found
    have made := mapError_eq_ok.mp found
    refine ⟨pairwise_timesOf (one _) (one _) ordered.seconds made, fun c member => ?_⟩
    obtain ⟨hour, minute, -⟩ := exists_of_mem_timesOf made member
    have hour := List.mem_singleton.mp hour
    have minute := List.mem_singleton.mp minute
    obtain ⟨-, -, hs, hu⟩ := c.valid
    simp only [InTick, tickSpan, hf, Frequency.perDay, Clock.microsPerDay, Clock.micros]
    omega
  | secondly =>
    simp only [timesAt, clockOfTick, hf] at found
    have made := mapError_eq_ok.mp found
    refine ⟨pairwise_timesOf (one _) (one _) (one _) made, fun c member => ?_⟩
    obtain ⟨hour, minute, second, whole⟩ := exists_of_mem_timesOf made member
    have hour := List.mem_singleton.mp hour
    have minute := List.mem_singleton.mp minute
    have second := List.mem_singleton.mp second
    simp only [InTick, tickSpan, hf, Frequency.perDay, Clock.microsPerDay, Clock.micros]
    omega

theorem tickOf_lt (s : Schedule) (c : Clock) : s.tickOf c < s.frequency.perDay := by
  obtain ⟨hh, hm, hs, -⟩ := c.valid
  unfold tickOf
  cases s.frequency <;> simp only [Frequency.perDay] <;> omega

end Schedule

end Cadence
