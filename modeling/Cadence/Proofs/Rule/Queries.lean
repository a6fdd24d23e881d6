import Cadence.Proofs.Calendar.Order
import Cadence.Proofs.Failure
import Cadence.Proofs.Rule.Trace
import Cadence.Rule.Query

/-!
# Queries of traces

What the queries answer about a rule whose trace is known, as to the first occurrences, and about one whose
trace lists timestamps without a zone in their order, as to days and dates without one.
-/

namespace Cadence

variable {c : Setting} {rule start : Datum} {recurrence : Recurrence} {found : List Stamp} {fault : Option Fault}

/-! ### The first occurrences -/

/-- The most occurrences that a machine can count. -/
def maxLimit : Nat := 9223372036854775807

theorem limitOf_natCast (n : Nat) : limitOf (.int n) = .ok (if n ≤ maxLimit then some n else none) := by
  unfold limitOf maxLimit
  by_cases zero : (n : Int) ≤ 0
  · obtain rfl : n = 0 := by omega
    rfl
  · by_cases countable : n ≤ 9223372036854775807
    · simp only [zero, if_false, if_pos countable, if_pos (show (n : Int) ≤ 9223372036854775807 by omega), Int.toNat_natCast]
    · simp only [zero, if_false, if_neg countable, if_neg (show ¬ (n : Int) ≤ 9223372036854775807 by omega)]

/-- The first occurrences are those of the trace. A fault behind its last timestamp takes all of them away as soon
    as it is met. -/
theorem occurrences_eq (evaluated : recurrenceOf c.plain rule start = .ok recurrence) (trace : recurrence.trace.toList = (found, fault))
    (recovers : ∀ f ∈ fault, (Failure.fault f).isValueOrRange = true) (n : Nat) :
    occurrences c rule (.int n) start =
      .ok (if n ≤ maxLimit ∧ (fault = none ∨ n ≤ found.length) then found.take n else []) := by
  have first : recurrence.trace.toList.1 = found := by rw [trace]
  unfold occurrences
  rw [limitOf_natCast]
  by_cases countable : n ≤ maxLimit
  · rw [if_pos countable]
    cases n with
    | zero =>
      rw [List.take_zero, ite_self]
      rfl
    | succ n =>
      simp only [bind, Except.bind, evaluated, countable, true_and]
      by_cases enough : n + 1 ≤ found.length
      · rw [Trace.take_of_le (by rwa [first]), first, if_pos (Or.inr enough)]
        rfl
      · cases fault with
        | none =>
          rw [Trace.take_of_toList trace, if_pos (Or.inl rfl)]
          rfl
        | some f =>
          rw [Trace.take_of_fault (by rw [first]; omega) (by rw [trace]), if_neg (by simp [enough])]
          simp only [liftFault_error, Result.recover, recovers f rfl, if_true]
  · simp only [bind, Except.bind, evaluated, countable, false_and, if_false]
    rfl

section Limits
variable {m n : Int}

theorem occurrences_of_nonpos (nonpos : n ≤ 0) : occurrences c rule (.int n) start = .ok [] := by
  have none : limitOf (.int n) = .ok (some 0) := if_pos nonpos
  rw [occurrences, none]
  rfl

/-- Where some are asked for, and no more than can be counted, they are taken from the trace. -/
theorem occurrences_of_pos {n : Nat} (positive : 0 < n) (countable : n ≤ maxLimit) : occurrences c rule (.int n) start =
    (recurrenceOf c.plain rule start >>= fun recurrence => liftFault (recurrence.trace.take n)).recover Failure.isValueOrRange [] := by
  unfold occurrences
  rw [limitOf_natCast, if_pos countable]
  obtain ⟨k, rfl⟩ := Nat.exists_eq_succ_of_ne_zero (Nat.ne_of_gt positive)
  rfl

theorem occurrences_of_uncountable {n : Nat} (uncountable : maxLimit < n) : occurrences c rule (.int n) start =
    (recurrenceOf c.plain rule start >>= fun _ => .error (.fault .value)).recover Failure.isValueOrRange [] := by
  unfold occurrences
  rw [limitOf_natCast, if_neg (Nat.not_le_of_lt uncountable)]
  rfl

/-- No more occurrences are listed than are asked for. -/
theorem length_occurrences_le (listed : occurrences c rule (.int n) start = .ok found) : (found.length : Int) ≤ max n 0 := by
  by_cases nonpos : n ≤ 0
  · rw [occurrences_of_nonpos nonpos] at listed
    obtain rfl := Except.ok.inj listed
    exact Int.le_max_right n 0
  · obtain ⟨k, rfl⟩ := Int.eq_ofNat_of_zero_le (show 0 ≤ n by omega)
    suffices within : found.length ≤ k by omega
    rcases Nat.lt_or_ge maxLimit k with uncountable | countable
    · rw [occurrences_of_uncountable uncountable] at listed
      rcases eq_ok_or_of_recover listed with listed | rfl
      · obtain ⟨recurrence, -, listed⟩ := bind_eq_ok.mp listed
        cases listed
      · exact Nat.zero_le k
    · rw [occurrences_of_pos (by omega) countable] at listed
      rcases eq_ok_or_of_recover listed with listed | rfl
      · obtain ⟨recurrence, -, taken⟩ := bind_eq_ok.mp listed
        rw [Trace.eq_take_of_take (liftFault_eq_ok.mp taken)]
        exact List.length_take_le k _
      · exact Nat.zero_le k

/-- A list of fewer occurrences begins the list of more, if the rule lasts for those. -/
theorem occurrences_prefix (le : m ≤ n) (countable : n ≤ maxLimit)
    (lasts : ∀ recurrence, recurrenceOf c.plain rule start = .ok recurrence → recurrence.trace.Lasts n.toNat)
    (listed : occurrences c rule (.int n) start = .ok found) :
    ∃ first, occurrences c rule (.int m) start = .ok first ∧ first <+: found := by
  by_cases nonpos : m ≤ 0
  · exact ⟨[], occurrences_of_nonpos nonpos, List.nil_prefix⟩
  · obtain ⟨i, rfl⟩ := Int.eq_ofNat_of_zero_le (show 0 ≤ m by omega)
    obtain ⟨k, rfl⟩ := Int.eq_ofNat_of_zero_le (show 0 ≤ n by omega)
    rw [occurrences_of_pos (by omega) (by omega)] at listed ⊢
    cases evaluated : recurrenceOf c.plain rule start with
    | error e =>
      rw [evaluated] at listed
      exact ⟨found, listed, List.prefix_rfl⟩
    | ok recurrence =>
      rw [evaluated] at listed
      have lasts : recurrence.trace.Lasts k := lasts recurrence evaluated
      simp only [bind, Except.bind] at listed ⊢
      rcases lasts.take (show 0 < i by omega) (show i ≤ k by omega) with ⟨fewer, more⟩ | ⟨f, fewer, more⟩
      · rw [more] at listed
        obtain rfl := Except.ok.inj listed
        rw [fewer]
        exact ⟨_, rfl, List.take_prefix_take_left (by omega)⟩
      · rw [more] at listed
        rw [fewer]
        exact ⟨found, listed, List.prefix_rfl⟩

end Limits

/-! ### Dates -/

/-- A rule finds timestamps without a zone in order, and then no fault but one that the queries recover from. -/
structure Recurrence.Lists (recurrence : Recurrence) (found : List Stamp) (fault : Option Fault) : Prop where
  trace : recurrence.trace.toList = (found, fault)
  sorted : found.Pairwise Stamp.Precedes
  naive : ∀ x ∈ found, x.zone = none
  recovers : ∀ f ∈ fault, (Failure.fault f).isValueOrRange = true

namespace Recurrence.Lists

variable (lists : recurrence.Lists found fault) {x s t : Stamp}
include lists

theorem comparable (naive : t.zone = none) : ∀ x ∈ recurrence.trace.toList.1, x.comparable t = true := by
  rw [lists.trace]
  intro x member
  simp [Stamp.comparable, lists.naive x member, naive]

theorem before_iff (member : x ∈ found) (naive : t.zone = none) : x.before t = true ↔ x.Precedes t :=
  Stamp.before_iff_precedes ((lists.naive x member).trans naive.symm)

theorem iff_before (member : x ∈ found) (naive : t.zone = none) : t.before x = true ↔ t.Precedes x :=
  Stamp.before_iff_precedes (naive.trans (lists.naive x member).symm)

theorem between (lower : s.zone = none) (upper : t.zone = none) :
    (liftFault (recurrence.trace.between s t)).recover Failure.isValueOrRange [] =
      .ok (if fault = none ∨ ∃ x ∈ found, t.Precedes x then found.filter fun x => ¬ x.Precedes s ∧ ¬ t.Precedes x else []) := by
  have kept : (found.filter fun x => ! x.before s && ! t.before x) =
      found.filter fun x => ¬ x.Precedes s ∧ ¬ t.Precedes x := by
    refine List.filter_congr fun x member => ?_
    simp only [← lists.before_iff member lower, ← lists.iff_before member upper]
    simp
  have past : found.any t.before = true ↔ ∃ x ∈ found, t.Precedes x := by
    rw [List.any_eq_true]
    exact exists_congr fun x => and_congr_right fun member => lists.iff_before member upper
  have sorted : recurrence.trace.toList.1.Pairwise fun x y => t.before x = true → t.before y = true := by
    rw [lists.trace]
    refine (List.Pairwise.and_mem.mp lists.sorted).imp fun {x y} inside later => ?_
    obtain ⟨first, second, precedes⟩ := inside
    rw [lists.iff_before first upper] at later
    exact (lists.iff_before second upper).mpr (later.trans precedes)
  rw [Trace.between_eq (lists.comparable lower) (lists.comparable upper) sorted, lists.trace]
  cases fault with
  | none => simp [Result.recover, kept]
  | some f =>
    dsimp only
    by_cases later : ∃ x ∈ found, t.Precedes x
    · rw [if_pos (past.mpr later), if_pos (Or.inr later), kept]
      rfl
    · rw [if_neg (mt past.mp later), if_neg (by simpa using later)]
      simp only [liftFault_error, Result.recover, lists.recovers f rfl, if_true]

/-- What is looked for first is found in the list, a fault behind it being recovered from. -/
theorem after (naive : t.zone = none) (inclusive : Bool) :
    (liftFault (recurrence.trace.after t inclusive)).recover Failure.isValueOrRange none =
      .ok (found.find? fun x => if inclusive then ! x.before t else t.before x) := by
  have wanted : (fun x : Stamp => t.before x || (inclusive && ! x.before t)) =
      fun x => if inclusive then ! x.before t else t.before x := by
    funext x
    cases inclusive with
    | false => simp
    | true => exact Stamp.before_or_not_before t x
  rw [Trace.after_eq (lists.comparable naive), lists.trace, wanted]
  cases found.find? fun x => if inclusive then ! x.before t else t.before x with
  | some x => rfl
  | none =>
    cases fault with
    | none => rfl
    | some f => simp only [liftFault_error, Result.recover, lists.recovers f rfl, if_true]

/-- The first timestamp that is not before a day is on the day if there is one on it. -/
theorem firstOnDay (naive : t.zone = none) :
    (match found.find? (! ·.before t.startOfDay) with
      | none => false
      | some hit => ! t.dayLast.before hit) = decide (∃ x ∈ found, x.day = t.day) := by
  have early (x : Stamp) (member : x ∈ found) := Stamp.before_startOfDay_iff ((lists.naive x member).trans naive.symm)
  have late (x : Stamp) (member : x ∈ found) := Stamp.dayLast_before_iff (naive.trans (lists.naive x member).symm)
  rw [Bool.eq_iff_iff, decide_eq_true_eq]
  cases first : found.find? (! ·.before t.startOfDay) with
  | none =>
    have none := List.find?_eq_none.mp first
    refine iff_of_false nofun ?_
    rintro ⟨x, member, same⟩
    have before := none x member
    rw [Bool.not_eq_true', Bool.not_eq_false, early x member, same] at before
    omega
  | some hit =>
    obtain ⟨reached, before, behind, split, unreached⟩ := List.find?_eq_some_iff_append.mp first
    have member : hit ∈ found := List.mem_of_find?_eq_some first
    rw [Bool.not_eq_true', ← Bool.not_eq_true, early hit member] at reached
    rw [Bool.not_eq_true', ← Bool.not_eq_true, late hit member]
    constructor
    · intro within
      exact ⟨hit, member, Day.eq_of_ordinal (by omega)⟩
    · rintro ⟨x, inside, same⟩
      -- Before the hit come earlier days, and behind it none that are earlier than its own.
      rw [split] at inside
      rcases List.mem_append.mp inside with earlier | inside
      · have unreached := unreached x earlier
        rw [Bool.not_not, early x (split ▸ List.mem_append_left _ earlier), same] at unreached
        omega
      · rcases List.mem_cons.mp inside with rfl | later
        · rw [same]
          omega
        · have sorted := lists.sorted
          rw [split, List.pairwise_append] at sorted
          have precedes := ((List.pairwise_cons.mp sorted.2.1).1 x later).day_le
          rw [same] at precedes
          omega

end Recurrence.Lists

section Ordered
variable (evaluated : recurrenceOf c rule start = .ok recurrence) (lists : recurrence.Lists found fault)
include evaluated lists

/-- The occurrences between two dates are those of the list. A fault behind them takes all of them away unless a
    later one comes before it. -/
theorem occurrencesBetween_eq {low high : Datum} {s t : Stamp} (lower : c.stamp low = .ok s) (upper : c.stamp high = .ok t)
    (naive : s.zone = none) (naive' : t.zone = none) :
    occurrencesBetween c rule low high start =
      .ok (if fault = none ∨ ∃ x ∈ found, t.Precedes x then found.filter fun x => ¬ x.Precedes s ∧ ¬ t.Precedes x else []) := by
  have comparable : t.comparable s = true := by simp [Stamp.comparable, naive, naive']
  have order := Stamp.before_iff_precedes (naive'.trans naive.symm)
  unfold occurrencesBetween
  by_cases reversed : t.before s = true
  · have none : (found.filter fun x => ¬ x.Precedes s ∧ ¬ t.Precedes x) = [] := by
      refine List.filter_eq_nil_iff.mpr fun x member => ?_
      have lt : t.ticks < s.ticks := order.mp reversed
      unfold Stamp.Precedes
      rw [decide_eq_true_eq]
      omega
    rw [none, ite_self]
    simp only [bind, Except.bind, lower, upper, orderedBefore, comparable, reversed, if_true]
    rfl
  · rw [← lists.between naive naive']
    simp only [bind, Except.bind, lower, upper, orderedBefore, comparable, reversed, if_true, evaluated]
    rfl

/-- The next occurrence is the first one of the list that comes later. -/
theorem nextOccurrence_eq {date : Datum} {t : Stamp} (read : c.stamp date = .ok t) (naive : t.zone = none) :
    nextOccurrence c rule date start = .ok (found.find? t.before) := by
  refine Eq.trans ?_ (lists.after naive false)
  simp only [nextOccurrence, bind, Except.bind, read, evaluated]

/-- There is an occurrence on a day if the list has one. -/
theorem occursOn_eq {date : Datum} {t : Stamp} (read : c.stamp date = .ok t) (naive : t.zone = none)
    (inside : t.day.ordinal < Day.lastOrdinal) :
    occursOn c rule date start = .ok (decide (∃ x ∈ found, x.day = t.day)) := by
  have looked := lists.after (show t.startOfDay.zone = none from naive) true
  simp only [if_true] at looked
  have answer : occursOn c rule date start = .ok (match found.find? (! ·.before t.startOfDay) with
      | none => false
      | some hit => ! t.dayLast.before hit) := by
    unfold occursOn firstFrom
    simp only [bind, Except.bind, read, evaluated]
    cases reply : liftFault (recurrence.trace.after t.startOfDay true) with
    | error e =>
      rw [reply] at looked
      unfold Result.recover at looked
      dsimp only at looked ⊢
      split at looked
      · rename_i recovered
        rw [if_pos recovered, ← Except.ok.inj looked]
      · cases looked
    | ok hit =>
      rw [reply] at looked
      obtain rfl := Except.ok.inj looked
      cases found.find? (! ·.before t.startOfDay) with
      | none => rfl
      | some hit =>
        show (dayEnd t).map _ = _
        rw [Stamp.dayEnd_eq, if_pos inside]
        rfl
  rw [answer, lists.firstOnDay naive]

end Ordered

end Cadence
