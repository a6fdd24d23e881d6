import Cadence.Proofs.Calendar.Order
import Cadence.Proofs.Rule.Trace

/-!
# The dates of a rule

The timestamps of a plain rule come from a list of days: from the start on, those on phase that the rule
admits and that are not after its end, up to a day whose period cannot be evaluated.
-/

namespace Cadence

/-- A prefix that a property cuts off is all that has the property, where it holds of what comes before. -/
theorem takeWhile_eq_filter {α : Type} {holds : α → Bool} {l : List α}
    (closed : l.Pairwise fun a b => holds b = true → holds a = true) : l.takeWhile holds = l.filter holds := by
  induction l with
  | nil => rfl
  | cons a l ih =>
    obtain ⟨first, rest⟩ := List.pairwise_cons.mp closed
    by_cases head : holds a = true
    · rw [List.takeWhile_cons_of_pos head, List.filter_cons_of_pos head, ih rest]
    · have none : l.filter holds = [] := List.filter_eq_nil_iff.mpr fun b member tail => head (first b member tail)
      rw [List.takeWhile_cons_of_neg head, List.filter_cons_of_neg head, none]

namespace Schedule

variable {s : Schedule} {x y : Day} {days : List Day}

/-- The timestamp of a rule on a day. -/
def stampOn (s : Schedule) (x : Day) : Stamp := s.stampAt x s.start.clock

/-- The rule can be evaluated on a day. -/
def counts (s : Schedule) (x : Day) : Bool := (s.placesAt x).isOk

/-- The rule can be evaluated on a day and admits it. -/
def admitsAt (s : Schedule) (x : Day) : Bool := (s.placesAt x).toOption.any (s.admitsDay · x)

/-- The day is not after the end of the rule. -/
def within (s : Schedule) (x : Day) : Bool := s.finish.all (! ·.before (s.stampOn x))

/-- The days on phase from the start on. -/
def visits (s : Schedule) : List Day := (Day.upFrom s.start.day.ordinal).filter (s.onPhase s.start.day)

/-- The days on which a rule falls. -/
def dates (s : Schedule) : List Day := ((s.visits.takeWhile s.counts).filter s.admitsAt).filter s.within

theorem scan_fst (s : Schedule) (days : List Day) :
    (s.scan days).1 = ((days.takeWhile s.counts).filter s.admitsAt).map s.stampOn := by
  induction days with
  | nil => rfl
  | cons x days ih =>
    cases places : s.placesAt x with
    | error f =>
      have stops : ¬ s.counts x = true := by simp [counts, places, Except.isOk, Except.toBool]
      simp only [scan, places, List.takeWhile_cons_of_neg stops, List.filter_nil, List.map_nil]
    | ok found =>
      have goesOn : s.counts x = true := by simp [counts, places, Except.isOk, Except.toBool]
      have admitted : s.admitsAt x = s.admitsDay found x := by simp [admitsAt, places, Except.toOption]
      simp only [scan, places, List.takeWhile_cons_of_pos goesOn, ih, at?]
      by_cases falls : s.admitsDay found x = true
      · rw [if_pos falls, List.filter_cons_of_pos (admitted.trans falls)]
        rfl
      · rw [if_neg falls, List.filter_cons_of_neg (by rwa [admitted])]
        rfl

theorem scan_snd (evaluable : ∀ x ∈ days, s.counts x = true) : (s.scan days).2 = none := by
  induction days with
  | nil => rfl
  | cons x days ih =>
    have first := evaluable x List.mem_cons_self
    cases places : s.placesAt x with
    | error f => simp [counts, places, Except.isOk, Except.toBool] at first
    | ok found =>
      simp only [scan, places]
      exact ih fun y member => evaluable y (List.mem_cons_of_mem x member)

/-! ### The order of the dates -/

theorem before_stampOn (s : Schedule) (x y : Day) : (s.stampOn x).before (s.stampOn y) = true ↔ x.ordinal < y.ordinal :=
  Stamp.before_iff_of_clock rfl rfl

theorem stampOn_start (s : Schedule) : s.stampOn s.start.day = s.start := rfl

/-- What is not after the end is preceded by nothing after the end. -/
theorem within_of_le (earlier : x.ordinal ≤ y.ordinal) (inside : s.within y = true) : s.within x = true := by
  unfold within at inside ⊢
  cases fin : s.finish with
  | none => rfl
  | some e =>
    simp only [fin, Option.all_some, Bool.not_eq_true', Stamp.before] at inside ⊢
    refine decide_eq_false fun late => of_decide_eq_false inside ?_
    simp only [Stamp.instant, Stamp.ticks, stampOn, stampAt] at late ⊢
    unfold Clock.microsPerDay at late ⊢
    omega

theorem pairwise_visits (s : Schedule) : s.visits.Pairwise fun x y => x.ordinal < y.ordinal :=
  (Day.pairwise_upFrom _).filter _

theorem mem_visits : x ∈ s.visits ↔ s.start.day.ordinal ≤ x.ordinal ∧ s.onPhase s.start.day x = true := by
  rw [visits, List.mem_filter, Day.mem_upFrom]

/-! ### The timestamps -/

section Plain
variable (plain : s.IsPlain)
include plain

theorem counts_of_span (low : s.spanStart y ≤ x.ordinal) (high : x.ordinal < s.spanEnd y) : s.counts x = s.counts y := by
  rw [counts, counts, placesAt_of_span plain low high]

/-- Of the days on phase from the start's period on, those before the start give no timestamp from the start on. -/
theorem dates_from_span :
    ((((Day.upFrom (s.spanStart s.start.day)).filter (s.onPhase s.start.day)).takeWhile s.counts).filter s.admitsAt).filter
        (fun x => ! (s.stampOn x).before s.start) =
      (s.visits.takeWhile s.counts).filter s.admitsAt := by
  have startLe := s.spanStart_le s.start.day
  have ltEnd := s.lt_spanEnd s.start.day
  have lastLe := s.start.day.ordinal_le_last
  have split : (Day.upFrom (s.spanStart s.start.day)).filter (s.onPhase s.start.day) =
      Day.between (s.spanStart s.start.day) s.start.day.ordinal ++ s.visits := by
    rw [← Day.between_append_upFrom startLe (by omega), List.filter_append]
    congr 1
    refine List.filter_eq_self.mpr fun x member => ?_
    rw [Day.mem_between] at member
    exact onPhase_of_period (periodOf_of_span member.1 (by omega))
  have visitsLater : ∀ x ∈ s.visits, (! (s.stampOn x).before s.start) = true := by
    intro x member
    rw [← s.stampOn_start, Bool.not_eq_true', ← Bool.not_eq_true, before_stampOn]
    have := (mem_visits.mp member).1
    omega
  have earlyCounts : ∀ x ∈ Day.between (s.spanStart s.start.day) s.start.day.ordinal, s.counts x = s.counts s.start.day := by
    intro x member
    rw [Day.mem_between] at member
    exact counts_of_span plain member.1 (by omega)
  rw [split]
  by_cases evaluable : s.counts s.start.day = true
  · rw [List.takeWhile_append_of_pos fun x member => (earlyCounts x member).trans evaluable, List.filter_append,
      List.filter_append]
    have early : ((Day.between (s.spanStart s.start.day) s.start.day.ordinal).filter s.admitsAt).filter
        (fun x => ! (s.stampOn x).before s.start) = [] := by
      refine List.filter_eq_nil_iff.mpr fun x member => ?_
      have inside := Day.mem_between.mp (List.mem_filter.mp member).1
      rw [← s.stampOn_start, Bool.not_eq_true', Bool.not_eq_false, before_stampOn]
      exact inside.2
    rw [early, List.nil_append]
    exact List.filter_eq_self.mpr fun x member =>
      visitsLater x ((List.takeWhile_subset s.counts) (List.mem_filter.mp member).1)
  · have first : s.visits = s.start.day :: (Day.upFrom (s.start.day.ordinal + 1)).filter (s.onPhase s.start.day) := by
      rw [visits, Day.upFrom_cons, List.filter_cons_of_pos (onPhase_of_period rfl)]
    have none : (Day.between (s.spanStart s.start.day) s.start.day.ordinal ++ s.visits).takeWhile s.counts = [] := by
      cases early : Day.between (s.spanStart s.start.day) s.start.day.ordinal with
      | nil => rw [List.nil_append, first, List.takeWhile_cons_of_neg evaluable]
      | cons x rest =>
        have stops := earlyCounts x (by rw [early]; exact List.mem_cons_self)
        rw [List.cons_append, List.takeWhile_cons_of_neg (by rwa [stops])]
    rw [none, first, List.takeWhile_cons_of_neg evaluable]
    rfl

/-- The timestamps of a plain rule are those of its dates. -/
theorem toList_trace_fst : s.trace.toList.1 = s.dates.map s.stampOn := by
  have early : (s.found s.start.day).1.filter (! ·.before s.start) =
      ((s.visits.takeWhile s.counts).filter s.admitsAt).map s.stampOn := by
    rw [found, scan_fst, List.filter_map, ← dates_from_span plain]
    rfl
  rw [toList_trace plain]
  cases fin : s.finish with
  | none =>
    have all : s.dates = (s.visits.takeWhile s.counts).filter s.admitsAt :=
      List.filter_eq_self.mpr fun x _ => by rw [within, fin]; rfl
    rw [all]
    exact early
  | some e =>
    have cut : (s.found s.start.day).1.takeWhile (! e.before ·) = (s.found s.start.day).1.filter (! e.before ·) := by
      refine takeWhile_eq_filter ?_
      rw [found, scan_fst, List.pairwise_map]
      refine List.Pairwise.imp ?_ ((((Day.pairwise_upFrom _).filter _).sublist (List.takeWhile_sublist _)).filter _)
      intro x y earlier inside
      have later : s.within y = true := by
        rw [within, fin]
        exact inside
      have := within_of_le (Nat.le_of_lt earlier) later
      rwa [within, fin] at this
    simp only [cut, List.filter_filter, Bool.and_comm]
    rw [← List.filter_filter, early, List.filter_map, dates]
    congr 2
    funext x
    rw [within, fin]
    rfl

/-- Only weekly rules run over the end of the calendar. -/
theorem weekly_of_overruns (runs : s.overruns x = true) : s.frequency = .weekly := by
  obtain ⟨-, beyond⟩ := Bool.and_eq_true_iff.mp runs
  obtain ⟨n, member, -⟩ := List.any_eq_true.mp beyond
  have inside := List.mem_range'_1.mp member
  exact (weekly_of_spanEnd (d := lastDay) plain (by omega)).1

/-- A rule that can be evaluated on all days fails only where it runs over the end of the calendar. -/
theorem toList_trace_snd (evaluable : ∀ x, s.counts x = true) :
    s.trace.toList.2 =
      if s.overruns s.start.day = true ∧ ∀ x ∈ s.visits, s.admitsAt x = true → s.within x = true then some .value
      else none := by
  have fault : (s.found s.start.day).2 = if s.overruns s.start.day = true then some .value else none := by
    rw [found, scan_snd fun x _ => evaluable x]
    rfl
  rw [toList_trace plain]
  by_cases runs : s.overruns s.start.day = true
  · have fromStart : s.spanStart s.start.day = s.start.day.ordinal := by rw [spanStart, weekly_of_overruns plain runs]
    have all : s.visits.takeWhile s.counts = s.visits := by
      rw [takeWhile_eq_filter (List.Pairwise.imp (fun _ _ => evaluable _) s.pairwise_visits)]
      exact List.filter_eq_self.mpr fun x _ => evaluable x
    have found : (s.found s.start.day).1 = (s.visits.filter s.admitsAt).map s.stampOn := by
      rw [Schedule.found, scan_fst, fromStart, ← visits, all]
    cases fin : s.finish with
    | none => simp only [fault, runs, if_true, true_and, within, fin, Option.all_none, implies_true]
    | some e =>
      simp only [fault, found, runs, if_true, true_and, within, fin, Option.all_some, List.all_map, List.all_eq_true,
        List.mem_filter, and_imp, Function.comp_apply]
  · rw [if_neg runs] at fault
    rw [if_neg fun both => runs both.1]
    cases s.finish with
    | none => exact fault
    | some e =>
      simp only [fault]
      split <;> rfl

end Plain

end Schedule

end Cadence
