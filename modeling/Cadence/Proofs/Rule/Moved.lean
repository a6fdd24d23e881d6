import Cadence.Proofs.Rule.Dates

/-!
# Rules started later

A rule started at one of its own timestamps goes on with those that it has from there on. Two rules with one
start have the same timestamps if they fall on the same days.
-/

namespace Cadence.Schedule

variable {s s' : Schedule} {t : Stamp} {x y : Day}

/-- The rule from another start on, with all else as it is. -/
def startingAt (s : Schedule) (t : Stamp) : Schedule := { s with start := t }

theorem isPlain_startingAt (plain : s.IsPlain) (clock : t.clock = s.start.clock) : (s.startingAt t).IsPlain where
  long := plain.long
  every_pos := plain.every_pos
  count := plain.count
  setPositions := plain.setPositions
  weekNumbers := plain.weekNumbers
  yearDays := plain.yearDays
  easterDays := plain.easterDays
  times := by
    show s.times = [t.clock]
    rw [clock, plain.times]
  whole := by
    show t.clock.micro = 0
    rw [clock, plain.whole]
  placed := plain.placed

theorem visits_eq_append (member : x ∈ s.visits) :
    s.visits = (Day.between s.start.day.ordinal x.ordinal).filter (s.onPhase s.start.day) ++ (s.startingAt (s.stampOn x)).visits := by
  obtain ⟨later, phase⟩ := mem_visits.mp member
  have last := x.ordinal_le_last
  rw [visits, ← Day.between_append_upFrom later (by omega), List.filter_append]
  congr 1
  refine List.filter_congr fun y member => ?_
  have after := Day.mem_upFrom.mp member
  have le := periodOf_mono (s := s) later
  obtain ⟨k, rounds⟩ := Nat.dvd_of_mod_eq_zero (of_decide_eq_true phase)
  have shifted : s.periodOf x = s.periodOf s.start.day + s.every * k := by omega
  exact (onPhase_congr shifted (periodOf_mono after)).symm

/-- Where a rule falls on a day, it can be evaluated on all days before. -/
theorem counts_of_mem_dates (member : x ∈ s.dates) :
    ∀ y ∈ (Day.between s.start.day.ordinal x.ordinal).filter (s.onPhase s.start.day), s.counts y = true := by
  have reached : x ∈ s.visits.takeWhile s.counts := (List.mem_filter.mp (List.mem_filter.mp member).1).1
  have visited := List.takeWhile_subset s.counts reached
  rw [visits_eq_append visited, List.takeWhile_append] at reached
  split at reached
  · rename_i all
    have all := (List.takeWhile_prefix s.counts).eq_of_length all
    intro y early
    rw [← all] at early
    exact List.all_eq_true.mp List.all_takeWhile y early
  · have early := (List.mem_filter.mp (List.takeWhile_subset s.counts reached)).1
    exact absurd (Day.mem_between.mp early).2 (Nat.lt_irrefl _)

/-- A rule started on one of its days falls on the same days from there on. -/
theorem dates_startingAt (member : x ∈ s.dates) :
    (s.startingAt (s.stampOn x)).dates = s.dates.filter fun y => decide (x.ordinal ≤ y.ordinal) := by
  have reached : x ∈ s.visits.takeWhile s.counts := (List.mem_filter.mp (List.mem_filter.mp member).1).1
  have visited := List.takeWhile_subset s.counts reached
  have split : s.dates =
      (((Day.between s.start.day.ordinal x.ordinal).filter (s.onPhase s.start.day)).filter s.admitsAt).filter s.within ++
        (s.startingAt (s.stampOn x)).dates := by
    rw [dates, visits_eq_append visited, List.takeWhile_append_of_pos (counts_of_mem_dates member), List.filter_append,
      List.filter_append]
    rfl
  have early : ((((Day.between s.start.day.ordinal x.ordinal).filter (s.onPhase s.start.day)).filter s.admitsAt).filter
      s.within).filter (fun y => decide (x.ordinal ≤ y.ordinal)) = [] := by
    refine List.filter_eq_nil_iff.mpr fun y member => ?_
    have inside := (List.mem_filter.mp (List.mem_filter.mp (List.mem_filter.mp member).1).1).1
    have before := (Day.mem_between.mp inside).2
    simpa using before
  have late : (s.startingAt (s.stampOn x)).dates.filter (fun y => decide (x.ordinal ≤ y.ordinal)) =
      (s.startingAt (s.stampOn x)).dates := by
    refine List.filter_eq_self.mpr fun y member => ?_
    have visited := List.takeWhile_subset _ (List.mem_filter.mp (List.mem_filter.mp member).1).1
    exact decide_eq_true (mem_visits.mp visited).1
  rw [split, List.filter_append, early, late, List.nil_append]

/-- A rule started at one of its own timestamps has those from there on. -/
theorem toList_trace_startingAt (plain : s.IsPlain) (found : t ∈ s.trace.toList.1) :
    (s.startingAt t).trace.toList.1 = s.trace.toList.1.filter (! ·.before t) := by
  rw [toList_trace_fst plain] at found ⊢
  obtain ⟨x, member, rfl⟩ := List.mem_map.mp found
  have moved : (s.startingAt (s.stampOn x)).IsPlain := isPlain_startingAt plain rfl
  rw [toList_trace_fst moved, dates_startingAt member, List.filter_map]
  show List.map s.stampOn _ = _
  congr 1
  refine List.filter_congr fun y _ => ?_
  rw [Bool.eq_iff_iff, decide_eq_true_eq, Function.comp_apply, Bool.not_eq_true', ← Bool.not_eq_true, before_stampOn,
    Nat.not_lt]

/-! ### Rules with one start -/

/-- The rule falls on a day, as far as its phase, its parts and its end go. -/
def fallsOn (s : Schedule) (x : Day) : Bool := s.onPhase s.start.day x && s.admitsAt x && s.within x

/-- The days of a rule that can be evaluated on all days. -/
theorem dates_of_counts (evaluable : ∀ x ∈ s.visits, s.counts x = true) :
    s.dates = (Day.upFrom s.start.day.ordinal).filter s.fallsOn := by
  have all : s.visits.takeWhile s.counts = s.visits := by
    rw [← List.append_nil s.visits, List.takeWhile_append_of_pos evaluable]
    rfl
  rw [dates, all, visits, List.filter_filter, List.filter_filter]
  refine List.filter_congr fun x _ => ?_
  rw [fallsOn]
  ac_rfl

/-- Two rules with one start that fall on the same days have the same timestamps. -/
theorem toList_trace_congr (plain : s.IsPlain) (plain' : s'.IsPlain) (start : s'.start = s.start)
    (evaluable : ∀ x ∈ s.visits, s.counts x = true) (evaluable' : ∀ x ∈ s'.visits, s'.counts x = true)
    (same : ∀ x, s.start.day.ordinal ≤ x.ordinal → s'.fallsOn x = s.fallsOn x) :
    s'.trace.toList.1 = s.trace.toList.1 := by
  have dates : s'.dates = s.dates := by
    rw [dates_of_counts evaluable, dates_of_counts evaluable', start]
    exact List.filter_congr fun x member => same x (Day.mem_upFrom.mp member)
  rw [toList_trace_fst plain, toList_trace_fst plain', dates]
  refine List.map_congr_left fun x _ => ?_
  simp only [stampOn, stampAt, start]

end Cadence.Schedule
