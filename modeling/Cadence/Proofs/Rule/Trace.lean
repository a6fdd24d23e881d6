import Cadence.Proofs.Rule.Scan

/-!
# Traces as lists

What the limits and queries of a trace do to the list of its timestamps and to the fault at its end. A
plain rule lists what it finds from its start on and up to its end.
-/

namespace Cadence

namespace Trace

variable {t : Trace}

theorem eq_item_of_toList {s : Stamp} {found : List Stamp} {fault : Option Fault} (list : t.toList = (s :: found, fault)) :
    ∃ rest, t = item s rest := by
  cases t with
  | done => cases list
  | failed f => cases list
  | item t rest =>
    rw [toList_item] at list
    obtain ⟨first, -⟩ := Prod.mk.inj list
    exact ⟨rest, by rw [(List.cons.inj first).1]⟩

theorem eq_done_of_toList (list : t.toList = ([], none)) : t = done := by
  cases t with
  | done => rfl
  | failed f => cases list
  | item t rest => cases list

/-- A fault behind the end is never met. -/
theorem toList_upTo (last : Stamp) (t : Trace) :
    (t.upTo last).toList = (t.toList.1.takeWhile (! last.before ·),
      if t.toList.1.all (! last.before ·) then t.toList.2 else none) := by
  induction t with
  | done => rfl
  | failed f => rfl
  | item s rest ih =>
    rw [upTo, toList_item]
    by_cases h : last.before s = true
    · simp [h, toList]
    · simp [h, toList_item, ih]

theorem toList_onwards (first : Stamp) (t : Trace) :
    (t.onwards first).toList = (t.toList.1.filter (! ·.before first), t.toList.2) := by
  induction t with
  | done => rfl
  | failed f => rfl
  | item s rest ih =>
    rw [onwards, toList_item]
    by_cases h : s.before first = true
    · simp [h, ih]
    · simp [h, toList_item, ih]

/-- No more is looked for than is asked for. -/
theorem take_of_le {n : Nat} (h : n ≤ t.toList.1.length) : t.take n = .ok (t.toList.1.take n) := by
  induction t generalizing n with
  | done =>
    obtain rfl : n = 0 := by simpa [toList] using h
    rfl
  | failed f =>
    obtain rfl : n = 0 := by simpa [toList] using h
    rfl
  | item s rest ih =>
    rw [toList_item] at h ⊢
    cases n with
    | zero => rfl
    | succ n =>
      rw [take, ih () (Nat.le_of_succ_le_succ h)]
      rfl

/-- Where more is asked for than there is, the fault is met. -/
theorem take_of_fault {n : Nat} {f : Fault} (h : t.toList.1.length < n) (hf : t.toList.2 = some f) :
    t.take n = .error f := by
  induction t generalizing n with
  | done => simp [toList] at hf
  | failed g =>
    obtain rfl : g = f := by simpa [toList] using hf
    cases n with
    | zero => simp at h
    | succ n => rfl
  | item s rest ih =>
    rw [toList_item] at h hf
    cases n with
    | zero => simp at h
    | succ n =>
      rw [take, ih () (Nat.lt_of_succ_lt_succ h) hf]
      rfl

theorem take_of_none (ends : t.toList.2 = none) (n : Nat) : t.take n = .ok (t.toList.1.take n) :=
  take_of_toList (show t.toList = (t.toList.1, none) from Prod.ext rfl ends) n

/-- Timestamps are found, or the fault behind the last one is met. -/
theorem take_eq_or (t : Trace) (n : Nat) :
    (∃ found, t.take n = .ok found) ∨ ∃ f, t.toList.2 = some f ∧ t.take n = .error f := by
  by_cases enough : n ≤ t.toList.1.length
  · exact .inl ⟨_, take_of_le enough⟩
  · cases fault : t.toList.2 with
    | none => exact .inl ⟨_, take_of_none fault n⟩
    | some f => exact .inr ⟨f, rfl, take_of_fault (by omega) fault⟩

/-- What is taken comes first in the trace. -/
theorem eq_take_of_take {n : Nat} {found : List Stamp} (taken : t.take n = .ok found) : found = t.toList.1.take n := by
  by_cases enough : n ≤ t.toList.1.length
  · rw [take_of_le enough] at taken
    exact (Except.ok.inj taken).symm
  · cases fault : t.toList.2 with
    | none =>
      rw [take_of_none fault] at taken
      exact (Except.ok.inj taken).symm
    | some f =>
      rw [take_of_fault (Nat.lt_of_not_le enough) fault] at taken
      cases taken

/-- So many timestamps can be looked for: the trace has them, or it ends without a fault, or with one before any. -/
def Lasts (t : Trace) (count : Nat) : Prop := count ≤ t.toList.1.length ∨ t.toList.2 = none ∨ t.toList.1 = []

/-- Fewer timestamps of a trace that lasts are taken as more are, or both meet the fault. -/
theorem Lasts.take {m n : Nat} (lasts : t.Lasts n) (positive : 0 < m) (le : m ≤ n) :
    (t.take m = .ok (t.toList.1.take m) ∧ t.take n = .ok (t.toList.1.take n)) ∨ ∃ f, t.take m = .error f ∧ t.take n = .error f := by
  rcases lasts with enough | ends | nothing
  · exact .inl ⟨take_of_le (Nat.le_trans le enough), take_of_le enough⟩
  · exact .inl ⟨take_of_none ends m, take_of_none ends n⟩
  · cases fault : t.toList.2 with
    | none => exact .inl ⟨take_of_none fault m, take_of_none fault n⟩
    | some f =>
      have length : t.toList.1.length = 0 := by rw [nothing, List.length_nil]
      exact .inr ⟨f, take_of_fault (by omega) fault, take_of_fault (by omega) fault⟩

theorem toList_first (count : Nat) (t : Trace) : (t.first count).toList.1 = t.toList.1.take count := by
  induction t generalizing count with
  | done => simp [first, toList]
  | failed f => simp [first, toList]
  | item s rest ih =>
    cases count with
    | zero => rfl
    | succ count => rw [first, toList_item, toList_item, List.take_succ_cons, ih]

/-! ### Queries -/

section Queries
variable {low high : Stamp}

/-- Timestamps that can be compared with both limits are picked out of the list. A fault behind the last one is
    met unless a timestamp after the upper limit comes before it. -/
theorem between_eq (lower : ∀ x ∈ t.toList.1, x.comparable low = true)
    (upper : ∀ x ∈ t.toList.1, x.comparable high = true)
    (sorted : t.toList.1.Pairwise fun a b => high.before a = true → high.before b = true) :
    t.between low high =
      match t.toList.2 with
      | some f =>
        if t.toList.1.any high.before then .ok (t.toList.1.filter fun x => ! x.before low && ! high.before x)
        else .error f
      | none => .ok (t.toList.1.filter fun x => ! x.before low && ! high.before x) := by
  induction t with
  | done => rfl
  | failed f => rfl
  | item s rest ih =>
    rw [toList_item] at lower upper sorted ⊢
    dsimp only at lower upper sorted ⊢
    obtain ⟨comparableLow, lower⟩ := List.forall_mem_cons.mp lower
    obtain ⟨comparableHigh, upper⟩ := List.forall_mem_cons.mp upper
    obtain ⟨first, sorted⟩ := List.pairwise_cons.mp sorted
    rw [between, comparableLow, comparableHigh, ih () lower upper sorted]
    by_cases past : high.before s = true
    · have none : (rest ()).toList.1.filter (fun x => ! x.before low && ! high.before x) = [] :=
        List.filter_eq_nil_iff.mpr fun x member => by simp [first x member past]
      cases (rest ()).toList.2 <;> simp [past, none]
    · by_cases early : s.before low = true
      · cases (rest ()).toList.2 <;> simp [past, early]
      · cases (rest ()).toList.2 with
        | none => simp [past, early, Except.map]
        | some f => cases found : (rest ()).toList.1.any high.before <;> simp [past, early, found, Except.map]

/-- The first timestamp after a limit, or at it if that counts, is looked for in the list. A fault is met where the
    list has none. -/
theorem after_eq (comparable : ∀ x ∈ t.toList.1, x.comparable low = true) (inclusive : Bool) :
    t.after low inclusive =
      match t.toList.1.find? fun x => low.before x || (inclusive && ! x.before low), t.toList.2 with
      | some x, _ => .ok (some x)
      | none, some f => .error f
      | none, none => .ok none := by
  induction t with
  | done => rfl
  | failed f => rfl
  | item s rest ih =>
    rw [toList_item] at comparable ⊢
    dsimp only at comparable ⊢
    obtain ⟨first, others⟩ := List.forall_mem_cons.mp comparable
    rw [after, first, List.find?_cons]
    by_cases found : (low.before s || (inclusive && ! s.before low)) = true
    · simp [found]
    · simp only [found, ih () others]
      simp

end Queries

end Trace

namespace Schedule

variable {s : Schedule}

/-- The timestamps of all periods up to the end of the rule. -/
def ended (s : Schedule) : Trace :=
  match s.finish with
  | some finish => s.periods.upTo finish
  | none => s.periods

theorem sublist_ended (s : Schedule) : s.trace.toList.1.Sublist (s.ended.toList.1.filter (! ·.before s.start)) := by
  have begun := congrArg Prod.fst (Trace.toList_onwards s.start s.ended)
  dsimp only at begun
  rw [← begun, trace]
  cases s.count with
  | none => exact List.Sublist.refl _
  | some count =>
    rw [Trace.toList_first]
    exact List.take_sublist _ _

/-- The timestamps of a rule are some of those that its periods have, in the same order. -/
theorem sublist_periods (s : Schedule) : s.trace.toList.1.Sublist s.periods.toList.1 := by
  have upTo : s.ended.toList.1.Sublist s.periods.toList.1 := by
    unfold ended
    cases s.finish with
    | none => exact List.Sublist.refl _
    | some finish =>
      rw [Trace.toList_upTo]
      exact List.takeWhile_sublist _
  exact s.sublist_ended.trans (List.filter_sublist.trans upTo)

theorem not_before_start {x : Stamp} (found : x ∈ s.trace.toList.1) : (! x.before s.start) = true :=
  (List.mem_filter.mp (s.sublist_ended.subset found)).2

theorem not_after_finish {x last : Stamp} (ends : s.finish = some last) (found : x ∈ s.trace.toList.1) :
    (! last.before x) = true := by
  have reached := (List.mem_filter.mp (s.sublist_ended.subset found)).1
  rw [ended, ends, Trace.toList_upTo] at reached
  exact List.all_eq_true.mp List.all_takeWhile x reached

theorem toList_periods (hs : s.IsPlain) : s.periods.toList = s.found s.start.day := by
  have htick : s.acceptsTick (s.tickOf s.start.clock) = true ∧
      s.timesAt (s.tickOf s.start.clock) = .ok [s.start.clock] := by
    have hlong := hs.long
    cases hf : s.frequency with
    | yearly | monthly | weekly | daily =>
      simp only [acceptsTick, timesAt, hf, hs.times, and_self]
    | hourly | minutely | secondly => simp [hf, Frequency.isTimed] at hlong
  have hperDay : s.frequency.perDay = 1 := by
    have hlong := hs.long
    cases hf : s.frequency with
    | yearly | monthly | weekly | daily => rfl
    | hourly | minutely | secondly => simp [hf, Frequency.isTimed] at hlong
  have hlast := s.start.day.ordinal_le_last
  simp only [periods, htick.1, if_true, htick.2]
  rw [toList_traceFrom hs _ _ rfl]
  simp only [fuelFrom, hperDay]
  omega

/-- A plain rule lists what it finds from its start on, up to its end. -/
theorem toList_trace (hs : s.IsPlain) :
    s.trace.toList =
      let all := s.found s.start.day
      match s.finish with
      | none => (all.1.filter (! ·.before s.start), all.2)
      | some finish =>
        ((all.1.takeWhile (! finish.before ·)).filter (! ·.before s.start),
          if all.1.all (! finish.before ·) then all.2 else none) := by
  simp only [trace, hs.count]
  cases s.finish with
  | none => rw [Trace.toList_onwards, toList_periods hs]
  | some finish => rw [Trace.toList_onwards, Trace.toList_upTo, toList_periods hs]

end Schedule

end Cadence
