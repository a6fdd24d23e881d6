import Cadence.Proofs.Rule.Admitted

/-!
# A rule scans its days

Evaluating a rule period by period finds the days that the rule admits among those whose period is on
phase, in order. The evaluation ends early at a period that cannot be evaluated, and it fails at its end
when the last week of the calendar is on phase and the rule admits a day of it beyond the calendar.
-/

namespace Cadence.Schedule

variable {s : Schedule} {d e x : Day} {places : List Nat}

/-- The last day of the calendar. -/
def lastDay : Day := ⟨9999, 12, 31, by decide⟩

theorem ordinal_lastDay : lastDay.ordinal = Day.lastOrdinal := by decide

/-- The timestamp of a rule on a day. -/
def at? (s : Schedule) (places : List Nat) (x : Day) : Option Stamp :=
  if s.admitsDay places x then some (s.stampAt x s.start.clock) else none

/-- The timestamps of a rule on the days of a list, up to a day whose period cannot be evaluated. -/
def scan (s : Schedule) : List Day → List Stamp × Option Fault
  | [] => ([], none)
  | x :: rest =>
    match s.placesAt x with
    | .error f => ([], some f)
    | .ok places => ((s.at? places x).toList ++ (s.scan rest).1, (s.scan rest).2)

/-- The period of a day is one of those that a rule looks at from the period of another day on. -/
def onPhase (s : Schedule) (d x : Day) : Bool := (s.periodOf x - s.periodOf d) % s.every = 0

/-- The rule admits a day that would come after the last one, in the last week. -/
def beyond (s : Schedule) : Bool :=
  (List.range' (Day.lastOrdinal + 1) (s.spanEnd lastDay - (Day.lastOrdinal + 1))).any fun n =>
    RuleYear.admits ⟨lastDay.year⟩ s ⟨[], [], []⟩
      (RuleYear.dayAt ⟨lastDay.year⟩ (n - RuleYear.firstOrdinal ⟨lastDay.year⟩))

/-- The rule runs over the end of the calendar. -/
def overruns (s : Schedule) (d : Day) : Bool := s.onPhase d lastDay && s.beyond

/-- What a rule finds from the period of a day on. -/
def found (s : Schedule) (d : Day) : List Stamp × Option Fault :=
  let scanned := s.scan ((Day.upFrom (s.spanStart d)).filter (s.onPhase d))
  (scanned.1, scanned.2 <|> if s.overruns d then some .value else none)

/-! ### One period -/

theorem scan_append_of_ok {days : List Day} (h : ∀ x ∈ days, s.placesAt x = .ok places) (rest : List Day) :
    s.scan (days ++ rest) = (days.filterMap (s.at? places) ++ (s.scan rest).1, (s.scan rest).2) := by
  induction days with
  | nil => rfl
  | cons x days ih =>
    have ih := ih fun y hy => h y (List.mem_cons_of_mem x hy)
    rw [List.cons_append, scan, h x List.mem_cons_self, List.filterMap_cons]
    simp only [ih]
    cases s.at? places x <;> rfl

theorem index_dayAt (y : RuleYear) (n : Nat) : (y.dayAt n).index = n := by
  unfold RuleYear.dayAt
  split <;> rfl

section Plain
variable (hs : s.IsPlain)
include hs

omit hs in
/-- The days of a list of numbers in the calendar are written down one by one. -/
theorem stampsOf_append {y : RuleYear} {p : YearDay → Bool} (rest : List YearDay) : ∀ {numbers : List Nat},
    (∀ n ∈ numbers, y.firstOrdinal ≤ n ∧
      ∃ x, Day.ofOrdinal? n = some x ∧ p (y.dayAt (n - y.firstOrdinal)) = s.admitsDay places x) →
    s.stampsOf y [s.start.clock] ((numbers.map fun n => y.dayAt (n - y.firstOrdinal)).filter p ++ rest) =
      ((numbers.filterMap Day.ofOrdinal?).filterMap (s.at? places) ++ (s.stampsOf y [s.start.clock] rest).1,
        (s.stampsOf y [s.start.clock] rest).2)
  | [], _ => rfl
  | n :: numbers, h => by
    obtain ⟨hfirst, x, hx, hp⟩ := h n List.mem_cons_self
    have ih := stampsOf_append rest fun m hm => h m (List.mem_cons_of_mem n hm)
    rw [List.map_cons, List.filter_cons, List.filterMap_cons_some hx, List.filterMap_cons, hp, at?]
    by_cases ha : s.admitsDay places x = true
    · rw [if_pos ha, if_pos ha, List.cons_append, stampsOf, index_dayAt, Nat.add_sub_cancel' hfirst, hx]
      simp only [ih]
      rfl
    · rw [if_neg ha, if_neg ha]
      exact ih

omit hs in
theorem stampsOf_beyond {y : RuleYear} {p : YearDay → Bool} : ∀ {numbers : List Nat},
    (∀ n ∈ numbers, y.firstOrdinal ≤ n ∧ Day.lastOrdinal < n) →
    s.stampsOf y [s.start.clock] ((numbers.map fun n => y.dayAt (n - y.firstOrdinal)).filter p) =
      ([], if numbers.any (fun n => p (y.dayAt (n - y.firstOrdinal))) then some .value else none)
  | [], _ => rfl
  | n :: numbers, h => by
    obtain ⟨hfirst, hlast⟩ := h n List.mem_cons_self
    have ih := stampsOf_beyond (p := p) fun m hm => h m (List.mem_cons_of_mem n hm)
    rw [List.map_cons, List.filter_cons, List.any_cons]
    by_cases hp : p (y.dayAt (n - y.firstOrdinal)) = true
    · rw [if_pos hp, stampsOf, index_dayAt, Nat.add_sub_cancel' hfirst, Day.ofOrdinal?_eq_none (Or.inr hlast), hp]
      rfl
    · rw [if_neg hp, ih, Bool.eq_false_iff.mpr hp, Bool.false_or]

omit hs in
/-- The days of an interval that ends before `b` are written down as far as the calendar goes. -/
theorem stampsOf_interval {y : RuleYear} {p : YearDay → Bool} {a b m : Nat} (ham : a ≤ m) (hm : m = Day.lastOrdinal + 1)
    (hfirst : y.firstOrdinal ≤ a)
    (hp : ∀ n x, a ≤ n → n < b → Day.ofOrdinal? n = some x → p (y.dayAt (n - y.firstOrdinal)) = s.admitsDay places x)
    (hpos : 1 ≤ a) :
    s.stampsOf y [s.start.clock] (((List.range' a (b - a)).map fun n => y.dayAt (n - y.firstOrdinal)).filter p) =
      ((Day.between a (min b m)).filterMap (s.at? places),
        if (List.range' m (b - m)).any (fun n => p (y.dayAt (n - y.firstOrdinal))) then some .value else none) := by
  have hsplit : List.range' a (b - a) = List.range' a (min b m - a) ++ List.range' m (b - m) := by
    by_cases hin : b ≤ m
    · rw [Nat.min_eq_left hin, Nat.sub_eq_zero_of_le hin, List.range'_zero, List.append_nil]
    · rw [Nat.min_eq_right (by omega), show b - a = (m - a) + (b - m) by omega, ← List.range'_append,
        show a + 1 * (m - a) = m by omega]
  have hinside : ∀ n ∈ List.range' a (min b m - a), y.firstOrdinal ≤ n ∧
      ∃ x, Day.ofOrdinal? n = some x ∧ p (y.dayAt (n - y.firstOrdinal)) = s.admitsDay places x := by
    intro n hn
    rw [List.mem_range'_1] at hn
    obtain ⟨x, hx⟩ := Day.exists_ofOrdinal? (n := n) (by omega) (by omega)
    exact ⟨by omega, x, hx, hp n x (by omega) (by omega) hx⟩
  have hbeyond : ∀ n ∈ List.range' m (b - m), y.firstOrdinal ≤ n ∧ Day.lastOrdinal < n := by
    intro n hn
    rw [List.mem_range'_1] at hn
    omega
  rw [hsplit, List.map_append, List.filter_append, stampsOf_append _ hinside, stampsOf_beyond hbeyond]
  simp only [List.append_nil]
  rfl

omit hs in
theorem spanEnd_congr (h : s.periodOf x = s.periodOf d) : s.spanEnd x = s.spanEnd d := by
  have hx := x.month_bounds
  have hd := d.month_bounds
  cases hf : s.frequency with
  | yearly =>
    simp only [periodOf, hf] at h
    simp only [spanEnd, hf, h]
  | monthly =>
    simp only [periodOf, hf] at h
    have hy : x.year = d.year := by omega
    have hm : x.month = d.month := by omega
    simp only [spanEnd, hf, hy, hm]
  | weekly =>
    simp only [periodOf, hf] at h
    simp only [spanEnd, hf, index_weekday]
    have := s.weekStart.index_lt
    have := x.ordinal_pos
    have := d.ordinal_pos
    omega
  | daily | hourly | minutely | secondly =>
    simp only [periodOf, hf] at h
    simp only [spanEnd, hf, h]

/-- Only the last week reaches beyond the calendar. -/
theorem weekly_of_spanEnd (h : Day.lastOrdinal + 1 < s.spanEnd d) : s.frequency = .weekly ∧ d.year = lastDay.year := by
  have hd := d.ordinal_le_last
  have hb := d.ordinal_bounds
  have hy := d.year_bounds
  have hlast : daysBeforeYear 10000 = Day.lastOrdinal := by decide
  have hmono : daysBeforeYear (d.year + 1) ≤ daysBeforeYear 10000 := daysBeforeYear_mono (by omega) (by omega)
  cases hf : s.frequency with
  | weekly =>
    simp only [spanEnd, hf, index_weekday] at h
    have hbefore : daysBeforeYear 9999 + 365 = Day.lastOrdinal := by decide
    have hyear : d.year = 9999 := by
      refine Nat.le_antisymm hy.2 (Nat.le_of_not_lt fun hlt => ?_)
      have := daysBeforeYear_mono (by omega) (show d.year + 1 ≤ 9999 from hlt)
      rw [daysBeforeYear_succ hy.1] at this
      omega
    exact ⟨rfl, hyear⟩
  | yearly =>
    simp only [spanEnd, hf] at h
    omega
  | monthly =>
    simp only [spanEnd, hf] at h
    have hm := d.month_bounds
    have := daysBeforeMonth_mono d.year (by omega) (show d.month + 1 ≤ 13 by omega)
    rw [daysBeforeMonth_thirteen] at this
    rw [daysBeforeYear_succ hy.1] at hmono
    omega
  | daily =>
    simp only [spanEnd, hf] at h
    omega
  | hourly | minutely | secondly => exact absurd hs.long (by simp [hf, Frequency.isTimed])

/-- The days of the period of a day that are not in the calendar. -/
theorem any_beyond (d : Day) :
    ((List.range' (Day.lastOrdinal + 1) (s.spanEnd d - (Day.lastOrdinal + 1))).any fun n =>
      RuleYear.admits ⟨d.year⟩ s ⟨[], places, []⟩ (RuleYear.dayAt ⟨d.year⟩ (n - RuleYear.firstOrdinal ⟨d.year⟩))) =
      (decide (Day.lastOrdinal < s.spanEnd d) && s.beyond) := by
  by_cases hin : Day.lastOrdinal < s.spanEnd d
  · have hperiod : s.periodOf lastDay = s.periodOf d := by
      refine periodOf_of_span ?_ (ordinal_lastDay ▸ hin)
      rw [ordinal_lastDay]
      exact Nat.le_trans (s.spanStart_le d) d.ordinal_le_last
    rw [decide_eq_true hin, Bool.true_and, beyond, spanEnd_congr hperiod]
    by_cases hout : Day.lastOrdinal + 1 < s.spanEnd d
    · obtain ⟨hf, hy⟩ := weekly_of_spanEnd hs hout
      have hnth : s.nthWeekdays = [] := hs.placed (by simp [hf]) (by simp [hf])
      simp only [hy, RuleYear.admits, hnth, List.isEmpty_nil, Bool.true_or]
    · rw [Nat.sub_eq_zero_of_le (by omega), List.range'_zero, List.any_nil, List.any_nil]
  · rw [decide_eq_false hin, Nat.sub_eq_zero_of_le (by omega), List.range'_zero, List.any_nil, Bool.false_and]

/-- What the evaluation of a period comes to, if the places that the rule picks out can be found. -/
theorem step_eq {c : Cursor} (hc : c.times = [s.start.clock]) (h : s.placesAt c.day = .ok places) :
    s.step c =
      let found := (Day.between (s.spanStart c.day) (min (s.spanEnd c.day) (Day.lastOrdinal + 1))).filterMap
        (s.at? places)
      if decide (Day.lastOrdinal < s.spanEnd c.day) && s.beyond then .fault found .value
      else
        match s.nextDay? c.day with
        | none => .last found
        | some e => .more found { c with day := e } := by
  have hle := s.spanStart_le c.day
  have hlt := s.lt_spanEnd c.day
  have hlast := c.day.ordinal_le_last
  have hpos := s.spanStart_pos c.day
  have hfirst : RuleYear.firstOrdinal ⟨c.day.year⟩ ≤ s.spanStart c.day := by
    have := RuleYear.firstOrdinal_le c.day
    cases hf : s.frequency <;> simp only [spanStart, hf, RuleYear.firstOrdinal] at this ⊢ <;> omega
  have hmarks : RuleYear.marks ⟨c.day.year⟩ s c.day.month = .ok ⟨[], places, []⟩ := by
    rw [marks_eq hs, show RuleYear.nthPlaces ⟨c.day.year⟩ s c.day.month = .ok places from h]
    rfl
  have hstamps := stampsOf_interval (s := s) (y := ⟨c.day.year⟩) (a := s.spanStart c.day) (b := s.spanEnd c.day)
    (p := RuleYear.admits ⟨c.day.year⟩ s ⟨[], places, []⟩) (by omega) rfl hfirst
    (fun n x h₁ h₂ hx => by
      rw [← Day.ordinal_of_ofOrdinal? hx] at h₁ h₂ ⊢
      exact admits_of_span hs h₁ h₂) hpos
  have htimed : s.frequency.isTimed = false := hs.long
  rw [any_beyond hs] at hstamps
  simp only [step, hmarks, periodDays_eq s, hs.setPositions, List.isEmpty_nil, Bool.true_or, if_true, hc, hstamps,
    next, htimed, Bool.false_eq_true, if_false]
  cases decide (Day.lastOrdinal < s.spanEnd c.day) && s.beyond with
  | true => rfl
  | false => cases s.nextDay? c.day <;> rfl

theorem step_eq_fault {c : Cursor} {f : Fault} (h : s.placesAt c.day = .error f) : s.step c = .fault [] f := by
  have hmarks : RuleYear.marks ⟨c.day.year⟩ s c.day.month = .error f := by
    rw [marks_eq hs, show RuleYear.nthPlaces ⟨c.day.year⟩ s c.day.month = .error f from h]
    rfl
  simp only [step, hmarks]

/-! ### All periods -/

omit hs in
/-- The periods on phase do not depend on the one that is begun with. -/
theorem onPhase_congr {k : Nat} (hk : s.periodOf e = s.periodOf d + s.every * k) (hx : s.periodOf e ≤ s.periodOf x) :
    s.onPhase e x = s.onPhase d x := by
  unfold onPhase
  rw [show s.periodOf x - s.periodOf d = (s.periodOf x - s.periodOf e) + s.every * k by omega, Nat.add_mul_mod_self_left]

omit hs in
theorem onPhase_of_period (h : s.periodOf x = s.periodOf d) : s.onPhase d x = true := by
  simp [onPhase, h]

omit hs in
/-- No period on phase lies between one and the next that is looked at. -/
theorem onPhase_eq_false (h₁ : s.periodOf d < s.periodOf x) (h₂ : s.periodOf x < s.periodOf d + s.every) :
    s.onPhase d x = false := by
  simp only [onPhase, decide_eq_false_iff_not]
  rw [Nat.mod_eq_of_lt (by omega)]
  omega

omit hs in
/-- The days on phase are those of the first period and then later ones. -/
theorem filter_onPhase (d : Day) :
    (Day.upFrom (s.spanStart d)).filter (s.onPhase d) =
      Day.between (s.spanStart d) (min (s.spanEnd d) (Day.lastOrdinal + 1)) ++
        (Day.upFrom (min (s.spanEnd d) (Day.lastOrdinal + 1))).filter (s.onPhase d) := by
  have hle := s.spanStart_le d
  have hlt := s.lt_spanEnd d
  have hlast := d.ordinal_le_last
  rw [← Day.between_append_upFrom (b := min (s.spanEnd d) (Day.lastOrdinal + 1)) (by omega) (Nat.min_le_right _ _),
    List.filter_append]
  congr 1
  rw [List.filter_eq_self]
  intro x hx
  rw [Day.mem_between] at hx
  exact onPhase_of_period (periodOf_of_span hx.1 (by omega))

/-- Where there is no next period, no later day is on phase. -/
theorem filter_onPhase_eq_nil (h : s.nextDay? d = none) :
    (Day.upFrom (min (s.spanEnd d) (Day.lastOrdinal + 1))).filter (s.onPhase d) = [] := by
  rw [List.filter_eq_nil_iff]
  intro x hx
  rw [Day.mem_upFrom] at hx
  have hlast := x.ordinal_le_last
  rw [onPhase_eq_false (periodOf_lt_of_spanEnd (by omega)) (nextDay?_eq_none hs.every_pos h x)]
  exact Bool.false_ne_true

omit hs in
/-- The next period that is looked at comes after the present one. -/
theorem spanEnd_le_next (hevery : 1 ≤ s.every) (h : s.nextDay? d = some e) : s.spanEnd d ≤ e.ordinal := by
  obtain ⟨hperiod, -⟩ := nextDay?_eq_some h
  refine Nat.le_of_not_lt fun hlt => ?_
  by_cases hin : s.spanStart d ≤ e.ordinal
  · have := periodOf_of_span hin hlt
    omega
  · have hle := s.spanStart_le d
    have := periodOf_mono (s := s) (show e.ordinal ≤ d.ordinal by omega)
    omega

/-- The later days on phase are those on phase from the next period on. -/
theorem filter_onPhase_next (h : s.nextDay? d = some e) :
    (Day.upFrom (min (s.spanEnd d) (Day.lastOrdinal + 1))).filter (s.onPhase d) =
      (Day.upFrom (s.spanStart e)).filter (s.onPhase e) := by
  obtain ⟨hperiod, hstarts⟩ := nextDay?_eq_some h
  have hend := spanEnd_le_next hs.every_pos h
  have hlast := e.ordinal_le_last
  rw [hstarts.spanStart_eq, Nat.min_eq_left (by omega), ← Day.between_append_upFrom hend (by omega), List.filter_append]
  have hgap : (Day.between (s.spanEnd d) e.ordinal).filter (s.onPhase d) = [] := by
    rw [List.filter_eq_nil_iff]
    intro x hx
    rw [Day.mem_between] at hx
    have := hstarts x hx.2
    rw [onPhase_eq_false (periodOf_lt_of_spanEnd hx.1) (by omega)]
    exact Bool.false_ne_true
  rw [hgap, List.nil_append]
  refine List.filter_congr fun x hx => ?_
  rw [Day.mem_upFrom] at hx
  exact (onPhase_congr (hperiod.trans (by rw [Nat.mul_one])) (periodOf_mono hx)).symm

omit hs in
theorem overruns_next (h : s.nextDay? d = some e) : s.overruns e = s.overruns d := by
  obtain ⟨hperiod, -⟩ := nextDay?_eq_some h
  have hle : e.ordinal ≤ lastDay.ordinal := ordinal_lastDay ▸ e.ordinal_le_last
  rw [overruns, overruns, onPhase_congr (hperiod.trans (by rw [Nat.mul_one])) (periodOf_mono hle)]

omit hs in
/-- A period that reaches the end of the calendar is the last one. -/
theorem overruns_of_spanEnd (h : Day.lastOrdinal < s.spanEnd d) : s.overruns d = s.beyond := by
  have hperiod : s.periodOf lastDay = s.periodOf d := by
    refine periodOf_of_span ?_ (ordinal_lastDay ▸ h)
    rw [ordinal_lastDay]
    exact Nat.le_trans (s.spanStart_le d) d.ordinal_le_last
  rw [overruns, onPhase_of_period hperiod, Bool.true_and]

theorem overruns_of_last (h : s.nextDay? d = none) (hin : s.spanEnd d ≤ Day.lastOrdinal) : s.overruns d = false := by
  have hlast : s.onPhase d lastDay = false :=
    onPhase_eq_false (periodOf_lt_of_spanEnd (ordinal_lastDay ▸ hin)) (nextDay?_eq_none hs.every_pos h lastDay)
  rw [overruns, hlast, Bool.false_and]

/-- From a period on a rule finds what it finds on the days on phase. -/
theorem toList_traceFrom : ∀ (fuel : Nat) (c : Cursor), c.times = [s.start.clock] →
    Day.lastOrdinal < c.day.ordinal + fuel → (s.traceFrom fuel c).toList = s.found c.day
  | 0, c, _, hfuel => by
    have := c.day.ordinal_le_last
    omega
  | fuel + 1, c, hc, hfuel => by
    have hle := s.spanStart_le c.day
    have hlt := s.lt_spanEnd c.day
    cases hplaces : s.placesAt c.day with
    | error f =>
      have hlast := c.day.ordinal_le_last
      obtain ⟨first, hfirst⟩ := Day.exists_ofOrdinal? (s.spanStart_pos c.day) (Nat.le_trans hle hlast)
      have hfirst := Day.ordinal_of_ofOrdinal? hfirst
      have hphase : s.onPhase c.day first = true := onPhase_of_period (periodOf_of_span (by omega) (by omega))
      have hfault : s.placesAt first = .error f := (placesAt_of_span hs (by omega) (by omega)).trans hplaces
      rw [traceFrom, step_eq_fault hs hplaces, found, ← hfirst, Day.upFrom_cons, List.filter_cons_of_pos hphase]
      simp only [scan, hfault]
      rfl
    | ok places =>
      have hspan : ∀ x ∈ Day.between (s.spanStart c.day) (min (s.spanEnd c.day) (Day.lastOrdinal + 1)),
          s.placesAt x = .ok places := by
        intro x hx
        rw [Day.mem_between] at hx
        exact (placesAt_of_span hs hx.1 (by omega)).trans hplaces
      rw [traceFrom, step_eq hs hc hplaces, found, filter_onPhase, scan_append_of_ok hspan]
      generalize (Day.between (s.spanStart c.day) (min (s.spanEnd c.day) (Day.lastOrdinal + 1))).filterMap
        (s.at? places) = here
      by_cases hspill : (decide (Day.lastOrdinal < s.spanEnd c.day) && s.beyond) = true
      · obtain ⟨hin, hbeyond⟩ := Bool.and_eq_true_iff.mp hspill
        have hin := of_decide_eq_true hin
        simp only [if_pos hspill, Trace.toList_prepend, Trace.toList]
        rw [overruns_of_spanEnd hin, hbeyond, Nat.min_eq_right hin, Day.upFrom, Day.between_eq_nil (Nat.le_refl _)]
        rfl
      · simp only [if_neg hspill]
        cases hnext : s.nextDay? c.day with
        | none =>
          have hover : s.overruns c.day = false := by
            by_cases hin : Day.lastOrdinal < s.spanEnd c.day
            · rw [overruns_of_spanEnd hin]
              simpa [hin] using hspill
            · exact overruns_of_last hs hnext (by omega)
          simp only [filter_onPhase_eq_nil hs hnext, scan, hover, Trace.toList_ofList, List.append_nil]
          rfl
        | some e =>
          have hend := spanEnd_le_next hs.every_pos hnext
          have ih := toList_traceFrom fuel { c with day := e } hc (by show Day.lastOrdinal < e.ordinal + fuel; omega)
          rw [filter_onPhase_next hs hnext, ← overruns_next hnext]
          cases here with
          | nil => exact ih
          | cons first more =>
            simp only [Trace.toList_item, Trace.toList_prepend, ih]
            rfl

end Plain

end Cadence.Schedule
