import Cadence.Proofs.DateText.Words
import Cadence.Proofs.Rule.Increasing
import Cadence.Proofs.Rule.Queries

/-!
# The queries agree

A rule finds one list of timestamps, in order, from its start on and up to its end. All queries answer from this
list: the first occurrences are its beginning, those between two dates are a section of it, a day has an
occurrence if the list has one on it, and stepping from one occurrence to the next goes through what is left of it.
Only the number of occurrences asked for has a bound, behind which there is no answer.
-/

namespace Cadence

/-! ### The end of a rule -/

namespace FreeForm

theorem zone_of_stamp {f : Fields} {resolved : DateNumbers.Resolved} {default s : Stamp}
    (read : stamp f resolved default = .ok s) : s.zone = none := by
  obtain ⟨year, month, day⟩ := resolved
  obtain ⟨days, found, -, made, same | ⟨weekday, -, -, moved⟩⟩ := stamp_cases read
  · exact same ▸ Stamp.zone_of_of? made
  · exact (Stamp.zone_of_addDays? moved).trans (Stamp.zone_of_of? made)

theorem zone_of_readZoned {currentYear : Nat} {dayFirst : Bool} {default : Stamp} {s : Text} {result : Stamp × Bool}
    (read : readZoned currentYear dayFirst default s = .ok result) : result.1.zone = none := by
  unfold readZoned at read
  obtain ⟨f, -, read⟩ := bind_eq_ok.mp read
  obtain ⟨numbers, -, read⟩ := bind_eq_ok.mp read
  dsimp only at read
  split at read
  · cases read
  · obtain ⟨s, made, read⟩ := bind_eq_ok.mp read
    cases read
    exact zone_of_stamp made

end FreeForm

theorem RuleSpec.zone_of_until? {today last : Stamp} {value : Text} (ends : until? today value = some last) :
    last.zone = none := by
  unfold until? finishOf at ends
  split at ends
  · rename_i stamp read
    cases ends
    unfold FreeForm.readLocal at read
    cases zoned : FreeForm.readZoned today.day.year false (.ofDay today.day) value with
    | error e =>
      rw [zoned] at read
      cases read
    | ok result =>
      rw [zoned] at read
      cases read
      exact FreeForm.zone_of_readZoned zoned
  · cases ends
  · cases ends
  · cases ends

/-! ### The list -/

/-- A list of timestamps without a zone is in order, begins no earlier than a rule starts and goes no further than to
    its end, if it has one. -/
structure RuleText.Bounds (r : RuleText) (today anchor : Stamp) (found : List Stamp) : Prop where
  increasing : found.Pairwise Stamp.Precedes
  naive : ∀ x ∈ found, x.zone = none
  fromStart : ∀ x ∈ found, ¬ x.Precedes anchor.wholeSecond
  upToEnd : ∀ value, r.get? .until = some value →
    ∃ last, RuleSpec.until? today value = some last ∧ last.zone = none ∧ ∀ x ∈ found, ¬ last.Precedes x

/-- A schedule without a zone lists its timestamps in order, from its start on and up to its end. -/
theorem bounds_of_schedule {r : RuleText} {today anchor : Stamp} {spec : RuleSpec} {s : Schedule}
    (said : RuleSpec.Says today r spec) (made : Schedule.of spec anchor = .ok s) (naive : anchor.zone = none) :
    r.Bounds today anchor s.trace.toList.1 := by
  have start : s.start = anchor.wholeSecond := by
    obtain ⟨_, _, _, _, _, -, -, -, -, rfl⟩ := Schedule.exists_made made
    rfl
  have finish : s.finish = spec.finish := by
    obtain ⟨_, _, _, _, _, -, -, -, -, rfl⟩ := Schedule.exists_made made
    rfl
  obtain ⟨sorted, zones⟩ := Schedule.pairwise_periods (Schedule.isOrdered_of made)
  have within := s.sublist_periods
  have zones : ∀ x ∈ s.trace.toList.1, x.zone = none := fun x member => by
    rw [zones x (within.subset member), start]
    exact naive
  exact {
    increasing := sorted.sublist within
    naive := zones
    fromStart := fun x member precedes => by
      have zone : x.zone = anchor.wholeSecond.zone := (zones x member).trans naive.symm
      have reached := Schedule.not_before_start member
      rw [start, (Stamp.before_iff_precedes zone).mpr precedes] at reached
      cases reached
    upToEnd := fun value ends => by
      have said := said.finish
      rw [ends, ← finish] at said
      cases last : s.finish with
      | none =>
        rw [last] at said
        cases said
      | some last' =>
        rw [last] at said
        have read : RuleSpec.until? today value = some last' := Option.some.inj said
        have zone := RuleSpec.zone_of_until? read
        refine ⟨last', read, zone, fun x member precedes => ?_⟩
        have reached := Schedule.not_after_finish last member
        rw [(Stamp.before_iff_precedes (zone.trans (zones x member).symm)).mpr precedes] at reached
        cases reached }

/-! ### Queries -/

/-- A timestamp is the first of a list that comes after another one, or there is none that does. -/
def IsNext (found : List Stamp) (t : Stamp) : Option Stamp → Prop
  | some x => x ∈ found ∧ t.Precedes x ∧ ∀ y ∈ found, t.Precedes y → ¬ y.Precedes x
  | none => ∀ x ∈ found, ¬ t.Precedes x

/-- Stepping from an occurrence to the next, at most so many times. -/
def stepped (c : Setting) (rule start : Datum) : Nat → Stamp → Result (List Stamp)
  | 0, _ => .ok []
  | steps + 1, t => do
    match ← nextOccurrence c rule (.stamp t) start with
    | none => return []
    | some next => return next :: (← stepped c rule start steps next)

/-- The queries answer about a rule what a list says. Where a fault is behind its last timestamp, queries that come to
    it have no occurrences. -/
structure Answers (c : Setting) (rule start : Datum) (found : List Stamp) (fault : Option Fault) : Prop where
  first : ∀ n : Nat, occurrences c rule (.int n) start =
    .ok (if n ≤ maxLimit ∧ (fault = none ∨ n ≤ found.length) then found.take n else [])
  between : ∀ low high s t, c.stamp low = .ok s → c.stamp high = .ok t → s.zone = none → t.zone = none →
    occurrencesBetween c rule low high start =
      .ok (if fault = none ∨ ∃ x ∈ found, t.Precedes x then found.filter fun x => ¬ x.Precedes s ∧ ¬ t.Precedes x else [])
  on : ∀ date t, c.stamp date = .ok t → t.zone = none → t.day.ordinal < Day.lastOrdinal →
    occursOn c rule date start = .ok (decide (∃ x ∈ found, x.day = t.day))
  next : ∀ date t, c.stamp date = .ok t → t.zone = none →
    ∃ answer, nextOccurrence c rule date start = .ok answer ∧ IsNext found t answer
  stepping : ∀ earlier x later, found = earlier ++ x :: later → ∀ n, stepped c rule start n x = .ok (later.take n)

section Ordered
variable {c : Setting} {rule start : Datum} {r : RuleText} {anchor : Stamp} {recurrence : Recurrence} {found : List Stamp}
  {fault : Option Fault}

theorem isNext_find? (lists : recurrence.Lists found fault) {t : Stamp} (naive : t.zone = none) :
    IsNext found t (found.find? t.before) := by
  cases first : found.find? t.before with
  | none =>
    intro x member precedes
    exact List.find?_eq_none.mp first x member ((lists.iff_before member naive).mpr precedes)
  | some x =>
    have member := List.mem_of_find?_eq_some first
    obtain ⟨later, before, behind, split, earlier⟩ := List.find?_eq_some_iff_append.mp first
    refine ⟨member, (lists.iff_before member naive).mp later, fun y inside precedes lt => ?_⟩
    have after := (lists.iff_before inside naive).mpr precedes
    have sorted := lists.sorted
    rw [split] at inside sorted
    rcases List.mem_append.mp inside with early | inside
    · simpa [after] using earlier y early
    · rcases List.mem_cons.mp inside with rfl | late
      · exact Int.lt_irrefl _ lt
      · have ahead := (List.pairwise_cons.mp (List.pairwise_append.mp sorted).2.1).1 y late
        exact Int.lt_irrefl _ (ahead.trans lt)

/-- From one of the timestamps of a rule the next one is its follower in the list. -/
theorem nextOccurrence_of_mem (evaluated : recurrenceOf c rule start = .ok recurrence) (lists : recurrence.Lists found fault)
    {earlier later : List Stamp} {x : Stamp} (split : found = earlier ++ x :: later) :
    nextOccurrence c rule (.stamp x) start = .ok later.head? := by
  have naive : x.zone = none := lists.naive x (split ▸ List.mem_append_right _ List.mem_cons_self)
  have sorted := lists.sorted
  rw [split] at sorted
  obtain ⟨-, following, apart⟩ := List.pairwise_append.mp sorted
  have ahead := (List.pairwise_cons.mp following).1
  have early : earlier.find? x.before = none := by
    refine List.find?_eq_none.mpr fun y inside before => ?_
    have precedes := (lists.iff_before (split ▸ List.mem_append_left _ inside) naive).mp before
    exact Int.lt_irrefl _ (precedes.trans (apart y inside x List.mem_cons_self))
  have late : later.find? x.before = later.head? := by
    cases later with
    | nil => rfl
    | cons next later =>
      have inside : next ∈ found := split ▸ List.mem_append_right _ (List.mem_cons_of_mem x List.mem_cons_self)
      exact List.find?_cons_of_pos ((lists.iff_before inside naive).mpr (ahead next List.mem_cons_self))
  have read : c.stamp (.stamp x) = .ok x := rfl
  have itself : ¬ x.before x = true := by simp [Stamp.before_irrefl]
  rw [nextOccurrence_eq evaluated lists read naive]
  simp only [split, List.find?_append, early, Option.none_or, List.find?_cons_of_neg itself, late]

theorem stepped_eq (evaluated : recurrenceOf c rule start = .ok recurrence) (lists : recurrence.Lists found fault) :
    ∀ (n : Nat) {earlier later : List Stamp} {x : Stamp}, found = earlier ++ x :: later →
      stepped c rule start n x = .ok (later.take n)
  | 0, _, _, _, _ => rfl
  | n + 1, earlier, later, x, split => by
    rw [stepped, nextOccurrence_of_mem evaluated lists split]
    cases later with
    | nil => rfl
    | cons next later =>
      have rest := stepped_eq evaluated lists n (show found = (earlier ++ [x]) ++ next :: later by simp [split])
      simp only [bind, Except.bind, List.head?_cons, rest]
      rfl

theorem recurrenceOf_eq_ok (read : RuleText.read rule = .ok r) (anchored : r.anchor c start = .ok anchor)
    (evaluated : r.recurrenceFrom c.today anchor = .ok recurrence) : recurrenceOf c rule start = .ok recurrence := by
  unfold recurrenceOf
  rw [read]
  show r.recurrence c start = .ok recurrence
  unfold RuleText.recurrence
  rw [anchored]
  exact evaluated

/-- A rule that is evaluated from a start without a zone, no value of its parts having blanks, lists its timestamps in
    order between its start and its end, and the queries answer from this list. -/
theorem queries_agree (read : RuleText.read rule = .ok r) (noBlank : ∀ part ∈ r.parts, Text.NoBlank part.2)
    (anchored : r.anchor c start = .ok anchor) (plainly : r.anchor c.plain start = .ok anchor) (naive : anchor.zone = none)
    (evaluated : r.recurrenceFrom c.today anchor = .ok recurrence) (trace : recurrence.trace.toList = (found, fault))
    (recovers : ∀ f ∈ fault, (Failure.fault f).isValueOrRange = true) :
    r.Bounds c.today anchor found ∧ Answers c rule start found fault := by
  obtain ⟨spec, s, rfl, said, made⟩ := exists_schedule read noBlank evaluated
  have bounds : r.Bounds c.today anchor found := by
    have bounds := bounds_of_schedule said made naive
    rwa [show s.trace.toList = (found, fault) from trace] at bounds
  have lists : (Recurrence.single s).Lists found fault := ⟨trace, bounds.increasing, bounds.naive, recovers⟩
  have whole := recurrenceOf_eq_ok read anchored evaluated
  have wholePlain := recurrenceOf_eq_ok (c := c.plain) read plainly evaluated
  refine ⟨bounds, ?_⟩
  exact {
    first := occurrences_eq wholePlain trace recovers
    between := fun low high s t lower upper => occurrencesBetween_eq whole lists lower upper
    on := fun date t read => occursOn_eq whole lists read
    next := fun date t read naive => ⟨_, nextOccurrence_eq whole lists read naive, isNext_find? lists naive⟩
    stepping := fun earlier x later split n => stepped_eq whole lists n split }

end Ordered

/-- The timestamps of the rule that falls on Mondays and Wednesdays of every second week, four times. -/
def fourDays : List Stamp :=
  [0, 12, 14, 26].filterMap firstOf2025.today.addDays?

theorem queries_agree_fourTimes :
    RuleText.read (.text "FREQ=WEEKLY;INTERVAL=2;COUNT=4;BYDAY=MO,WE".toList) = .ok fourTimes ∧
      (∀ part ∈ fourTimes.parts, Text.NoBlank part.2) ∧ fourTimes.anchor firstOf2025 .null = .ok firstOf2025.dayStart ∧
      ∃ recurrence, fourTimes.recurrenceFrom firstOf2025.today firstOf2025.dayStart = .ok recurrence ∧
        recurrence.trace.toList = (fourDays, none) ∧
        Answers firstOf2025 (.text "FREQ=WEEKLY;INTERVAL=2;COUNT=4;BYDAY=MO,WE".toList) .null fourDays none := by
  have read : RuleText.read (.text "FREQ=WEEKLY;INTERVAL=2;COUNT=4;BYDAY=MO,WE".toList) = .ok fourTimes := rfl
  have noBlank : ∀ part ∈ fourTimes.parts, Text.NoBlank part.2 := by decide
  obtain ⟨s, evaluated, trace⟩ : ∃ s, fourTimes.recurrenceFrom firstOf2025.today firstOf2025.dayStart = .ok (.single s) ∧
      s.trace.toList = (fourDays, none) := ⟨_, rfl, by decide +kernel⟩
  exact ⟨read, noBlank, rfl, .single s, evaluated, trace,
    (queries_agree read noBlank rfl rfl rfl evaluated trace nofun).2⟩

/-- A single day. -/
def onceDaily : Text := "FREQ=DAILY;COUNT=1".toList

/-- More occurrences than can be counted are none, even where there is one. -/
theorem occurrences_uncountable : ∃ r s, RuleText.read (.text onceDaily) = .ok r ∧
    (∀ part ∈ r.parts, Text.NoBlank part.2) ∧ recurrenceOf firstOf2025.plain (.text onceDaily) .null = .ok (.single s) ∧
    s.trace.toList = ([firstOf2025.dayStart], none) ∧
    occurrences firstOf2025 (.text onceDaily) (.int 9223372036854775808) .null = .ok [] ∧
    [firstOf2025.dayStart].take 9223372036854775808 ≠ [] :=
  ⟨_, _, rfl, by decide, rfl, by decide +kernel, rfl, nofun⟩

end Cadence
