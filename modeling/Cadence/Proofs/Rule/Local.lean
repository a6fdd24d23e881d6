import Cadence.Proofs.DateText.Scale
import Cadence.Proofs.Description.Imported
import Cadence.Proofs.Rule.Agreement

/-!
# Local times

Texts are read to timestamps without a zone, whatever zone they name. A rule that starts at a timestamp without a
zone has only such timestamps, even where its text brings in dates and rules of other lines, and so the start that is
found for the fields of a rule has none.
-/

namespace Cadence

/-! ### Dates -/

theorem Iso.zone_of_read? {s : Text} {t : Stamp} (read : Iso.read? s = some t) : t.zone = none := by
  unfold Iso.read? at read
  split at read
  · cases read
  · simp only [Option.bind_eq_bind, Option.bind_eq_some_iff] at read
    obtain ⟨year, -, month, -, number, -, day, -, read⟩ := read
    split at read
    · cases read
      rfl
    · obtain ⟨time, -, read⟩ := Option.bind_eq_some_iff.mp read
      unfold stampAt? at read
      split at read
      · split at read
        · exact Stamp.zone_of_addDays? read
        · cases read
      · split at read
        · cases read
        · obtain ⟨clock, -, rfl⟩ := Option.map_eq_some_iff.mp read
          rfl

theorem NumericDate.zone_of_stamp? {d : NumericDate} {format : LocaleFormat} {t : Stamp} (read : d.stamp? format = some t) :
    t.zone = none := by
  unfold NumericDate.stamp? at read
  simp only [Option.bind_eq_bind, Option.bind_eq_some_iff] at read
  obtain ⟨parts, -, numbers, -, made⟩ := read
  exact Stamp.zone_of_of? made

namespace DateText

theorem zone_of_inWords {currentYear : Nat} {format : LocaleFormat} {s : Text} {t : Stamp}
    (read : inWords currentYear format s = .ok (some t)) : t.zone = none :=
  FreeForm.zone_of_readZoned (inWords_eq_some.mp read).2

theorem zone_of_resolve {currentYear : Nat} {format : Except Fault LocaleFormat} {s : Text} {t : Stamp}
    (read : resolve currentYear format s = .ok (some t)) : t.zone = none := by
  unfold resolve at read
  dsimp only at read
  split at read
  · rename_i stamp iso
    obtain rfl := Option.some.inj (Except.ok.inj read)
    split at iso
    · exact Iso.zone_of_read? iso
    · cases iso
  · split at read
    · cases format with
      | error f => cases read
      | ok format => exact NumericDate.zone_of_stamp? (Except.ok.inj read)
    · split at read
      · obtain ⟨format, -, words⟩ := bind_eq_ok.mp read
        exact zone_of_inWords words
      · cases read

end DateText

/-- A value of a host has no zone, unless it is a timestamp that has one. -/
theorem Datum.zone_of_stampIn {currentYear : Nat} {format : Except Fault LocaleFormat} {value : Datum} {t : Stamp}
    (given : ∀ s, value = .stamp s → s.zone = none) (read : value.stampIn currentYear format = .ok t) : t.zone = none := by
  cases value with
  | stamp s =>
    rw [← Except.ok.inj (show (.ok s : Result Stamp) = .ok t from read)]
    exact given s rfl
  | day d =>
    cases read
    rfl
  | text s => exact DateText.zone_of_resolve (DateText.read_eq_ok.mp read)
  | null | bool | int | real | list | object => cases read

/-! ### Traces -/

namespace Trace

variable {p : Stamp → Prop}

/-- All timestamps of a trace have a property. -/
def All (p : Stamp → Prop) (t : Trace) : Prop := ∀ x ∈ t.toList.1, p x

theorem all_done : All p done := fun _ member => by cases member

theorem all_failed (f : Fault) : All p (failed f) := fun _ member => by cases member

theorem all_item {s : Stamp} {rest : Unit → Trace} : All p (item s rest) ↔ p s ∧ All p (rest ()) := by
  unfold All
  rw [toList_item]
  exact List.forall_mem_cons

theorem all_ofList {found : List Stamp} (all : ∀ x ∈ found, p x) : All p (ofList found) := by
  unfold All
  rwa [toList_ofList]

theorem all_insertBefore {s : Stamp} {rest : Trace → Trace} {t : Trace} (own : p s) (all : All p t)
    (others : ∀ left, All p left → All p (rest left)) : All p (insertBefore s rest t) := by
  induction t with
  | done => exact all_item.mpr ⟨own, others done all_done⟩
  | failed f => exact all_failed f
  | item next more ih =>
    obtain ⟨first, later⟩ := all_item.mp all
    unfold insertBefore
    split
    · exact all_failed _
    · split
      · exact all_item.mpr ⟨first, ih () later⟩
      · exact all_item.mpr ⟨own, others _ all⟩

theorem all_merge {t other : Trace} (all : All p t) (all' : All p other) : All p (t.merge other) := by
  induction t generalizing other with
  | done => exact all'
  | failed f => exact all_failed f
  | item s rest ih =>
    obtain ⟨first, later⟩ := all_item.mp all
    exact all_insertBefore first all' fun left own => ih () later own

theorem all_distinctFrom {t : Trace} (all : All p t) (last : Option Stamp) : All p (t.distinctFrom last) := by
  induction t generalizing last with
  | done => exact all_done
  | failed f => exact all_failed f
  | item s rest ih =>
    obtain ⟨first, later⟩ := all_item.mp all
    unfold distinctFrom
    split
    · exact ih () later last
    · exact all_item.mpr ⟨first, ih () later _⟩

theorem all_without {t : Trace} (all : All p t) (excluded : Trace) : All p (t.without excluded) := by
  induction t generalizing excluded with
  | done => exact all_done
  | failed f => exact all_failed f
  | item s rest ih =>
    obtain ⟨first, later⟩ := all_item.mp all
    unfold without
    split
    · exact all_failed _
    · exact all_item.mpr ⟨first, ih () later _⟩
    · split
      · exact ih () later _
      · exact all_item.mpr ⟨first, ih () later _⟩

end Trace

/-! ### Rules -/

namespace Recurrence

variable {today start : Stamp}

/-- A timestamp without a zone. -/
def IsNaive (s : Stamp) : Prop := s.zone = none

theorem naive_of_schedule {line : Text} {s : Schedule} (made : schedule today start line = .ok s) (naive : IsNaive start) :
    s.trace.All IsNaive := by
  obtain ⟨spec, -, made⟩ := bind_eq_ok.mp made
  have zone : s.start.zone = none := by
    obtain ⟨_, _, _, _, _, -, -, -, -, rfl⟩ := Schedule.exists_made made
    exact naive
  intro x member
  exact ((Schedule.pairwise_periods (Schedule.isOrdered_of made)).2 x (s.sublist_periods.subset member)).trans zone

theorem naive_of_dateOn {value : Text} {s : Stamp} (read : dateOn today value = .ok s) : IsNaive s := by
  unfold dateOn at read
  split at read
  · rename_i stamp words
    cases read
    unfold FreeForm.readLocal at words
    cases zoned : FreeForm.readZoned today.day.year false (.ofDay today.day) value with
    | error e =>
      rw [zoned] at words
      cases words
    | ok result =>
      rw [zoned] at words
      cases words
      exact FreeForm.zone_of_readZoned zoned
  all_goals cases read

theorem naive_of_datesOn {value : Text} {dates : List Stamp} (read : datesOn today value = .ok dates) :
    ∀ s ∈ dates, IsNaive s := by
  intro s member
  obtain ⟨value, -, read⟩ := exists_of_mem_mapM read s member
  exact naive_of_dateOn read

theorem naive_union {dates : List Stamp} {schedules : List Schedule} (naive : ∀ s ∈ dates, IsNaive s)
    (all : ∀ s ∈ schedules, s.trace.All IsNaive) : (union dates schedules).All IsNaive := by
  have ordered : (Trace.ofList (Schedule.inOrder dates)).All IsNaive :=
    Trace.all_ofList fun s member => naive s (Schedule.mem_inOrder.mp member)
  unfold union
  clear naive
  generalize Trace.ofList (Schedule.inOrder dates) = t at ordered
  induction schedules generalizing t with
  | nil => exact ordered
  | cons s schedules ih =>
    obtain ⟨first, others⟩ := List.forall_mem_cons.mp all
    exact ih others _ (Trace.all_merge ordered first)

/-- Every start that a line may give has no zone. -/
theorem naive_of_add {l l' : Lines} {line : Text} (naive : IsNaive l.start) (added : l.add today line = .ok l') :
    IsNaive l'.start := by
  unfold Lines.add at added
  dsimp only at added
  repeat' split at added
  all_goals first
    | cases added
    | obtain ⟨_, -, added⟩ := bind_eq_ok.mp added
  all_goals first
    | (cases added; exact naive)
    | obtain ⟨dates, read, added⟩ := bind_eq_ok.mp added
  · cases added
    exact naive
  · split at added <;> cases added
    exact naive_of_datesOn read _ (List.mem_singleton_self _)

theorem naive_of_ofLines {l : Lines} {r : Recurrence} (naive : IsNaive l.start) (made : ofLines today l = .ok r) :
    r.trace.All IsNaive := by
  have started {lines : List Text} {schedules : List Schedule} (ran : lines.mapM (schedule today l.start) = .ok schedules) :
      ∀ s ∈ schedules, s.trace.All IsNaive := fun s member =>
    let ⟨_, _, written⟩ := exists_of_mem_mapM ran s member
    naive_of_schedule written naive
  unfold ofLines at made
  split at made
  · obtain ⟨s, written, rfl⟩ := map_eq_ok.mp made
    exact naive_of_schedule written naive
  · obtain ⟨rules, allRules, made⟩ := bind_eq_ok.mp made
    obtain ⟨dates, allDates, made⟩ := bind_eq_ok.mp made
    obtain ⟨exceptRules, -, made⟩ := bind_eq_ok.mp made
    cases made
    refine Trace.all_without (Trace.all_distinctFrom (naive_union (fun s member => ?_) (started allRules)) none) _
    obtain ⟨found, listed, inside⟩ := List.mem_flatten.mp member
    obtain ⟨value, -, read⟩ := exists_of_mem_mapM allDates found listed
    exact naive_of_datesOn read s inside

/-- A text says nothing but local times about a local start. -/
theorem naive_of_read {s : Text} {r : Recurrence} (naive : IsNaive start) (made : read today start s = .ok r) :
    r.trace.All IsNaive := by
  unfold read at made
  split at made
  · obtain ⟨s, written, rfl⟩ := map_eq_ok.mp made
    exact naive_of_schedule written naive
  · obtain ⟨l, all, made⟩ := bind_eq_ok.mp made
    refine naive_of_ofLines ?_ made
    exact @foldlM_invariant _ _ _ _ (IsNaive ·.start) _ _ _ (fun line _ l next own added => naive_of_add own added) naive all

end Recurrence

/-! ### Imported fields -/

namespace RuleText

open Recurrence

variable {r : RuleText} {rule : Datum}

/-- The start among the lines, if there is one, is a moment that a text writes. -/
def Lines.IsWritten (l : Lines) : Prop := ∀ s, l.start = some s → ∃ value, moment value = .ok s

theorem Lines.IsWritten.add {l l' : Lines} (was : l.IsWritten) {line : Text} (added : l.add line = .ok l') : l'.IsWritten := by
  unfold Lines.add Lines.addBody at added
  dsimp only at added
  split at added
  · cases added
    exact was
  · split at added
    · obtain ⟨start, written, rfl⟩ := map_eq_ok.mp added
      intro s found
      cases found
      exact ⟨_, written⟩
    · repeat' split at added
      all_goals cases added
      all_goals exact was

/-- The start that a rule text gives is a moment that it writes. -/
theorem exists_moment_of_read (read : RuleText.read rule = .ok r) : ∀ s, r.start = some s → ∃ value, moment value = .ok s := by
  unfold RuleText.read at read
  split at read
  · split at read <;> cases read
    rename_i parsed
    unfold parse at parsed
    split at parsed
    · cases parsed
    · obtain ⟨lines, all, parsed⟩ := bind_eq_ok.mp parsed
      have written : lines.IsWritten :=
        foldlM_invariant (fun line _ l next own added => own.add added) (fun s none => by cases none) (mapError_eq_ok.mp all)
      split at parsed
      · cases parsed
      · obtain ⟨parts, -, parsed⟩ := bind_eq_ok.mp parsed
        obtain ⟨_, -, parsed⟩ := bind_eq_ok.mp parsed
        cases parsed
        exact written
  · cases read

theorem naive_of_recurrenceFrom {today start : Stamp} {recurrence : Recurrence} (naive : IsNaive start)
    (evaluated : r.recurrenceFrom today start = .ok recurrence) : recurrence.trace.All IsNaive := by
  unfold recurrenceFrom at evaluated
  split at evaluated
  · rename_i read
    cases evaluated
    exact naive_of_read naive read
  all_goals cases evaluated

/-- The end of imported fields is a day. -/
theorem finishOf_eq_ofDay {start e : Stamp} (ends : r.finishOf rule start = .ok (some e)) : e = .ofDay e.day := by
  unfold finishOf at ends
  split at ends
  · cases ends
  · split at ends
    · cases ends
    · rename_i finish written
      obtain ⟨day, last, same⟩ := map_eq_ok.mp ends
      cases same
      obtain ⟨naive, midnight, -⟩ := lastDay_eq_ok last (zone_of_moment written)
      obtain ⟨day, clock, zone⟩ := e
      cases naive
      cases midnight
      rfl

theorem plain_of_finishOf {start e : Stamp} (ends : r.finishOf rule start = .ok (some e)) : e.plain = e := by
  rw [finishOf_eq_ofDay ends]
  rfl

theorem naive_of_finishOf {start e : Stamp} (ends : r.finishOf rule start = .ok (some e)) : IsNaive e := by
  rw [finishOf_eq_ofDay ends]
  rfl

end RuleText

namespace Description

open Recurrence

variable {c : Setting} {rule fallback : Datum} {d : Description}

/-- The start of imported fields is a local time if the start that is given is one, and their end always is. -/
theorem naive_of_ofRule (given : ∀ s, fallback = .stamp s → IsNaive s) (read : ofRule c rule fallback = .ok d) :
    IsNaive d.start ∧ ∀ e, d.finish = some e → IsNaive e := by
  obtain ⟨r, written, made⟩ := bind_eq_ok.mp read
  obtain ⟨pattern, anchor, recurrence, becomes⟩ := RuleText.becomes_of_description made
  have naive : IsNaive anchor := by
    have anchored := becomes.anchored
    unfold RuleText.anchor at anchored
    split at anchored
    · rename_i own given
      cases anchored
      obtain ⟨value, moment⟩ := RuleText.exists_moment_of_read written _ given
      exact RuleText.zone_of_moment moment
    · cases anchored
      rfl
    · exact Datum.zone_of_stampIn given anchored
  constructor
  · rcases becomes.start_eq_or_mem with same | member
    · rw [same]
      exact naive
    · exact RuleText.naive_of_recurrenceFrom naive becomes.evaluated _ member
  · intro e found
    exact RuleText.naive_of_finishOf (becomes.finish.trans (congrArg _ found))

end Description

end Cadence
