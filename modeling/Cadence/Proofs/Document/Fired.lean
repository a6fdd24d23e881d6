import Cadence.Proofs.Document.Rule
import Cadence.Proofs.Rule.Queries

/-!
# Exported events

An event in a document starts when its rule does, and has the occurrences of the rule, taken to be at universal time: a
start without an offset is there already, and the rule that is read from the document is evaluated from the same parts.
A start with an offset is moved to universal time, and the days, months and hours that the rule names stay as they
are, so that they name other days for the event.
-/

namespace Cadence

open Text

theorem ok_of_recover {α : Type} {result : Result α} {recovers : Failure → Bool} {fallback a : α}
    (recovered : result.recover recovers fallback = .ok a) (other : a ≠ fallback) : result = .ok a :=
  (eq_ok_or_of_recover recovered).resolve_right other

/-- A start that has no offset is written as it is. -/
theorem Stamp.zoned_of_toUniversal? {s u : Stamp} (offset : s.zone.getD 0 = 0) (moved : s.toUniversal? = some u) :
    u.plain.zoned = s.wholeSecond.zoned := by
  unfold toUniversal? at moved
  cases zone : s.zone with
  | none =>
    rw [zone] at moved
    obtain rfl := Option.some.inj moved
    simp [zoned, plain, wholeSecond, withoutZone, zone]
  | some z =>
    obtain rfl : z = 0 := by rwa [zone] at offset
    have ticks : s.instant = s.ticks := by simp [instant, zone]
    rw [zone] at moved
    dsimp only at moved
    rw [ticks, ofTicks?_ticks] at moved
    obtain rfl := Option.some.inj moved
    simp [zoned, plain, wholeSecond, withoutZone, zone]

namespace Document

theorem moment?_momentText (s : Stamp) : moment? (momentText s) = some s.plain.zoned := by
  have last : (momentText s).getLast? = some 'Z' := by
    rw [momentText_eq, show row s.day.digits ++ 'T' :: (row s.clock.digits ++ ['Z']) =
      (row s.day.digits ++ 'T' :: row s.clock.digits) ++ ['Z'] by simp, List.getLast?_concat]
  rw [moment?, finish?_momentText, last]
  rfl

/-- The rule with its end at universal time is evaluated from its start at universal time as it is from the start itself. -/
theorem scheduleOf?_eq {spec : RuleSpec} {start : Stamp} {s : Schedule} {universal : Bool} (evaluated : Schedule.of spec start = .ok s)
    (ends : spec.finish.isSome = true → universal = true) : scheduleOf? spec universal start.wholeSecond.zoned = some s.zoned := by
  have again := Schedule.of_zoned evaluated
  have kept : s.zoned.finish = spec.finish.map Stamp.zoned := by
    obtain ⟨frequency, hours, minutes, seconds, times, -, -, -, -, rfl⟩ := Schedule.exists_made evaluated
    rfl
  unfold scheduleOf?
  cases finish : spec.finish with
  | none =>
    rw [finish] at kept
    have open₁ : { spec with finish := none } = spec := by rw [← finish]
    have open₂ : { s.zoned with finish := none } = s.zoned := by rw [← show s.zoned.finish = none from kept]
    rw [open₁, open₂] at again
    exact congrArg Except.toOption again
  | some e =>
    rw [finish] at kept
    have closed : { s.zoned with finish := some e.zoned } = s.zoned := by rw [← show s.zoned.finish = some e.zoned from kept]
    rw [ends (by rw [finish]; rfl)]
    show (Schedule.of { spec with finish := none } start.wholeSecond.zoned).toOption.map (fun s => { s with finish := some e.zoned }) = _
    rw [again]
    exact congrArg some closed

end Document

/-! ### Occurrences -/

section Occurrences
variable {c : Setting} {rule title start identity product : Datum} {document : Text} {r : RuleText} {recurrence : Recurrence}

theorem occurrences_eq_take (evaluated : recurrenceOf c.plain rule start = .ok recurrence) {n : Nat} (countable : n ≤ maxLimit) :
    occurrences c rule (.int n) start = (liftFault (recurrence.trace.take n)).recover Failure.isValueOrRange [] := by
  unfold occurrences
  rw [limitOf_natCast, if_pos countable]
  cases n with
  | zero => rfl
  | succ n =>
    simp only [bind, Except.bind, evaluated]

theorem map_recover {f : Stamp → Stamp} {found : Except Fault (List Stamp)} {recovers : Failure → Bool} :
    (liftFault (found.map (·.map f))).recover recovers [] = ((liftFault found).recover recovers []).map (·.map f) := by
  cases found with
  | ok l => rfl
  | error e =>
    show (if recovers (.fault e) then Except.ok [] else Except.error (Failure.fault e)) =
      (if recovers (.fault e) then Except.ok [] else Except.error (Failure.fault e)).map (·.map f)
    split <;> rfl

/-- A rule and a start that a document can state: no value of the rule has blanks, its end and its months are written plainly,
    and it starts at universal time, or at no time zone's. -/
structure RuleText.IsExportable (r : RuleText) (c : Setting) (start : Datum) : Prop extends Document.IsStatable r where
  noBlank : ∀ part ∈ r.parts, NoBlank part.2
  offset : ∀ anchor, r.anchor c start = .ok anchor → anchor.zone.getD 0 = 0

theorem orFault_eq_ok {α : Type} {f : Fault} {o : Option α} {a : α} : orFault f o = .ok a ↔ o = some a := by
  cases o <;> simp [orFault]

/-- What stands in a document is an event with the start and the text of the rule, which can be evaluated. -/
theorem exists_event (exported : exportDocument c rule title start identity product = .ok document) (nonempty : document ≠ [])
    (read : RuleText.read rule = .ok r) : ∃ (event : Document.Event) (anchor : Stamp) (recurrence : Recurrence),
      event.text? = some document ∧ r.anchor c.plain start = .ok anchor ∧ r.recurrenceFrom c.today anchor = .ok recurrence ∧
      anchor.toUniversal? = some event.start ∧ Document.ruleText? r = some event.rule := by
  obtain ⟨event, made, text⟩ := bind_eq_ok.mp (ok_of_recover exported nonempty)
  unfold eventOf at made
  rw [read] at made
  obtain ⟨recurrence, evaluated, made⟩ := bind_eq_ok.mp (show r.recurrence c.plain start >>= _ = .ok event from made)
  obtain ⟨anchor, anchored, made⟩ := bind_eq_ok.mp made
  obtain ⟨begins, moved, made⟩ := bind_eq_ok.mp made
  obtain ⟨written, wrote, made⟩ := bind_eq_ok.mp made
  obtain rfl := Except.ok.inj made
  obtain ⟨anchor', same, evaluated⟩ := bind_eq_ok.mp evaluated
  obtain rfl := Except.ok.inj (same.symm.trans anchored)
  exact ⟨_, anchor', recurrence, orFault_eq_ok.mp text, anchored, evaluated, orFault_eq_ok.mp moved, orFault_eq_ok.mp wrote⟩

/-- An exported event has the occurrences of its rule. The schedule that is read from a document, from the start and the rule
    in it, has for every number as many first occurrences at the same instants as the rule has that was exported. -/
theorem exported_fires (exported : exportDocument c rule title start identity product = .ok document) (nonempty : document ≠ [])
    (read : RuleText.read rule = .ok r) (exportable : r.IsExportable c.plain start) :
    ∃ s, Document.schedule? c.today document = some s ∧ ∀ n ≤ maxLimit,
      (occurrences c rule (.int n) start).map (·.map Stamp.instant) =
        ((liftFault (s.trace.take n)).recover Failure.isValueOrRange []).map (·.map Stamp.instant) := by
  obtain ⟨event, anchor, recurrence, text, anchored, evaluated, moved, wrote⟩ := exists_event exported nonempty read
  obtain ⟨spec, s, rfl, said, made⟩ := exists_schedule read exportable.noBlank evaluated
  have checked := RuleText.check_of_read read
  have plain := (RuleText.areRead_of_read read).arePlain exportable.noBlank (RuleText.inOrder_ne_nil_of_check checked)
    (recurrenceFrom_eq_ok.mp evaluated)
  obtain ⟨again, noBlank, ends⟩ := Document.read_ruleText plain checked exportable.toIsStatable said wrote
  have oneLine : '\n' ∉ event.rule := fun member => absurd (noBlank _ member) (by decide)
  obtain ⟨begins, states⟩ := Document.value?_of_text? oneLine text
  have found : Document.schedule? c.today document = some s.zoned := by
    unfold Document.schedule?
    rw [begins, states]
    simp only [Option.bind_eq_bind, Option.bind_some, Document.moment?_momentText, again, Except.toOption]
    rw [Stamp.zoned_of_toUniversal? (exportable.offset anchor anchored) moved, Document.scheduleOf?_eq made ends]
  refine ⟨s.zoned, found, fun n countable => ?_⟩
  have direct : recurrenceOf c.plain rule start = .ok (.single s) :=
    bind_eq_ok.mpr ⟨r, read, bind_eq_ok.mpr ⟨anchor, anchored, evaluated⟩⟩
  have instants (l : List Stamp) : (l.map Stamp.zoned).map Stamp.instant = l.map Stamp.instant := by
    rw [List.map_map]
    exact List.map_congr_left fun t _ => t.instant_zoned
  rw [occurrences_eq_take direct countable, Schedule.trace_zoned, Trace.take_map, map_recover]
  show ((liftFault (s.trace.take n)).recover Failure.isValueOrRange []).map _ = _
  cases (liftFault (s.trace.take n)).recover Failure.isValueOrRange [] with
  | error e => rfl
  | ok l => exact congrArg Except.ok (instants l).symm

end Occurrences

/-- Mondays and Wednesdays of every second week until the end of September, the end being at universal time. -/
def reviews : RuleText where
  parts := [(.freq, "WEEKLY"), (.until, "20250930T235959Z"), (.interval, "2"), (.byDay, "MO,WE")]

theorem isDate_september : IsDate 2025 9 1 := by decide

theorem isTime_morning : IsTime 9 0 0 0 := by decide

/-- Nine o'clock on the first of September, without a zone. -/
def septemberMorning : Stamp := ⟨⟨2025, 9, 1, isDate_september⟩, ⟨9, 0, 0, 0, isTime_morning⟩, none⟩

theorem isExportable_reviews : reviews.IsExportable firstOf2025.plain (.stamp septemberMorning) where
  finish value got := by
    obtain rfl : "20250930T235959Z".toList = value := Option.some.inj got
    have date : AreDigits [2, 0, 2, 5, 0, 9, 3, 0] := by simp [AreDigits]
    have time : AreDigits [2, 3, 5, 9, 5, 9] := by simp [AreDigits]
    exact .moment date time rfl rfl (.inr rfl)
  months := by decide
  noBlank := by decide
  offset anchor anchored := by
    obtain rfl : septemberMorning = anchor := Except.ok.inj anchored
    rfl

theorem exported_fires_reviews : ∃ document s,
    exportDocument firstOf2025 (.text reviews.body) (.text "Review".toList) (.stamp septemberMorning) .null (.text defaultProduct) =
      .ok document ∧ document ≠ [] ∧ RuleText.read (.text reviews.body) = .ok reviews ∧
      Document.schedule? firstOf2025.today document = some s ∧ ∀ n ≤ maxLimit,
        (occurrences firstOf2025 (.text reviews.body) (.int n) (.stamp septemberMorning)).map (·.map Stamp.instant) =
          ((liftFault (s.trace.take n)).recover Failure.isValueOrRange []).map (·.map Stamp.instant) := by
  have written : (exportDocument firstOf2025 (.text reviews.body) (.text "Review".toList) (.stamp septemberMorning) .null
      (.text defaultProduct)).toOption.map List.isEmpty = some false := by decide +kernel
  obtain ⟨document, exported, some⟩ := Option.map_eq_some_iff.mp written
  have read : RuleText.read (.text reviews.body) = .ok reviews := rfl
  have nonempty : document ≠ [] := List.isEmpty_eq_false_iff.mp some
  obtain ⟨s, found, fires⟩ := exported_fires (toOption_eq_some exported) nonempty read isExportable_reviews
  exact ⟨document, s, toOption_eq_some exported, nonempty, read, found, fires⟩

theorem isDate_monday : IsDate 2025 6 23 := by decide

theorem isTime_evening : IsTime 23 30 0 0 := by decide

/-- Late on a Monday evening, five hours behind universal time, where it is Tuesday already. -/
def mondayEvening : Stamp := ⟨⟨2025, 6, 23, isDate_monday⟩, ⟨23, 30, 0, 0, isTime_evening⟩, some (-300)⟩

/-- A rule of Mondays whose start lies on a Tuesday at universal time is exported as it is: the event first occurs six days after
    the rule does. -/
theorem exported_fires_later : ∃ document s,
    exportDocument firstOf2025 (.text "FREQ=WEEKLY;BYDAY=MO".toList) (.text "Review".toList) (.stamp mondayEvening) (.text "u".toList)
      (.text defaultProduct) = .ok document ∧ document ≠ [] ∧ Document.schedule? firstOf2025.today document = some s ∧
      (occurrences firstOf2025 (.text "FREQ=WEEKLY;BYDAY=MO".toList) (.int 1) (.stamp mondayEvening)).map (·.map Stamp.instant) =
        .ok [mondayEvening.instant] ∧
      (s.trace.take 1).map (·.map Stamp.instant) = .ok [mondayEvening.instant + 6 * 86400000000] := by
  have events : (exportDocument firstOf2025 (.text "FREQ=WEEKLY;BYDAY=MO".toList) (.text "Review".toList) (.stamp mondayEvening)
      (.text "u".toList) (.text defaultProduct)).toOption.map (fun document => (document.isEmpty,
        (Document.schedule? firstOf2025.today document).map fun s => ((s.trace.take 1).map (·.map Stamp.instant)).toOption)) =
      some (false, some (some [mondayEvening.instant + 6 * 86400000000])) := by decide +kernel
  have occurs : ((occurrences firstOf2025 (.text "FREQ=WEEKLY;BYDAY=MO".toList) (.int 1) (.stamp mondayEvening)).map
      (·.map Stamp.instant)).toOption = some [mondayEvening.instant] := by decide +kernel
  obtain ⟨document, exported, fires⟩ := Option.map_eq_some_iff.mp events
  obtain ⟨some, fires⟩ := Prod.mk.inj fires
  obtain ⟨s, found, first⟩ := Option.map_eq_some_iff.mp fires
  exact ⟨document, s, toOption_eq_some exported, List.isEmpty_eq_false_iff.mp some, found, toOption_eq_some occurs,
    toOption_eq_some first⟩

end Cadence
