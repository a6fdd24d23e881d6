import Cadence.Proofs.Control.HostData
import Cadence.Proofs.Control.Reopened
import Cadence.Proofs.DateText.Iso
import Cadence.Proofs.Json.Written

/-!
# Data that come back

What a host reads from a control can be handed in again. The text is read as the object that it was written from, and the
object as the fields of the recurrence: its dates are ISO dates, which no locale is needed for, its choices are tokens, and
its other values count as given. So the control keeps what it has, and a new control takes over the same.
-/

namespace Cadence

open Text

namespace Description

variable {d : Description} {c : Setting}

/-- The description without an end that is not in use. -/
def echoed (d : Description) : Description := { d with finish := if d.hasEnd then d.finish else none }

theorem toDatum_echoed (d : Description) : d.echoed.toDatum = d.toDatum := by
  obtain ⟨repetition, start, finish, hasEnd, rule, sentence⟩ := d
  cases hasEnd <;> rfl

theorem isJson_shownFinish (d : Description) (room : Nat) : d.shownFinish.IsJson room := by
  unfold shownFinish
  split
  · exact .text room _
  · exact .null room

/-- The members of the object of a description. -/
def members (d : Description) : List (Text × Datum) :=
  [("startDate", .text d.start.text),
   ("pattern", .text d.pattern.token),
   ("every", .int d.every),
   ("selectedDays", .list ((Weekday.sorted d.selectedDays).map fun day => .text day.token)),
   ("monthlyOption", .text d.monthlyOption.token),
   ("yearlyOption", .text d.yearlyOption.token),
   ("endDate", d.shownFinish),
   ("hasEndDate", .bool d.hasEnd),
   ("rrule", d.rule),
   ("description", d.sentence)]

/-- The object of a settled description is one that a JSON text may write. -/
theorem IsSettled.isJson (settled : d.IsSettled) (short : d.every.natAbs < 10 ^ maxDigits) : d.toDatum.IsJson Json.maxDepth := by
  have days : (Datum.list ((Weekday.sorted d.selectedDays).map fun day => .text day.token)).IsJson (Json.maxDepth - 1) := by
    refine .list (Json.maxDepth - 2) _ fun x member => ?_
    obtain ⟨day, -, rfl⟩ := List.mem_map.mp member
    exact .text _ _
  have names : (d.members.map (·.1)).Nodup := by
    simp only [members, List.map_cons, List.map_nil]
    decide
  refine .object (Json.maxDepth - 1) d.members names ?_
  simp only [members, List.forall_mem_cons]
  exact ⟨.text _ _, .text _ _, .int _ _ short, days, .text _ _, .text _ _, d.isJson_shownFinish _, .bool _ _, settled.rule.json,
    settled.sentence.json, List.forall_mem_nil _⟩

/-! ### The fields that the members stand for -/

theorem truthy_text {s : Stamp} (naive : s.zone = none) : (Datum.text s.text).truthy = true := by
  rw [Datum.truthy, Iso.text_eq naive]
  simp

/-- A local timestamp that was written is read back in every setting. -/
theorem stamp_text {s : Stamp} (naive : s.zone = none) (c : Setting) : c.stamp (.text s.text) = .ok s := by
  simp only [Setting.stamp, Datum.stampIn, DateText.read, DateText.resolve_text naive]

theorem choiceOf_token {α : Type} {ofToken? : Text → Option α} {default a : α} {token : Text} (there : token.isEmpty = false)
    (named : ofToken? token = some a) : choiceOf ofToken? default (.text token) = .ok a := by
  simp [choiceOf, Datum.truthy, there, named, orFault]

theorem weekdaysOf_tokens {days : List Weekday} (sorted : Weekday.sorted days = days) :
    weekdaysOf (.list (days.map fun day => .text day.token)) = .ok days := by
  have named (days : List Weekday) : (days.map fun day => Datum.text day.token).mapM weekdayOf = .ok days := by
    induction days with
    | nil => rfl
    | cons day days ih =>
      have first : weekdayOf (.text day.token) = .ok day := by simp [weekdayOf, Weekday.ofToken?_token]
      rw [List.map_cons, List.mapM_cons, first, ih]
      rfl
  cases days with
  | nil => rfl
  | cons day more =>
    show (List.mapM weekdayOf ((day :: more).map fun day => Datum.text day.token) >>= fun days => pure (Weekday.sorted days)) = _
    rw [named]
    exact congrArg Except.ok sorted

/-- The members of the object of a settled description stand for it, whatever the locale. -/
theorem IsSettled.isIn (settled : d.IsSettled) (c : Setting) : IsIn c d.members d.echoed where
  start := by
    show (if (Datum.text d.start.text).truthy then c.stamp (.text d.start.text) else .ok c.dayStart) = _
    rw [if_pos (truthy_text settled.start), stamp_text settled.start]
    rfl
  finish := by
    show (if d.shownFinish.truthy then (c.stamp d.shownFinish).map some else .ok none) = .ok (if d.hasEnd then d.finish else none)
    cases ends : d.hasEnd with
    | false => simp [shownFinish, ends, Datum.truthy]
    | true =>
      obtain ⟨e, found⟩ := Option.isSome_iff_exists.mp (settled.hasEnd ends)
      have shown : d.shownFinish = .text e.text := by rw [shownFinish, ends, found]
      rw [shown, if_pos (truthy_text (settled.finish e found)), stamp_text (settled.finish e found), if_pos rfl, found]
      rfl
  every := by
    have positive := settled.every_pos
    have given : (Datum.int d.every).truthy = true := decide_eq_true (by omega)
    refine ⟨d.every, ?_, (Int.max_eq_right positive).symm⟩
    show (if (Datum.int d.every).truthy then (.ok d.every : Except Fault Int) else .ok 1) = _
    rw [if_pos given]
  pattern := choiceOf_token (by cases d.pattern <;> rfl) (Pattern.ofToken?_token d.pattern)
  selectedDays := by
    show weekdaysOf (.list ((Weekday.sorted d.selectedDays).map fun day => .text day.token)) = .ok d.selectedDays
    rw [settled.selectedDays]
    exact weekdaysOf_tokens settled.selectedDays
  monthlyOption := choiceOf_token (by cases d.monthlyOption <;> rfl) (MonthlyOption.ofToken?_token d.monthlyOption)
  yearlyOption := choiceOf_token (by cases d.yearlyOption <;> rfl) (YearlyOption.ofToken?_token d.yearlyOption)
  hasEnd := by
    show d.hasEnd = (d.hasEnd && (if d.hasEnd then d.finish else none).isSome)
    cases ends : d.hasEnd with
    | false => rfl
    | true => exact (settled.hasEnd ends).symm
  rule := settled.rule.orNull.symm
  sentence := settled.sentence.orNull.symm

end Description

namespace Control

variable {k : Control} {settings : Settings} {d : Description}

/-- The text of a settled recurrence is loaded as the recurrence, whatever the locale. -/
theorem load_json (settled : d.IsSettled) (short : d.every.natAbs < 10 ^ maxDigits) (paired : d.toDatum.isPaired = true)
    (c : Setting) : load c (.text d.toDatum.json) = .ok (some d.echoed) := by
  have read : Json.read d.toDatum.json = .ok (.object d.members) := Json.read_json (settled.isJson short) paired
  have own : isRuleOnly d.members = false := Bool.and_false _
  rw [load_eq_some]
  exact ⟨d.members, read, by rw [own]; exact settled.isIn c⟩

theorem outputs_eq (present : k.recurrence = some d) : k.outputs =
    ⟨d.toDatum.json, k.isVisible, if d.sentence.truthy then d.sentence else .text []⟩ := by
  rw [outputs, present]

/-- An end that is not in use does not show. -/
theorem outputs_echoed (present : k.recurrence = some d.echoed) : k.outputs =
    ⟨d.toDatum.json, k.isVisible, if d.sentence.truthy then d.sentence else .text []⟩ := by
  rw [outputs_eq present, d.toDatum_echoed]
  rfl

/-- What a host reads from a control that has a recurrence can be handed in again. The control keeps what the host reads,
    and a new control takes over the text and the sentence, whatever the settings and the locales. No text in the
    recurrence has two halves of a pair beside one another, which are written as the one character that they make; and
    the interval is not too long to be written. -/
theorem outputs_echo (reached : Reached settings k) (present : k.recurrence = some d) (short : d.every.natAbs < 10 ^ maxDigits)
    (paired : d.toDatum.isPaired = true) :
    (∀ c locale, ∃ k', k.updateView c (.text k.outputs.recurrenceData) (.bool k.isVisible) locale = (k', .ok ()) ∧
      k'.outputs = k.outputs) ∧
    ∀ settings c isVisible locale, ∃ k',
      (ofSettings settings).init c (.text k.outputs.recurrenceData) isVisible locale = (k', .ok ()) ∧
        k'.outputs.recurrenceData = k.outputs.recurrenceData ∧
        k'.outputs.recurrenceDescription = k.outputs.recurrenceDescription := by
  have loaded := load_json (reached.isSettled.recurrence d present) short paired
  rw [outputs_eq present]
  constructor
  · intro c locale
    obtain ⟨kept, updated, -, taken⟩ := updateView_of_load (loaded ((k.receive (.bool k.isVisible) locale).setting c))
    obtain ⟨d', rfl, rfl | ⟨same, -⟩⟩ := taken d.echoed rfl
    · exact ⟨_, updated, outputs_echoed rfl⟩
    · exact ⟨_, updated, outputs_eq (same.symm.trans present)⟩
  · intro settings c isVisible locale
    have own := outputs_echoed (k := { (ofSettings settings).receive isVisible locale with recurrence := some d.echoed }) rfl
    exact ⟨_, init_of_load (loaded _), by rw [own], by rw [own]⟩

open Description (newYear2025)

theorem isPaired_germanControl : germanControl.recurrence.map (fun d => (d.every, d.toDatum.isPaired)) = some (2, true) := by
  decide +kernel

theorem outputs_echo_german : ∃ d, Reached {} germanControl ∧ germanControl.recurrence = some d ∧
    d.every.natAbs < 10 ^ maxDigits ∧ d.toDatum.isPaired = true ∧
    (∀ c locale, ∃ k', germanControl.updateView c (.text germanControl.outputs.recurrenceData) (.bool germanControl.isVisible)
      locale = (k', .ok ()) ∧ k'.outputs = germanControl.outputs) ∧
    ∃ k', (ofSettings {}).init newYear2025 (.text germanControl.outputs.recurrenceData) .null (.text "en-US") = (k', .ok ()) ∧
      k'.outputs.recurrenceData = germanControl.outputs.recurrenceData ∧
      k'.outputs.recurrenceDescription = germanControl.outputs.recurrenceDescription := by
  obtain ⟨d, present, fields⟩ := Option.map_eq_some_iff.mp isPaired_germanControl
  obtain ⟨every, paired⟩ := Prod.mk.inj fields
  have reached : Reached {} germanControl := .after (.init (.text fortnightlyData) (.bool true) (.text "de-DE".toList)) _ .new
  have short : d.every.natAbs < 10 ^ maxDigits := by
    rw [every]
    exact Nat.lt_of_lt_of_le (by decide) (Nat.le_self_pow (by decide) 10)
  obtain ⟨echo, taken⟩ := outputs_echo reached present short paired
  exact ⟨d, reached, present, short, paired, echo, taken {} newYear2025 .null (.text "en-US")⟩

/-- A recurrence whose rule has two members: the first is named by two halves of a pair, the first half being written as an
    escape, and the second by the character that they make. -/
def halvesData : Text :=
  "\x7b\"pattern\": \"day\", \"startDate\": \"2025-06-23\", \"rrule\": \x7b\"\\ud83d".toList ++ ofHalf 0xDE00 ::
    "\": 1, \"\\ud83d\\ude00\": 2\x7d\x7d".toList

/-- A control that has been given a recurrence with two halves of a pair beside one another. -/
def halvesControl : Control := ((ofSettings {}).init newYear2025 (.text halvesData) (.bool false) .null).1

/-- The two halves come back as the one character that they make, so the control takes another recurrence over. -/
theorem outputs_echo_halves : Reached {} halvesControl ∧
    (halvesControl.updateView newYear2025 (.text halvesControl.outputs.recurrenceData) (.bool halvesControl.isVisible)
      .null).1.outputs.recurrenceData ≠ halvesControl.outputs.recurrenceData := by
  refine ⟨.after (.init (.text halvesData) (.bool false) .null) _ .new, ?_⟩
  decide +kernel

end Control

end Cadence
