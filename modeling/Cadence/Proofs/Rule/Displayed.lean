import Cadence.Document.Event
import Cadence.Rule.Describe
import Cadence.Proofs.DateText.Numbers
import Cadence.Proofs.Rule.Steady
import Cadence.Proofs.Rule.Written

/-!
# What is displayed about a rule

Rules are described, queried and exported wherever a host shows them, with texts and dates of any kind. A description, a
query or a document is returned, with a fixed answer where the rule or a date cannot be used, as long as no number is
larger than can be reckoned with, nothing that the rule names is out of reach, and dates can be compared with each other.
-/

namespace Cadence

open Text (NoBlank IsShort)

variable {α : Type} {c : Setting} {format : LocaleFormat} {rule start value : Datum} {e : Failure}

/-- An operation returns, with a fallback where something cannot be used. -/
def Displays (result : Result α) (usable : Prop) (fallback : α) : Prop := ∃ answer, result = .ok answer ∧ (¬ usable → answer = fallback)

theorem Displays.returns {result : Result α} {usable : Prop} {fallback : α} (displays : Displays result usable fallback) :
    ∃ answer, result = .ok answer := displays.imp fun _ both => both.1

theorem displays_recover {result : Result α} {usable : Prop} {fallback : α} {recovers : Failure → Bool}
    (recovered : ∀ e, result = .error e → recovers e = true) (needs : ∀ a, result = .ok a → ¬ usable → a = fallback) :
    Displays (result.recover recovers fallback) usable fallback := by
  cases result with
  | ok a => exact ⟨a, rfl, needs a rfl⟩
  | error e => exact ⟨fallback, if_pos (recovered e rfl), fun _ => rfl⟩

namespace Setting

/-- A rule text can be evaluated from a start. -/
def Uses (c : Setting) (rule start : Datum) : Prop := ∃ recurrence, recurrenceOf c rule start = .ok recurrence

/-- A value is a date. -/
def Dates (c : Setting) (value : Datum) : Prop := ∃ s, c.stamp value = .ok s

theorem isValue_of_stamp (known : c.format = .ok format) (reckonable : value.IsReckonable) (failed : c.stamp value = .error e) :
    e.isValue = true := by
  unfold stamp at failed
  rw [known] at failed
  exact Failure.isValue_of_isDate (Datum.isDate_of_stampIn reckonable failed)

end Setting

namespace RuleText

variable {r : RuleText} {anchor : Stamp} {recurrence : Recurrence}

theorem isValue_of_anchor (known : c.format = .ok format) (reckonable : start.IsReckonable) (failed : r.anchor c start = .error e) :
    e.isValue = true := by
  unfold RuleText.anchor at failed
  split at failed
  · cases failed
  · cases failed
  · exact Setting.isValue_of_stamp known reckonable failed

/-! ### Sentences and documents -/

section Reckonable
variable (sound : ∀ r, RuleText.read rule = .ok r → r.IsReckonable ∧ r.HasWords)
include sound

theorem isValue_of_recurrence (known : c.format = .ok format) (reckonable : start.IsReckonable) (found : RuleText.read rule = .ok r)
    (failed : r.recurrence c start = .error e) : e.isValue = true := by
  obtain ⟨counted, words⟩ := sound r found
  rcases bind_eq_error.mp failed with failed | ⟨anchor, -, failed⟩
  · exact isValue_of_anchor known reckonable failed
  · exact Failure.isValue_of_isRule (isRule_of_recurrenceFrom (areRead_of_read found) (check_of_read found) counted words failed)

theorem isValue_of_describeRule (known : c.format = .ok format) (failed : describeRule c rule = .error e) : e.isValue = true := by
  rcases bind_eq_error.mp failed with refused | ⟨r, found, failed⟩
  · exact isValue_of_read refused
  · rcases bind_eq_error.mp failed with failed | ⟨_, -, failed⟩
    · exact isValue_of_recurrence (c := c.plain) sound rfl (fun _ same => by cases same) found failed
    · unfold sentence at failed
      rcases bind_eq_error.mp failed with failed | ⟨_, -, failed⟩
      · unfold countPhrase at failed
        split at failed
        · cases failed
        · split at failed <;> cases failed
          rfl
      · rcases bind_eq_error.mp failed with failed | ⟨_, -, failed⟩
        · unfold finishPhrase at failed
          rw [known] at failed
          split at failed
          · cases failed
          · split at failed <;> cases failed
            rfl
        · cases failed

/-- An event is made of a rule, or refused for a value that cannot be used, if its start can be moved to universal time. -/
theorem isValue_of_eventOf (reckonable : start.IsReckonable) {title identity product : Datum}
    (movable : ∀ r anchor, RuleText.read rule = .ok r → r.anchor c.plain start = .ok anchor → anchor.toUniversal?.isSome = true)
    (failed : eventOf c rule title start identity product = .error e) : e.isValue = true := by
  rcases bind_eq_error.mp failed with refused | ⟨r, found, failed⟩
  · exact isValue_of_read refused
  · rcases bind_eq_error.mp failed with failed | ⟨_, -, failed⟩
    · exact isValue_of_recurrence (c := c.plain) sound rfl reckonable found failed
    · rcases bind_eq_error.mp failed with failed | ⟨anchor, anchored, failed⟩
      · exact isValue_of_anchor (c := c.plain) rfl reckonable failed
      · obtain ⟨moved, universal⟩ := Option.isSome_iff_exists.mp (movable r anchor found anchored)
        rw [universal] at failed
        rcases bind_eq_error.mp failed with failed | ⟨_, -, failed⟩
        · cases failed
        · rcases bind_eq_error.mp failed with failed | ⟨_, -, failed⟩
          · unfold orFault at failed
            split at failed <;> cases failed
            rfl
          · cases failed

end Reckonable

end RuleText

/-- The message that stands for the sentence of a rule text, or of none. -/
def messageFor (rule : Option Text) : Text := if rule.all fun s => (Text.trim s).isEmpty then noRuleMessage else invalidRuleMessage

theorem displays_describe (known : c.format = .ok format) (rule : Option Text)
    (sound : ∀ r, RuleText.read (rule.elim .null .text) = .ok r → r.IsReckonable ∧ r.HasWords) :
    Displays (describe c (rule.elim .null .text)) (c.plain.Uses (rule.elim .null .text) .null) (messageFor rule) := by
  cases rule with
  | none => exact ⟨noRuleMessage, rfl, fun _ => rfl⟩
  | some s =>
    unfold messageFor describe
    simp only [Option.elim_some, Option.all_some, Datum.truthy, Bool.not_not]
    by_cases blank : (Text.trim s).isEmpty = true
    · rw [if_pos blank, if_pos blank, ite_self]
      exact ⟨noRuleMessage, rfl, fun _ => rfl⟩
    · have given : ¬ s.isEmpty = true := fun empty => blank (by rw [List.isEmpty_iff.mp empty]; rfl)
      rw [if_neg given, if_neg blank, if_neg blank]
      refine displays_recover (fun e => RuleText.isValue_of_describeRule sound known) fun sentence described unused => ?_
      obtain ⟨r, found, described⟩ := bind_eq_ok.mp described
      obtain ⟨recurrence, evaluated, -⟩ := bind_eq_ok.mp described
      exact absurd ⟨recurrence, bind_eq_ok.mpr ⟨r, found, evaluated⟩⟩ unused

/-- A rule that is written anew is described, if it can be reckoned with and fields could express it. -/
theorem RuleText.exists_describe_body {r : RuleText} (plain : ArePlain r.parts) (checked : r.check = .ok ()) (reckonable : r.IsReckonable)
    (importable : r.IsImportable) (known : c.format = .ok format) : ∃ sentence, describe c (.text r.body) = .ok sentence := by
  refine (displays_describe known (some r.body) fun other found => ?_).returns
  have found : RuleText.read (.text r.body) = .ok other := found
  rw [read_body plain checked] at found
  cases found
  exact ⟨reckonable.inOrder none, importable.hasWords.inOrder none⟩

theorem displays_exportDocument (reckonable : start.IsReckonable)
    (sound : ∀ r, RuleText.read rule = .ok r → r.IsReckonable ∧ r.HasWords)
    (movable : ∀ r anchor, RuleText.read rule = .ok r → r.anchor c.plain start = .ok anchor → anchor.toUniversal?.isSome = true)
    (title identity product : Datum) :
    Displays (exportDocument c rule title start identity product) (c.plain.Uses rule start) [] := by
  refine displays_recover (fun e failed => ?_) fun text written unused => ?_
  · rcases bind_eq_error.mp failed with failed | ⟨event, -, failed⟩
    · exact Failure.isValueOrKind_of_isValue (RuleText.isValue_of_eventOf sound reckonable movable failed)
    · unfold orFault at failed
      split at failed <;> cases failed
      rfl
  · obtain ⟨event, made, -⟩ := bind_eq_ok.mp written
    obtain ⟨r, found, made⟩ := bind_eq_ok.mp made
    obtain ⟨recurrence, evaluated, -⟩ := bind_eq_ok.mp made
    exact absurd ⟨recurrence, bind_eq_ok.mpr ⟨r, found, evaluated⟩⟩ unused

/-! ### Queries -/

namespace RuleText

variable {r : RuleText} {anchor : Stamp} {recurrence : Recurrence}

/-- A rule whose occurrences can be looked for: its values have no blanks, the date of its end can be reckoned with, the hours,
    minutes or seconds of its periods are on the clock, and positions in months are not far beyond a month. -/
structure IsListable (r : RuleText) : Prop where
  noBlank : ∀ part ∈ r.parts, NoBlank part.2
  finish : ∀ value, r.get? .until = some value → ∀ token ∈ DateToken.tokens value, IsShort 28 token
  onClock : r.IsOnClock
  positions : ∀ pattern, Pattern.ofFrequency? (r.value .freq) = some pattern → r.HasNearPositions pattern

section Listable
variable (listable : ∀ r, RuleText.read rule = .ok r → r.IsListable)
include listable

theorem recovers_of_recurrenceOf (known : c.format = .ok format) (reckonable : start.IsReckonable)
    (failed : recurrenceOf c rule start = .error e) : e.isValueOrRange = true := by
  rcases bind_eq_error.mp failed with refused | ⟨r, found, failed⟩
  · exact Failure.isValueOrRange_of_isValue (isValue_of_read refused)
  · have listable := listable r found
    rcases bind_eq_error.mp failed with failed | ⟨anchor, -, failed⟩
    · exact Failure.isValueOrRange_of_isValue (isValue_of_anchor known reckonable failed)
    · rcases stated_or_fault_of_recurrenceFrom (areRead_of_read found) (check_of_read found) listable.noBlank failed with
        stated | ⟨f, rfl, ⟨value, got, failed⟩ | ⟨spec, -, made⟩⟩
      · exact Failure.isValueOrRange_of_isValue (Failure.isValue_of_isRule stated)
      · rw [range_of_finishOf (listable.finish value got) failed]
        rfl
      · obtain ⟨_, _, _, -, -, -, failed⟩ := Schedule.exists_times_of_fault made
        rw [Schedule.range_of_timesOf failed]
        rfl

/-- The occurrences of a rule that is evaluated are in the zone of its start, and the queries recover from what looking
    for them runs into. -/
theorem recovers_trace (evaluated : recurrenceOf c rule start = .ok recurrence) : recurrence.trace.Recovers ∧
    ∃ r anchor, RuleText.read rule = .ok r ∧ r.anchor c start = .ok anchor ∧ ∀ x ∈ recurrence.trace.toList.1, x.zone = anchor.zone := by
  obtain ⟨r, found, evaluated⟩ := bind_eq_ok.mp evaluated
  obtain ⟨anchor, anchored, evaluated⟩ := bind_eq_ok.mp evaluated
  have listable := listable r found
  obtain ⟨spec, s, rfl, said, made⟩ := exists_schedule found listable.noBlank evaluated
  have steady := isSteady_of_made said (check_of_read found) made listable.onClock listable.positions
  refine ⟨steady.recovers_trace, r, anchor, found, anchored, fun x member => ?_⟩
  have zone := (Schedule.pairwise_periods (Schedule.isOrdered_of made)).2 x (s.sublist_periods.subset member)
  rw [zone, (keeps_of_said said (check_of_read found) made).start]
  rfl

end Listable

end RuleText

/-- A value that can be asked about: as a date it can be reckoned with, and it has a zone or none as it should. -/
structure Datum.IsAskable (value : Datum) (c : Setting) (zoned : Bool) : Prop where
  reckonable : value.IsReckonable
  zone : ∀ s, c.stamp value = .ok s → s.zone.isSome = zoned

theorem exists_limitOf (limit : Int) : ∃ number, limitOf (.int limit) = .ok number := by
  unfold limitOf
  dsimp only
  split
  · exact ⟨_, rfl⟩
  · split <;> exact ⟨_, rfl⟩

section Queries
variable (listable : ∀ r, RuleText.read rule = .ok r → r.IsListable) (known : c.format = .ok format) (reckonable : start.IsReckonable)
include listable known reckonable

/-- What is looked for in a rule is found, or something else stands for it. -/
theorem displays_looked {look : Recurrence → Result α} {usable : Prop} {fallback : α}
    (recovers : ∀ recurrence, recurrenceOf c rule start = .ok recurrence → ∀ e, look recurrence = .error e → e.isValueOrRange = true)
    (needs : ∀ recurrence, recurrenceOf c rule start = .ok recurrence → ∀ a, look recurrence = .ok a → ¬ usable → a = fallback) :
    Displays ((recurrenceOf c rule start >>= look).recover Failure.isValueOrRange fallback) usable fallback := by
  refine displays_recover (fun e failed => ?_) fun a found => ?_
  · rcases bind_eq_error.mp failed with failed | ⟨recurrence, evaluated, failed⟩
    · exact RuleText.recovers_of_recurrenceOf listable known reckonable failed
    · exact recovers recurrence evaluated e failed
  · obtain ⟨recurrence, evaluated, found⟩ := bind_eq_ok.mp found
    exact needs recurrence evaluated a found

omit known in
theorem displays_occurrences (limit : Int) : Displays (occurrences c rule (.int limit) start) (c.plain.Uses rule start) [] := by
  obtain ⟨number, counts⟩ := exists_limitOf limit
  have looked {look : Recurrence → Result (List Stamp)}
      (recovers : ∀ recurrence, recurrenceOf c.plain rule start = .ok recurrence → ∀ e, look recurrence = .error e → e.isValueOrRange = true) :
      Displays ((recurrenceOf c.plain rule start >>= look).recover Failure.isValueOrRange []) (c.plain.Uses rule start) [] :=
    displays_looked (c := c.plain) listable rfl reckonable recovers fun recurrence evaluated _ _ unused => absurd ⟨recurrence, evaluated⟩ unused
  unfold occurrences
  rw [counts]
  cases number with
  | none =>
    refine looked fun recurrence evaluated e failed => ?_
    cases failed
    rfl
  | some n =>
    cases n with
    | zero => exact ⟨[], rfl, fun _ => rfl⟩
    | succ n =>
      refine looked fun recurrence evaluated e failed => ?_
      obtain ⟨f, taken, rfl⟩ := liftFault_eq_error.mp failed
      exact (RuleText.recovers_trace listable evaluated).1 f (Trace.fault_of_take taken)

variable {zoned : Bool} (starts : ∀ r anchor, RuleText.read rule = .ok r → r.anchor c start = .ok anchor → anchor.zone.isSome = zoned)
  {recurrence : Recurrence} {x t : Stamp} (evaluated : recurrenceOf c rule start = .ok recurrence)

omit known reckonable in
include starts evaluated in
theorem comparable_of_mem (zone : t.zone.isSome = zoned) : ∀ x ∈ recurrence.trace.toList.1, x.comparable t = true := by
  obtain ⟨-, r, anchor, found, anchored, zones⟩ := RuleText.recovers_trace listable evaluated
  intro x member
  rw [Stamp.comparable, zones x member, starts r anchor found anchored, zone]
  exact decide_eq_true rfl

include starts in
theorem displays_occurrencesBetween {low high : Datum} (lower : low.IsAskable c zoned) (upper : high.IsAskable c zoned) :
    Displays (occurrencesBetween c rule low high start) (c.Dates low ∧ c.Dates high ∧ c.Uses rule start) [] := by
  refine displays_recover (fun e failed => ?_) fun found listed unused => ?_
  · rcases bind_eq_error.mp failed with failed | ⟨s, readLow, failed⟩
    · exact Failure.isValueOrRange_of_isValue (Setting.isValue_of_stamp known lower.reckonable failed)
    · rcases bind_eq_error.mp failed with failed | ⟨t, readHigh, failed⟩
      · exact Failure.isValueOrRange_of_isValue (Setting.isValue_of_stamp known upper.reckonable failed)
      · have ordered : orderedBefore t s = .ok (t.before s) := by
          rw [orderedBefore, Stamp.comparable, lower.zone s readLow, upper.zone t readHigh, if_pos (decide_eq_true rfl)]
        rw [ordered] at failed
        rcases bind_eq_error.mp failed with failed | ⟨reversed, -, failed⟩
        · cases failed
        · split at failed
          · cases failed
          · rcases bind_eq_error.mp failed with failed | ⟨recurrence, evaluated, failed⟩
            · exact RuleText.recovers_of_recurrenceOf listable known reckonable failed
            · obtain ⟨f, looked, rfl⟩ := liftFault_eq_error.mp failed
              exact (RuleText.recovers_trace listable evaluated).1 f (Trace.fault_of_between
                (comparable_of_mem listable starts evaluated (lower.zone s readLow))
                (comparable_of_mem listable starts evaluated (upper.zone t readHigh)) looked)
  · obtain ⟨s, readLow, listed⟩ := bind_eq_ok.mp listed
    obtain ⟨t, readHigh, listed⟩ := bind_eq_ok.mp listed
    obtain ⟨reversed, -, listed⟩ := bind_eq_ok.mp listed
    split at listed
    · cases listed
      rfl
    · obtain ⟨recurrence, evaluated, -⟩ := bind_eq_ok.mp listed
      exact absurd ⟨⟨s, readLow⟩, ⟨t, readHigh⟩, recurrence, evaluated⟩ unused

include starts in
theorem displays_nextOccurrence {date : Datum} (askable : date.IsAskable c zoned) :
    Displays (nextOccurrence c rule date start) (c.Dates date ∧ c.Uses rule start) none := by
  refine displays_looked listable known reckonable (fun recurrence evaluated e failed => ?_) fun recurrence evaluated a found unused => ?_
  · rcases bind_eq_error.mp failed with failed | ⟨t, read, failed⟩
    · exact Failure.isValueOrRange_of_isValue (Setting.isValue_of_stamp known askable.reckonable failed)
    · obtain ⟨f, looked, rfl⟩ := liftFault_eq_error.mp failed
      exact (RuleText.recovers_trace listable evaluated).1 f
        (Trace.fault_of_after (comparable_of_mem listable starts evaluated (askable.zone t read)) looked)
  · obtain ⟨t, read, -⟩ := bind_eq_ok.mp found
    exact absurd ⟨⟨t, read⟩, recurrence, evaluated⟩ unused

include starts in
theorem displays_occursOn {day : Datum} (askable : day.IsAskable c zoned)
    (inside : ∀ s, c.stamp day = .ok s → s.day.ordinal < Day.lastOrdinal) :
    Displays (occursOn c rule day start) (c.Dates day ∧ c.Uses rule start) false := by
  have recovers : ∀ e, firstFrom c rule day start = .error e → e.isValueOrRange = true := by
    intro e failed
    rcases bind_eq_error.mp failed with failed | ⟨s, read, failed⟩
    · exact Failure.isValueOrRange_of_isValue (Setting.isValue_of_stamp known askable.reckonable failed)
    · rcases bind_eq_error.mp failed with failed | ⟨recurrence, evaluated, failed⟩
      · exact RuleText.recovers_of_recurrenceOf listable known reckonable failed
      · rcases bind_eq_error.mp failed with failed | ⟨hit, -, failed⟩
        · obtain ⟨f, looked, rfl⟩ := liftFault_eq_error.mp failed
          have zone : s.startOfDay.zone.isSome = zoned := askable.zone s read
          exact (RuleText.recovers_trace listable evaluated).1 f
            (Trace.fault_of_after (comparable_of_mem listable starts evaluated zone) looked)
        · cases failed
  unfold occursOn
  cases first : firstFrom c rule day start with
  | error e => exact ⟨false, if_pos (recovers e first), fun _ => rfl⟩
  | ok found =>
    obtain ⟨s, read, looked⟩ := bind_eq_ok.mp first
    obtain ⟨recurrence, evaluated, looked⟩ := bind_eq_ok.mp looked
    obtain ⟨hit, -, same⟩ := bind_eq_ok.mp looked
    cases same
    cases hit with
    | none => exact ⟨false, rfl, fun _ => rfl⟩
    | some hit =>
      dsimp only
      rw [Stamp.dayEnd_eq, if_pos (inside s read)]
      exact ⟨_, rfl, fun unused => absurd ⟨⟨s, read⟩, recurrence, evaluated⟩ unused⟩

end Queries

/-! ### All of them -/

/-- What is displayed about a rule is returned. A description and a document are, if the rule can be reckoned with and the start
    of the document be moved to universal time. The queries are answered if the occurrences of the rule can be looked for
    and the dates are like its start, all with a zone or all without one; a day that is asked about is not the last one.
    Where the rule or a date cannot be used, a message or nothing stands for the answer. -/
theorem display_returns {tag : Option Text} (locale : c.format = LocaleFormat.ofDatum (tag.elim .null .text)) (text : Option Text)
    {rule : Datum} (given : rule = text.elim .null .text) (reckonable : start.IsReckonable) :
    ((∀ r, RuleText.read rule = .ok r → r.IsReckonable ∧ r.HasWords) →
      Displays (describe c rule) (c.plain.Uses rule .null) (messageFor text) ∧
      ((∀ r anchor, RuleText.read rule = .ok r → r.anchor c.plain start = .ok anchor → anchor.toUniversal?.isSome = true) →
        ∀ title identity product, Displays (exportDocument c rule title start identity product) (c.plain.Uses rule start) [])) ∧
    ((∀ r, RuleText.read rule = .ok r → r.IsListable) →
      (∀ limit : Int, Displays (occurrences c rule (.int limit) start) (c.plain.Uses rule start) []) ∧
      ∀ zoned, (∀ r anchor, RuleText.read rule = .ok r → r.anchor c start = .ok anchor → anchor.zone.isSome = zoned) →
        (∀ low high : Datum, low.IsAskable c zoned → high.IsAskable c zoned →
          Displays (occurrencesBetween c rule low high start) (c.Dates low ∧ c.Dates high ∧ c.Uses rule start) []) ∧
        (∀ day : Datum, day.IsAskable c zoned → (∀ s, c.stamp day = .ok s → s.day.ordinal < Day.lastOrdinal) →
          Displays (occursOn c rule day start) (c.Dates day ∧ c.Uses rule start) false) ∧
        ∀ date : Datum, date.IsAskable c zoned →
          Displays (nextOccurrence c rule date start) (c.Dates date ∧ c.Uses rule start) none) := by
  obtain ⟨format, known, -⟩ := LocaleFormat.ofDatum_eq_ok tag
  have known : c.format = .ok format := locale.trans known
  subst given
  refine ⟨fun sound => ⟨displays_describe known text sound, displays_exportDocument reckonable sound⟩, fun listable =>
    ⟨displays_occurrences listable reckonable, fun zoned starts => ⟨fun low high => ?_, fun day => ?_, fun date => ?_⟩⟩⟩
  · exact displays_occurrencesBetween listable known reckonable starts
  · exact displays_occursOn listable known reckonable starts
  · exact displays_nextOccurrence listable known reckonable starts

section Example

/-- Nine o'clock and five o'clock, for some days. -/
def officeHours : RuleText where
  parts := [(.freq, "HOURLY"), (.byHour, "9,17"), (.until, "20250110")]

theorem display_returns_officeHours :
    RuleText.read (.text "FREQ=HOURLY;BYHOUR=9,17;UNTIL=20250110".toList) = .ok officeHours ∧ officeHours.IsReckonable ∧
    officeHours.HasWords ∧ officeHours.IsListable ∧
    (∃ sentence, describe firstOf2025 (.text "FREQ=HOURLY;BYHOUR=9,17;UNTIL=20250110".toList) = .ok sentence) ∧
    (∃ found, occurrences firstOf2025 (.text "FREQ=HOURLY;BYHOUR=9,17;UNTIL=20250110".toList) (.int 5) .null = .ok found) ∧
    ∃ next, nextOccurrence firstOf2025 (.text "FREQ=HOURLY;BYHOUR=9,17;UNTIL=20250110".toList) (.text "2025-01-02".toList) .null =
      .ok next := by
  have read : RuleText.read (.text "FREQ=HOURLY;BYHOUR=9,17;UNTIL=20250110".toList) = .ok officeHours := rfl
  have only : ∀ r, RuleText.read (.text "FREQ=HOURLY;BYHOUR=9,17;UNTIL=20250110".toList) = .ok r → r = officeHours :=
    fun r same => (Except.ok.inj (read.symm.trans same)).symm
  have ends : ∀ value, officeHours.get? .until = some value → value = "20250110".toList := by
    rintro value ⟨⟩
    rfl
  have noBlank : ∀ part ∈ officeHours.parts, NoBlank part.2 := by decide
  have reckonable : officeHours.IsReckonable := ⟨noBlank, fun value got => by
    rw [ends value got]
    decide⟩
  have words : officeHours.HasWords := by
    unfold RuleText.HasWords
    decide
  have listable : officeHours.IsListable := {
    noBlank
    finish := fun value got token member => ((reckonable.finish value got) token member).1.mono (by decide)
    onClock := by
      rintro frequency key size named part
      cases (show some (some Frequency.hourly) = some (some frequency) from named)
      cases part
      decide
    positions := by
      intro pattern named
      cases (show none = some pattern from named) }
  have day : (Datum.text "2025-01-02".toList).IsReckonable := by
    rintro s ⟨⟩
    decide
  have locale : firstOf2025.format = LocaleFormat.ofDatum ((none : Option Text).elim .null .text) := rfl
  have start : Datum.null.IsReckonable := fun _ same => by cases same
  have returned := display_returns locale (some "FREQ=HOURLY;BYHOUR=9,17;UNTIL=20250110".toList) rfl start
  have listed := returned.2 fun r same => only r same ▸ listable
  have dated := listed.2 false fun r anchor same anchored => by
    cases only r same
    cases anchored
    rfl
  exact ⟨read, reckonable, words, listable, (returned.1 fun r same => only r same ▸ ⟨reckonable, words⟩).1.returns,
    (listed.1 5).returns, (dated.2.2 (.text "2025-01-02".toList) ⟨day, by rintro s ⟨⟩; rfl⟩).returns⟩

/-- The fault that an operation raises. -/
def faultOf (result : Result α) : Option Fault :=
  match result with
  | .error (.fault f) => some f
  | _ => none

theorem eq_fault_of_faultOf {result : Result α} {f : Fault} (raises : faultOf result = some f) : result = .error (.fault f) := by
  unfold faultOf at raises
  split at raises
  · cases raises
    rfl
  · cases raises

/-- The first day of 2025, two hours ahead of universal time. -/
def aheadOf2025 : Stamp := { firstOf2025.dayStart with zone := some 120 }

/-- Faults are raised for an hour that is not on the clock, a position far beyond a month, a time with a zone about a rule
    without one, an occurrence on the last day of the calendar, and an hour beyond a machine word. -/
theorem display_raises :
    occurrences firstOf2025 (.text "FREQ=HOURLY;BYHOUR=25".toList) (.int 1) .null = .error (.fault .kind) ∧
    occurrences firstOf2025 (.text "FREQ=MONTHLY;BYDAY=53MO".toList) (.int 1) .null = .error (.fault .index) ∧
    nextOccurrence firstOf2025 (.text "FREQ=DAILY".toList) (.stamp aheadOf2025) .null = .error (.fault .kind) ∧
    occursOn firstOf2025 (.text "FREQ=YEARLY;INTERVAL=7974;BYMONTH=12;BYMONTHDAY=31".toList) (.text "9999-12-31".toList) .null =
      .error (.fault .range) ∧
    describe firstOf2025 (.text "FREQ=DAILY;BYHOUR=99999999999".toList) = .error (.fault .range) :=
  ⟨eq_fault_of_faultOf (by decide +kernel), eq_fault_of_faultOf (by decide +kernel), eq_fault_of_faultOf (by decide +kernel),
    eq_fault_of_faultOf (by decide +kernel), eq_fault_of_faultOf (by decide +kernel)⟩

end Example

end Cadence
