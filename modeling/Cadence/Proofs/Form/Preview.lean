import Cadence.Form
import Cadence.Proofs.Description.Failures
import Cadence.Proofs.Rule.Displayed

/-!
# What a form shows about a rule

The rule text that the fields of a description make can be shown: it has a sentence, a start can be put in front
of it, and its first occurrences can be looked for from any start. A start in a year before 1000 may be read as
another one or as none, but never makes looking for occurrences fail.
-/

namespace Cadence

namespace Description

variable {d : Description} {c : Setting} {body : Text} {p : Int}

/-- Looking for occurrences from another start fails only where a week runs over the end of the calendar. -/
theorem value_of_take_scheduleFrom (makes : d.MakesRule p) {finish : Option Stamp} {start : Stamp} {n : Nat} {f : Fault}
    (taken : (d.scheduleFrom p finish start).trace.take n = .error f) : f = .value := by
  have plain : (d.scheduleFrom p finish start).IsPlain :=
    Schedule.isPlain_ofImportable _ (Pattern.isTimed_rate d.pattern) start
  rcases Trace.take_eq_or (d.scheduleFrom p finish start).trace n with ⟨found, all⟩ | ⟨f', fault, failed⟩
  · rw [taken] at all
    cases all
  · rw [taken] at failed
    cases failed
    rw [Schedule.toList_trace_snd plain (counts_scheduleFrom makes finish start)] at fault
    split at fault
    · exact (Option.some.inj fault).symm
    · cases fault

/-! ### What is shown -/

/-- The text of a description's rule, with a start in front or without, is read to a rule with the same parts, which
    is evaluated from its own start or from the current day. -/
theorem exists_read (made : d.ruleText c = .ok body) : ∃ p finish, d.MakesRule p ∧
    ∀ r, (RuleText.read (.text body) = .ok r ∨ ∃ start, RuleText.read (.text (anchoredText start body)) = .ok r) →
      RuleText.SameParts r (d.fields.ruleOf p) ∧
        ∃ start, r.recurrence c.plain .null = .ok (.single (d.scheduleFrom p finish start)) := by
  obtain ⟨p, makes, rfl, recurrence, evaluated⟩ := ruleText_eq_ok.mp made
  have sound := isSound_fields makes
  have plain := RuleFields.arePlain_ruleOf sound
  have checked := RuleFields.check_ruleOf sound (length_of_recurrenceFrom makes evaluated)
  obtain ⟨finish, -, starting⟩ := recurrenceFrom_of_evaluated makes evaluated
  have starts (own : Option Stamp) (start : Stamp) (naive : start.zone = none)
      (anchored : RuleText.anchor { parts := (d.fields.ruleOf p).inOrder RuleKey.all, start := own } c.plain .null = .ok start) :
      RuleText.recurrence { parts := (d.fields.ruleOf p).inOrder RuleKey.all, start := own } c.plain .null =
        .ok (.single (d.scheduleFrom p finish start)) := by
    have same := RuleText.sameParts_inOrder (d.fields.ruleOf p) own
    rw [RuleText.recurrence, anchored, ← starting start fun _ => naive]
    show RuleText.recurrenceFrom _ c.today start = _
    rw [RuleText.recurrenceFrom, RuleText.recurrenceFrom, same.body_eq]
  refine ⟨p, finish, makes, ?_⟩
  rintro r (found | ⟨start, found⟩)
  · rw [RuleText.read_body plain checked] at found
    cases found
    exact ⟨RuleText.sameParts_inOrder _ none, _, starts none c.plain.dayStart rfl rfl⟩
  · obtain ⟨read, written⟩ := RuleText.moment_of_read_anchored plain.areKept checked found
    rw [RuleText.read_anchored_of_moment plain.areKept checked written] at found
    cases found
    exact ⟨RuleText.sameParts_inOrder _ _, read, starts (some read) read (RuleText.zone_of_moment written) rfl⟩

/-- A rule that the fields make is described by a sentence. -/
theorem exists_describe (made : d.ruleText c = .ok body) {format : LocaleFormat} (locale : c.format = .ok format) :
    ∃ sentence, describe c (.text body) = .ok sentence := by
  obtain ⟨p, makes, rfl, recurrence, evaluated⟩ := ruleText_eq_ok.mp made
  have sound := isSound_fields makes
  exact RuleText.exists_describe_body (RuleFields.arePlain_ruleOf sound)
    (RuleFields.check_ruleOf sound (length_of_recurrenceFrom makes evaluated)) (isReckonable_ruleOf sound)
    (RuleFields.isImportable_ruleOf _ p) locale

/-- Occurrences of a rule that the fields make are looked for without a failure, whatever start is put in front. -/
theorem exists_occurrences (made : d.ruleText c = .ok body) (start : Stamp) {limit : Datum} {number : Option Nat}
    (counts : limitOf limit = .ok number) :
    ∃ found, occurrences c (.text (anchoredText start body)) limit .null = .ok found := by
  obtain ⟨p, finish, makes, read⟩ := exists_read made
  -- What is looked for in the schedule is left open: nothing is, without a limit.
  have recovers (look : Recurrence → Result (List Stamp))
      (fails : ∀ start' e, look (.single (d.scheduleFrom p finish start')) = .error e → e.isValueOrRange = true) :
      ∃ found, (recurrenceOf c.plain (.text (anchoredText start body)) .null >>= look).recover Failure.isValueOrRange [] =
        .ok found := by
    refine exists_recover fun e failed => ?_
    rcases bind_eq_error.mp failed with failed | ⟨recurrence, evaluated, failed⟩
    · rcases bind_eq_error.mp failed with refused | ⟨r, found, failed⟩
      · exact Failure.isValueOrRange_of_isValue (RuleText.isValue_of_read refused)
      · obtain ⟨-, start', evaluated⟩ := read r (.inr ⟨start, found⟩)
        rw [evaluated] at failed
        cases failed
    · obtain ⟨r, found, evaluated'⟩ := bind_eq_ok.mp evaluated
      obtain ⟨-, start', same⟩ := read r (.inr ⟨start, found⟩)
      rw [same] at evaluated'
      cases evaluated'
      exact fails start' e failed
  unfold occurrences
  rw [counts]
  cases number with
  | none =>
    refine recovers _ fun start' e failed => ?_
    cases failed
    rfl
  | some n =>
    cases n with
    | zero => exact ⟨[], rfl⟩
    | succ n =>
      refine recovers _ fun start' e failed => ?_
      have failed : liftFault ((d.scheduleFrom p finish start').trace.take (n + 1)) = .error e := failed
      cases taken : (d.scheduleFrom p finish start').trace.take (n + 1) with
      | ok found =>
        rw [taken] at failed
        cases failed
      | error f =>
        rw [taken] at failed
        cases failed
        rw [value_of_take_scheduleFrom makes taken]
        rfl

end Description

end Cadence
