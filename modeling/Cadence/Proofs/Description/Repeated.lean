import Cadence.Proofs.Description.Kept
import Cadence.Proofs.Description.Settled
import Cadence.Proofs.Rule.Anchored

/-!
# Imports that are repeated

The text that goes with the fields of an imported rule, with their start put in front, is imported to the same fields
again. What is read has a start of its own, so that nothing is aligned a second time. The imported text, where it was kept,
is kept again from any start; a text that was built anew is built from the fields that are read back from it.
-/

namespace Cadence

variable {r r' q : RuleText} {d : Description} {c : Setting} {rule rule' fallback other : Datum} {pattern : Pattern}
  {anchor s : Stamp} {recurrence : Recurrence}

namespace RuleText

/-! ### What has the same parts -/

section Same
variable (same : SameParts r' r)
include same

theorem SameParts.unsupported_eq : r'.unsupported = r.unsupported := by
  unfold unsupported
  simp only [same.has_eq]

theorem SameParts.repetition_eq (pattern : Pattern) : r'.repetition pattern = r.repetition pattern := by
  unfold repetition
  rw [same.weekdays_eq, same.interval_eq]

theorem SameParts.sameConstraints_eq (other : RuleText) : r'.sameConstraints other = r.sameConstraints other := by
  unfold sameConstraints sortedIntegers weekdayKeys
  simp only [same.has_eq, same.integers_eq, same.weekdays_eq]

theorem SameParts.keptText_eq (c : Setting) (pattern : Pattern) (d : Description) :
    r'.keptText c pattern d = r.keptText c pattern d := by
  unfold keptText
  simp only [same.sameConstraints_eq, same.body_eq]

theorem SameParts.finishOf_eq_ok {finish : Option Stamp} (ends : r.finishOf rule s = .ok finish) (rule' : Datum) :
    r'.finishOf rule' s = .ok finish := by
  unfold finishOf at ends ⊢
  rw [same .until]
  split at ends
  · exact ends
  · split at ends
    · cases ends
    · exact ends

end Same

/-! ### Fields of a rule -/

/-- A rule has just the fields that it becomes. -/
theorem Becomes.description_eq (becomes : r.Becomes c rule fallback pattern anchor recurrence d) :
    r.description c rule fallback = .ok { d with sentence := .null } := by
  obtain ⟨text, ruleText, kept⟩ := becomes.text
  have fields : { r.repetition pattern with start := d.start, finish := d.finish, hasEnd := d.finish.isSome : Description } =
      { d with rule := .null, sentence := .null } := by
    rw [← becomes.repetition, ← becomes.hasEnd]
  have kept : r.keptText c pattern { d with rule := .null, sentence := .null } = .ok text := kept
  unfold description
  simp only [becomes.supported, becomes.frequency, becomes.anchored, becomes.evaluated, becomes.start, becomes.finish, fields, kept,
    List.isEmpty_nil, Bool.not_true, Bool.false_eq_true, if_false, bind, Except.bind, pure, Except.pure, ruleText]
  rw [← becomes.repetition, ← becomes.hasEnd]

/-- The fields of a rule come without a sentence. -/
theorem Becomes.sentence_eq (becomes : r.Becomes c rule fallback pattern anchor recurrence d)
    (made : r.description c rule fallback = .ok d) : { d with sentence := .null } = d :=
  Except.ok.inj (becomes.description_eq.symm.trans made)

/-- The start of the fields is a local time of whole seconds if the start that is given is one. -/
theorem Becomes.plain_start (becomes : r.Becomes c rule fallback pattern anchor recurrence d) (plain : ArePlain r.parts)
    (read : RuleText.read rule = .ok r) (whole : ∀ s, c.stamp fallback = .ok s → s.plain = s) : d.start.plain = d.start := by
  have anchored : anchor.plain = anchor := by
    have anchored := becomes.anchored
    unfold RuleText.anchor at anchored
    split at anchored
    · rename_i own
      cases anchored
      obtain ⟨value, written⟩ := exists_moment_of_read read _ own
      exact plain_of_moment written
    · cases anchored
      rfl
    · exact whole _ anchored
  rcases becomes.start_eq_or_mem with same | found
  · rw [same, anchored]
  · obtain ⟨spec, -, -, rfl⟩ := (becomes.isPatterned plain).recurrenceFrom_eq_ok.mp becomes.evaluated
    have long := Pattern.isTimed_rate pattern
    have found : d.start ∈ (Schedule.ofImportable spec pattern.rate anchor).trace.toList.1 := found
    rw [Schedule.toList_trace_fst (Schedule.isPlain_ofImportable spec long anchor)] at found
    obtain ⟨x, -, same⟩ := List.mem_map.mp found
    have same : (⟨x, anchor.clock.wholeSecond, anchor.zone⟩ : Stamp) = d.start := same
    have zone : anchor.zone = none := by
      rw [← anchored]
      rfl
    rw [← same, zone]
    rfl

/-- A plain rule with a start put in front is read back to its parts and the start. -/
theorem exists_read_anchored (plain : ArePlain q.parts) (checked : q.check = .ok ()) (whole : s.plain = s) (year : 1000 ≤ s.day.year)
    (c : Setting) : ∃ text q', anchorRuleText c (.text q.body) (.stamp s) = .ok text ∧ RuleText.read (.text text) = .ok q' ∧
      SameParts q' q ∧ q'.start = some s := by
  refine ⟨anchoredText s q.body, _, ?_, read_anchored plain.areKept checked year, sameParts_inOrder q _, congrArg some whole⟩
  rw [anchorRuleText, read_body plain checked]
  show Except.ok (anchoredText s _) = _
  rw [(sameParts_inOrder q none).body_eq]

theorem anchor_of_start (own : r.start = some s) (c : Setting) (fallback : Datum) : r.anchor c fallback = .ok s := by
  unfold anchor
  rw [own]

/-! ### Importing again -/

/-- A rule with the same parts and the start of the fields becomes the same fields. -/
theorem Becomes.again (becomes : r.Becomes c rule fallback pattern anchor recurrence d) (plain : ArePlain r.parts)
    (naive : d.start.zone = none) (same : SameParts r' r) (own : r'.start = some d.start) (rule' other : Datum) :
    ∃ recurrence', r'.Becomes c rule' other pattern d.start recurrence' d := by
  obtain ⟨spec, reads, -, -⟩ := (becomes.isPatterned plain).recurrenceFrom_eq_ok.mp becomes.evaluated
  have evaluated := (becomes.isPatterned plain).recurrenceFrom_eq_ok.mpr ⟨spec, reads, fun _ => naive, rfl⟩
  obtain ⟨text, ruleText, kept⟩ := becomes.text
  exact ⟨_, {
    supported := same.unsupported_eq.trans becomes.supported
    frequency := by
      rw [same.value_eq]
      exact becomes.frequency
    anchored := anchor_of_start own c other
    evaluated := (recurrenceFrom_of_body same.body_eq c.today d.start).trans evaluated
    start := if_neg fun moves => by
      rw [own] at moves
      cases moves.1
    finish := same.finishOf_eq_ok becomes.finish rule'
    repetition := becomes.repetition.trans (same.repetition_eq pattern).symm
    hasEnd := becomes.hasEnd
    text := ⟨text, ruleText, (same.keptText_eq c pattern d).trans kept⟩ }⟩

/-- The options of imported fields that their pattern does not use are at their defaults. -/
theorem options_repetition (r : RuleText) (pattern : Pattern) :
    ((r.repetition pattern).pattern ≠ .month → (r.repetition pattern).monthlyOption = .day) ∧
      ((r.repetition pattern).pattern ≠ .year → (r.repetition pattern).yearlyOption = .date) := by
  unfold repetition
  cases pattern with
  | day => exact ⟨fun _ => rfl, fun _ => rfl⟩
  | week =>
    dsimp only
    split <;> exact ⟨fun _ => rfl, fun _ => rfl⟩
  | month =>
    dsimp only
    split <;> exact ⟨fun other => absurd rfl other, fun _ => rfl⟩
  | year =>
    dsimp only
    split <;> exact ⟨fun _ => rfl, fun other => absurd rfl other⟩

/-- Imported fields are those that are read back from the rule that they make. -/
theorem Becomes.readBack_eq (becomes : r.Becomes c rule fallback pattern anchor recurrence d) :
    { d.readBack with rule := d.rule } = { d with sentence := .null } := by
  obtain ⟨sorted, rest⟩ := selectedDays_repetition r pattern
  obtain ⟨monthly, yearly⟩ := options_repetition r pattern
  rw [← becomes.repetition] at sorted rest monthly yearly
  have finish : d.lastSecond?.map (·.startOfDay) = d.finish := by
    rw [Description.lastSecond?, becomes.hasEnd]
    cases found : d.finish with
    | none => rfl
    | some e =>
      rw [finishOf_eq_ofDay (becomes.finish.trans (congrArg _ found))]
      rfl
  have selectedDays : (if d.pattern = .week then Weekday.sorted d.selectedDays else []) = d.selectedDays := by
    split
    · exact sorted
    · rename_i other
      exact (rest other).symm
  have monthlyOption : (if d.pattern = .month then d.monthlyOption else .day) = d.monthlyOption := by
    split
    · rfl
    · rename_i other
      exact (monthly other).symm
  have yearlyOption : (if d.pattern = .year then d.yearlyOption else .date) = d.yearlyOption := by
    split
    · rfl
    · rename_i other
      exact (yearly other).symm
  unfold Description.readBack
  rw [finish, selectedDays, monthlyOption, yearlyOption]

end RuleText

namespace Description

/-- Importing is idempotent: the rule text of an imported description, with the description's start in front, is imported
    to the same description, whatever other start is given. -/
theorem ofRule_anchored (read : RuleText.read rule = .ok r) (noBlank : ∀ part ∈ r.parts, Text.NoBlank part.2)
    (whole : ∀ s, c.stamp fallback = .ok s → s.plain = s) (made : Description.ofRule c rule fallback = .ok d)
    (year : 1000 ≤ d.start.day.year) (lastYear : ∀ e, d.finish = some e → 1000 ≤ e.day.year) (other : Datum) :
    ∃ text, anchorRuleText c d.rule (.stamp d.start) = .ok text ∧ Description.ofRule c (.text text) other = .ok d := by
  rw [Description.ofRule, read] at made
  obtain ⟨pattern, anchor, recurrence, becomes⟩ := RuleText.becomes_of_description made
  have checked := RuleText.check_of_read read
  have plain := (RuleText.areRead_of_read read).arePlain noBlank (RuleText.inOrder_ne_nil_of_check checked)
    (recurrenceFrom_eq_ok.mp becomes.evaluated)
  have begins := becomes.plain_start plain read whole
  have naive : d.start.zone = none := by
    rw [← begins]
    rfl
  have noSentence := becomes.sentence_eq made
  obtain ⟨text, ruleText, source⟩ := becomes.exists_text
  rcases source with rfl | ⟨built, -⟩
  · -- The imported text was kept.
    obtain ⟨text, r', anchored, read', same, own⟩ := RuleText.exists_read_anchored plain checked begins year c
    obtain ⟨recurrence', becomes'⟩ := becomes.again plain naive same own (.text text) other
    refine ⟨text, ruleText ▸ anchored, ?_⟩
    rw [Description.ofRule, read']
    exact becomes'.description_eq.trans (congrArg _ noSentence)
  · -- The text was built from the fields.
    obtain ⟨p, makes, rfl, recurrence', evaluated⟩ := ruleText_eq_ok.mp built
    have sound := isSound_fields makes
    have short := length_of_recurrenceFrom makes evaluated
    obtain ⟨text, r', anchored, read', same, own⟩ := RuleText.exists_read_anchored (RuleFields.arePlain_ruleOf sound)
      (RuleFields.check_ruleOf sound short) begins year c
    have loc : d.IsLocal := {
      zone := naive
      whole := by
        rw [← begins]
        rfl
      finish := fun e _ found => ⟨RuleText.naive_of_finishOf (becomes.finish.trans (congrArg _ found)), lastYear e found⟩ }
    refine ⟨text, ruleText ▸ anchored, ?_⟩
    rw [Description.ofRule, read']
    show r'.description c (.text text) other = _
    rw [description_of_anchor makes loc short same (RuleText.anchor_of_start own c other) (.text text), ← ruleText,
      becomes.readBack_eq, noSentence]

/-- All days of every week, up to the morning of the last day of 2025. -/
def allDays : Text := "FREQ=WEEKLY;BYDAY=MO,TU,WE,TH,FR,SA,SU;UNTIL=20251231T080000".toList

/-- A quarter past nine on the third of January 2025. -/
def afterNine : Stamp := ⟨⟨2025, 1, 3, by decide⟩, ⟨9, 15, 0, 0, by decide⟩, none⟩

theorem ofRule_allDays : (ofRule newYear2025 (.text allDays) (.stamp afterNine)).toOption.map (fun d => (d.start, d.pattern, d.finish)) =
    some (afterNine, .day, some (.ofDay ⟨2025, 12, 30, by decide⟩)) := by
  decide +kernel

/-- The end comes before the time of day of the start, so the last day is the one before. -/
theorem ofRule_anchored_allDays : ∃ r d text, RuleText.read (.text allDays) = .ok r ∧ (∀ part ∈ r.parts, Text.NoBlank part.2) ∧
    (∀ s, newYear2025.stamp (.stamp afterNine) = .ok s → s.plain = s) ∧ ofRule newYear2025 (.text allDays) (.stamp afterNine) = .ok d ∧
    1000 ≤ d.start.day.year ∧ (∀ e, d.finish = some e → 1000 ≤ e.day.year) ∧ d.pattern = .day ∧
    anchorRuleText newYear2025 d.rule (.stamp d.start) = .ok text ∧ ofRule newYear2025 (.text text) .null = .ok d := by
  obtain ⟨r, read, noBlank⟩ : ∃ r, RuleText.read (.text allDays) = .ok r ∧ ∀ part ∈ r.parts, Text.NoBlank part.2 :=
    ⟨_, rfl, by decide⟩
  have whole : ∀ s, newYear2025.stamp (.stamp afterNine) = .ok s → s.plain = s := fun s same => by
    cases same
    rfl
  obtain ⟨d, made, fields⟩ := Option.map_eq_some_iff.mp ofRule_allDays
  obtain ⟨start, fields⟩ := Prod.mk.inj fields
  obtain ⟨pattern, finish⟩ := Prod.mk.inj fields
  have year : 1000 ≤ d.start.day.year := by
    rw [start]
    decide
  have lastYear : ∀ e, d.finish = some e → 1000 ≤ e.day.year := fun e found => by
    cases finish.symm.trans found
    decide
  obtain ⟨text, anchored, again⟩ := ofRule_anchored read noBlank whole (toOption_eq_some made) year lastYear .null
  exact ⟨r, d, text, read, noBlank, whole, toOption_eq_some made, year, lastYear, pattern, anchored, again⟩

end Description

end Cadence
