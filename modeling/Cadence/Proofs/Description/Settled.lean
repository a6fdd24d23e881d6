import Cadence.Proofs.Description.Members
import Cadence.Proofs.Description.RoundTrip
import Cadence.Proofs.Json.Values
import Cadence.Proofs.Rule.Local
import Cadence.Rule.Describe

/-!
# Settled descriptions

A description that is read from the members of a JSON object, or from a rule text among them, is settled: its dates
are local times, it has an end where it is said to have one, its interval is positive, its weekdays are in order, and
its rule and its sentence are values of a JSON text, null where they do not count as given. So nothing about it is lost
when its object is read again.
-/

namespace Cadence

/-- A value of a JSON object in place of which nothing would be read. -/
structure Datum.IsGiven (x : Datum) : Prop where
  json : x.IsJson (Json.maxDepth - 1)
  orNull : x.orNull = x

theorem Datum.isGiven_orNull {x : Datum} (json : x.IsJson (Json.maxDepth - 1)) : x.orNull.IsGiven := by
  cases given : x.truthy with
  | true => exact ⟨by rwa [orNull, given], by rw [orNull, orNull, given, if_pos rfl, given, if_pos rfl]⟩
  | false =>
    have null : x.orNull = .null := by rw [orNull, given]; rfl
    exact ⟨null ▸ .null _, by rw [null]; rfl⟩

theorem Datum.isGiven_text {s : Text} (nonempty : s ≠ []) : (Datum.text s).IsGiven where
  json := .text _ s
  orNull := by simp [orNull, truthy, nonempty]

/-- The fields of a description that a host has given or a form has saved. -/
structure Description.IsSettled (d : Description) : Prop where
  start : d.start.zone = none
  finish : ∀ e, d.finish = some e → e.zone = none
  hasEnd : d.hasEnd = true → d.finish.isSome = true
  every_pos : 1 ≤ d.every
  selectedDays : Weekday.sorted d.selectedDays = d.selectedDays
  rule : d.rule.IsGiven
  sentence : d.sentence.IsGiven

/-! ### Sentences and rules -/

theorem Text.joinWith_cons_ne_nil {sep piece : Text} {more : List Text} (nonempty : piece ≠ []) :
    Text.joinWith sep (piece :: more) ≠ [] := by
  cases more with
  | nil => exact nonempty
  | cons next more => exact List.append_ne_nil_of_left_ne_nil (List.append_ne_nil_of_left_ne_nil nonempty _) _

theorem RuleText.intervalPhrase_ne_nil (r : RuleText) : r.intervalPhrase ≠ [] := by
  unfold intervalPhrase Phrase.interval
  split
  · split <;> exact List.cons_ne_nil _ _
  · exact List.cons_ne_nil _ _

/-- There always is something that a value is described by. -/
theorem describe_ne_nil {c : Setting} {rule : Datum} {sentence : Text} (described : describe c rule = .ok sentence) :
    sentence ≠ [] := by
  unfold describe at described
  split at described
  · cases described
    exact List.cons_ne_nil _ _
  · split at described
    · split at described
      · cases described
        exact List.cons_ne_nil _ _
      · unfold Result.recover at described
        split at described
        · rename_i made
          cases described
          obtain ⟨r, -, made⟩ := bind_eq_ok.mp made
          obtain ⟨recurrence, -, made⟩ := bind_eq_ok.mp made
          obtain ⟨count, -, made⟩ := bind_eq_ok.mp made
          obtain ⟨finish, -, made⟩ := bind_eq_ok.mp made
          cases made
          exact Text.joinWith_cons_ne_nil r.intervalPhrase_ne_nil
        · split at described <;> cases described
          exact List.cons_ne_nil _ _
    · cases described

theorem RuleText.body_ne_nil {r : RuleText} {frequency : Text} (named : r.get? .freq = some frequency) : r.body ≠ [] := by
  obtain ⟨rest, same⟩ := body_eq_freq named
  rw [same]
  exact List.cons_ne_nil _ _

/-- The rule text of a draft names its frequency. -/
theorem Draft.ruleText_ne_nil {d : Draft} {c : Setting} {text : Text} (made : d.ruleText c = .ok text) : text ≠ [] := by
  obtain ⟨f, -, made⟩ := bind_eq_ok.mp made
  obtain ⟨rule, built, made⟩ := bind_eq_ok.mp made
  have named : rule.get? .freq = some f.pattern.frequency := by
    rw [RuleFields.rule_eq] at built
    obtain ⟨p, -, rfl⟩ := map_eq_ok.mp built
    exact RuleFields.get?_ruleOf f p .freq
  split at made <;> cases made
  exact RuleText.body_ne_nil named

theorem RuleText.Becomes.every_pos {r : RuleText} {c : Setting} {rule fallback : Datum} {pattern : Pattern} {anchor : Stamp}
    {recurrence : Recurrence} {d : Description} (becomes : r.Becomes c rule fallback pattern anchor recurrence d)
    (checked : r.check = .ok ()) : 1 ≤ d.every := by
  have every : d.every = r.interval := (congrArg Repetition.every becomes.repetition).trans (every_repetition r pattern)
  exact every.symm ▸ one_le_interval (checks_of_check checked).1

namespace Description

variable {c : Setting} {d : Description}

/-! ### Members -/

theorem sorted_of_weekdaysOf {value : Datum} {days : List Weekday} (read : weekdaysOf value = .ok days) :
    Weekday.sorted days = days := by
  unfold weekdaysOf at read
  split at read
  · obtain ⟨items, -, read⟩ := bind_eq_ok.mp read
    obtain ⟨listed, -, read⟩ := bind_eq_ok.mp read
    cases read
    exact sorted_sorted listed
  · cases read
    rfl

/-- What the members of a JSON object stand for is settled. -/
theorem isSettled_of_ofMembers {members : List (Text × Datum)} (json : ∀ m ∈ members, m.2.IsJson (Json.maxDepth - 1))
    (read : ofMembers c members = .ok d) : d.IsSettled := by
  have value (name : Text) : (Datum.lookup name members).IsJson (Json.maxDepth - 1) := Datum.IsJson.lookup json name
  have stands := ofMembers_eq_ok.mp read
  obtain ⟨every, -, positive⟩ := stands.every
  refine ⟨?_, ?_, ?_, ?_, sorted_of_weekdaysOf stands.selectedDays, ?_, ?_⟩
  · have started := stands.start
    unfold startIn at started
    dsimp only at started
    split at started
    · exact Datum.zone_of_stampIn (fun s same => absurd same ((value _).ne_stamp s)) started
    · rw [← Except.ok.inj started]
      rfl
  · intro e found
    have ended := stands.finish
    unfold finishIn at ended
    dsimp only at ended
    split at ended
    · obtain ⟨s, read, same⟩ := map_eq_ok.mp ended
      rw [found] at same
      cases same
      exact Datum.zone_of_stampIn (fun s same => absurd same ((value _).ne_stamp s)) read
    · rw [found] at ended
      cases ended
  · intro ends
    rw [stands.hasEnd] at ends
    exact (Bool.and_eq_true_iff.mp ends).2
  · rw [positive]
    exact Int.le_max_left 1 every
  · rw [stands.rule]
    exact Datum.isGiven_orNull (value _)
  · rw [stands.sentence]
    exact Datum.isGiven_orNull (value _)

/-! ### Rule texts -/

/-- What a rule text stands for is settled, with a sentence for it, if the start that is given is a local time. -/
theorem isSettled_of_ofRule {rule fallback : Datum} (unzoned : ∀ s, fallback ≠ .stamp s) {sentence : Datum}
    (given : sentence.IsGiven) (read : ofRule c rule fallback = .ok d) : { d with sentence }.IsSettled := by
  obtain ⟨start, finish⟩ := naive_of_ofRule (fun s same => absurd same (unzoned s)) read
  obtain ⟨r, written, made⟩ := bind_eq_ok.mp read
  obtain ⟨pattern, anchor, recurrence, becomes⟩ := RuleText.becomes_of_description made
  have checked := RuleText.check_of_read written
  have repetition := becomes.repetition
  refine ⟨start, finish, ?_, ?_, ?_, ?_, given⟩
  · intro ends
    rw [← becomes.hasEnd]
    exact ends
  · exact becomes.every_pos checked
  · show Weekday.sorted d.selectedDays = d.selectedDays
    rw [repetition]
    exact (RuleText.selectedDays_repetition r pattern).1
  · obtain ⟨text, rule, kept⟩ := becomes.exists_text
    show d.rule.IsGiven
    rw [rule]
    rcases kept with rfl | ⟨made, -⟩
    · obtain ⟨frequency, named⟩ := RuleText.has_of_check checked
      exact Datum.isGiven_text (RuleText.body_ne_nil named)
    · exact Datum.isGiven_text (Draft.ruleText_ne_nil made)

theorem isSettled_daily {start : Stamp} (naive : start.zone = none) {sentence : Datum} (given : sentence.IsGiven) :
    { daily start with sentence }.IsSettled where
  start := naive
  finish _ found := nomatch found
  hasEnd ends := nomatch ends
  every_pos := Int.le_refl 1
  selectedDays := rfl
  rule := ⟨.null _, rfl⟩
  sentence := given

/-- What stands in place of a rule text is settled as well. -/
theorem isSettled_of_ofRuleOrDaily {rule fallback : Datum} (unzoned : ∀ s, fallback ≠ .stamp s) {sentence : Datum}
    (given : sentence.IsGiven) (read : ofRuleOrDaily c rule fallback = .ok d) : { d with sentence }.IsSettled := by
  unfold ofRuleOrDaily at read
  split at read
  · rename_i found
    cases read
    exact isSettled_of_ofRule unzoned given found
  · split at read
    · split at read
      · cases read
        exact isSettled_daily rfl given
      · split at read
        · rename_i read'
          cases read
          exact isSettled_daily (Datum.zone_of_stampIn (fun s same => absurd same (unzoned s)) read') given
        · split at read <;> cases read
          exact isSettled_daily rfl given
    · cases read

end Description

end Cadence
