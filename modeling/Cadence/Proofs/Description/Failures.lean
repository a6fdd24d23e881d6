import Cadence.Proofs.Description.Rebuilt
import Cadence.Proofs.Rule.Aligned
import Cadence.Proofs.Rule.Faults
import Cadence.Proofs.Rule.Written

/-!
# Failures of rules and fields

Fields that make no rule are refused as such, and so is a rule text that is no rule or that fields cannot express, as
long as nothing comes near the ends of the calendar and no number is larger than those that can be reckoned with.
-/

namespace Cadence

open Text

namespace Description

variable {d : Description} {c : Setting} {e : Failure}

/-- The fields keep clear of the ends of the calendar: the end is before the last day, a weekday's position is asked of a
    day with a week after it, and the interval has no more digits than are read. -/
structure KeepsClear (d : Description) : Prop where
  finish : d.hasEnd = true → ∀ e, d.finish = some e → e.day.ordinal < Day.lastOrdinal
  position : d.fields.isPlaced = true → d.start.day.ordinal + 7 ≤ Day.lastOrdinal
  every : (Text.ofInt d.every).length ≤ maxDigits

theorem isBuild_of_lastMoment (clear : d.KeepsClear) (failed : d.draft.lastMoment c = .error e) : e.isBuild = true := by
  unfold Draft.lastMoment draft at failed
  cases ends : d.hasEnd with
  | false =>
    rw [ends] at failed
    cases failed
  | true =>
    simp only [ends, Datum.truthy, if_true] at failed
    cases fin : d.finish with
    | none =>
      rw [fin] at failed
      cases failed
      rfl
    | some finish =>
      rw [fin] at failed
      have stamp : Draft.dateOr c (.endUnresolved (.stamp finish)) (.stamp finish) = .ok finish := rfl
      simp only [Datum.ofStamp?, stamp, bind, Except.bind, Stamp.lastSecond_eq, if_pos (clear.finish ends finish fin)] at failed
      cases failed

theorem isBuild_of_resolve (clear : d.KeepsClear) (failed : d.draft.resolve c = .error e) : e.isBuild = true := by
  have start : Draft.dateOr c (.startUnresolved d.draft.start) d.draft.start = .ok d.start := rfl
  have pattern : d.draft.pattern? = some d.pattern := Pattern.ofToken?_token d.pattern
  unfold Draft.resolve at failed
  simp only [start, pattern] at failed
  rcases bind_eq_error.mp failed with failed | ⟨_, -, failed⟩
  · cases failed
  · cases interval : d.draft.intervalText? with
    | none =>
      rw [interval] at failed
      cases failed
      rfl
    | some text =>
      rw [interval] at failed
      rcases bind_eq_error.mp failed with failed | ⟨finish, -, failed⟩
      · exact isBuild_of_lastMoment clear failed
      · cases failed

theorem exists_position (clear : d.KeepsClear) : (∃ p, d.fields.position = .ok p) ∨
    d.fields.position = .error (.cannotBuild .allWeekdays) := by
  unfold RuleFields.position
  split
  · exact .inr rfl
  · split
    · rename_i placed
      obtain ⟨n, position⟩ := Day.exists_weekdayPosition? (clear.position placed)
      exact .inl ⟨n, by rw [fields_start, position]; rfl⟩
    · exact .inl ⟨0, rfl⟩

theorem areRead_ruleOf {f : RuleFields} {n : Nat} {p : Int} (sound : f.IsSound n p) : RuleText.AreRead (f.ruleOf p).parts where
  nodup := by
    have one : ∀ key value, ((RuleFields.optional key value).map (·.1)).Sublist [key] := by
      intro key value
      cases value with
      | none => exact List.nil_sublist _
      | some v => exact List.Sublist.refl _
    have keys : ((f.ruleOf p).parts.map (·.1)).Sublist
        ([RuleKey.freq, .interval] ++ [.until] ++ ([.byDay] ++ [.byMonthDay] ++ [.byMonth])) := by
      simp only [RuleFields.ruleOf, List.map_append]
      exact ((List.Sublist.refl _).append (one _ _)).append (((one _ _).append (one _ _)).append (one _ _))
    exact keys.nodup (by decide)
  nonempty part member := (RuleFields.arePlain_ruleOf sound part member).nonempty
  upper part member := (RuleFields.arePlain_ruleOf sound part member).upper
  semicolon part member := (RuleFields.arePlain_ruleOf sound part member).semicolon

/-- The dates of a rule that fields make can be reckoned with. -/
theorem isReckonable_ruleOf {f : RuleFields} {n : Nat} {p : Int} (sound : f.IsSound n p) : (f.ruleOf p).IsReckonable where
  noBlank part member := (RuleFields.arePlain_ruleOf sound part member).noBlank
  finish value got := by
    rw [RuleFields.get?_ruleOf] at got
    obtain ⟨last, -, rfl⟩ := Option.map_eq_some_iff.mp got
    exact FreeForm.short_text last

/-- Fields that keep clear of the ends make a rule text, or are refused for a stated reason. -/
theorem isBuild_of_ruleText (clear : d.KeepsClear) (failed : d.ruleText c = .error e) : e.isBuild = true := by
  unfold ruleText Draft.ruleText at failed
  rcases bind_eq_error.mp failed with failed | ⟨f, resolved, failed⟩
  · exact isBuild_of_resolve clear failed
  · obtain ⟨rfl, complete⟩ := resolve_draft.mp resolved
    unfold RuleFields.ruleText at failed
    rw [RuleFields.rule_eq] at failed
    rcases exists_position clear with ⟨p, position⟩ | refused
    · have makes : d.MakesRule p := ⟨complete, position⟩
      have sound := isSound_fields makes
      have short : (Text.ofNat d.every.toNat).length ≤ maxDigits := by
        rw [← sound.interval]
        exact clear.every
      have plain := RuleFields.arePlain_ruleOf sound
      rw [position] at failed
      rcases bind_eq_error.mp failed with failed | ⟨rule, same, failed⟩
      · cases failed
      · cases same
        cases evaluated : (d.fields.ruleOf p).recurrenceFrom c.today d.fields.start with
        | ok recurrence =>
          rw [evaluated] at failed
          cases failed
        | error flaw =>
          have refused : flaw.isRule = true :=
            RuleText.isRule_of_recurrenceFrom (areRead_ruleOf sound) (RuleFields.check_ruleOf sound short)
              (isReckonable_ruleOf sound) (RuleFields.isImportable_ruleOf _ p).hasWords evaluated
          rw [evaluated] at failed
          cases flaw <;> cases refused
          cases failed
          rfl
    · rw [refused] at failed
      cases failed
      rfl

end Description

/-! ### Fields from rules -/

namespace RuleText

variable {r : RuleText} {c : Setting} {rule fallback : Datum} {pattern : Pattern} {e : Failure}

/-- A rule, imported with a fallback for its start, keeps clear of the ends of the calendar: its end is neither on the first
    day nor on the last, positions in months are not far beyond a month, and where weekdays are named in months or years,
    the start and the first occurrences have a week after them. -/
structure KeepsClear (r : RuleText) (c : Setting) (fallback : Datum) (pattern : Pattern) : Prop where
  finish : ∀ value finish, r.get? .until = some value → moment value = .ok finish →
    1 < finish.day.ordinal ∧ finish.day.ordinal < Day.lastOrdinal
  positions : r.HasNearPositions pattern
  weekAfter : pattern = .month ∨ pattern = .year → r.weekdays ≠ [] → ∀ anchor recurrence, r.anchor c fallback = .ok anchor →
    r.recurrenceFrom c.today anchor = .ok recurrence →
    ∀ s, s = anchor ∨ s ∈ recurrence.trace.toList.1.take alignLimit → s.day.ordinal + 7 ≤ Day.lastOrdinal

theorem exists_lastDay {start finish : Stamp} (later : 1 < finish.day.ordinal) : ∃ last, lastDay start finish = .ok last := by
  unfold lastDay
  dsimp only
  split
  · obtain ⟨day, found⟩ := Day.exists_ofOrdinal? (n := finish.day.ordinal - 1) (by omega) (by
      have := finish.day.ordinal_le_last
      omega)
    have before : finish.startOfDay.day.addDays? (-1) = some day := Day.addDays?_eq_some.mpr (by
      have number := Day.ordinal_of_ofOrdinal? found
      show (day.ordinal : Int) = finish.day.ordinal + -1
      omega)
    exact ⟨{ finish.startOfDay with day }, by rw [Stamp.addDays?, before]; rfl⟩
  · exact ⟨_, rfl⟩

theorem isRule_of_finishOf {start : Stamp} (clear : r.KeepsClear c fallback pattern) (failed : r.finishOf rule start = .error e) :
    e.isRule = true := by
  unfold finishOf at failed
  split at failed
  · cases failed
  · rename_i value got
    split at failed
    · cases failed
      rfl
    · rename_i finish read
      obtain ⟨last, found⟩ : ∃ last, lastDay start finish = .ok last := exists_lastDay (clear.finish value finish got read).1
      rw [found] at failed
      cases failed

theorem positions_eq_nil (none : r.weekdays = []) : r.positions = [] := by rw [positions, none]; rfl

/-- A rule that has been read has an interval with no more digits than are read. -/
theorem length_interval (checked : r.check = .ok ()) : (Text.ofInt r.interval).length ≤ maxDigits := by
  have pos := one_le_interval (checks_of_check checked).1
  obtain ⟨n, interval⟩ := Int.eq_ofNat_of_zero_le (show 0 ≤ r.interval by omega)
  rw [interval]
  refine (Nat.length_toDigits_le_iff (by decide) (by decide)).mpr ?_
  unfold RuleText.interval at interval
  split at interval
  · obtain rfl : n = 1 := by omega
    exact Nat.one_lt_pow (by decide) (by decide)
  · rename_i value _
    cases read : readInt? value with
    | none =>
      rw [read] at interval
      obtain rfl : n = 1 := Int.ofNat_inj.mp interval.symm
      exact Nat.one_lt_pow (by decide) (by decide)
    | some m =>
      rw [read] at interval
      obtain rfl : m = n := interval
      simpa using natAbs_readInt?_lt read

theorem named_of_isPlaced {d : Description} (repetition : d.toRepetition = r.repetition pattern) (placed : d.fields.isPlaced = true) :
    (pattern = .month ∨ pattern = .year) ∧ r.weekdays ≠ [] := by
  have same : d.pattern = pattern := by
    have named := congrArg Repetition.pattern repetition
    unfold RuleText.repetition at named
    unfold RuleFields.isPlaced at placed
    rw [Description.fields_pattern] at placed
    cases pattern with
    | day => exact named
    | week =>
      dsimp only at named
      split at named <;> rw [named] at placed <;> cases placed
    | month | year =>
      dsimp only at named
      split at named <;> exact named
  obtain rfl := same
  exact (isPlaced_iff repetition).mp placed

section Imported
variable {anchor : Stamp} {recurrence : Recurrence} (checked : r.check = .ok ()) (clear : r.KeepsClear c fallback pattern)
  (patterned : r.IsPatterned pattern) (anchored : r.anchor c fallback = .ok anchor)
  (evaluated : r.recurrenceFrom c.today anchor = .ok recurrence)
include checked clear patterned anchored evaluated

/-- The start is the one that the rule is evaluated from, or one of the first occurrences. -/
theorem exists_alignedStart : ∃ start, r.alignedStart recurrence pattern anchor = .ok start ∧
    (start = anchor ∨ start ∈ recurrence.trace.toList.1.take alignLimit) := by
  unfold alignedStart
  split
  · rename_i aligns
    obtain ⟨spec, reads, -, rfl⟩ := patterned.recurrenceFrom_eq_ok.mp evaluated
    have longer : pattern = .month ∨ pattern = .year := aligns.2
    have noFault := toList_trace_snd_ofImportable reads checked clear.positions longer anchor
    have weekAfter : r.positions ≠ [] → ∀ s ∈ (Schedule.ofImportable spec pattern.rate anchor).trace.toList.1.take alignLimit,
        s.day.ordinal + 7 ≤ Day.lastOrdinal := fun named s member =>
      clear.weekAfter longer (fun none => named (positions_eq_nil none)) anchor _ anchored evaluated s (.inr member)
    obtain ⟨found, aligned⟩ : ∃ found, alignedIn r.positions none alignLimit _ = .ok found := exists_alignedIn noFault weekAfter
    refine ⟨found.getD anchor, congrArg (fun result => (liftFault result).map (·.getD anchor)) aligned, ?_⟩
    cases found with
    | none => exact .inl rfl
    | some s => exact .inr ((mem_of_alignedIn aligned).resolve_left nofun)
  · exact ⟨anchor, rfl, .inl rfl⟩

omit patterned in
theorem keepsClear_of_imported {d : Description} (repetition : d.toRepetition = r.repetition pattern)
    (start : d.start = anchor ∨ d.start ∈ recurrence.trace.toList.1.take alignLimit) (finish : r.finishOf rule d.start = .ok d.finish) :
    d.KeepsClear where
  finish _ e got := by
    rw [got] at finish
    unfold finishOf at finish
    split at finish
    · cases finish
    · rename_i value named
      split at finish
      · cases finish
      · rename_i last read
        obtain ⟨e', found, same⟩ := map_eq_ok.mp finish
        cases same
        have number := (lastDay_eq_ok found (zone_of_moment read)).2.2
        have inside := (clear.finish value last named read).2
        split at number <;> omega
  position placed := by
    have named := named_of_isPlaced repetition placed
    exact clear.weekAfter named.1 named.2 anchor recurrence anchored evaluated _ start
  every := by
    have every : d.every = r.interval := (congrArg Repetition.every repetition).trans (every_repetition r pattern)
    rw [every]
    exact length_interval checked

end Imported

/-- The text that goes with fields that keep clear of the ends is found. -/
theorem exists_keptText {d : Description} (clear : d.KeepsClear) : ∃ text, r.keptText c pattern d = .ok text := by
  unfold keptText
  cases made : d.ruleText c.plain with
  | error e => exact ⟨r.body, if_pos (Description.isBuild_of_ruleText clear made)⟩
  | ok rebuilt =>
    dsimp only
    split
    · obtain ⟨p, makes, rfl, recurrence, evaluated⟩ := Description.ruleText_eq_ok.mp made
      have sound := Description.isSound_fields makes
      have short := Description.length_of_recurrenceFrom makes evaluated
      rw [read_body (RuleFields.arePlain_ruleOf sound) (RuleFields.check_ruleOf sound short)]
      exact ⟨_, rfl⟩
    · exact ⟨rebuilt, rfl⟩

theorem isDate_of_anchor {format : LocaleFormat} (known : c.format = .ok format) (given : fallback.IsReckonable)
    (failed : r.anchor c fallback = .error e) : e.isDate = true := by
  unfold anchor at failed
  split at failed
  · cases failed
  · cases failed
  · unfold Setting.stamp at failed
    rw [known] at failed
    exact Datum.isDate_of_stampIn given failed

/-- A rule that keeps clear of the ends and can be reckoned with becomes fields, or is refused for a stated reason. -/
theorem isRule_of_description {format : LocaleFormat} (known : c.format = .ok format) (given : fallback.IsReckonable)
    (areRead : AreRead r.parts) (checked : r.check = .ok ()) (reckonable : r.IsReckonable)
    (clear : ∀ pattern, Pattern.ofFrequency? (r.value .freq) = some pattern → r.KeepsClear c fallback pattern)
    (failed : r.description c rule fallback = .error e) : e.isRule = true := by
  unfold description at failed
  cases supported : r.unsupported with
  | cons name names =>
    rw [supported] at failed
    cases failed
    rfl
  | nil =>
    rw [supported] at failed
    cases frequency : Pattern.ofFrequency? (r.value .freq) with
    | none =>
      rw [frequency] at failed
      cases failed
      rfl
    | some pattern =>
      rw [frequency] at failed
      have clear := clear pattern frequency
      have words := (isImportable_of_supported supported).hasWords
      cases anchored : r.anchor c fallback with
      | error flaw =>
        have date : flaw.isDate = true := isDate_of_anchor known given anchored
        simp only [anchored, date, if_true] at failed
        cases failed
        rfl
      | ok anchor =>
        rw [anchored] at failed
        rcases bind_eq_error.mp failed with failed | ⟨anchor', same, failed⟩
        · cases failed
        · cases same
          rcases bind_eq_error.mp failed with failed | ⟨recurrence, evaluated, failed⟩
          · exact isRule_of_recurrenceFrom areRead checked reckonable words failed
          · have plain := areRead.arePlain reckonable.noBlank (inOrder_ne_nil_of_check checked) (recurrenceFrom_eq_ok.mp evaluated)
            have patterned := isPatterned_of_supported supported frequency plain
            obtain ⟨start, aligned, among⟩ := exists_alignedStart checked clear patterned anchored evaluated
            rcases bind_eq_error.mp failed with failed | ⟨start', same, failed⟩
            · rw [aligned] at failed
              cases failed
            · obtain rfl : start = start' := Except.ok.inj (aligned.symm.trans same)
              rcases bind_eq_error.mp failed with failed | ⟨finish, ends, failed⟩
              · exact isRule_of_finishOf clear failed
              · obtain ⟨text, kept⟩ : ∃ text, r.keptText c pattern { r.repetition pattern with start, finish, hasEnd := finish.isSome } =
                    .ok text := exists_keptText (keepsClear_of_imported checked clear anchored evaluated rfl among ends)
                rcases bind_eq_error.mp failed with failed | ⟨_, -, failed⟩
                · rw [kept] at failed
                  cases failed
                · cases failed

end RuleText

/-! ### Operations -/

namespace Description

variable {c : Setting} {format : LocaleFormat} {rule : Text} {fallback : Datum}

theorem exists_ofRuleOrDaily {value : Datum} (known : c.format = .ok format) (given : fallback.IsReckonable)
    (refused : ∀ e, ofRule c value fallback = .error e → e.isRule = true) : ∃ d, ofRuleOrDaily c value fallback = .ok d := by
  unfold ofRuleOrDaily
  cases result : ofRule c value fallback with
  | ok d => exact ⟨d, rfl⟩
  | error e =>
    dsimp only
    rw [if_pos (refused e result)]
    split
    · exact ⟨_, rfl⟩
    · cases read : c.stamp fallback with
      | ok start => exact ⟨_, rfl⟩
      | error e =>
        have date : e.isDate = true := by
          unfold Setting.stamp at read
          rw [known] at read
          exact Datum.isDate_of_stampIn given read
        dsimp only
        rw [if_pos date]
        exact ⟨_, rfl⟩

theorem isRule_of_ofRule {e : Failure} (known : c.format = .ok format) (given : fallback.IsReckonable)
    (sound : ∀ r, RuleText.written rule = .ok r → r.IsCounted ∧ r.IsReckonable)
    (clear : ∀ r, RuleText.written rule = .ok r → ∀ pattern, Pattern.ofFrequency? (r.value .freq) = some pattern →
      r.KeepsClear c fallback pattern) (failed : ofRule c (.text rule) fallback = .error e) : e.isRule = true := by
  unfold ofRule at failed
  rcases bind_eq_error.mp failed with failed | ⟨r, read, failed⟩
  · exact RuleText.isRule_of_read (fun r wrote => (sound r wrote).1) failed
  · have wrote := RuleText.written_of_read read
    exact RuleText.isRule_of_description known given (RuleText.areRead_of_read read) (RuleText.check_of_read read)
      (sound r wrote).2 (clear r wrote) failed

end Description

theorem exists_validateRule {c : Setting} {rule : Text} (sound : ∀ r, RuleText.written rule = .ok r → r.IsCounted ∧ r.IsReckonable)
    (words : ∀ r, RuleText.written rule = .ok r → r.HasWords) : ∃ valid, validateRule c (.text rule) = .ok valid := by
  unfold validateRule
  cases result : recurrenceOf c.plain (.text rule) .null with
  | ok recurrence => exact ⟨true, rfl⟩
  | error e =>
    have refused : e.isRule = true := by
      unfold recurrenceOf at result
      rcases bind_eq_error.mp result with failed | ⟨r, read, failed⟩
      · exact RuleText.isRule_of_read (fun r wrote => (sound r wrote).1) failed
      · have wrote := RuleText.written_of_read read
        unfold RuleText.recurrence at failed
        rcases bind_eq_error.mp failed with failed | ⟨anchor, -, failed⟩
        · unfold RuleText.anchor at failed
          cases own : r.start <;> rw [own] at failed <;> cases failed
        · exact RuleText.isRule_of_recurrenceFrom (RuleText.areRead_of_read read) (RuleText.check_of_read read) (sound r wrote).2
            (words r wrote) failed
    exact ⟨false, by simp [refused]⟩

/-- Rules and fields fail for stated reasons. A rule text becomes fields or is refused as a rule, so that the daily recurrence in
    its place is always found; whether it can be used is always answered; and fields make a rule text or are refused
    as fields. The interval is counted in decimal digits, no number is larger than can be reckoned with, and what is turned into fields
    or built from them keeps clear of the ends of the calendar. -/
theorem fails_as_stated {c : Setting} {format : LocaleFormat} (known : c.format = .ok format) (rule : Text) (fallback : Datum)
    (given : fallback.IsReckonable) (sound : ∀ r, RuleText.written rule = .ok r → r.IsCounted ∧ r.IsReckonable) :
    ((∀ r, RuleText.written rule = .ok r → ∀ pattern, Pattern.ofFrequency? (r.value .freq) = some pattern →
        r.KeepsClear c fallback pattern) →
      (∀ e, Description.ofRule c (.text rule) fallback = .error e → e.isRule = true) ∧
      ∃ d, Description.ofRuleOrDaily c (.text rule) fallback = .ok d) ∧
    ((∀ r, RuleText.written rule = .ok r → r.HasWords) → ∃ valid, validateRule c (.text rule) = .ok valid) ∧
    ∀ d : Description, d.KeepsClear → ∀ e, d.ruleText c = .error e → e.isBuild = true := by
  refine ⟨fun clear => ?_, exists_validateRule sound, fun d clear e => Description.isBuild_of_ruleText clear⟩
  have refused : ∀ e, Description.ofRule c (.text rule) fallback = .error e → e.isRule = true := fun e =>
    Description.isRule_of_ofRule known given sound clear
  exact ⟨refused, Description.exists_ofRuleOrDaily known given refused⟩

section Example

/-- A rule of every other month, as it is written. -/
def otherMonths : RuleText where
  parts := [(.freq, "MONTHLY"), (.interval, "2"), (.byMonthDay, "15"), (.until, "20251231T235959")]

theorem fails_as_stated_otherMonths :
    let c : Setting := { today := .ofDay ⟨2025, 1, 1, by decide⟩ }
    RuleText.written "FREQ=MONTHLY;INTERVAL=2;BYMONTHDAY=15;UNTIL=20251231T235959" = .ok otherMonths ∧
    (∃ d, Description.ofRuleOrDaily c (.text "FREQ=MONTHLY;INTERVAL=2;BYMONTHDAY=15;UNTIL=20251231T235959")
      (.text "01/02/2025") = .ok d) ∧
    ∃ valid, validateRule c (.text "FREQ=MONTHLY;INTERVAL=2;BYMONTHDAY=15;UNTIL=20251231T235959") = .ok valid := by
  intro c
  have wrote : RuleText.written "FREQ=MONTHLY;INTERVAL=2;BYMONTHDAY=15;UNTIL=20251231T235959" = .ok otherMonths := rfl
  have only : ∀ r, RuleText.written "FREQ=MONTHLY;INTERVAL=2;BYMONTHDAY=15;UNTIL=20251231T235959" = .ok r → r = otherMonths :=
    fun r same => (Except.ok.inj (wrote.symm.trans same)).symm
  have given : (Datum.text "01/02/2025").IsReckonable := by
    rintro s ⟨⟩
    decide
  have sound : otherMonths.IsCounted ∧ otherMonths.IsReckonable := by
    refine ⟨?_, by decide, ?_⟩
    · rintro value ⟨⟩ -
      decide
    · rintro value ⟨⟩
      decide
  have words : otherMonths.HasWords := by
    unfold RuleText.HasWords
    decide
  have clear : ∀ pattern, otherMonths.KeepsClear c (.text "01/02/2025") pattern := by
    refine fun pattern => ⟨?_, ?_, fun _ named => absurd rfl named⟩
    · rintro value finish ⟨⟩ ⟨⟩
      decide
    · intro _ item member
      cases member
  have stated := fails_as_stated (c := c) rfl "FREQ=MONTHLY;INTERVAL=2;BYMONTHDAY=15;UNTIL=20251231T235959" (.text "01/02/2025") given
    fun r same => only r same ▸ sound
  exact ⟨wrote, (stated.1 fun r same pattern _ => only r same ▸ clear pattern).2, stated.2.1 fun r same => only r same ▸ words⟩

/-- A superscript in an interval is a digit and no number, and an end on the last day of the calendar has no day after it:
    neither is refused for a stated reason. -/
theorem fails_as_stated_unstated :
    let c : Setting := { today := .ofDay ⟨2025, 1, 1, by decide⟩ }
    validateRule c (.text "FREQ=DAILY;INTERVAL=²") = .error (.fault .value) ∧
    Description.ofRule c (.text "FREQ=DAILY;UNTIL=99991231") .null = .error (.fault .range) ∧
    ({ start := c.today, finish := some (.ofDay ⟨9999, 12, 31, by decide⟩), hasEnd := true } : Description).ruleText c =
      .error (.fault .range) :=
  ⟨rfl, rfl, rfl⟩

end Example

end Cadence
