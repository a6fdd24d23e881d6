import Cadence.Proofs.Description.Calendar
import Cadence.Proofs.Rule.Imported
import Cadence.Proofs.Rule.Evaluated
import Cadence.Rule.Import

/-!
# Descriptions of imported rules

A rule text that is imported becomes the fields of a description, together with a rule text that stands for
them: the one that the fields make, or the imported one where the fields cannot say the same.
-/

namespace Cadence

namespace RuleText

variable {r : RuleText} {c : Setting} {rule fallback : Datum} {pattern : Pattern} {anchor : Stamp}
  {recurrence : Recurrence} {d : Description}

/-- A rule becomes a description: where it is evaluated from, what it is evaluated as, and how the fields and
    the text are found. -/
structure Becomes (r : RuleText) (c : Setting) (rule fallback : Datum) (pattern : Pattern) (anchor : Stamp)
    (recurrence : Recurrence) (d : Description) : Prop where
  supported : r.unsupported = []
  frequency : Pattern.ofFrequency? (r.value .freq) = some pattern
  anchored : r.anchor c fallback = .ok anchor
  evaluated : r.recurrenceFrom c.today anchor = .ok recurrence
  start : r.alignedStart recurrence pattern anchor = .ok d.start
  finish : r.finishOf rule d.start = .ok d.finish
  repetition : d.toRepetition = r.repetition pattern
  hasEnd : d.hasEnd = d.finish.isSome
  text : ∃ text, d.rule = .text text ∧ r.keptText c pattern d = .ok text

theorem becomes_of_description (made : r.description c rule fallback = .ok d) :
    ∃ pattern anchor recurrence, r.Becomes c rule fallback pattern anchor recurrence d := by
  unfold description at made
  cases supported : r.unsupported with
  | cons name names =>
    rw [supported] at made
    cases made
  | nil =>
    rw [supported] at made
    cases frequency : Pattern.ofFrequency? (r.value .freq) with
    | none =>
      rw [frequency] at made
      cases made
    | some pattern =>
      rw [frequency] at made
      cases anchored : r.anchor c fallback with
      | error e =>
        rw [anchored] at made
        dsimp only at made
        cases date : e.isDate <;> rw [date] at made <;> cases made
      | ok anchor =>
        rw [anchored] at made
        obtain ⟨anchor', same, made⟩ := bind_eq_ok.mp made
        cases same
        obtain ⟨recurrence, evaluated, made⟩ := bind_eq_ok.mp made
        obtain ⟨start, aligned, made⟩ := bind_eq_ok.mp made
        obtain ⟨finish, ends, made⟩ := bind_eq_ok.mp made
        obtain ⟨text, kept, made⟩ := bind_eq_ok.mp made
        cases made
        exact ⟨pattern, anchor, recurrence, supported, frequency, anchored, evaluated, aligned, ends, rfl, rfl, text, rfl, kept⟩

/-! ### The start -/

/-- What a start is aligned to is a timestamp that the trace finds within the limit. -/
theorem mem_of_alignedIn {positions : List Int} {limit : Nat} {first : Option Stamp} {t : Trace} {s : Stamp}
    (aligned : alignedIn positions first limit t = .ok (some s)) : first = some s ∨ s ∈ t.toList.1.take limit := by
  induction limit generalizing first t with
  | zero => exact Or.inl (Except.ok.inj aligned)
  | succ limit ih =>
    cases t with
    | done => exact Or.inl (Except.ok.inj aligned)
    | failed f => cases aligned
    | item next rest =>
      rw [Trace.toList_item, List.take_succ_cons]
      unfold alignedIn at aligned
      split at aligned
      · cases aligned
        exact Or.inr List.mem_cons_self
      · split at aligned
        · cases aligned
        · split at aligned
          · cases aligned
            exact Or.inr List.mem_cons_self
          · rcases ih aligned with found | found
            · cases first with
              | none =>
                cases found
                exact Or.inr List.mem_cons_self
              | some s' => exact Or.inl found
            · exact Or.inr (List.mem_cons_of_mem next found)

/-- The start of the fields is that of the rule, or one of the rule's timestamps. -/
theorem Becomes.start_eq_or_mem (becomes : r.Becomes c rule fallback pattern anchor recurrence d) :
    d.start = anchor ∨ d.start ∈ recurrence.trace.toList.1 := by
  have start := becomes.start
  unfold alignedStart at start
  split at start
  · cases aligned : alignedIn r.positions none alignLimit recurrence.trace with
    | error f =>
      rw [aligned] at start
      cases start
    | ok found =>
      rw [aligned] at start
      cases found with
      | none => exact Or.inl (Except.ok.inj start).symm
      | some s =>
        obtain rfl : s = d.start := Except.ok.inj start
        exact Or.inr (List.mem_of_mem_take ((mem_of_alignedIn aligned).resolve_left nofun))
  · exact Or.inl (Except.ok.inj start).symm

/-! ### The interval and the end -/

theorem every_repetition (r : RuleText) (pattern : Pattern) : (r.repetition pattern).every = r.interval := by
  unfold repetition
  cases pattern with
  | day => rfl
  | week | month | year =>
    dsimp only
    split <;> rfl

/-- The last day of a rule is the day of its end, or the day before if the end comes before the time of day of the
    start. -/
theorem lastDay_eq_ok {start e last : Stamp} (found : lastDay start e = .ok last) (naive : e.zone = none) :
    last.zone = none ∧ last.clock = .midnight ∧
      (last.day.ordinal : Int) = e.day.ordinal - if e.clock.micros < start.clock.micros then 1 else 0 := by
  unfold lastDay at found
  dsimp only at found
  split at found
  · rename_i early
    unfold Stamp.addDays? at found
    cases previous : e.startOfDay.day.addDays? (-1) with
    | none =>
      rw [previous] at found
      cases found
    | some day =>
      rw [previous] at found
      cases found
      rw [if_pos (of_decide_eq_true early)]
      exact ⟨naive, rfl, Day.addDays?_eq_some.mp previous⟩
  · rename_i late
    cases found
    rw [if_neg fun early => late (decide_eq_true early)]
    exact ⟨naive, rfl, (Int.sub_zero _).symm⟩

/-- The end of a rule that becomes a description is read in the form of rule text. -/
theorem Becomes.exists_lastDay (becomes : r.Becomes c rule fallback pattern anchor recurrence d) {value : Text}
    (ends : r.get? .until = some value) :
    ∃ e last, moment value = .ok e ∧ d.finish = some last ∧ lastDay d.start e = .ok last := by
  have finish := becomes.finish
  rw [finishOf, ends] at finish
  dsimp only at finish
  cases read : moment value with
  | error flaw =>
    rw [read] at finish
    cases finish
  | ok e =>
    rw [read] at finish
    obtain ⟨last, found, same⟩ := map_eq_ok.mp finish
    exact ⟨e, last, rfl, same, found⟩

/-! ### The rule as it is evaluated -/

theorem isImportable_of_supported (supported : r.unsupported = []) : r.IsImportable := by
  intro key foreign
  have none := List.map_eq_nil_iff.mp supported
  have known : key ∈ RuleKey.byName := by cases key <;> decide
  have absent := List.filter_eq_nil_iff.mp none key known
  rw [foreign, Bool.not_false, Bool.and_true, has] at absent
  simpa using absent

/-- A plain rule without unsupported parts is one of the pattern that its frequency has. -/
theorem isPatterned_of_supported (supported : r.unsupported = []) (frequency : Pattern.ofFrequency? (r.value .freq) = some pattern)
    (plain : ArePlain r.parts) : r.IsPatterned pattern where
  plain := plain
  importable := isImportable_of_supported supported
  frequency := by
    have found := List.find?_some frequency
    have named : pattern.frequency = Text.upper (r.value .freq) := of_decide_eq_true found
    unfold value at named
    cases found : r.get? .freq with
    | none =>
      rw [found] at named
      cases pattern <;> cases named
    | some value =>
      rw [found, Option.getD_some, (plain _ (mem_of_get? found)).upper.upper_eq] at named
      rw [named]

/-- A plain rule that becomes a description is one of the description's first pattern. -/
theorem Becomes.isPatterned (becomes : r.Becomes c rule fallback pattern anchor recurrence d) (plain : ArePlain r.parts) :
    r.IsPatterned pattern := isPatterned_of_supported becomes.supported becomes.frequency plain

/-- The text that goes with the fields is the imported one, or the one that the fields make. That one has been compared
    if the fields have the pattern of the rule. -/
theorem Becomes.exists_text (becomes : r.Becomes c rule fallback pattern anchor recurrence d) :
    ∃ text, d.rule = .text text ∧ (text = r.body ∨ d.ruleText c = .ok text ∧
      (d.pattern = pattern → ∃ other, RuleText.read (.text text) = .ok other ∧ r.sameConstraints other = true)) := by
  obtain ⟨text, rule, kept⟩ := becomes.text
  refine ⟨text, rule, ?_⟩
  rw [keptText, Description.ruleText_congr (show c.plain.today = c.today from rfl)] at kept
  cases made : d.ruleText c with
  | error e =>
    rw [made] at kept
    dsimp only at kept
    split at kept
    · exact .inl (Except.ok.inj kept).symm
    · cases kept
  | ok rebuilt =>
    rw [made] at kept
    dsimp only at kept
    split at kept
    · obtain ⟨other, read, kept⟩ := bind_eq_ok.mp kept
      cases kept
      split
      · rename_i same
        exact .inr ⟨rfl, fun _ => ⟨other, read, same⟩⟩
      · exact .inl rfl
    · rename_i differs
      cases kept
      exact .inr ⟨rfl, fun same => absurd same differs⟩

end RuleText

/-! ### The rule of the fields -/

namespace Description

variable {d : Description} {p : Int} {today start : Stamp} {recurrence : Recurrence}

theorem isPatterned_ruleOf (makes : d.MakesRule p) : (d.fields.ruleOf p).IsPatterned d.pattern where
  plain := RuleFields.arePlain_ruleOf (isSound_fields makes)
  importable := RuleFields.isImportable_ruleOf d.fields p
  frequency := RuleFields.get?_ruleOf d.fields p .freq

/-- The schedule of a description's rule with some end, from some start on. -/
def scheduleFrom (d : Description) (p : Int) (finish : Option Stamp) (start : Stamp) : Schedule :=
  Schedule.ofImportable { d.fields.spec d.every.toNat p with finish } d.pattern.rate start

/-- A rule that is evaluated from one start is evaluated from every start that has no zone where the rule has an
    end. -/
theorem recurrenceFrom_of_evaluated (makes : d.MakesRule p)
    (evaluated : (d.fields.ruleOf p).recurrenceFrom today d.start = .ok recurrence) :
    ∃ finish, d.lastSecond?.map (fun e => RuleSpec.until? today (Compact.text e)) = finish.map some ∧
      ∀ start : Stamp, (finish.isSome = true → start.zone = none) →
        (d.fields.ruleOf p).recurrenceFrom today start = .ok (.single (d.scheduleFrom p finish start)) := by
  have patterned := isPatterned_ruleOf makes
  obtain ⟨spec, reads, -, -⟩ := patterned.recurrenceFrom_eq_ok.mp evaluated
  have written := reads.finish
  rw [RuleFields.get?_ruleOf, Option.map_map] at written
  refine ⟨spec.finish, written, fun start fits => patterned.recurrenceFrom_eq_ok.mpr ⟨spec, reads, fits, ?_⟩⟩
  rw [scheduleFrom, ← RuleFields.spec_eq_of_readFrom (isSound_fields makes) reads]

/-- Days are restricted as from the description's own start, as far as positions go. -/
theorem counts_scheduleFrom (makes : d.MakesRule p) (finish : Option Stamp) (start : Stamp) (x : Day) :
    (d.scheduleFrom p finish start).counts x = true := by
  have nth : (d.scheduleFrom p finish start).nthWeekdays = (d.schedule p).nthWeekdays := by
    show Schedule.placedWeekdays d.pattern.rate (Schedule.weekdaysOf _ d.pattern.rate start) =
      Schedule.placedWeekdays d.pattern.rate (Schedule.weekdaysOf _ d.pattern.rate d.start)
    unfold Schedule.weekdaysOf
    cases named : (d.fields.spec d.every.toNat p).weekdays with
    | some days => rfl
    | none =>
      by_cases week : d.pattern.rate = .weekly
      · have notYearly : d.pattern.rate ≠ .yearly := by simp [week]
        have notMonthly : d.pattern.rate ≠ .monthly := by simp [week]
        rw [Schedule.placedWeekdays_eq_nil notYearly notMonthly, Schedule.placedWeekdays_eq_nil notYearly notMonthly]
      · simp [week]
  have months : (d.scheduleFrom p finish start).months = (d.schedule p).months := by
    show Schedule.sortedSet (Schedule.monthsOf _ d.pattern.rate start) =
      Schedule.sortedSet (Schedule.monthsOf _ d.pattern.rate d.start)
    cases pattern : d.pattern <;> simp [Schedule.monthsOf, RuleFields.spec, pattern, Pattern.rate]
  have frequency : (d.scheduleFrom p finish start).frequency = (d.schedule p).frequency := rfl
  have same : (d.scheduleFrom p finish start).placesAt x = (d.schedule p).placesAt x := by
    unfold Schedule.placesAt RuleYear.nthPlaces RuleYear.spans
    rw [nth, months, frequency]
  rw [Schedule.counts, same]
  exact counts_schedule makes x

end Description

end Cadence
