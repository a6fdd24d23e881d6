import Cadence.Proofs.Calendar.Order
import Cadence.Proofs.Rule.Admitted
import Cadence.Proofs.Rule.Built

/-!
# The rule of a description

What a description must be like for its fields to make a rule, the text of that rule, and the schedule that
the text stands for.
-/

namespace Cadence

namespace Description

variable {d : Description} {c : Setting} {body : Text} {p : Int}

/-- The last second of a recurrence that has an end. -/
def lastSecond? (d : Description) : Option Stamp := if d.hasEnd then d.finish.map (·.dayClose) else none

/-- The fields from which the rule of a description is made. -/
def fields (d : Description) : RuleFields where
  start := d.start
  pattern := d.pattern
  interval := Text.ofInt d.every
  selectedDays := d.selectedDays
  monthlyOption := d.monthlyOption
  yearlyOption := d.yearlyOption
  finish := d.lastSecond?

@[simp] theorem fields_start (d : Description) : d.fields.start = d.start := rfl

@[simp] theorem fields_pattern (d : Description) : d.fields.pattern = d.pattern := rfl

@[simp] theorem fields_selectedDays (d : Description) : d.fields.selectedDays = d.selectedDays := rfl

@[simp] theorem fields_monthlyOption (d : Description) : d.fields.monthlyOption = d.monthlyOption := rfl

@[simp] theorem fields_yearlyOption (d : Description) : d.fields.yearlyOption = d.yearlyOption := rfl

@[simp] theorem fields_finish (d : Description) : d.fields.finish = d.lastSecond? := rfl

/-- The fields of a description can be worked out: its interval is positive, and its end, if it has one, is not
    on the last day of the calendar. -/
structure IsComplete (d : Description) : Prop where
  every_pos : 1 ≤ d.every
  finish : d.hasEnd = true → ∃ e, d.finish = some e ∧ e.day.ordinal < Day.lastOrdinal

/-- A description makes a rule, which may name the start's weekday at a position. -/
structure MakesRule (d : Description) (p : Int) : Prop extends d.IsComplete where
  position : d.fields.position = .ok p

theorem lastMoment_draft {last : Option Stamp} : d.draft.lastMoment c = .ok last ↔
    last = d.lastSecond? ∧ (d.hasEnd = true → ∃ e, d.finish = some e ∧ e.day.ordinal < Day.lastOrdinal) := by
  unfold lastSecond? Draft.lastMoment draft
  cases ends : d.hasEnd with
  | false => simp [Datum.truthy, eq_comm]
  | true =>
    cases fin : d.finish with
    | none => simp [Draft.dateOr, Datum.ofStamp?, Setting.stamp, Datum.stampIn, Failure.isDate, Datum.truthy, bind, Except.bind]
    | some e =>
      have stamp : c.stamp (.stamp e) = .ok e := rfl
      simp only [Draft.dateOr, Datum.ofStamp?, stamp, Datum.truthy, if_true, bind, Except.bind, Stamp.lastSecond_eq]
      by_cases inside : e.day.ordinal < Day.lastOrdinal <;> simp [inside, pure, Except.pure, eq_comm]

theorem resolve_draft {f : RuleFields} : d.draft.resolve c = .ok f ↔ f = d.fields ∧ d.IsComplete := by
  have start : Draft.dateOr c (.startUnresolved d.draft.start) d.draft.start = .ok d.start := rfl
  have pattern : d.draft.pattern? = some d.pattern := Pattern.ofToken?_token d.pattern
  have monthly : d.draft.monthlyOption? = some d.monthlyOption := MonthlyOption.ofToken?_token d.monthlyOption
  have yearly : d.draft.yearlyOption? = some d.yearlyOption := YearlyOption.ofToken?_token d.yearlyOption
  have interval : d.draft.intervalText? = if 1 ≤ d.every then some (Text.ofInt d.every) else none := rfl
  simp only [Draft.resolve, start, pattern, interval, monthly, yearly, bind, Except.bind, pure, Except.pure]
  by_cases pos : 1 ≤ d.every
  · rw [if_pos pos]
    simp only
    constructor
    · intro got
      cases last : d.draft.lastMoment c with
      | error e => simp [last] at got
      | ok finish =>
        obtain ⟨rfl, ends⟩ := lastMoment_draft.mp last
        simp only [last, Except.ok.injEq] at got
        exact ⟨got.symm, pos, ends⟩
    · rintro ⟨rfl, complete⟩
      rw [lastMoment_draft.mpr ⟨rfl, complete.finish⟩]
      rfl
  · rw [if_neg pos]
    constructor
    · intro got
      cases got
    · rintro ⟨-, complete⟩
      exact absurd complete.every_pos pos

/-- The rule text of a description is that of its fields, and is evaluated before it is given out. -/
theorem ruleText_eq_ok : d.ruleText c = .ok body ↔
    ∃ p, d.MakesRule p ∧ body = (d.fields.ruleOf p).body ∧
      ∃ recurrence, (d.fields.ruleOf p).recurrenceFrom c.today d.start = .ok recurrence := by
  unfold ruleText Draft.ruleText
  rw [bind_eq_ok]
  simp only [resolve_draft, RuleFields.ruleText, RuleFields.rule_eq]
  constructor
  · rintro ⟨f, ⟨rfl, complete⟩, made⟩
    obtain ⟨rule, built, made⟩ := bind_eq_ok.mp made
    cases position : d.fields.position with
    | error e => simp [position, Except.map] at built
    | ok p =>
      simp only [position, Except.map, Except.ok.injEq] at built
      subst built
      refine ⟨p, ⟨complete, position⟩, ?_⟩
      rw [fields_start] at made
      cases evaluated : (d.fields.ruleOf p).recurrenceFrom c.today d.start with
      | error e =>
        rw [evaluated] at made
        cases e <;> cases made
      | ok recurrence =>
        rw [evaluated] at made
        exact ⟨(Except.ok.inj made).symm, recurrence, rfl⟩
  · rintro ⟨p, makes, rfl, recurrence, evaluated⟩
    refine ⟨d.fields, ⟨rfl, makes.toIsComplete⟩, ?_⟩
    rw [makes.position]
    simp only [Except.map, bind, Except.bind, fields_start, evaluated]
    rfl

/-- The rule text depends on the current time alone. -/
theorem ruleText_congr {c' : Setting} (same : c.today = c'.today) : d.ruleText c = d.ruleText c' := by
  have resolve : d.draft.resolve c = d.draft.resolve c' := by
    unfold Draft.resolve Draft.lastMoment draft
    cases d.finish <;> rfl
  unfold ruleText Draft.ruleText
  rw [resolve, same]

theorem MakesRule.placed (makes : d.MakesRule p) (placed : d.fields.isPlaced = true) :
    d.start.day.weekdayPosition? = some p := (RuleFields.position_eq_ok makes.position).1 placed

theorem MakesRule.week (makes : d.MakesRule p) (week : d.pattern = .week) :
    (Weekday.sorted d.selectedDays).length ≠ 7 := (RuleFields.position_eq_ok makes.position).2 week

/-! ### The schedule -/

/-- The start is a local time of whole seconds, and so is the end, in a year of four digits. -/
structure IsLocal (d : Description) : Prop where
  zone : d.start.zone = none
  whole : d.start.clock.micro = 0
  finish : ∀ e, d.hasEnd = true → d.finish = some e → e.zone = none ∧ 1000 ≤ e.day.year

/-- The schedule that the rule of a description stands for. -/
def schedule (d : Description) (p : Int) : Schedule :=
  Schedule.ofImportable (d.fields.spec d.every.toNat p) d.pattern.rate d.start

theorem isSound_fields (makes : d.MakesRule p) : d.fields.IsSound d.every.toNat p where
  interval := by
    obtain ⟨n, every⟩ := Int.eq_ofNat_of_zero_le (Int.le_of_lt makes.every_pos)
    simp only [fields, every]
    rfl
  pos := by
    have pos := makes.every_pos
    omega
  placed := makes.placed

/-- The end of the fields is on the day of the description's end. -/
theorem year_fields (year : ∀ e, d.hasEnd = true → d.finish = some e → 1000 ≤ e.day.year) :
    ∀ e, d.fields.finish = some e → 1000 ≤ e.day.year := by
  intro last got
  simp only [fields, lastSecond?] at got
  split at got
  · rename_i ends
    obtain ⟨e, found, rfl⟩ := Option.map_eq_some_iff.mp got
    exact year e ends found
  · cases got

/-- The end of a local description has a year of four digits. -/
theorem IsLocal.year (loc : d.IsLocal) : ∀ e, d.fields.finish = some e → 1000 ≤ e.day.year :=
  year_fields fun e ends found => (loc.finish e ends found).2

theorem inOrder_ruleOf_ne_nil (f : RuleFields) (p : Int) : (f.ruleOf p).inOrder RuleKey.all ≠ [] :=
  List.ne_nil_of_mem (a := (.freq, f.pattern.frequency))
    (RuleText.mem_inOrder.mpr ⟨RuleKey.mem_all .freq, RuleFields.get?_ruleOf f p .freq⟩)

section Made
variable (makes : d.MakesRule p)
include makes

/-- The rule of a description is evaluated as its schedule if its start has no zone, its end has a year of four digits
    and its interval is not too long. -/
theorem recurrenceFrom_ruleOf (naive : d.start.zone = none) (year : ∀ e, d.fields.finish = some e → 1000 ≤ e.day.year)
    (today : Stamp) (short : (Text.ofNat d.every.toNat).length ≤ Text.maxDigits) :
    (d.fields.ruleOf p).recurrenceFrom today d.start = .ok (.single (d.schedule p)) := by
  have sound := isSound_fields makes
  have reads := RuleFields.readFrom_ruleOf sound today short year
  have parts := (RuleSpec.ofParts_eq_ok (RuleFields.isImportable_ruleOf d.fields p)).mpr reads
  have of : Schedule.of (d.fields.spec d.every.toNat p) d.start = .ok (d.schedule p) :=
    Schedule.of_importable reads.toIsImportable rfl (Pattern.isTimed_rate d.pattern) fun _ => naive
  rw [RuleText.recurrenceFrom, Recurrence.read_line (RuleFields.arePlain_ruleOf sound) (inOrder_ruleOf_ne_nil _ _), parts]
  simp only [Except.bind, of, Except.map]

/-- A rule that has been evaluated has an interval that is not too long. -/
theorem length_of_recurrenceFrom {today : Stamp} {recurrence : Recurrence}
    (evaluated : (d.fields.ruleOf p).recurrenceFrom today d.start = .ok recurrence) :
    (Text.ofNat d.every.toNat).length ≤ Text.maxDigits := by
  have sound := isSound_fields makes
  rw [RuleText.recurrenceFrom, Recurrence.read_line (RuleFields.arePlain_ruleOf sound) (inOrder_ruleOf_ne_nil _ _)]
    at evaluated
  cases parts : RuleSpec.ofParts today ((d.fields.ruleOf p).inOrder RuleKey.all) with
  | error e =>
    rw [parts] at evaluated
    cases e <;> cases evaluated
  | ok spec =>
    exact RuleFields.length_of_readFrom sound
      ((RuleSpec.ofParts_eq_ok (RuleFields.isImportable_ruleOf d.fields p)).mp parts)

end Made

/-- The text of a local description's rule, with the start in front, stands for its schedule. -/
theorem recurrenceOf_anchored (loc : d.IsLocal) (year : 1000 ≤ d.start.day.year) (made : d.ruleText c = .ok body) :
    ∃ p, d.MakesRule p ∧ ∀ c' start, recurrenceOf c' (.text (anchoredText d.start body)) start = .ok (.single (d.schedule p)) := by
  obtain ⟨p, makes, rfl, recurrence, evaluated⟩ := ruleText_eq_ok.mp made
  have sound := isSound_fields makes
  have short := length_of_recurrenceFrom makes evaluated
  refine ⟨p, makes, fun c' start => ?_⟩
  rw [recurrenceOf, RuleText.read_anchored (RuleFields.arePlain_ruleOf sound).areKept (RuleFields.check_ruleOf sound short) year,
    Stamp.plain_eq_self loc.zone loc.whole]
  have same := RuleText.sameParts_inOrder (d.fields.ruleOf p) (some d.start)
  show RuleText.recurrenceFrom _ c'.today d.start = _
  rw [← recurrenceFrom_ruleOf makes loc.zone loc.year c'.today short, RuleText.recurrenceFrom, RuleText.recurrenceFrom, same.body_eq]

/-- A start put in front of a description's rule. -/
theorem anchorRuleText_ruleText (made : d.ruleText c = .ok body) (c' : Setting) :
    anchorRuleText c' (.text body) (.stamp d.start) = .ok (anchoredText d.start body) := by
  obtain ⟨p, makes, rfl, recurrence, evaluated⟩ := ruleText_eq_ok.mp made
  have sound := isSound_fields makes
  have short := length_of_recurrenceFrom makes evaluated
  have same := RuleText.sameParts_inOrder (d.fields.ruleOf p) none
  have stamp : c'.stamp (.stamp d.start) = .ok d.start := rfl
  rw [anchorRuleText, RuleText.read_body (RuleFields.arePlain_ruleOf sound) (RuleFields.check_ruleOf sound short)]
  simp only [bind, Except.bind, stamp, pure, Except.pure, same.body_eq]

/-- Some time at which rules are built and evaluated. -/
def newYear2025 : Setting := { today := ⟨⟨2025, 1, 1, by decide⟩, ⟨10, 0, 0, 0, by decide⟩, none⟩ }

end Description

end Cadence
