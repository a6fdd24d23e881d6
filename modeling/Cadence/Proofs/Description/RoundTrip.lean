import Cadence.Proofs.Description.Calendar
import Cadence.Rule.Import

/-!
# Descriptions from their own rules

The rule text of a description, read back from the description's start, gives its fields again: those that the
pattern uses, the end as a day, and the same text.
-/

namespace Cadence

namespace RuleFields

/-- Fields that differ at most in what their pattern does not use. -/
structure Agree (f g : RuleFields) : Prop where
  start : f.start = g.start
  pattern : f.pattern = g.pattern
  interval : f.interval = g.interval
  finish : f.finish = g.finish
  week : f.pattern = .week → Weekday.sorted f.selectedDays = Weekday.sorted g.selectedDays
  month : f.pattern = .month → f.monthlyOption = g.monthlyOption
  year : f.pattern = .year → f.yearlyOption = g.yearlyOption

section Agree
variable {f g : RuleFields} (agree : f.Agree g)
include agree

theorem Agree.isPlaced_eq : f.isPlaced = g.isPlaced := by
  unfold isPlaced
  rw [← agree.pattern]
  cases pattern : f.pattern with
  | day | week => rfl
  | month => rw [agree.month pattern]
  | year => rw [agree.year pattern]

theorem Agree.isDated_eq : f.isDated = g.isDated := by
  unfold isDated
  rw [← agree.pattern]
  cases pattern : f.pattern with
  | day | week => rfl
  | month => rw [agree.month pattern]
  | year => rw [agree.year pattern]

theorem Agree.position_eq : f.position = g.position := by
  unfold position
  rw [agree.isPlaced_eq, agree.start, ← agree.pattern]
  by_cases week : f.pattern = .week
  · rw [agree.week week]
  · simp only [week, false_and]

theorem Agree.ruleOf_eq (p : Int) : f.ruleOf p = g.ruleOf p := by
  have byDay : f.byDay p = g.byDay p := by
    unfold RuleFields.byDay
    rw [agree.isPlaced_eq, agree.start, ← agree.pattern]
    by_cases week : f.pattern = .week
    · rw [agree.week week]
    · simp only [week, false_and, if_false]
  unfold ruleOf byMonthDay byMonth
  rw [byDay, agree.isDated_eq, agree.start, agree.pattern, agree.interval, agree.finish]

end Agree

section Sound
variable {f : RuleFields} {n : Nat} {p : Int} (sound : f.IsSound n p)
include sound

/-- The weekdays of the rule as they are read back. -/
theorem weekdays_ruleOf : (f.ruleOf p).weekdays =
    if f.isPlaced then [(some p, f.start.day.weekday)]
    else if f.pattern = .week then (Weekday.sorted f.selectedDays).map fun w => (none, w)
    else [] := by
  unfold RuleText.weekdays RuleText.value
  rw [get?_ruleOf]
  simp only [byDay]
  split
  · rename_i placed
    have position := mem_monthPositions (sound.placed placed)
    have weekday := Weekday.mem_all f.start.day.weekday
    rw [Option.getD_some, nonEmptyItems_placedText p position _ weekday, List.filterMap_cons,
      weekdayItem?_placedText p position _ weekday]
    rfl
  · have empty : Text.nonEmptyItems [] = [] := rfl
    have read : ∀ days : List Weekday, (days.map (·.symbol)).filterMap RuleText.weekdayItem? = days.map fun w => (none, w) := by
      intro days
      induction days with
      | nil => rfl
      | cons w days ih =>
        rw [List.map_cons, List.filterMap_cons, weekdayItem?_symbol w w.mem_all, ih]
        rfl
    by_cases week : f.pattern = .week
    · by_cases none : Weekday.sorted f.selectedDays = []
      · simp [week, none, empty]
      · simp only [week, none, ne_eq, not_false_eq_true, and_self, if_true, Option.getD_some, nonEmptyItems_symbolsText, read]
    · simp [week, empty]

theorem interval_ruleOf (short : (Text.ofNat n).length ≤ Text.maxDigits) : (f.ruleOf p).interval = n := by
  unfold RuleText.interval
  rw [get?_ruleOf]
  simp only [sound.interval, Text.readInt?_ofNat, if_pos short, Option.getD_some]

end Sound

end RuleFields

namespace Description

variable {d : Description} {c : Setting} {body : Text} {p : Int}

/-! ### The start and the end -/

/-- A monthly or yearly recurrence falls on its start. -/
theorem fallsOn_start (makes : d.MakesRule p) (long : d.pattern = .month ∨ d.pattern = .year) : d.FallsOn d.start.day := by
  have shares : d.fields.isPlaced = true → d.SharesPosition d.start.day := fun placed =>
    ⟨rfl, p, makes.placed placed, Day.hasPosition_of_weekdayPosition? (makes.placed placed)⟩
  unfold FallsOn
  rcases long with pattern | pattern
  · cases option : d.monthlyOption <;> simp [pattern]
    exact shares (by simp [RuleFields.isPlaced, pattern, option])
  · cases option : d.yearlyOption <;> simp [pattern]
    exact shares (by simp [RuleFields.isPlaced, pattern, option])

theorem includes_of_le {x y : Day} (earlier : x.ordinal ≤ y.ordinal) (inside : d.Includes y) : d.Includes x :=
  fun ends e found => Nat.le_trans earlier (inside ends e found)

/-- The first timestamp of a monthly or yearly recurrence is its start, unless it ends before. -/
theorem trace_long (loc : d.IsLocal) (makes : d.MakesRule p) (long : d.pattern = .month ∨ d.pattern = .year) :
    (d.schedule p).trace = .done ∨ ∃ rest, (d.schedule p).trace = .item d.start rest := by
  have plain := isPlain_schedule d p
  have noFault : (d.schedule p).trace.toList.2 = none := by
    rw [Schedule.toList_trace_snd plain (counts_schedule makes), if_neg]
    rintro ⟨runs, -⟩
    have weekly : d.pattern.rate = .weekly := Schedule.weekly_of_overruns plain runs
    rcases long with pattern | pattern <;> rw [pattern] at weekly <;> cases weekly
  have list : (d.schedule p).trace.toList = (d.timestamps, none) := Prod.ext (toList_trace_schedule loc makes) noFault
  by_cases inside : d.Includes d.start.day
  · have first : d.timestamps = d.start ::
        ((Day.upFrom (d.start.day.ordinal + 1)).filter fun x => decide (d.FallsOn x ∧ d.Includes x)).map
          fun x => { d.start with day := x } := by
      have falls : decide (d.FallsOn d.start.day ∧ d.Includes d.start.day) = true :=
        decide_eq_true ⟨fallsOn_start makes long, inside⟩
      rw [timestamps, calendar, Day.upFrom_cons, List.filter_cons, if_pos falls, List.map_cons]
    rw [first] at list
    exact Or.inr (Trace.eq_item_of_toList list)
  · have none : d.timestamps = [] := by
      rw [timestamps, calendar, List.filter_eq_nil_iff.mpr, List.map_nil]
      intro x member both
      exact inside (includes_of_le (Day.mem_upFrom.mp member) (of_decide_eq_true both).2)
    rw [none] at list
    exact Or.inl (Trace.eq_done_of_toList list)

/-- The start of a description is where its rule, read back, starts. -/
theorem alignedStart_ruleOf {r : RuleText} (loc : d.IsLocal) (makes : d.MakesRule p)
    (positions : r.positions = if d.fields.isPlaced then [p] else []) :
    r.alignedStart (.single (d.schedule p)) d.pattern d.start = .ok d.start := by
  unfold RuleText.alignedStart
  split
  · rename_i moves
    rcases trace_long loc makes moves.2 with trace | ⟨rest, trace⟩
    · simp only [Recurrence.trace, trace]
      rfl
    · have aligned : RuleText.alignedIn r.positions none RuleText.alignLimit (.item d.start rest) = .ok (some d.start) := by
        rw [positions]
        by_cases placed : d.fields.isPlaced = true
        · simp [RuleText.alignLimit, RuleText.alignedIn, placed, makes.placed placed]
        · simp [RuleText.alignLimit, RuleText.alignedIn, placed]
      simp only [Recurrence.trace, trace, aligned]
      rfl
  · rfl

/-- The end of a rule, read back, is the day of the end. -/
theorem finishOf_ruleOf {r : RuleText} (loc : d.IsLocal) (rule : Datum)
    (written : r.get? .until = d.lastSecond?.map Compact.text) :
    r.finishOf rule d.start = .ok (d.lastSecond?.map (·.startOfDay)) := by
  unfold RuleText.finishOf
  rw [written, lastSecond?]
  cases ends : d.hasEnd with
  | false => rfl
  | true =>
    cases found : d.finish with
    | none => rfl
    | some e =>
      obtain ⟨zone, year⟩ := loc.finish e ends found
      have plain : e.dayClose.plain = e.dayClose := Stamp.plain_eq_self zone rfl
      have read : RuleText.moment (Compact.text e.dayClose) = .ok e.dayClose := by
        rw [RuleText.moment, Compact.read?_text (show 1000 ≤ e.dayClose.day.year from year), plain]
      have late : e.dayClose.clock.before d.start.clock = false :=
        decide_eq_false (Nat.not_lt.mpr (Clock.micros_le_lastSecond loc.whole))
      simp only [if_true, Option.map_some, read, RuleText.lastDay, late]
      rfl

/-! ### The fields read back -/

/-- The description that the rule of a description is read back to: options that the pattern does not use are
    at their defaults, and the end is a day. -/
def readBack (d : Description) : Description where
  pattern := d.pattern
  every := d.every
  selectedDays := if d.pattern = .week then Weekday.sorted d.selectedDays else []
  monthlyOption := if d.pattern = .month then d.monthlyOption else .day
  yearlyOption := if d.pattern = .year then d.yearlyOption else .date
  start := d.start
  finish := d.lastSecond?.map (·.startOfDay)
  hasEnd := d.hasEnd

theorem sorted_sorted (days : List Weekday) : Weekday.sorted (Weekday.sorted days) = Weekday.sorted days := by
  unfold Weekday.sorted
  refine List.filter_congr fun w member => ?_
  rw [Bool.eq_iff_iff, List.contains_iff_mem, List.contains_iff_mem, List.mem_filter, List.contains_iff_mem]
  exact and_iff_right member

theorem lastSecond?_readBack (d : Description) : d.readBack.lastSecond? = d.lastSecond? := by
  unfold lastSecond? readBack
  cases ends : d.hasEnd with
  | false => rfl
  | true =>
    cases found : d.finish with
    | none => simp [lastSecond?, ends, found]
    | some e =>
      simp [lastSecond?, ends, found]
      rfl

theorem agree_readBack (d : Description) : d.readBack.fields.Agree d.fields where
  start := rfl
  pattern := rfl
  interval := rfl
  finish := lastSecond?_readBack d
  week := by
    intro week
    have week : d.pattern = .week := week
    simp only [fields_selectedDays, readBack, week, if_true, sorted_sorted]
  month := by
    intro month
    have month : d.pattern = .month := month
    simp only [fields_monthlyOption, readBack, month, if_true]
  year := by
    intro year
    have year : d.pattern = .year := year
    simp only [fields_yearlyOption, readBack, year, if_true]

theorem isComplete_readBack (complete : d.IsComplete) : d.readBack.IsComplete where
  every_pos := complete.every_pos
  finish := by
    intro ends
    obtain ⟨e, found, inside⟩ := complete.finish ends
    have ends : d.hasEnd = true := ends
    exact ⟨e.dayClose.startOfDay, by simp [readBack, lastSecond?, ends, found], inside⟩

theorem hasEnd_readBack (complete : d.IsComplete) : (d.lastSecond?.map (·.startOfDay)).isSome = d.hasEnd := by
  unfold lastSecond?
  cases ends : d.hasEnd with
  | false => rfl
  | true =>
    obtain ⟨e, found, -⟩ := complete.finish ends
    rw [found]
    rfl

section Makes
variable (makes : d.MakesRule p) (loc : d.IsLocal) (short : (Text.ofNat d.every.toNat).length ≤ Text.maxDigits)
include makes loc short

/-- What is read back makes the same rule. -/
theorem ruleText_readBack (c : Setting) : d.readBack.ruleText c = .ok (d.fields.ruleOf p).body := by
  have agree := agree_readBack d
  have position : d.readBack.fields.position = .ok p := agree.position_eq.trans makes.position
  have same : (d.readBack.fields.ruleOf p).body = (d.fields.ruleOf p).body := by rw [agree.ruleOf_eq]
  refine ruleText_eq_ok.mpr ⟨p, ⟨isComplete_readBack makes.toIsComplete, position⟩, same.symm, ?_⟩
  rw [agree.ruleOf_eq]
  exact ⟨_, recurrenceFrom_ruleOf makes loc.zone loc.year c.today short⟩

omit loc in
/-- The weekdays and the interval of the rule, read back, give the repetition. -/
theorem repetition_ruleOf {r : RuleText} (same : RuleText.SameParts r (d.fields.ruleOf p)) :
    r.repetition d.pattern = d.readBack.toRepetition := by
  have sound := isSound_fields makes
  have every := makes.every_pos
  have interval : r.interval = d.every := by
    rw [same.interval_eq, RuleFields.interval_ruleOf sound short]
    omega
  have weekdays : r.weekdays = if d.fields.isPlaced then [(some p, d.start.day.weekday)]
      else if d.pattern = .week then (Weekday.sorted d.selectedDays).map fun w => (none, w) else [] :=
    same.weekdays_eq.trans (RuleFields.weekdays_ruleOf sound)
  unfold RuleText.repetition readBack
  cases pattern : d.pattern with
  | day => simp [interval]
  | week =>
    have days : r.weekdays.map (·.2) = Weekday.sorted d.selectedDays := by
      simp [weekdays, RuleFields.isPlaced, pattern, Function.comp_def]
    simp [days, sorted_sorted, makes.week pattern, interval]
  | month => cases option : d.monthlyOption <;> simp [weekdays, RuleFields.isPlaced, pattern, option, interval]
  | year => cases option : d.yearlyOption <;> simp [weekdays, RuleFields.isPlaced, pattern, option, interval]

omit loc short in
theorem positions_ruleOf {r : RuleText} (same : RuleText.SameParts r (d.fields.ruleOf p)) :
    r.positions = if d.fields.isPlaced then [p] else [] := by
  have sound := isSound_fields makes
  rw [RuleText.positions, same.weekdays_eq, RuleFields.weekdays_ruleOf sound]
  split
  · rfl
  · split
    · simp [List.filterMap_map]
    · rfl

/-- The rule of a description, read back from its start, whether the start is given or stands in the text. -/
theorem description_of_anchor {r : RuleText} (same : RuleText.SameParts r (d.fields.ruleOf p)) {fallback : Datum}
    (anchor : r.anchor c fallback = .ok d.start) (rule : Datum) :
    r.description c rule fallback = .ok { d.readBack with rule := .text (d.fields.ruleOf p).body } := by
  have sound := isSound_fields makes
  have supported : r.unsupported = [] := by
    unfold RuleText.unsupported
    rw [List.filter_eq_nil_iff.mpr, List.map_nil]
    intro key _
    have importable := RuleFields.isImportable_ruleOf d.fields p key
    rw [same.has_eq, RuleText.has]
    cases known : key.isImportable with
    | true => simp
    | false => simp [importable known]
  have frequency : Pattern.ofFrequency? (r.value .freq) = some d.pattern := by
    rw [same.value_eq, RuleText.value, RuleFields.get?_ruleOf]
    exact Pattern.ofFrequency?_frequency d.pattern
  have evaluated : r.recurrenceFrom c.today d.start = .ok (.single (d.schedule p)) := by
    rw [← recurrenceFrom_ruleOf makes loc.zone loc.year c.today short, RuleText.recurrenceFrom, RuleText.recurrenceFrom, same.body_eq]
  have aligned := alignedStart_ruleOf loc makes (positions_ruleOf makes same)
  have finish := finishOf_ruleOf loc rule ((same .until).trans (RuleFields.get?_ruleOf d.fields p .until))
  have built : { d.readBack.toRepetition with
      start := d.start, finish := d.lastSecond?.map (·.startOfDay),
      hasEnd := (d.lastSecond?.map (·.startOfDay)).isSome : Description } = d.readBack := by
    rw [hasEnd_readBack makes.toIsComplete]
    rfl
  have kept : r.keptText c d.pattern d.readBack = .ok (d.fields.ruleOf p).body := by
    have pattern : d.readBack.pattern = d.pattern := rfl
    unfold RuleText.keptText
    simp only [ruleText_readBack makes loc short c.plain, pattern, bind, Except.bind, same.body_eq, ite_self,
      RuleText.read_body (RuleFields.arePlain_ruleOf sound) (RuleFields.check_ruleOf sound short)]
    rfl
  unfold RuleText.description
  simp only [supported, frequency, anchor, evaluated, aligned, finish, repetition_ruleOf makes short same, built, kept,
    List.isEmpty_nil, Bool.not_true, Bool.false_eq_true, if_false, bind, Except.bind, pure, Except.pure]
  rw [hasEnd_readBack makes.toIsComplete]
  rfl

theorem description_ruleOf {r : RuleText} (same : RuleText.SameParts r (d.fields.ruleOf p)) (floating : r.start = none)
    (c : Setting) (rule : Datum) :
    r.description c rule (.stamp d.start) = .ok { d.readBack with rule := .text (d.fields.ruleOf p).body } := by
  refine description_of_anchor makes loc short same ?_ rule
  unfold RuleText.anchor
  rw [floating]
  rfl

end Makes

/-- A description makes a round trip through its rule text: what is read back has its start, its pattern and
    interval, what the pattern uses of its choices, its end as a day, and the same text. -/
theorem ofRule_ruleText (loc : d.IsLocal) (made : d.ruleText c = .ok body) (c' : Setting) :
    ∃ d', Description.ofRule c' (.text body) (.stamp d.start) = .ok d' ∧
      d'.start = d.start ∧ d'.pattern = d.pattern ∧ d'.every = d.every ∧ d'.hasEnd = d.hasEnd ∧
      (d.pattern = .week → d'.selectedDays = Weekday.sorted d.selectedDays) ∧
      (d.pattern = .month → d'.monthlyOption = d.monthlyOption) ∧
      (d.pattern = .year → d'.yearlyOption = d.yearlyOption) ∧
      (d.hasEnd = true → ∃ e, d.finish = some e ∧ d'.finish = some e.startOfDay) ∧
      d'.rule = .text body := by
  obtain ⟨p, makes, rfl, recurrence, evaluated⟩ := ruleText_eq_ok.mp made
  have sound := isSound_fields makes
  have short := length_of_recurrenceFrom makes evaluated
  have read := RuleText.read_body (RuleFields.arePlain_ruleOf sound) (RuleFields.check_ruleOf sound short)
  have same := RuleText.sameParts_inOrder (d.fields.ruleOf p) none
  refine ⟨{ d.readBack with rule := .text (d.fields.ruleOf p).body }, ?_, rfl, rfl, rfl, rfl, ?_, ?_, ?_, ?_, rfl⟩
  · rw [Description.ofRule, read]
    exact description_ruleOf makes loc short same rfl c' _
  · intro week
    simp [readBack, week]
  · intro month
    simp [readBack, month]
  · intro year
    simp [readBack, year]
  · intro ends
    obtain ⟨e, found, -⟩ := makes.finish ends
    exact ⟨e, found, by simp [readBack, lastSecond?, ends, found, Stamp.dayClose, Stamp.startOfDay]⟩

/-- Every second week on Wednesday and Monday, up to the first of August. -/
def fortnightly : Description where
  start := ⟨⟨2025, 6, 23, by decide⟩, ⟨15, 58, 0, 0, by decide⟩, none⟩
  pattern := .week
  every := 2
  selectedDays := [.wednesday, .monday, .wednesday]
  finish := some ⟨⟨2025, 8, 1, by decide⟩, ⟨12, 0, 0, 0, by decide⟩, none⟩
  hasEnd := true

theorem isLocal_fortnightly : fortnightly.IsLocal where
  zone := rfl
  whole := rfl
  finish := by
    intro e _ found
    obtain rfl := Option.some.inj found
    decide

set_option maxRecDepth 4000 in
theorem ruleText_fortnightly : fortnightly.ruleText newYear2025 =
    .ok "FREQ=WEEKLY;UNTIL=20250801T235959;INTERVAL=2;BYDAY=MO,WE".toList := rfl

theorem ofRule_ruleText_fortnightly :
    fortnightly.IsLocal ∧
      fortnightly.ruleText newYear2025 = .ok "FREQ=WEEKLY;UNTIL=20250801T235959;INTERVAL=2;BYDAY=MO,WE".toList ∧
      ∃ d', Description.ofRule newYear2025 (.text "FREQ=WEEKLY;UNTIL=20250801T235959;INTERVAL=2;BYDAY=MO,WE".toList)
          (.stamp fortnightly.start) = .ok d' ∧
        d'.selectedDays = [.monday, .wednesday] ∧ d'.finish = some ⟨⟨2025, 8, 1, by decide⟩, .midnight, none⟩ := by
  refine ⟨isLocal_fortnightly, ruleText_fortnightly, ?_⟩
  obtain ⟨d', read, -, -, -, -, week, -, -, finish, -⟩ :=
    ofRule_ruleText isLocal_fortnightly ruleText_fortnightly newYear2025
  obtain ⟨e, found, last⟩ := finish rfl
  obtain rfl := Option.some.inj found
  exact ⟨d', read, week rfl, last⟩

end Description

namespace RuleText

theorem selectedDays_repetition (r : RuleText) (pattern : Pattern) :
    Weekday.sorted (r.repetition pattern).selectedDays = (r.repetition pattern).selectedDays ∧
      ((r.repetition pattern).pattern ≠ .week → (r.repetition pattern).selectedDays = []) := by
  unfold repetition
  cases pattern with
  | day => exact ⟨rfl, fun _ => rfl⟩
  | week =>
    dsimp only
    split
    · exact ⟨rfl, fun _ => rfl⟩
    · exact ⟨Description.sorted_sorted _, fun other => absurd rfl other⟩
  | month | year =>
    dsimp only
    split <;> exact ⟨rfl, fun _ => rfl⟩

end RuleText

end Cadence
