import Cadence.Proofs.Description.RoundTrip
import Cadence.Proofs.Form.Preview

/-!
# The sentence of a description

The rule that the fields of a description make is described by a sentence. The sentence is the one that can be said of
the fields themselves, without a rule: how often they repeat, on which days, and until when.
-/

namespace Cadence

namespace RuleText

variable {r other : RuleText} {format : Except Fault LocaleFormat}

/-- Rules with the same parts are described by the same sentence. -/
theorem SameParts.sentence_eq (same : SameParts r other) : r.sentence format = other.sentence format := by
  unfold sentence intervalPhrase dayPhrases countPhrase finishPhrase pattern?
  simp only [same.value_eq, same.interval_eq, same.weekdays_eq, same.integers_eq, same .count, same .until, same.body_eq]

end RuleText

namespace Description

variable {d : Description} {c c' : Setting} {body : Text} {p : Int} {format : LocaleFormat}

/-! ### What is said of the fields -/

/-- The weekday of the start at its position, in the words of the label that stands for it. -/
def placeWords (d : Description) : Text := ((Phrase.monthlyWeekdayLabel? d.start.day).getD []).drop "On ".length

/-- On which days the fields recur. -/
def dayWords (d : Description) : Text :=
  match d.pattern with
  | .day => []
  | .week =>
    match Weekday.sorted d.selectedDays with
    | [] => []
    | days => " on " ++ Text.joinWith ", " (days.map (·.name))
  | .month =>
    match d.monthlyOption with
    | .day => " on the " ++ Phrase.ordinal d.start.day.day
    | .weekday => " on " ++ d.placeWords
  | .year =>
    match d.yearlyOption with
    | .date => " on " ++ monthName d.start.day.month ++ ' ' :: Text.ofNat d.start.day.day
    | .weekday => " on " ++ d.placeWords ++ " of " ++ monthName d.start.day.month

/-- Until when the fields recur. -/
def finishWords (d : Description) (format : LocaleFormat) : Text :=
  match d.hasEnd, d.finish with
  | true, some e => " until " ++ e.day.textIn format .medium
  | _, _ => []

/-- What is said of the fields. -/
def inWords (d : Description) (format : LocaleFormat) : Text :=
  Phrase.interval d.pattern d.every ++ d.dayWords ++ d.finishWords format

/-! ### What is said of the rule -/

theorem intervalPhrase_ruleOf (makes : d.MakesRule p) (short : (Text.ofNat d.every.toNat).length ≤ Text.maxDigits) :
    (d.fields.ruleOf p).intervalPhrase = Phrase.interval d.pattern d.every := by
  have named : (d.fields.ruleOf p).pattern? = some d.pattern := by
    rw [RuleText.pattern?, RuleText.value, RuleFields.get?_ruleOf]
    exact Pattern.ofFrequency?_frequency d.pattern
  have every := makes.every_pos
  have interval : (d.fields.ruleOf p).interval = d.every := by
    rw [RuleFields.interval_ruleOf (isSound_fields makes) short]
    omega
  rw [RuleText.intervalPhrase, named, interval]

theorem placeWords_of_position (placed : d.start.day.weekdayPosition? = some p) :
    d.placeWords = Phrase.weekday p d.start.day.weekday := by
  rw [placeWords, Phrase.monthlyWeekdayLabel?, placed]
  rfl

theorem monthDay_natCast (n : Nat) : Phrase.monthDay n = "the " ++ Phrase.ordinal n := by
  unfold Phrase.monthDay
  rw [if_neg (by omega), if_neg (by omega), Int.natAbs_natCast]

/-- The words about the days, one behind the other, are those that are said of the fields. -/
theorem dayPhrases_ruleOf (makes : d.MakesRule p) :
    ((d.fields.ruleOf p).dayPhrases.map (' ' :: ·)).flatten = d.dayWords := by
  have dayRange := d.start.day.day_bounds
  have monthRange := d.start.day.month_bounds
  have dayLimit := daysInMonth_le d.start.day.year d.start.day.month
  have named : (d.fields.ruleOf p).pattern? = some d.pattern := by
    rw [RuleText.pattern?, RuleText.value, RuleFields.get?_ruleOf]
    exact Pattern.ofFrequency?_frequency d.pattern
  have weekdays : (d.fields.ruleOf p).weekdays = _ := RuleFields.weekdays_ruleOf (isSound_fields makes)
  have days : (d.fields.ruleOf p).integers .byMonthDay = _ :=
    RuleFields.integers_of_ofNat (RuleFields.get?_ruleOf d.fields p .byMonthDay) (by rw [fields_start]; omega)
  have months : (d.fields.ruleOf p).integers .byMonth = _ :=
    RuleFields.integers_of_ofNat (RuleFields.get?_ruleOf d.fields p .byMonth) (by rw [fields_start]; omega)
  have place : d.fields.isPlaced = true → d.placeWords = Phrase.weekday p d.start.day.weekday := fun placed =>
    placeWords_of_position (makes.placed placed)
  have single : ∀ name : Text, Phrase.listed [name] = name := Phrase.joinNames_singleton "and"
  have phrase : RuleText.weekdayPhrase (some p, d.start.day.weekday) = Phrase.weekday p d.start.day.weekday := rfl
  have number : Text.ofInt (d.start.day.day : Int) = Text.ofNat d.start.day.day := rfl
  unfold RuleText.dayPhrases dayWords
  simp only [weekdays, days, months, named]
  cases pattern : d.pattern with
  | day => simp [RuleFields.isPlaced, RuleFields.isDated, pattern, RuleText.monthsAfter]
  | week =>
    cases selected : Weekday.sorted d.selectedDays with
    | nil => simp [RuleFields.isPlaced, RuleFields.isDated, pattern, RuleText.monthsAfter, selected]
    | cons w ws => simp [RuleFields.isPlaced, pattern, RuleText.monthsAfter, selected, Function.comp_def]
  | month =>
    cases option : d.monthlyOption with
    | day => simp [RuleFields.isPlaced, RuleFields.isDated, pattern, option, single, monthDay_natCast]
    | weekday =>
      have place := place (by simp [RuleFields.isPlaced, pattern, option])
      simp [RuleFields.isPlaced, pattern, option, RuleText.monthsAfter, place, single, phrase]
  | year =>
    cases option : d.yearlyOption with
    | date => simp [RuleFields.isPlaced, RuleFields.isDated, pattern, option, single, number]
    | weekday =>
      have place := place (by simp [RuleFields.isPlaced, pattern, option])
      simp [RuleFields.isPlaced, pattern, option, RuleText.monthsAfter, place, single, phrase]

theorem finishPhrase_ruleOf (complete : d.IsComplete) (years : ∀ e, d.hasEnd = true → d.finish = some e → 1000 ≤ e.day.year) :
    ∃ phrases, (d.fields.ruleOf p).finishPhrase (.ok format) = .ok phrases ∧
      (phrases.map (' ' :: ·)).flatten = d.finishWords format := by
  unfold RuleText.finishPhrase finishWords
  rw [RuleFields.get?_ruleOf]
  simp only [fields_finish, lastSecond?]
  cases ends : d.hasEnd with
  | false => exact ⟨[], rfl, rfl⟩
  | true =>
    obtain ⟨e, found, -⟩ := complete.finish ends
    have read : RuleText.moment (Compact.text e.dayClose) = .ok e.dayClose.plain := by
      rw [RuleText.moment, Compact.read?_text (show 1000 ≤ e.dayClose.day.year from years e ends found)]
    rw [found]
    refine ⟨["until " ++ e.day.textIn format .medium], ?_, ?_⟩
    · simp only [if_true, Option.map_some, read]
      rfl
    · simp

/-- The sentence of the rule is what is said of the fields. -/
theorem sentence_ruleOf (makes : d.MakesRule p) (short : (Text.ofNat d.every.toNat).length ≤ Text.maxDigits)
    (years : ∀ e, d.hasEnd = true → d.finish = some e → 1000 ≤ e.day.year) :
    (d.fields.ruleOf p).sentence (.ok format) = .ok (d.inWords format) := by
  have joined : ∀ (first : Text) (phrases : List Text),
      Text.joinWith [' '] (first :: phrases) = first ++ (phrases.map (' ' :: ·)).flatten := by
    intro first phrases
    induction phrases generalizing first with
    | nil => exact (List.append_nil first).symm
    | cons next more ih => simp [Text.joinWith_cons_cons, ih]
  have count : (d.fields.ruleOf p).countPhrase = .ok [] := by
    unfold RuleText.countPhrase
    rw [RuleFields.get?_ruleOf]
  obtain ⟨phrases, finish, words⟩ := finishPhrase_ruleOf makes.toIsComplete years
  unfold RuleText.sentence
  rw [count, finish]
  show Except.ok (Text.joinWith [' '] (_ :: (d.fields.ruleOf p).dayPhrases ++ [] ++ phrases)) = _
  rw [List.append_nil, List.cons_append, joined, List.map_append, List.flatten_append, dayPhrases_ruleOf makes, words,
    intervalPhrase_ruleOf makes short, ← List.append_assoc]
  rfl

/-! ### The description of the rule text -/

/-- A rule text that the fields make at one time, they make at every time. -/
theorem ruleText_of_year (naive : d.start.zone = none) (years : ∀ e, d.hasEnd = true → d.finish = some e → 1000 ≤ e.day.year)
    (made : d.ruleText c = .ok body) (c' : Setting) : d.ruleText c' = .ok body := by
  obtain ⟨p, makes, rfl, recurrence, evaluated⟩ := ruleText_eq_ok.mp made
  exact ruleText_eq_ok.mpr ⟨p, makes, rfl, _,
    recurrenceFrom_ruleOf makes naive (year_fields years) c'.today (length_of_recurrenceFrom makes evaluated)⟩

/-- The rule text that the fields make is described by what is said of the fields, and by no message. -/
theorem describe_ruleText (naive : d.start.zone = none) (years : ∀ e, d.hasEnd = true → d.finish = some e → 1000 ≤ e.day.year)
    (made : d.ruleText c = .ok body) (tag : Option Text) (locale : c'.format = LocaleFormat.ofDatum (tag.elim .null .text)) :
    ∃ format, c'.format = .ok format ∧ describe c' (.text body) = .ok (d.inWords format) ∧
      d.inWords format ≠ noRuleMessage ∧ d.inWords format ≠ invalidRuleMessage := by
  obtain ⟨format, known, -⟩ := LocaleFormat.ofDatum_eq_ok tag
  have known : c'.format = .ok format := locale.trans known
  obtain ⟨_, _, -, reads⟩ := exists_read (ruleText_of_year naive years made c')
  obtain ⟨p, makes, rfl, recurrence, evaluated⟩ := ruleText_eq_ok.mp made
  have sound := isSound_fields makes
  have short := length_of_recurrenceFrom makes evaluated
  have plain := RuleFields.arePlain_ruleOf sound
  have read := RuleText.read_body plain (RuleFields.check_ruleOf sound short)
  obtain ⟨-, start, evaluates⟩ := reads _ (.inl read)
  have sentence : ({ parts := (d.fields.ruleOf p).inOrder RuleKey.all } : RuleText).sentence (.ok format) = .ok (d.inWords format) :=
    (RuleText.sameParts_inOrder (d.fields.ruleOf p) none).sentence_eq.trans (sentence_ruleOf makes short years)
  have described : describeRule c' (.text (d.fields.ruleOf p).body) = .ok (d.inWords format) := by
    rw [describeRule, read]
    show (RuleText.recurrence _ c'.plain .null >>= fun _ => RuleText.sentence _ c'.format) = _
    rw [evaluates, known]
    exact sentence
  have there : (d.fields.ruleOf p).body.isEmpty = false := by
    obtain ⟨rest, begins⟩ := RuleText.body_eq_freq (RuleFields.get?_ruleOf d.fields p .freq)
    rw [begins]
    rfl
  have trimmed := (RuleText.noBlank_body plain.noBlank).trim_eq
  refine ⟨format, known, ?_, ?_⟩
  · unfold describe
    simp only [Datum.truthy, trimmed, there, described]
    rfl
  · obtain ⟨rest, begins⟩ : ∃ rest, d.inWords format = 'e' :: rest := by
      unfold inWords Phrase.interval
      split <;> exact ⟨_, rfl⟩
    have first : (d.inWords format).head? = some 'e' := by rw [begins]; rfl
    refine ⟨fun same => ?_, fun same => ?_⟩
    · rw [same] at first
      exact absurd first (by decide)
    · rw [same] at first
      exact absurd first (by decide)

theorem describe_ruleText_fortnightly : fortnightly.start.zone = none ∧
    (∀ e, fortnightly.hasEnd = true → fortnightly.finish = some e → 1000 ≤ e.day.year) ∧
    newYear2025.format = LocaleFormat.ofDatum .null ∧
    describe newYear2025 (.text "FREQ=WEEKLY;UNTIL=20250801T235959;INTERVAL=2;BYDAY=MO,WE".toList) =
      .ok "every 2 weeks on Monday, Wednesday until 1 Aug 2025".toList := by
  have years : ∀ e, fortnightly.hasEnd = true → fortnightly.finish = some e → 1000 ≤ e.day.year := by
    rintro e - ⟨⟩
    decide
  have known : newYear2025.format = LocaleFormat.ofDatum .null := rfl
  obtain ⟨format, same, described, -⟩ := describe_ruleText rfl years ruleText_fortnightly none known
  cases same
  exact ⟨rfl, years, known, described⟩

end Description

end Cadence
