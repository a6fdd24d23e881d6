import Cadence.Proofs.Rule.Checked
import Cadence.Rule.Query

/-!
# Rule texts with their start

A rule text that is written with a start in front is read back to the same parts and to the start in whole
seconds, and is evaluated as the rule from that start. This is so for years of four digits: a shorter year is
written without zeros, and what is read in its place has four digits in any case.
-/

namespace Cadence

open Text

/-! ### Whole seconds -/

namespace Recurrence

variable {today : Stamp}

/-- The lines with their start in whole seconds. -/
def Lines.whole (l : Lines) : Lines := { l with start := l.start.wholeSecond }

/-- One more line says the same of a start in whole seconds. -/
theorem Lines.add_whole (l : Lines) (line : Text) :
    (Lines.add today l.whole line).map Lines.whole = (Lines.add today l line).map Lines.whole := by
  unfold Lines.add
  obtain ⟨name, parameters, value⟩ := splitName line
  dsimp only
  split
  · cases plain name parameters <;> rfl
  · split
    · cases plain name parameters <;> rfl
    · split
      · cases plain name parameters <;> rfl
      · split
        · cases plain [] parameters with
          | error e => rfl
          | ok _ => cases datesOn today value <;> rfl
        · split
          · cases plain [] parameters with
            | error e => rfl
            | ok _ =>
              cases datesOn today value with
              | error e => rfl
              | ok dates =>
                rcases dates with _ | ⟨start, _ | ⟨other, more⟩⟩ <;> rfl
          · rfl

theorem Lines.foldlM_add_whole (today : Stamp) {l l' : Lines} (same : l.whole = l'.whole) (lines : List Text) :
    (lines.foldlM (Lines.add today) l).map Lines.whole = (lines.foldlM (Lines.add today) l').map Lines.whole := by
  induction lines generalizing l l' with
  | nil => exact congrArg Except.ok same
  | cons line lines ih =>
    have step : (Lines.add today l line).map Lines.whole = (Lines.add today l' line).map Lines.whole := by
      rw [← l.add_whole, same, l'.add_whole]
    rw [List.foldlM_cons, List.foldlM_cons]
    cases first : Lines.add today l line with
    | error e =>
      rw [first] at step
      rw [map_eq_error.mp step.symm]
    | ok next =>
      rw [first] at step
      obtain ⟨next', first', same'⟩ := map_eq_ok.mp step.symm
      rw [first']
      exact ih same'

theorem ofLines_whole (l : Lines) : ofLines today l.whole = ofLines today l := rfl

/-- Parts of a second of the start do not count. -/
theorem read_wholeSecond (start : Stamp) (s : Text) : read today start.wholeSecond s = read today start s := by
  unfold read
  split
  · rfl
  · have begun : Lines.whole { start := start.wholeSecond } = Lines.whole { start } := rfl
    have same := Lines.foldlM_add_whole today begun (words (upper s))
    cases given : (words (upper s)).foldlM (Lines.add today) { start } with
    | error e =>
      rw [given] at same
      rw [map_eq_error.mp same]
    | ok l =>
      rw [given] at same
      obtain ⟨l', given', whole⟩ := map_eq_ok.mp same
      rw [given']
      show ofLines today l' = ofLines today l
      rw [← ofLines_whole l', ← whole, ofLines_whole]

end Recurrence

/-! ### Texts with a start -/

variable {c : Setting} {rule : Datum} {r : RuleText} {s : Stamp} {text : Text}

/-- The text is the rule from a start on: it is read with its parts and the start, and has the occurrences
    of the rule from the start, whatever other start is given. -/
structure RuleText.IsAnchored (c : Setting) (rule : Datum) (r : RuleText) (s : Stamp) (text : Text) : Prop where
  exists_read : ∃ r', RuleText.read (.text text) = .ok r' ∧ r'.SameParts r ∧ r'.body = r.body ∧ r'.start = some s.wholeSecond
  occurrences : ∀ limit other, occurrences c (.text text) limit other = occurrences c rule limit (.stamp s)

namespace RuleText

theorem recurrenceFrom_wholeSecond (r : RuleText) (today start : Stamp) :
    r.recurrenceFrom today start.wholeSecond = r.recurrenceFrom today start := by
  unfold recurrenceFrom
  rw [Recurrence.read_wholeSecond]

theorem recurrenceFrom_of_body {r' : RuleText} (same : r'.body = r.body) (today start : Stamp) :
    r'.recurrenceFrom today start = r.recurrenceFrom today start := by
  unfold recurrenceFrom
  rw [same]

/-- A rule with a start of its own is evaluated from it, and one without from the given one. -/
theorem recurrenceOf_anchored {r' : RuleText} (read : RuleText.read rule = .ok r) (unstarted : r.start = none)
    (read' : RuleText.read (.text text) = .ok r') (body : r'.body = r.body) (start : r'.start = some s.wholeSecond) (other : Datum) :
    recurrenceOf c (.text text) other = recurrenceOf c rule (.stamp s) := by
  have anchor' : r'.anchor c other = .ok s.wholeSecond := by
    unfold anchor
    rw [start]
  have anchor : r.anchor c (.stamp s) = .ok s := by
    unfold RuleText.anchor
    rw [unstarted]
    rfl
  have evaluated' : recurrenceOf c (.text text) other = r'.recurrence c other := by
    rw [recurrenceOf, read']
    rfl
  have evaluated : recurrenceOf c rule (.stamp s) = r.recurrence c (.stamp s) := by
    rw [recurrenceOf, read]
    rfl
  rw [evaluated', evaluated, recurrence, recurrence, anchor', anchor]
  show r'.recurrenceFrom c.today s.wholeSecond = r.recurrenceFrom c.today s
  rw [recurrenceFrom_of_body body, recurrenceFrom_wholeSecond]

/-- A text that is read with the parts and the start is the rule from the start on. -/
theorem isAnchored_of_read {r' : RuleText} (read : RuleText.read rule = .ok r) (unstarted : r.start = none)
    (read' : RuleText.read (.text text) = .ok r') (parts : r'.SameParts r) (start : r'.start = some s.wholeSecond) :
    IsAnchored c rule r s text where
  exists_read := ⟨r', read', parts, parts.body_eq, start⟩
  occurrences limit other := by
    unfold Cadence.occurrences
    rw [recurrenceOf_anchored read unstarted read' parts.body_eq start]

end RuleText

/-- A rule text with a start in front is the rule from the start on, for the years of four digits and no others. -/
theorem anchorRuleText_isAnchored_iff (read : RuleText.read rule = .ok r) (unstarted : r.start = none) (naive : s.zone = none) :
    ∃ text, anchorRuleText c rule (.stamp s) = .ok text ∧ (RuleText.IsAnchored c rule r s text ↔ 1000 ≤ s.day.year) := by
  have kept := RuleText.areKept_of_read read
  have checked := RuleText.check_of_read read
  have plain : s.plain = s.wholeSecond := by
    rw [Stamp.plain, Stamp.withoutZone, ← naive]
    rfl
  refine ⟨anchoredText s r.body, by rw [anchorRuleText, read]; rfl, fun anchored => ?_, fun year => ?_⟩
  · obtain ⟨r', read', -, -, start⟩ := anchored.exists_read
    obtain ⟨stamp, written⟩ := RuleText.moment_of_read_anchored kept checked read'
    rw [RuleText.read_anchored_of_moment kept checked written] at read'
    cases read'
    obtain rfl := Option.some.inj start
    have found : Compact.read? (Compact.text s) = some s.wholeSecond := by
      unfold RuleText.moment at written
      split at written
      · rename_i found
        cases written
        exact found
      · cases written
    have year : 1000 ≤ s.wholeSecond.day.year := Compact.le_year_of_read?_text found
    exact year
  · have read' := RuleText.read_anchored kept checked year
    rw [plain] at read'
    exact RuleText.isAnchored_of_read read unstarted read' (RuleText.sameParts_inOrder r _) rfl

/-- The last day of August in 2024, with a time of day. -/
def lastOfAugust : Stamp := { day := ⟨2024, 8, 31, by decide⟩, clock := ⟨17, 5, 9, 250000, by decide⟩ }

/-- A rule with odd blanks, and with marks in the value of a part that is not checked. -/
def blankRule : Text := " rrule: freq = daily ; wkst = mo x=y:z ;".toList

theorem anchorRuleText_isAnchored_iff_blankRule : ∃ r text, RuleText.read (.text blankRule) = .ok r ∧ r.start = none ∧
    lastOfAugust.zone = none ∧ anchorRuleText { today := lastOfAugust } (.text blankRule) (.stamp lastOfAugust) = .ok text ∧
    RuleText.IsAnchored { today := lastOfAugust } (.text blankRule) r lastOfAugust text := by
  obtain ⟨r, read, unstarted⟩ : ∃ r, RuleText.read (.text blankRule) = .ok r ∧ r.start = none := ⟨_, rfl, rfl⟩
  obtain ⟨text, written, anchored⟩ := anchorRuleText_isAnchored_iff (c := { today := lastOfAugust }) read unstarted
    (show lastOfAugust.zone = none from rfl)
  exact ⟨r, text, read, unstarted, rfl, written, anchored.mpr (by decide)⟩

/-- The first day of a year of three digits. -/
def firstOf999 : Stamp := .ofDay ⟨999, 1, 1, by decide⟩

/-- The first of October is read in place of the first of January, nine thousand years later. -/
theorem anchorRuleText_firstOf999 :
    anchorRuleText { today := lastOfAugust } (.text "FREQ=DAILY".toList) (.stamp firstOf999) =
      .ok "DTSTART:9990101T000000\nRRULE:FREQ=DAILY".toList ∧
    ∃ r, RuleText.read (.text "DTSTART:9990101T000000\nRRULE:FREQ=DAILY".toList) = .ok r ∧
      r.start = some (.ofDay ⟨9990, 10, 1, by decide⟩) :=
  ⟨rfl, _, rfl, rfl⟩

end Cadence
