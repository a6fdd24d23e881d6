import Cadence.Control
import Cadence.Proofs.Description.Imported
import Cadence.Proofs.Description.RoundTrip
import Cadence.Proofs.Form.Held
import Cadence.Proofs.Rule.Local

/-!
# Forms that hold an imported rule

A form that is opened for an imported rule, or that imports it, holds the fields of its description. Where the rule
says more than the fields can, its text is kept in the description, but not in the form.
-/

namespace Cadence

variable {d : Description} {c : Setting} {format : LocaleFormat}

/-! ### Imported fields -/

namespace RuleText

variable {r : RuleText} {rule fallback : Datum} {pattern : Pattern} {anchor : Stamp} {recurrence : Recurrence}

/-- The fields of an imported rule are refused at most. -/
theorem Becomes.refused (becomes : r.Becomes c rule fallback pattern anchor recurrence d) :
    ∀ e, d.ruleText c = .error e → e.isBuild = true := by
  intro e refused
  obtain ⟨text, -, kept⟩ := becomes.text
  rw [keptText, Description.ruleText_congr (show c.plain.today = c.today from rfl), refused] at kept
  dsimp only at kept
  cases build : e.isBuild with
  | true => rfl
  | false =>
    rw [build] at kept
    cases kept

/-- The fields of an imported rule fit into a form. -/
theorem Becomes.fitsForm (becomes : r.Becomes c rule fallback pattern anchor recurrence d) (checked : r.check = .ok ())
    (plain : d.start.plain = d.start) : d.FitsForm c where
  start := plain
  finish e found := plain_of_finishOf (becomes.finish.trans (congrArg _ found))
  every_pos := by
    rw [show d.every = r.interval from (congrArg Repetition.every becomes.repetition).trans (every_repetition r pattern)]
    exact one_le_interval (checks_of_check checked).1
  hasEnd := becomes.hasEnd
  selectedDays := by
    rw [becomes.repetition]
    exact selectedDays_repetition r pattern
  refused := becomes.refused

end RuleText

namespace Form

variable {f : Form} {today : Stamp} {settings : Settings}

/-! ### Importing -/

/-- A value stands for the start of a form, null where the form has none. -/
def StartsAt (c : Setting) (fallback : Datum) : Option Stamp → Prop
  | none => fallback = .null
  | some s => c.stamp fallback = .ok s

/-- A rule that is read from a value for the form's start is read from the start itself. -/
theorem ofRule_of_startsAt {rule fallback : Datum} {start : Option Stamp} (format : LocaleFormat)
    (starts : StartsAt c fallback start) (read : Description.ofRule c rule fallback = .ok d) :
    Description.ofRule { today := c.today, format := .ok format } rule (.ofStamp? start) = .ok d := by
  obtain ⟨r, found, made⟩ := bind_eq_ok.mp read
  have anchors : ∃ anchor, r.anchor c fallback = .ok anchor ∧
      r.anchor { today := c.today, format := .ok format } (.ofStamp? start) = .ok anchor := by
    unfold RuleText.anchor
    cases r.start with
    | some own => exact ⟨own, rfl, rfl⟩
    | none =>
      cases start with
      | none =>
        obtain rfl : fallback = .null := starts
        exact ⟨c.dayStart, rfl, rfl⟩
      | some s =>
        have starts : c.stamp fallback = .ok s := starts
        cases fallback with
        | null => cases starts
        | _ => exact ⟨s, starts, rfl⟩
  obtain ⟨anchor, here, there⟩ := anchors
  have kept (pattern : Pattern) (d : Description) :
      r.keptText { today := c.today, format := .ok format } pattern d = r.keptText c pattern d := by
    unfold RuleText.keptText
    rw [Description.ruleText_congr (show (Setting.plain { today := c.today, format := .ok format }).today = c.plain.today from rfl)]
  rw [Description.ofRule, found, ← made]
  show r.description _ rule (.ofStamp? start) = _
  unfold RuleText.description
  simp only [here, there, kept]

/-- Importing a rule leads to a form that holds the description that the rule becomes. -/
theorem holds_importRule {rule fallback : Datum} {start : Option Stamp} {number : Option Nat} (fits : d.FitsForm c)
    (hsep : NumericDate.isSeparator f.format.separator = true)
    (counts : limitOf f.settings.previewCount = .ok number) (started : f.start c.today = .ok start)
    (starts : StartsAt c fallback start) (read : Description.ofRule c rule fallback = .ok d) :
    (f.importRule c.today rule).2 = .ok () ∧ (f.importRule c.today rule).1.Holds c d := by
  have imported : f.imported c.today rule = .ok (held f.format d) := by
    rw [imported, started]
    show (Description.ofRule (f.setting c.today) rule (.ofStamp? start) >>= fun d => valuesOf (.ok f.format) d.draft) = _
    rw [show f.setting c.today = { today := c.today, format := .ok f.format } from rfl, ofRule_of_startsAt f.format starts read]
    exact valuesOf_draft f.format d
  obtain ⟨g, refreshed, holds⟩ := exists_refresh (f := { f with values := held f.format d }) fits rfl hsep counts
  rw [importRule, imported]
  show (refresh { f with values := held f.format d } c.today).2 = _ ∧ (refresh { f with values := held f.format d } c.today).1.Holds c d
  rw [refreshed]
  exact ⟨rfl, holds⟩

theorem start_description? {s : Draft} {s' : Description} {start : Stamp} (whole : s.description? = some s')
    (given : s.start = .stamp start) : s'.start = start ∧ s'.rule = s.rule := by
  unfold Draft.description? at whole
  simp only [given, Option.bind_eq_bind, Option.bind_eq_some_iff] at whole
  obtain ⟨repetition, -, start', same, whole⟩ := whole
  cases same
  split at whole <;> simp only [Option.bind_some, Option.bind_none, reduceCtorEq] at whole
  · split at whole <;> cases whole
    exact ⟨rfl, rfl⟩
  · split at whole <;> cases whole
    exact ⟨rfl, rfl⟩

/-- What a control keeps of a form that is saved has the start of the description that the form holds, and the rule
    that the description's fields make. -/
theorem Holds.recurrence_handleSet {k : Control} (holds : f.Holds c d) (opened : k.form = some f) {now : Setting}
    (saved : (k.handleSet now).2 = .ok true) :
    ∃ s own, (k.handleSet now).1.recurrence = some s ∧ s.start = d.start ∧ d.ruleText c = .ok own ∧ s.rule = .text own := by
  unfold Control.handleSet at saved ⊢
  rw [opened] at saved ⊢
  dsimp only at saved ⊢
  rcases outcome : f.save now.today with ⟨g, result⟩
  rw [outcome] at saved
  cases result with
  | error e => cases saved
  | ok result =>
    cases result with
    | none => cases saved
    | some s =>
      obtain ⟨start, own, made, rule⟩ := holds.saved now.today s (by rw [outcome])
      dsimp only at saved ⊢
      cases whole : s.description? with
      | none =>
        rw [whole] at saved
        cases saved
      | some s' =>
        obtain ⟨sameStart, sameRule⟩ := start_description? whole start
        exact ⟨s', own, rfl, sameStart, made, sameRule.trans rule⟩

/-- A form that is opened for the description of an imported rule, or that imports the rule from the same start, holds
    the description: it starts where the description does, and shows and saves the rule that the description's fields
    make. That is the rule text of the description, unless the imported text was kept. -/
theorem holds_imported (tag : Option Text) {rule fallback : Datum} {number : Option Nat}
    (locale : c.format = LocaleFormat.ofDatum (tag.elim .null .text))
    (read : Description.ofRule c rule fallback = .ok d) (naive : d.start.zone = none) (whole : d.start.clock.micro = 0)
    (counts : limitOf settings.previewCount = .ok number) :
    (∀ sentence, ∃ f, open? c settings (some { d with sentence }.draft) = .ok f ∧ f.Holds c d) ∧
      (∀ (f : Form) start, c.format = .ok f.format → f.settings = settings → f.start c.today = .ok start → StartsAt c fallback start →
        (f.importRule c.today rule).2 = .ok () ∧ (f.importRule c.today rule).1.Holds c d) ∧
      (∀ (f : Form) (k : Control) now, f.Holds c d → k.form = some f → (k.handleSet now).2 = .ok true →
        ∃ s own, (k.handleSet now).1.recurrence = some s ∧ s.start = d.start ∧ d.ruleText c = .ok own ∧ s.rule = .text own) ∧
      ∃ r text, RuleText.read rule = .ok r ∧ d.rule = .text text ∧ (d.ruleText c = .ok text ∨ text = r.body) := by
  obtain ⟨format, known, hsep⟩ := LocaleFormat.ofDatum_eq_ok tag
  obtain ⟨r, found, made⟩ := bind_eq_ok.mp read
  obtain ⟨pattern, anchor, recurrence, becomes⟩ := RuleText.becomes_of_description made
  have fits := becomes.fitsForm (RuleText.check_of_read found) (Stamp.plain_eq_self naive whole)
  have locale := locale.trans known
  refine ⟨exists_open fits locale hsep counts, ?_, fun f k now holds opened => holds.recurrence_handleSet opened, r, ?_⟩
  · rintro f start sameFormat rfl started starts
    cases locale.symm.trans sameFormat
    exact holds_importRule fits hsep counts started starts read
  · obtain ⟨text, rule, kept⟩ := becomes.exists_text
    exact ⟨text, found, rule, kept.symm.imp And.left id⟩

open Description (newYear2025)

/-- The start and the rule text of the description that a rule becomes, and those of the form that is opened for it. -/
def loaded (rule : Text) (fallback : Datum) : Option ((Stamp × Option Text) × Option Stamp × Option Text) := do
  let d ← (Description.ofRule newYear2025 (.text rule) fallback).toOption
  let f ← (open? newYear2025 {} (some d.draft)).toOption
  let start ← (f.start newYear2025.today).toOption
  let kept := match d.rule with
    | .text s => some s
    | _ => none
  return ((d.start, kept), start, f.preview.ruleText)

theorem exists_of_loaded {rule kept : Text} {fallback : Datum} {begins : Stamp} {start : Option Stamp} {shown : Option Text}
    (found : loaded rule fallback = some ((begins, some kept), start, shown)) :
    ∃ d f, Description.ofRule newYear2025 (.text rule) fallback = .ok d ∧ d.start = begins ∧ d.rule = .text kept ∧
      open? newYear2025 {} (some d.draft) = .ok f ∧ f.start newYear2025.today = .ok start ∧ f.preview.ruleText = shown := by
  unfold loaded at found
  simp only [Option.bind_eq_bind, Option.bind_eq_some_iff] at found
  obtain ⟨d, read, f, opens, start', started, found⟩ := found
  simp only [pure, Option.some.injEq, Prod.mk.injEq] at found
  obtain ⟨⟨begins, kept⟩, rfl, shown⟩ := found
  refine ⟨d, f, toOption_eq_some read, begins, ?_, toOption_eq_some opens, toOption_eq_some started, shown⟩
  cases rule : d.rule <;> rw [rule] at kept <;> cases kept
  rfl

/-- Mondays, without an interval. -/
def mondays : Text := "FREQ=WEEKLY;BYDAY=MO".toList

theorem loaded_mondays : loaded mondays .null = some ((newYear2025.dayStart, some "FREQ=WEEKLY;INTERVAL=1;BYDAY=MO".toList),
    some newYear2025.dayStart, some "FREQ=WEEKLY;INTERVAL=1;BYDAY=MO".toList) := by
  decide +kernel

theorem holds_imported_mondays : ∃ d f, newYear2025.format = LocaleFormat.ofDatum .null ∧
    Description.ofRule newYear2025 (.text mondays) .null = .ok d ∧ d.start.zone = none ∧ d.start.clock.micro = 0 ∧
    limitOf ({} : Settings).previewCount = .ok (some 5) ∧ open? newYear2025 {} (some d.draft) = .ok f ∧
    f.Holds newYear2025 d ∧ d.rule = .text "FREQ=WEEKLY;INTERVAL=1;BYDAY=MO".toList := by
  obtain ⟨d, f, read, start, rule, opens, -, -⟩ := exists_of_loaded loaded_mondays
  have naive : d.start.zone = none := by rw [start]; rfl
  have whole : d.start.clock.micro = 0 := by rw [start]; rfl
  have counts : limitOf ({} : Settings).previewCount = .ok (some 5) := rfl
  obtain ⟨f', opens', holds⟩ := (holds_imported none rfl read naive whole counts).1 d.sentence
  cases opens.symm.trans opens'
  exact ⟨d, f, rfl, read, naive, whole, counts, opens, holds, rule⟩

/-- The last day of every month, which the fields cannot express. -/
def lastDays : Text := "FREQ=MONTHLY;BYMONTHDAY=-1".toList

theorem loaded_lastDays : loaded lastDays .null = some ((.ofDay ⟨2025, 1, 31, by decide⟩, some lastDays),
    some (.ofDay ⟨2025, 1, 31, by decide⟩), some "FREQ=MONTHLY;INTERVAL=1;BYMONTHDAY=31".toList) := by
  decide +kernel

/-- The first two occurrences of a rule text from the last day of January. -/
def firstTwo (rule : Text) : Option (List Stamp) :=
  (occurrences newYear2025 (.text (anchoredText (.ofDay ⟨2025, 1, 31, by decide⟩) rule)) (.int 2) .null).toOption

theorem firstTwo_lastDays : firstTwo lastDays =
    some [.ofDay ⟨2025, 1, 31, by decide⟩, .ofDay ⟨2025, 2, 28, by decide⟩] := by
  decide +kernel

theorem firstTwo_shown : firstTwo "FREQ=MONTHLY;INTERVAL=1;BYMONTHDAY=31".toList =
    some [.ofDay ⟨2025, 1, 31, by decide⟩, .ofDay ⟨2025, 3, 31, by decide⟩] := by
  decide +kernel

/-- All weekdays of every other week, which the fields cannot express either. -/
def alternateWeeks : Text := "FREQ=WEEKLY;INTERVAL=2;BYDAY=MO,TU,WE,TH,FR,SA,SU".toList

theorem loaded_alternateWeeks : loaded alternateWeeks .null =
    some ((newYear2025.dayStart, some alternateWeeks), some newYear2025.dayStart, none) := by
  decide +kernel

/-- Half past nine on the second of January 2025, one hour east. -/
def eastern : Stamp := ⟨⟨2025, 1, 2, by decide⟩, ⟨9, 30, 0, 0, by decide⟩, some 60⟩

theorem loaded_eastern : loaded mondays (.stamp eastern) = some ((eastern, some "FREQ=WEEKLY;INTERVAL=1;BYDAY=MO".toList),
    some eastern.withoutZone, some "FREQ=WEEKLY;INTERVAL=1;BYDAY=MO".toList) := by
  decide +kernel

/-- A form shows another rule than the text that was kept, or none, and its start has no zone. -/
theorem loses_kept_text :
    (∃ d f shown, Description.ofRule newYear2025 (.text lastDays) .null = .ok d ∧ d.rule = .text lastDays ∧
      open? newYear2025 {} (some d.draft) = .ok f ∧ f.start newYear2025.today = .ok (some d.start) ∧
      f.preview.ruleText = some shown ∧
      occurrences newYear2025 (.text (anchoredText d.start shown)) (.int 2) .null ≠
        occurrences newYear2025 (.text (anchoredText d.start lastDays)) (.int 2) .null) ∧
    (∃ d f, Description.ofRule newYear2025 (.text alternateWeeks) .null = .ok d ∧
      open? newYear2025 {} (some d.draft) = .ok f ∧ f.preview.ruleText = none) ∧
    ∃ d f, Description.ofRule newYear2025 (.text mondays) (.stamp eastern) = .ok d ∧ d.start.clock.micro = 0 ∧
      open? newYear2025 {} (some d.draft) = .ok f ∧ f.start newYear2025.today ≠ .ok (some d.start) := by
  obtain ⟨d, f, read, start, rule, opens, started, shown⟩ := exists_of_loaded loaded_lastDays
  obtain ⟨d', f', read', -, -, opens', -, shown'⟩ := exists_of_loaded loaded_alternateWeeks
  obtain ⟨d'', f'', read'', start'', -, opens'', started'', -⟩ := exists_of_loaded loaded_eastern
  refine ⟨⟨d, f, _, read, rule, opens, by rw [started, start], shown, ?_⟩, ⟨d', f', read', opens', shown'⟩,
    d'', f'', read'', by rw [start'']; rfl, opens'', ?_⟩
  · rw [start]
    intro same
    have twice := firstTwo_shown
    rw [firstTwo, same] at twice
    cases twice.symm.trans firstTwo_lastDays
  · rw [started'', start'']
    intro same
    cases same

end Form

end Cadence
