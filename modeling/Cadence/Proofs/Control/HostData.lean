import Cadence.Control
import Cadence.Proofs.Description.Failures
import Cadence.Proofs.Description.Members
import Cadence.Proofs.Form.Preview
import Cadence.Proofs.Json.Refused
import Cadence.Proofs.Rule.Displayed

/-!
# Data of a host

A host hands in any text. A text that stands for a recurrence becomes the control's recurrence, at first and later on; any other
text leaves the control without one at first and with the one it has later on. That holds of all texts whose numbers and
dates can be reckoned with.
-/

namespace Cadence

open Text

variable {c : Setting} {format : LocaleFormat} {d : Description}

/-! ### Sentences -/

namespace RuleText

variable {r : RuleText} {rule fallback : Datum} {pattern : Pattern} {anchor : Stamp} {recurrence : Recurrence}

/-- The text that goes with imported fields is described, if the imported rule can be reckoned with. -/
theorem Becomes.exists_describe (becomes : r.Becomes c rule fallback pattern anchor recurrence d) (known : c.format = .ok format)
    (areRead : AreRead r.parts) (checked : r.check = .ok ()) (reckonable : r.IsReckonable) :
    ∃ sentence, describe c d.rule = .ok sentence := by
  obtain ⟨text, rule, rfl | ⟨made, -⟩⟩ := becomes.exists_text
  · have plain := areRead.arePlain reckonable.noBlank (inOrder_ne_nil_of_check checked) (recurrenceFrom_eq_ok.mp becomes.evaluated)
    rw [rule]
    exact exists_describe_body plain checked reckonable (isImportable_of_supported becomes.supported) known
  · rw [rule]
    exact Description.exists_describe made known

end RuleText

/-! ### Members that are refused -/

theorem isValueOrKind_of_toInt {value : Datum} {e : Failure} (finite : ∀ negative, value ≠ .real (.infinity negative))
    (failed : liftFault value.toInt = .error e) : e.isValueOrKind = true := by
  have fault : ∀ f, value.toInt = .error f → f = .value ∨ f = .kind := by
    intro f failed
    cases value with
    | bool b | int n => cases failed
    | real x =>
      cases x with
      | nan =>
        cases failed
        exact .inl rfl
      | infinity negative => exact absurd rfl (finite negative)
      | finite negative m e => cases failed
    | text s =>
      unfold Datum.toInt at failed
      dsimp only at failed
      split at failed <;> cases failed
      exact .inl rfl
    | null | list _ | object _ | day _ | stamp _ =>
      cases failed
      exact .inr rfl
  cases read : value.toInt with
  | ok n =>
    rw [read] at failed
    cases failed
  | error f =>
    rw [read] at failed
    cases failed
    rcases fault f read with rfl | rfl <;> rfl

theorem isValueOrKind_of_weekdaysOf {value : Datum} {e : Failure} (failed : weekdaysOf value = .error e) : e.isValueOrKind = true := by
  unfold weekdaysOf at failed
  split at failed
  · rcases bind_eq_error.mp failed with failed | ⟨items, -, failed⟩
    · unfold itemsOf at failed
      split at failed <;> cases failed
      rfl
    · rcases bind_eq_error.mp failed with failed | ⟨_, -, failed⟩
      · obtain ⟨item, -, failed⟩ := exists_of_mapM_error failed
        unfold weekdayOf at failed
        split at failed
        · split at failed <;> cases failed
          rfl
        · cases failed
          rfl
      · cases failed
  · cases failed

theorem Description.ofRuleOrDaily_eq_ok {rule fallback : Datum} (found : ofRuleOrDaily c rule fallback = .ok d) :
    ofRule c rule fallback = .ok d ∨ ∃ start, d = .daily start := by
  unfold ofRuleOrDaily at found
  split at found
  · rename_i imported
    cases found
    exact .inl imported
  · split at found
    · split at found
      · cases found
        exact .inr ⟨_, rfl⟩
      · split at found
        · cases found
          exact .inr ⟨_, rfl⟩
        · split at found <;> cases found
          exact .inr ⟨_, rfl⟩
    · cases found

/-! ### Descriptions that a text stands for -/

namespace Control

variable {k : Control} {s : Text} {members : List (Text × Datum)} {data isVisible locale : Datum} {found : Option Description}

/-- An object that has a rule and leaves the pattern to it. -/
def isRuleOnly (members : List (Text × Datum)) : Bool :=
  (Datum.lookup "rrule" members).truthy && ! Datum.hasMember "pattern" members

/-- The sentence for the rule of a description that has been imported. -/
def sentenceFor (c : Setting) (d : Description) : Result Datum :=
  if d.rule.truthy then (describe c d.rule).map .text else .ok .null

/-- A text stands for a description: it writes an object with its fields, or with a rule that becomes them. -/
def StandsFor (c : Setting) (s : Text) (d : Description) : Prop :=
  ∃ members, Json.read s = .ok (.object members) ∧
    if isRuleOnly members then
      ∃ e sentence, Description.ofRuleOrDaily c (Datum.lookup "rrule" members) (Datum.lookup "startDate" members) = .ok e ∧
        sentenceFor c e = .ok sentence ∧ d = { e with sentence }
    else Description.IsIn c members d

theorem loadMembers_eq (c : Setting) (members : List (Text × Datum)) :
    loadMembers c members =
      if isRuleOnly members then do
        let e ← Description.ofRuleOrDaily c (Datum.lookup "rrule" members) (Datum.lookup "startDate" members)
        let sentence ← sentenceFor c e
        return some { e with sentence }
      else Result.recover ((Description.ofMembers c members).map some) Failure.isValueOrKind none := by
  unfold loadMembers isRuleOnly
  dsimp only
  split
  · congr 1
    funext e
    unfold sentenceFor
    split <;> rfl
  · rfl

theorem loadMembers_eq_some : loadMembers c members = .ok (some d) ↔
    if isRuleOnly members then
      ∃ e sentence, Description.ofRuleOrDaily c (Datum.lookup "rrule" members) (Datum.lookup "startDate" members) = .ok e ∧
        sentenceFor c e = .ok sentence ∧ d = { e with sentence }
    else Description.IsIn c members d := by
  rw [loadMembers_eq]
  split
  · constructor
    · intro loaded
      obtain ⟨e, imported, loaded⟩ := bind_eq_ok.mp loaded
      obtain ⟨sentence, described, loaded⟩ := bind_eq_ok.mp loaded
      cases loaded
      exact ⟨e, sentence, imported, described, rfl⟩
    · rintro ⟨e, sentence, imported, described, rfl⟩
      exact bind_eq_ok.mpr ⟨e, imported, bind_eq_ok.mpr ⟨sentence, described, rfl⟩⟩
  · rw [← Description.ofMembers_eq_ok]
    cases Description.ofMembers c members with
    | ok e => exact ⟨fun same => by cases same; rfl, fun same => by cases same; rfl⟩
    | error e =>
      refine ⟨fun loaded => ?_, nofun⟩
      unfold Result.recover at loaded
      dsimp only [Except.map] at loaded
      split at loaded <;> cases loaded

/-- A text is loaded as the description that it stands for. -/
theorem load_eq_some : load c (.text s) = .ok (some d) ↔ StandsFor c s d := by
  unfold load StandsFor
  dsimp only
  split
  · rename_i members read
    rw [loadMembers_eq_some]
    constructor
    · exact fun loaded => ⟨members, read, loaded⟩
    · rintro ⟨members', read', stands⟩
      obtain rfl : members = members' := Datum.object.inj (Except.ok.inj (read.symm.trans read'))
      exact stands
  · rename_i value notObject read
    refine ⟨nofun, fun ⟨members, read', _⟩ => ?_⟩
    exact absurd (Except.ok.inj (read.symm.trans read')) (notObject members)
  all_goals
    rename_i read
    exact ⟨nofun, fun ⟨members, read', _⟩ => nomatch read.symm.trans read'⟩

/-! ### Texts that can be reckoned with -/

/-- The numbers and dates of an object can be reckoned with: its dates have no numbers of more than 28 digits, its interval is not
    infinite, and a rule without a pattern keeps clear of the ends of the calendar. -/
structure IsTame (c : Setting) (members : List (Text × Datum)) : Prop where
  start : (Datum.lookup "startDate" members).IsReckonable
  finish : (Datum.lookup "endDate" members).IsReckonable
  every : ∀ negative, Datum.lookup "every" members ≠ .real (.infinity negative)
  rule : isRuleOnly members = true → ∀ text r, Datum.lookup "rrule" members = .text text → RuleText.written text = .ok r →
    r.IsCounted ∧ r.IsReckonable ∧ ∀ pattern, Pattern.ofFrequency? (r.value .freq) = some pattern →
      r.KeepsClear c (Datum.lookup "startDate" members) pattern

theorem exists_ofRuleOrDaily {rule fallback : Datum} (known : c.format = .ok format) (given : fallback.IsReckonable)
    (sound : ∀ text r, rule = .text text → RuleText.written text = .ok r → r.IsCounted ∧ r.IsReckonable ∧
      ∀ pattern, Pattern.ofFrequency? (r.value .freq) = some pattern → r.KeepsClear c fallback pattern) :
    ∃ e sentence, Description.ofRuleOrDaily c rule fallback = .ok e ∧ sentenceFor c e = .ok sentence := by
  have refused : ∀ e, Description.ofRule c rule fallback = .error e → e.isRule = true := by
    intro e failed
    cases rule with
    | text text =>
      exact Description.isRule_of_ofRule known given (fun r wrote => ⟨(sound text r rfl wrote).1, (sound text r rfl wrote).2.1⟩)
        (fun r wrote => (sound text r rfl wrote).2.2) failed
    | null | bool _ | int _ | real _ | list _ | object _ | day _ | stamp _ =>
      cases failed
      rfl
  obtain ⟨e, found⟩ := Description.exists_ofRuleOrDaily known given refused
  suffices described : ∃ sentence, sentenceFor c e = .ok sentence by
    obtain ⟨sentence, described⟩ := described
    exact ⟨e, sentence, found, described⟩
  rcases Description.ofRuleOrDaily_eq_ok found with imported | ⟨start, rfl⟩
  · obtain ⟨r, read, made⟩ := bind_eq_ok.mp imported
    obtain ⟨pattern, anchor, recurrence, becomes⟩ := RuleText.becomes_of_description made
    obtain ⟨text, rfl⟩ : ∃ text, rule = .text text := by
      cases rule with
      | text text => exact ⟨text, rfl⟩
      | null | bool _ | int _ | real _ | list _ | object _ | day _ | stamp _ => cases read
    obtain ⟨sentence, described⟩ := becomes.exists_describe known (RuleText.areRead_of_read read) (RuleText.check_of_read read)
      (sound text r rfl (RuleText.written_of_read read)).2.1
    unfold sentenceFor
    split
    · exact ⟨.text sentence, by rw [described]; rfl⟩
    · exact ⟨.null, rfl⟩
  · exact ⟨.null, rfl⟩

theorem isValueOrKind_of_ofMembers {e : Failure} (known : c.format = .ok format) (tame : IsTame c members)
    (failed : Description.ofMembers c members = .error e) : e.isValueOrKind = true := by
  have date {value : Datum} (reckonable : value.IsReckonable) {e : Failure} (failed : c.stamp value = .error e) :
      e.isValueOrKind = true := by
    unfold Setting.stamp at failed
    rw [known] at failed
    exact Failure.isValueOrKind_of_isValue (Failure.isValue_of_isDate (Datum.isDate_of_stampIn reckonable failed))
  have choice {α : Type} {ofToken? : Text → Option α} {default : α} {value : Datum} {e : Failure}
      (failed : choiceOf ofToken? default value = .error e) : e.isValueOrKind = true := by
    unfold choiceOf at failed
    split at failed
    · cases failed
    · split at failed
      · unfold orFault at failed
        split at failed <;> cases failed
        rfl
      · cases failed
        rfl
  rw [Description.ofMembers_eq] at failed
  rcases bind_eq_error.mp failed with failed | ⟨_, -, failed⟩
  · unfold Description.startIn at failed
    dsimp only at failed
    split at failed
    · exact date tame.start failed
    · cases failed
  rcases bind_eq_error.mp failed with failed | ⟨_, -, failed⟩
  · unfold Description.finishIn at failed
    dsimp only at failed
    split at failed
    · exact date tame.finish (map_eq_error.mp failed)
    · cases failed
  rcases bind_eq_error.mp failed with failed | ⟨_, -, failed⟩
  · unfold Description.everyIn at failed
    dsimp only at failed
    split at failed
    · exact isValueOrKind_of_toInt tame.every failed
    · cases failed
  rcases bind_eq_error.mp failed with failed | ⟨_, -, failed⟩
  · exact choice failed
  rcases bind_eq_error.mp failed with failed | ⟨_, -, failed⟩
  · exact isValueOrKind_of_weekdaysOf failed
  rcases bind_eq_error.mp failed with failed | ⟨_, -, failed⟩
  · exact choice failed
  rcases bind_eq_error.mp failed with failed | ⟨_, -, failed⟩
  · exact choice failed
  · cases failed

theorem exists_loadMembers (known : c.format = .ok format) (tame : IsTame c members) : ∃ found, loadMembers c members = .ok found := by
  rw [loadMembers_eq]
  split
  · rename_i ruleOnly
    obtain ⟨e, sentence, imported, described⟩ := exists_ofRuleOrDaily known tame.start (tame.rule ruleOnly)
    exact ⟨_, bind_eq_ok.mpr ⟨e, imported, bind_eq_ok.mpr ⟨sentence, described, rfl⟩⟩⟩
  · exact exists_recover fun e failed => isValueOrKind_of_ofMembers known tame (map_eq_error.mp failed)

/-- A text that can be reckoned with is loaded, as a description or as none. -/
theorem exists_load (known : c.format = .ok format) (json : ∀ flaw, Json.read s = .error flaw → flaw = .malformed)
    (tame : ∀ members, Json.read s = .ok (.object members) → IsTame c members) : ∃ found, load c (.text s) = .ok found := by
  unfold load
  dsimp only
  split
  · rename_i members read
    exact exists_loadMembers known (tame members read)
  · exact ⟨none, rfl⟩
  · exact ⟨none, rfl⟩
  · rename_i read
    cases json _ read
  · rename_i read
    cases json _ read

/-! ### Operations of a host -/

/-- A locale as a host gives it: its tag, or none. -/
def IsLocale (locale : Datum) : Prop := locale = .null ∨ ∃ tag, locale = .text tag

theorem exists_format (own : IsLocale k.locale) (given : IsLocale locale) :
    ∃ format, ((k.receive isVisible locale).setting c).format = .ok format := by
  have known {locale : Datum} (isLocale : IsLocale locale) : ∃ format, LocaleFormat.ofDatum locale = .ok format := by
    obtain rfl | ⟨tag, rfl⟩ := isLocale
    · exact ⟨_, LocaleFormat.ofDatum_null⟩
    · exact ⟨_, LocaleFormat.ofDatum_text tag⟩
  show ∃ format, LocaleFormat.ofDatum (if locale.truthy then locale else k.locale) = .ok format
  split
  · exact known given
  · exact known own

theorem load_nil (c : Setting) : load c (.text []) = .ok none := rfl

theorem init_of_load (loaded : load ((k.receive isVisible locale).setting c) (.text s) = .ok found) :
    k.init c (.text s) isVisible locale = ({ k.receive isVisible locale with recurrence := found }, .ok ()) := by
  unfold init
  dsimp only
  cases s with
  | nil =>
    obtain rfl : none = found := Except.ok.inj ((load_nil _).symm.trans loaded)
    rfl
  | cons first rest =>
    rw [if_pos (show (Datum.text (first :: rest)).truthy = true from rfl), loaded]

theorem updateView_of_load (loaded : load ((k.receive isVisible locale).setting c) (.text s) = .ok found) :
    ∃ kept, k.updateView c (.text s) isVisible locale = ({ k.receive isVisible locale with recurrence := kept }, .ok ()) ∧
      (found = none → kept = k.recurrence) ∧
      ∀ d, found = some d → ∃ d', kept = some d' ∧ (d' = d ∨ k.recurrence = some d' ∧ d.sameObject d' = true) := by
  unfold updateView
  dsimp only
  cases s with
  | nil =>
    obtain rfl : none = found := Except.ok.inj ((load_nil _).symm.trans loaded)
    exact ⟨k.recurrence, rfl, fun _ => rfl, fun _ same => (nomatch same)⟩
  | cons first rest =>
    rw [if_pos (show (Datum.text (first :: rest)).truthy = true from rfl), loaded]
    cases found with
    | none => exact ⟨k.recurrence, rfl, fun _ => rfl, fun _ same => (nomatch same)⟩
    | some d =>
      dsimp only
      split
      · rename_i equal
        obtain ⟨d', present, same⟩ : ∃ d', k.recurrence = some d' ∧ d.sameObject d' = true :=
          (Option.any_eq_true d.sameObject k.recurrence).mp equal
        refine ⟨k.recurrence, rfl, nofun, ?_⟩
        rintro _ ⟨⟩
        exact ⟨d', present, .inr ⟨present, same⟩⟩
      · refine ⟨some d, rfl, nofun, ?_⟩
        rintro _ ⟨⟩
        exact ⟨d, rfl, .inl rfl⟩

/-- Whatever text a host hands in, the control takes it without a failure. A text that stands for a description gives the control that
    recurrence, unless it has an equal one already; any other text leaves it without a recurrence at first, and with the one it has
    later on. The text is refused as JSON only for not being JSON, and what it writes can be reckoned with. -/
theorem receives_text {k : Control} {c : Setting} {s : Text} {isVisible locale : Datum} (own : IsLocale k.locale)
    (given : IsLocale locale) (json : ∀ flaw, Json.read s = .error flaw → flaw = .malformed)
    (tame : ∀ members, Json.read s = .ok (.object members) → IsTame ((k.receive isVisible locale).setting c) members) :
    ∃ found, (∀ d, found = some d ↔ StandsFor ((k.receive isVisible locale).setting c) s d) ∧
      k.init c (.text s) isVisible locale = ({ k.receive isVisible locale with recurrence := found }, .ok ()) ∧
      ∃ kept, k.updateView c (.text s) isVisible locale = ({ k.receive isVisible locale with recurrence := kept }, .ok ()) ∧
        (found = none → kept = k.recurrence) ∧
        ∀ d, found = some d → ∃ d', kept = some d' ∧ (d' = d ∨ k.recurrence = some d' ∧ d.sameObject d' = true) := by
  obtain ⟨format, known⟩ := exists_format (c := c) own given
  obtain ⟨found, loaded⟩ := exists_load known json tame
  refine ⟨found, fun d => ?_, init_of_load loaded, updateView_of_load loaded⟩
  rw [← load_eq_some, loaded, Except.ok.injEq]

/-- A member whose value is a text. -/
def textMember? : Text × Datum → Option (Text × Text)
  | (name, .text s) => some (name, s)
  | _ => none

/-- The members of an object that has nothing but texts. -/
def textMembers? : Except Json.Flaw Datum → Option (List (Text × Text))
  | .ok (.object members) => members.mapM textMember?
  | _ => none

theorem eq_of_textMember {member : Text × Datum} {named : Text × Text} (found : textMember? member = some named) :
    member = (named.1, .text named.2) := by
  obtain ⟨name, value⟩ := member
  cases value <;> cases found
  rfl

theorem eq_map_of_textMember {members : List (Text × Datum)} {texts : List (Text × Text)}
    (found : members.mapM textMember? = some texts) : members = texts.map fun named => (named.1, .text named.2) := by
  induction members generalizing texts with
  | nil =>
    obtain rfl : [] = texts := by simpa using found
    rfl
  | cons member rest ih =>
    rw [List.mapM_cons, Option.bind_eq_bind, Option.bind_eq_some_iff] at found
    obtain ⟨first, named, found⟩ := found
    rw [Option.bind_eq_bind, Option.bind_eq_some_iff] at found
    obtain ⟨more, others, same⟩ := found
    obtain rfl : first :: more = texts := Option.some.inj same
    rw [ih others, eq_of_textMember named]
    rfl

theorem eq_object_of_textMembers {read : Except Json.Flaw Datum} {texts : List (Text × Text)} (found : textMembers? read = some texts) :
    read = .ok (.object (texts.map fun named => (named.1, .text named.2))) :=
  match read, found with
  | .ok (.object _), found => congrArg (Except.ok ∘ Datum.object) (eq_map_of_textMember found)

/-- A rule that a host hands in without a pattern, with its start. -/
def alternateDaysData : Text :=
  "\x7b\"rrule\": \"FREQ=DAILY;INTERVAL=2\", \"startDate\": \"1 March 2025\"\x7d".toList

theorem receives_text_alternateDays : ∃ found,
    (∀ d, found = some d ↔ StandsFor (((ofSettings {}).receive (.bool true) .null).setting Description.newYear2025) alternateDaysData d) ∧
    (ofSettings {}).init Description.newYear2025 (.text alternateDaysData) (.bool true) .null =
      ({ (ofSettings {}).receive (.bool true) .null with recurrence := found }, .ok ()) := by
  have read : Json.read alternateDaysData =
      .ok (.object [("rrule", .text "FREQ=DAILY;INTERVAL=2"), ("startDate", .text "1 March 2025")]) :=
    @eq_object_of_textMembers _ [("rrule", "FREQ=DAILY;INTERVAL=2"), ("startDate", "1 March 2025")] (by decide +kernel)
  have written : RuleText.written "FREQ=DAILY;INTERVAL=2" = .ok { parts := [(.freq, "DAILY"), (.interval, "2")] } := rfl
  have tame : IsTame (((ofSettings {}).receive (.bool true) .null).setting Description.newYear2025)
      [("rrule", .text "FREQ=DAILY;INTERVAL=2"), ("startDate", .text "1 March 2025")] := by
    refine ⟨?_, nofun, nofun, ?_⟩
    · rintro s ⟨⟩
      decide +kernel
    · rintro - text r ⟨⟩ wrote
      obtain rfl := Except.ok.inj (written.symm.trans wrote)
      refine ⟨?_, ⟨by decide, nofun⟩, ?_⟩
      · rintro value ⟨⟩ -
        decide
      · refine fun pattern frequency => ⟨nofun, ?_, fun _ named => absurd rfl named⟩
        intro _ item member
        cases member
  obtain ⟨found, stands, received, -⟩ := receives_text (.inr ⟨"en-GB", rfl⟩) (.inl rfl)
    (fun flaw refused => nomatch read.symm.trans refused) fun members found => by
      obtain rfl : _ = members := Datum.object.inj (Except.ok.inj (read.symm.trans found))
      exact tame
  exact ⟨found, stands, received⟩

/-- An interval that is too large for a decimal makes the control fail. -/
theorem receives_text_infinite :
    ((ofSettings {}).init Description.newYear2025 (.text "\x7b\"every\": 1e999\x7d".toList) .null .null).2.toOption = none := by
  decide +kernel

end Control

end Cadence
