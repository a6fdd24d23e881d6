import Cadence.Proofs.Description.RoundTrip
import Cadence.Proofs.Document.Octets
import Cadence.Proofs.Document.Rule
import Cadence.Proofs.Rule.Anchored

/-!
# Built rules in documents

A rule that is built from fields is embedded as it stands. Its parts have the same order in rule texts as in documents, and
each of its values is written there already as documents write it, but for its end, which is marked as being at universal
time. The document has one line for the rule and one for the start, whatever the title, the identity and the product hold.
-/

namespace Cadence

open Text

namespace Document

/-! ### Lines by their names -/

/-- The name of a line, before its parameters and its value. -/
def lineName (line : Text) : Text := line.takeWhile fun c => c ≠ ':' && c ≠ ';'

/-- A name that a line can have, without the marks that end one. -/
def isPlainName (name : Text) : Bool := name.all fun c => c ≠ ':' && c ≠ ';'

/-- The lines of a document that have a name. -/
def linesNamed (name document : Text) : List Text := (contentLines document).filter fun line => lineName line = name

/-- A rule with its end, if it has one, marked as being at universal time. -/
def markEnd (rule : Text) : Text :=
  joinWith [';'] ((splitOn ';' rule).map fun part => if startsWith "UNTIL=" part then part ++ ['Z'] else part)

theorem lineName_whole {l : ContentLine} (plain : isPlainName l.name = true) : lineName (whole l) = l.name := by
  rw [lineName, whole, List.takeWhile_append_of_pos (List.all_eq_true.mp plain), List.takeWhile_cons_of_neg (by decide), List.append_nil]

theorem linesNamed_text {ls : List ContentLine} (lines : ∀ l ∈ ls, IsLine l)
    (plain : ∀ l ∈ ls, isPlainName l.name = true) {name : Text} (named : name ≠ []) :
    linesNamed name (ls.flatMap (·.text)) = (ls.filter fun l => l.name = name).map whole := by
  have last : [([] : Text)].filter (fun line => lineName line = name) = [] :=
    List.filter_eq_nil_iff.mpr (List.forall_mem_singleton.mpr (by simpa [lineName] using named.symm))
  rw [linesNamed, contentLines_text lines, List.filter_append, last, List.append_nil, List.filter_map]
  refine congrArg (List.map whole) (List.filter_congr fun l member => ?_)
  rw [Function.comp_apply, lineName_whole (plain l member)]

variable {e : Event}

theorem Event.plain_name : ∀ l ∈ e.lines, isPlainName l.name = true := by
  have data {name : Text} {value : Datum} (plain : isPlainName name = true) :
      ∀ l ∈ valueLines name value, isPlainName l.name = true := fun l member => (of_mem_valueLines member).1 ▸ plain
  rw [e.lines_eq, Event.opening, Event.middle]
  simp only [List.forall_mem_append, List.forall_mem_cons]
  exact ⟨⟨⟨⟨⟨rfl, rfl, by simp⟩, data rfl⟩, rfl, by simp⟩, data rfl⟩, ⟨rfl, rfl, data rfl⟩, rfl, rfl, rfl, by simp⟩

theorem Event.filter_rule (e : Event) :
    e.lines.filter (fun l => l.name = "RRULE".toList) = [{ name := "RRULE", value := e.rule }] := by
  have opening : e.opening.filter (fun l => l.name = "RRULE".toList) = [] :=
    List.filter_eq_nil_iff.mpr fun l member found => (Event.opening_name member).2 (of_decide_eq_true found)
  have middle : e.middle.filter (fun l => l.name = "RRULE".toList) = [] :=
    List.filter_eq_nil_iff.mpr fun l member found => Event.middle_name member (of_decide_eq_true found)
  rw [e.lines_eq, List.filter_append, List.filter_append, opening, middle]
  rfl

theorem Event.filter_start (e : Event) :
    e.lines.filter (fun l => l.name = "DTSTART".toList) = [{ name := "DTSTART", value := momentText e.start }] := by
  have opening : e.opening.filter (fun l => l.name = "DTSTART".toList) = [] :=
    List.filter_eq_nil_iff.mpr fun l member found => (Event.opening_name member).1 (of_decide_eq_true found)
  have identity : (valueLines "UID" e.identity).filter (fun l => l.name = "DTSTART".toList) = [] :=
    List.filter_eq_nil_iff.mpr fun l member => by
      rw [(of_mem_valueLines member).1]
      decide
  rw [e.lines_eq, List.filter_append, List.filter_append, opening, Event.middle]
  show _ :: (valueLines "UID" e.identity).filter (fun l => l.name = "DTSTART".toList) ++ [] = _
  rw [identity]
  rfl

/-- A document has one line for the rule of its event and one for the start. -/
theorem Event.linesNamed_text (oneLine : '\n' ∉ e.rule) :
    linesNamed "RRULE" (e.lines.flatMap (·.text)) = ["RRULE:" ++ e.rule] ∧
      linesNamed "DTSTART" (e.lines.flatMap (·.text)) = ["DTSTART:" ++ momentText e.start] := by
  have lines := Event.isLine oneLine
  constructor
  · rw [Document.linesNamed_text lines Event.plain_name (by decide)]
    exact congrArg (List.map whole) e.filter_rule
  · rw [Document.linesNamed_text lines Event.plain_name (by decide)]
    exact congrArg (List.map whole) e.filter_start

/-- An event whose rule and whose texts have octets has a document, with these two lines. -/
theorem Event.exists_document {product title identity : Text} (products : e.product = .text product) (titles : e.title = .text title)
    (identities : e.identity = .text identity) (product_whole : isWhole product = true) (title_whole : isWhole title = true)
    (identity_whole : isWhole identity = true) (rule_whole : isWhole e.rule = true) (noBlank : NoBlank e.rule) :
    ∃ document, e.text? = some document ∧ document ≠ [] ∧ linesNamed "RRULE" document = ["RRULE:" ++ e.rule] ∧
      linesNamed "DTSTART" document = ["DTSTART:" ++ momentText e.start] := by
  obtain ⟨rules, starts⟩ := Event.linesNamed_text fun member => absurd (noBlank _ member) (by decide)
  refine ⟨_, Event.text?_eq products titles identities product_whole title_whole identity_whole rule_whole, fun empty => ?_,
    rules, starts⟩
  rw [empty] at rules
  cases rules

/-! ### Values as documents write them -/

/-- A part whose end is marked as being at universal time. -/
def marked (part : RuleKey × Text) : RuleKey × Text := (part.1, if part.1 = .until then part.2 ++ ['Z'] else part.2)

theorem partText_marked (part : RuleKey × Text) : RuleText.partText (marked part) =
    if startsWith "UNTIL=" (RuleText.partText part) then RuleText.partText part ++ ['Z'] else RuleText.partText part := by
  obtain ⟨key, value⟩ := part
  cases key <;> rfl

section Values
variable {f : RuleFields} {n : Nat} {p : Int} {key : RuleKey} {value : Text}

theorem ofInt_readInt? {k : Nat} (few : (Text.ofNat k).length ≤ maxDigits) :
    (readInt? (Text.ofNat k)).map ofInt = some (Text.ofNat k) := by
  rw [readInt?_ofNat, if_pos few]
  rfl

theorem valueText?_frequency (pattern : Pattern) : valueText? .freq pattern.frequency = some pattern.frequency := by
  cases pattern <;> rfl

theorem valueText?_compact {e : Stamp} (year : 1000 ≤ e.day.year) :
    valueText? .until (Compact.text e) = some (Compact.text e ++ ['Z']) := by
  have found : finish? (Compact.text e) = some e.plain := by
    rw [Compact.text_eq year, ← List.append_nil (row e.clock.digits),
      finish?_moment e.day.areDigits_digits e.clock.areDigits_digits rfl rfl (.inl rfl), ofDigits?_digits]
  have written : momentText e.plain = Compact.text e ++ ['Z'] := by
    rw [momentText_eq, Compact.text_eq year, List.append_assoc, List.cons_append]
    rfl
  rw [valueText?_of_comma (Compact.not_mem_text e (by decide) (by decide)), itemText?, found, Option.map_some, written]

theorem valueText?_ofNat {k : Nat} (few : (Text.ofNat k).length ≤ maxDigits)
    (plainly : itemText? key (Text.ofNat k) = (readInt? (Text.ofNat k)).map ofInt) :
    valueText? key (Text.ofNat k) = some (Text.ofNat k) := by
  rw [valueText?_of_comma (not_mem_ofNat k (by decide)), plainly, ofInt_readInt? few]

/-- Every value in a rule of fields is written as it stands, but for its end, which is marked. -/
theorem rewrite?_ruleOf (sound : f.IsSound n p) (few : (Text.ofNat n).length ≤ maxDigits)
    (year : ∀ e, f.finish = some e → 1000 ≤ e.day.year) (got : (f.ruleOf p).get? key = some value) :
    rewrite? (key, value) = some (marked (key, value)) := by
  have parts := f.start.day.parts_lt
  have number {c : Prop} [Decidable c] {k : Nat} (small : k < 10000)
      (plainly : itemText? key (Text.ofNat k) = (readInt? (Text.ofNat k)).map ofInt)
      (got : (if c then some (Text.ofNat k) else none) = some value) : valueText? key value = some value := by
    split at got
    · exact Option.some.inj got ▸ valueText?_ofNat (ofNat_le_maxDigits small) plainly
    · cases got
  suffices written : valueText? key value = some (marked (key, value)).2 by
    rw [rewrite?, written]
    rfl
  rw [RuleFields.get?_ruleOf] at got
  cases key with
  | freq => exact Option.some.inj got ▸ valueText?_frequency f.pattern
  | interval => exact Option.some.inj got ▸ sound.interval ▸ valueText?_ofNat few rfl
  | «until» =>
    obtain ⟨e, ends, rfl⟩ := Option.map_eq_some_iff.mp got
    exact valueText?_compact (year e ends)
  | byDay => exact valueText?_weekdays value
  | byMonthDay => exact number (by omega) rfl got
  | byMonth =>
    refine number (by omega) ?_ got
    rw [itemText?, monthText?, all_isDigit_ofNat, if_pos (by simpa using ofNat_ne_nil _)]
  | _ => cases got

/-- The parts of a rule of fields have the same order in documents as in rule texts. -/
theorem inOrder_ruleOf (f : RuleFields) (p : Int) : (f.ruleOf p).inOrder ruleOrder = (f.ruleOf p).inOrder RuleKey.all := by
  have missing (key : RuleKey) (foreign : key ∉ [RuleKey.freq, .until, .interval, .byDay, .byMonthDay, .byMonth]) :
      (f.ruleOf p).get? key = none := by
    rw [RuleFields.get?_ruleOf]
    cases key <;> first | rfl | exact absurd (by decide) foreign
  have some (keys : List RuleKey) : (f.ruleOf p).inOrder keys =
      (f.ruleOf p).inOrder (keys.filter (· ∈ [RuleKey.freq, .until, .interval, .byDay, .byMonthDay, .byMonth])) := by
    unfold RuleText.inOrder
    rw [List.filterMap_filter]
    refine congrArg (List.filterMap · keys) (funext fun key => ?_)
    split
    · rfl
    · rename_i foreign
      rw [missing key (by simpa using foreign), Option.map_none]
  rw [some ruleOrder, some RuleKey.all]
  rfl

/-- Marking the end of a rule marks the part that it is in. -/
theorem markEnd_body (sound : f.IsSound n p) : markEnd (f.ruleOf p).body =
    joinWith [';'] ((((f.ruleOf p).inOrder RuleKey.all).map marked).map RuleText.partText) := by
  have plain := RuleFields.arePlain_ruleOf sound
  rw [markEnd, RuleText.splitOn_body plain.semicolon (Description.inOrder_ruleOf_ne_nil f p), List.map_map, List.map_map]
  exact congrArg (joinWith [';']) (List.map_congr_left fun part _ => (partText_marked part).symm)

/-- The rule of fields that a document states has the parts of the rule in their order, its end being marked. -/
theorem ruleText?_ruleOf (sound : f.IsSound n p) (few : (Text.ofNat n).length ≤ maxDigits)
    (year : ∀ e, f.finish = some e → 1000 ≤ e.day.year) : ruleText? (f.ruleOf p) = some (markEnd (f.ruleOf p).body) := by
  have plain := RuleFields.arePlain_ruleOf sound
  have rewritten : ((f.ruleOf p).inOrder RuleKey.all).mapM rewrite? = some (((f.ruleOf p).inOrder RuleKey.all).map marked) :=
    mapM?_eq_map fun part member => rewrite?_ruleOf sound few year (RuleText.mem_inOrder.mp member).2
  rw [ruleText?_eq fun part member => (plain part member).equals, inOrder_ruleOf, rewritten, markEnd_body sound]
  rfl

/-- The values of a rule of fields are as plain when its end is marked, and have octets. -/
theorem plain_marked (sound : f.IsSound n p) : ∀ part ∈ ((f.ruleOf p).inOrder RuleKey.all).map marked,
    isWhole part.2 = true ∧ NoBlank part.2 := by
  refine List.forall_mem_map.mpr fun part member => ?_
  have got := (RuleText.mem_inOrder.mp member).2
  have whole := RuleFields.isWhole_value sound got
  have noBlank := (RuleFields.arePlain_ruleOf sound part (RuleText.mem_of_get? got)).noBlank
  by_cases ends : part.1 = .until
  · have letter : NoBlank ['Z'] := List.forall_mem_singleton.mpr (by decide)
    simp only [marked, if_pos ends, isWhole_append, whole]
    exact ⟨rfl, noBlank.append letter⟩
  · simp only [marked, if_neg ends]
    exact ⟨whole, noBlank⟩

theorem noBlank_markEnd (sound : f.IsSound n p) : NoBlank (markEnd (f.ruleOf p).body) := by
  rw [markEnd_body sound]
  exact RuleText.noBlank_parts fun part member => (plain_marked sound part member).2

theorem isWhole_markEnd (sound : f.IsSound n p) : isWhole (markEnd (f.ruleOf p).body) = true := by
  rw [markEnd_body sound]
  refine isWhole_joinWith rfl (List.forall_mem_map.mpr fun part member => ?_)
  rw [RuleText.partText, isWhole_append, isWhole_cons, RuleKey.isWhole_name, (plain_marked sound part member).1]
  rfl

end Values

end Document

/-! ### Documents -/

section Documents
variable {c : Setting} {rule start : Datum} {r : RuleText} {anchor moved : Stamp} {recurrence : Recurrence}
  {text : Text}

/-- A rule that is evaluated from its start makes an event that starts there, at universal time. -/
theorem eventOf_eq_ok (title identity product : Datum) (read : RuleText.read rule = .ok r) (anchored : r.anchor c.plain start = .ok anchor)
    (evaluated : r.recurrenceFrom c.today anchor = .ok recurrence) (universal : anchor.toUniversal? = some moved)
    (wrote : Document.ruleText? r = some text) :
    eventOf c rule title start identity product = .ok {
      product, title
      identity := if identity.truthy then identity else .text (c.identity ++ "@recurrence-picker")
      start := moved
      written := c.today
      rule := text } := by
  have evaluates : r.recurrence c.plain start = .ok recurrence := bind_eq_ok.mpr ⟨anchor, anchored, evaluated⟩
  rw [eventOf, read]
  simp only [bind, Except.bind, evaluates, anchored, universal, wrote, orFault]
  rfl

/-- A rule that can be evaluated from a start without a zone, and whose text has octets, has a document with one line for its
text and one for the start. -/
theorem exists_document (read : RuleText.read rule = .ok r) (anchored : r.anchor c.plain start = .ok anchor)
    (evaluated : r.recurrenceFrom c.today anchor = .ok recurrence) (naive : anchor.zone = none)
    (wrote : Document.ruleText? r = some text) (noBlank : NoBlank text) (text_whole : isWhole text = true)
    {title identity product : Text} (title_whole : isWhole title = true) (identity_whole : isWhole identity = true)
    (drawn_whole : isWhole c.identity = true) (product_whole : isWhole product = true) :
    ∃ document, exportDocument c rule (.text title) start (.text identity) (.text product) = .ok document ∧ document ≠ [] ∧
      Document.linesNamed "RRULE" document = ["RRULE:" ++ text] ∧
      Document.linesNamed "DTSTART" document = ["DTSTART:" ++ Document.momentText anchor] := by
  have universal : anchor.toUniversal? = some { anchor with zone := some 0 } := by rw [Stamp.toUniversal?, naive]
  have made := eventOf_eq_ok (.text title) (.text identity) (.text product) read anchored evaluated universal wrote
  obtain ⟨named, named_whole, identified⟩ : ∃ named, isWhole named = true ∧
      (if (Datum.text identity).truthy then .text identity else .text (c.identity ++ "@recurrence-picker")) = Datum.text named := by
    split
    · exact ⟨identity, identity_whole, rfl⟩
    · refine ⟨_, ?_, rfl⟩
      rw [isWhole_append, drawn_whole]
      rfl
  rw [identified] at made
  obtain ⟨document, written, nonempty, rules, starts⟩ := Document.Event.exists_document
    (e := ⟨.text product, .text title, .text named, { anchor with zone := some 0 }, c.today, text⟩) rfl rfl rfl
    product_whole title_whole named_whole text_whole noBlank
  refine ⟨document, ?_, nonempty, rules, starts⟩
  rw [exportDocument, made]
  show Result.recover (orFault .value (Document.Event.text? _)) _ _ = _
  rw [written]
  rfl

end Documents

namespace Description

variable {d : Description} {c c' : Setting} {body : Text} {start : Datum} {anchor : Stamp}

/-- The rule text of a description is embedded as it stands. At any time and for any start without a zone, the document of the
text has one line for the rule, which is the text with its end marked as being at universal time, and one for the start,
whatever the title, the identity and the product are. -/
theorem exportDocument_ruleText (made : d.ruleText c = .ok body)
    (year : ∀ e, d.hasEnd = true → d.finish = some e → 1000 ≤ e.day.year)
    (given : c'.plain.stamp start = .ok anchor) (naive : anchor.zone = none) {title identity product : Text}
    (title_whole : isWhole title = true) (identity_whole : isWhole identity = true) (drawn_whole : isWhole c'.identity = true)
    (product_whole : isWhole product = true) :
    ∃ document, exportDocument c' (.text body) (.text title) start (.text identity) (.text product) = .ok document ∧ document ≠ [] ∧
      Document.linesNamed "RRULE" document = ["RRULE:" ++ Document.markEnd body] ∧
      Document.linesNamed "DTSTART" document = ["DTSTART:" ++ Document.momentText anchor] := by
  obtain ⟨p, makes, rfl, recurrence, evaluated⟩ := ruleText_eq_ok.mp made
  have sound := isSound_fields makes
  have short := length_of_recurrenceFrom makes evaluated
  have read := RuleText.read_body (RuleFields.arePlain_ruleOf sound) (RuleFields.check_ruleOf sound short)
  have same := RuleText.sameParts_inOrder (d.fields.ruleOf p) none
  have anchored : RuleText.anchor { parts := (d.fields.ruleOf p).inOrder RuleKey.all } c'.plain start = .ok anchor := by
    cases start <;> first | exact given | cases given
  have evaluates := (isPatterned_ruleOf makes).recurrenceFrom_eq_ok.mpr
    ⟨_, RuleFields.readFrom_ruleOf sound c'.today short (year_fields year), fun _ => naive, rfl⟩
  rw [← RuleText.recurrenceFrom_of_body same.body_eq] at evaluates
  have wrote : Document.ruleText? { parts := (d.fields.ruleOf p).inOrder RuleKey.all } = some (Document.markEnd (d.fields.ruleOf p).body) := by
    rw [Document.ruleText?, same.inOrder_eq]
    exact Document.ruleText?_ruleOf sound short (year_fields year)
  exact exists_document read anchored evaluates naive wrote (Document.noBlank_markEnd sound) (Document.isWhole_markEnd sound)
    title_whole identity_whole drawn_whole product_whole

/-- A title that is escaped and folded, with a mark of byte order and what looks like a line of its own. -/
def longTitle : Text :=
  "\uFEFFReview, plan; and note\\s\r\nRRULE:FREQ=DAILY in a room that is written out so far that it takes up a second line — été".toList

theorem exportDocument_ruleText_fortnightly :
    fortnightly.ruleText newYear2025 = .ok "FREQ=WEEKLY;UNTIL=20250801T235959;INTERVAL=2;BYDAY=MO,WE".toList ∧
      (∀ e, fortnightly.hasEnd = true → fortnightly.finish = some e → 1000 ≤ e.day.year) ∧ isWhole longTitle = true ∧
      ∃ document, exportDocument newYear2025 (.text "FREQ=WEEKLY;UNTIL=20250801T235959;INTERVAL=2;BYDAY=MO,WE".toList) (.text longTitle)
          (.stamp fortnightly.start) (.text []) (.text defaultProduct) = .ok document ∧ document ≠ [] ∧
        Document.linesNamed "RRULE" document = ["RRULE:FREQ=WEEKLY;UNTIL=20250801T235959Z;INTERVAL=2;BYDAY=MO,WE".toList] ∧
        Document.linesNamed "DTSTART" document = ["DTSTART:20250623T155800Z".toList] := by
  have year : ∀ e, fortnightly.hasEnd = true → fortnightly.finish = some e → 1000 ≤ e.day.year := by
    rintro e - ⟨⟩
    decide
  have title_whole : isWhole longTitle = true := by decide +kernel
  obtain ⟨document, exported, nonempty, rules, starts⟩ := exportDocument_ruleText ruleText_fortnightly year
    (show newYear2025.plain.stamp (.stamp fortnightly.start) = .ok fortnightly.start from rfl) rfl title_whole
    (show isWhole [] = true from rfl) rfl (show isWhole defaultProduct = true by decide +kernel)
  exact ⟨ruleText_fortnightly, year, title_whole, document, exported, nonempty,
    rules.trans (by decide +kernel), starts.trans (by decide +kernel)⟩

end Description

end Cadence
