import Cadence.Proofs.Document.Moments
import Cadence.Proofs.Failure
import Cadence.Proofs.Rule.Universal

/-!
# Documents read back

A document is unfolded and taken apart into its lines. The lines that matter to an event's occurrences are those of its
start and of its rule: a moment that is marked so is at universal time, and so is the end of a rule. What is written as
the value of a line is found again, whatever the title, the identity and the product hold.
-/

namespace Cadence

open Text

namespace Document

/-! ### Lines -/

/-- A text without its folds. -/
def unfold : Text → Text
  | '\r' :: '\n' :: ' ' :: rest => unfold rest
  | '\r' :: '\n' :: '\t' :: rest => unfold rest
  | c :: rest => c :: unfold rest
  | [] => []

/-- The lines of a document, as they were before they were folded. -/
def contentLines (document : Text) : List Text :=
  (splitOn '\n' (unfold document)).map fun line => if line.getLast? = some '\r' then line.dropLast else line

/-- The value of the first line with a name. -/
def value? (name document : Text) : Option Text := (contentLines document).findSome? (following? (name ++ [':']))

/-! ### Schedules -/

/-- A moment, at universal time if it is marked so. -/
def moment? (s : Text) : Option Stamp := (finish? s).map fun m => if s.getLast? = some 'Z' then m.zoned else m

/-- The end in a rule is marked as being at universal time. -/
def endsUniversally (rule : Text) : Bool :=
  (splitOn ';' rule).any fun part => startsWith "UNTIL=" part && part.getLast? = some 'Z'

/-- The schedule of a rule that has been read, its end being at universal time or not, as its start must be. -/
def scheduleOf? (spec : RuleSpec) (universal : Bool) (start : Stamp) : Option Schedule :=
  match spec.finish, universal, start.zone with
  | some finish, true, some _ =>
    (Schedule.of { spec with finish := none } start).toOption.map fun s => { s with finish := some finish.zoned }
  | some _, true, none => none
  | _, _, _ => (Schedule.of spec start).toOption

/-- The schedule of the event in a document. -/
def schedule? (today : Stamp) (document : Text) : Option Schedule := do
  let start ← moment? (← value? "DTSTART" document)
  let rule ← value? "RRULE" document
  let spec ← (RuleSpec.read today rule).toOption
  scheduleOf? spec (endsUniversally rule) start

/-! ### Folding undone -/

theorem unfold_cons {c : Char} {s : Text} (apart : c = '\r' → s.head? ≠ some '\n') : unfold (c :: s) = c :: unfold s := by
  rw [unfold.eq_def]
  split
  · rename_i same
    obtain ⟨rfl, rfl⟩ := List.cons.inj same
    exact absurd rfl (apart rfl)
  · rename_i same
    obtain ⟨rfl, rfl⟩ := List.cons.inj same
    exact absurd rfl (apart rfl)
  · rename_i same
    obtain ⟨rfl, rfl⟩ := List.cons.inj same
    rfl
  · rename_i same
    cases same

theorem unfold_lineEnd {rest : Text} (apart : rest.head? ≠ some ' ' ∧ rest.head? ≠ some '\t' ∧ rest.head? ≠ some '\n') :
    unfold ('\r' :: '\n' :: rest) = '\r' :: '\n' :: unfold rest := by
  rw [← unfold_cons (c := '\n') fun same => absurd same (by decide), unfold.eq_def]
  split
  · rename_i same
    obtain ⟨-, same⟩ := List.cons.inj same
    obtain ⟨-, rfl⟩ := List.cons.inj same
    exact absurd rfl apart.1
  · rename_i same
    obtain ⟨-, same⟩ := List.cons.inj same
    obtain ⟨-, rfl⟩ := List.cons.inj same
    exact absurd rfl apart.2.1
  · rename_i same
    obtain ⟨rfl, rfl⟩ := List.cons.inj same
    rfl
  · rename_i same
    cases same

theorem head?_foldFrom {used : Nat} {s rest : Text} (oneLine : '\n' ∉ s) (apart : rest.head? ≠ some '\n') :
    (ContentLine.foldFrom used s ++ rest).head? ≠ some '\n' := by
  cases s with
  | nil => exact apart
  | cons c s =>
    rw [ContentLine.foldFrom]
    split
    · simp
    · simpa using fun same : c = '\n' => oneLine (same ▸ List.mem_cons_self)

/-- A text that was folded is what it was when it is unfolded. -/
theorem unfold_foldFrom (used : Nat) {s rest : Text} (oneLine : '\n' ∉ s) (apart : rest.head? ≠ some '\n') :
    unfold (ContentLine.foldFrom used s ++ rest) = s ++ unfold rest := by
  induction s generalizing used with
  | nil => rfl
  | cons c s ih =>
    have more : '\n' ∉ s := fun member => oneLine (List.mem_cons_of_mem c member)
    have next (used : Nat) : unfold (c :: (ContentLine.foldFrom used s ++ rest)) = c :: (s ++ unfold rest) := by
      rw [unfold_cons fun _ => head?_foldFrom more apart, ih used more]
    rw [ContentLine.foldFrom]
    split
    · exact next _
    · exact next _

/-- A line as it was before it was folded. -/
def whole (l : ContentLine) : Text := l.name ++ ':' :: l.value

/-- A name that a reader of documents keeps apart: it begins with what is no blank, and it has no colon and no line end. -/
def isName (name : Text) : Bool :=
  match name with
  | c :: _ => c ≠ ' ' && c ≠ '\t' && ! name.contains ':' && ! name.contains '\n'
  | [] => false

/-- A line that a reader of documents keeps apart. -/
structure IsLine (l : ContentLine) : Prop where
  name : isName l.name = true
  value : '\n' ∉ l.value

theorem exists_of_isName {name : Text} (isName : isName name = true) :
    (∃ c rest, name = c :: rest ∧ c ≠ ' ' ∧ c ≠ '\t') ∧ ':' ∉ name ∧ '\n' ∉ name := by
  unfold Document.isName at isName
  split at isName
  · rename_i c rest
    simp only [Bool.and_eq_true, decide_eq_true_eq, Bool.not_eq_true', List.contains_eq_mem, decide_eq_false_iff_not] at isName
    exact ⟨⟨c, rest, rfl, isName.1.1⟩, isName.1.2, isName.2⟩
  · cases isName

theorem IsLine.oneLine {l : ContentLine} (isLine : IsLine l) : '\n' ∉ whole l := by
  simp [whole, (exists_of_isName isLine.name).2.2, isLine.value]

theorem octets_le (c : Char) : ContentLine.octets c ≤ ContentLine.maxOctets := by
  unfold ContentLine.octets ContentLine.maxOctets
  repeat' split
  all_goals omega

variable {ls : List ContentLine}

/-- What follows a line end is the start of a name. -/
theorem head?_text (lines : ∀ l ∈ ls, IsLine l) : (ls.flatMap (·.text)).head? ≠ some ' ' ∧
    (ls.flatMap (·.text)).head? ≠ some '\t' ∧ (ls.flatMap (·.text)).head? ≠ some '\n' := by
  cases ls with
  | nil => simp
  | cons l ls =>
    obtain ⟨⟨c, rest, name, blank, tab⟩, -, oneLine⟩ := exists_of_isName (lines l List.mem_cons_self).name
    have feed : c ≠ '\n' := by
      rintro rfl
      exact oneLine (name ▸ List.mem_cons_self)
    have room : ¬ ContentLine.maxOctets < 0 + ContentLine.octets c := by have := octets_le c; omega
    rw [List.flatMap_cons, ContentLine.text, ContentLine.fold, name, List.cons_append, ContentLine.foldFrom, if_neg room]
    simp [blank, tab, feed]

theorem unfold_text (lines : ∀ l ∈ ls, IsLine l) :
    unfold (ls.flatMap (·.text)) = ls.flatMap fun l => whole l ++ ['\r', '\n'] := by
  induction ls with
  | nil => rfl
  | cons l ls ih =>
    have others := fun next member => lines next (List.mem_cons_of_mem l member)
    have oneLine := (lines l List.mem_cons_self).oneLine
    have text : l.text = ContentLine.foldFrom 0 (whole l) ++ ['\r', '\n'] := rfl
    rw [List.flatMap_cons, List.flatMap_cons, text, List.append_assoc, unfold_foldFrom 0 oneLine (by simp), List.append_assoc, ← ih others]
    exact congrArg (whole l ++ ·) (unfold_lineEnd (head?_text others))

/-- The lines of a document are those that were written, with an empty one behind. -/
theorem contentLines_text (lines : ∀ l ∈ ls, IsLine l) : contentLines (ls.flatMap (·.text)) = ls.map whole ++ [[]] := by
  rw [contentLines, unfold_text lines]
  induction ls with
  | nil => rfl
  | cons l ls ih =>
    have piece : '\n' ∉ whole l ++ ['\r'] := by simpa using (lines l List.mem_cons_self).oneLine
    have cut := splitOn_append piece (ls.flatMap fun l => whole l ++ ['\r', '\n'])
    rw [List.append_assoc] at cut
    have last : (if (whole l ++ ['\r']).getLast? = some '\r' then (whole l ++ ['\r']).dropLast else whole l ++ ['\r']) = whole l := by
      rw [List.getLast?_concat, if_pos rfl, List.dropLast_concat]
    rw [List.flatMap_cons, List.append_assoc]
    rw [show ['\r', '\n'] ++ ls.flatMap (fun l => whole l ++ ['\r', '\n']) = ['\r'] ++ '\n' :: ls.flatMap fun l => whole l ++ ['\r', '\n'] from rfl,
      cut, List.map_cons, last, ih fun next member => lines next (List.mem_cons_of_mem l member)]
    rfl

/-! ### Values found again -/

/-- A name with its colon does not begin the line of another name. -/
theorem following?_whole {name : Text} {l : ContentLine} (plain : ':' ∉ name) (named : ':' ∉ l.name) (other : l.name ≠ name) :
    following? (name ++ [':']) (whole l) = none := by
  rw [Option.eq_none_iff_forall_ne_some]
  intro rest found
  have same := following?_eq_some.mp found
  rw [List.append_assoc] at same
  have cut := cut?_append named l.value
  rw [show l.name ++ ':' :: l.value = name ++ ':' :: rest from same, cut?_append plain] at cut
  exact other (Prod.mk.inj (Option.some.inj cut)).1.symm

/-- The value of a line is found in the document, unless a line before it has the same name. -/
theorem value?_text {before after : List ContentLine} {l : ContentLine} (lines : ∀ x ∈ before ++ l :: after, IsLine x)
    (others : ∀ x ∈ before, x.name ≠ l.name) :
    value? l.name ((before ++ l :: after).flatMap (·.text)) = some l.value := by
  have colon (x : ContentLine) (member : x ∈ before ++ l :: after) : ':' ∉ x.name := (exists_of_isName (lines x member).name).2.1
  have first : (before.map whole).findSome? (following? (l.name ++ [':'])) = none := by
    rw [List.findSome?_eq_none_iff]
    exact List.forall_mem_map.mpr fun x member =>
      following?_whole (colon l (by simp)) (colon x (by simp [member])) (others x member)
  have own : following? (l.name ++ [':']) (whole l) = some l.value := following?_eq_some.mpr (by simp [whole])
  rw [value?, contentLines_text lines, List.map_append, List.map_cons, List.append_assoc, List.findSome?_append, first,
    List.cons_append, List.findSome?_cons, own]
  rfl

/-! ### Events -/

theorem not_mem_escapeChars (s : Text) : '\n' ∉ ContentLine.escapeChars s := by
  fun_induction ContentLine.escapeChars s <;> simp_all [eq_comm]

theorem dropMark_subset (s : Text) : ContentLine.dropMark s ⊆ s := by
  unfold ContentLine.dropMark
  split
  · split
    · exact List.subset_cons_self _ _
    · exact List.Subset.refl _
  · exact List.Subset.refl _

theorem not_mem_escape (s : Text) : '\n' ∉ ContentLine.escape s :=
  fun member => not_mem_escapeChars _ (dropMark_subset _ member)

/-- The lines of a value have its name and no line end. -/
theorem of_mem_valueLines {name : Text} {value : Datum} {l : ContentLine} (member : l ∈ valueLines name value) :
    l.name = name ∧ '\n' ∉ l.value := by
  unfold valueLines at member
  split at member
  · obtain ⟨item, -, rfl⟩ := List.mem_map.mp member
    exact ⟨rfl, not_mem_escape _⟩
  · obtain rfl := List.mem_singleton.mp member
    exact ⟨rfl, not_mem_escape _⟩

variable {e : Event}

/-- The lines of an event before its start. -/
def Event.opening (e : Event) : List ContentLine :=
  [{ name := "BEGIN", value := "VCALENDAR" }, { name := "VERSION", value := "2.0" }] ++ valueLines "PRODID" e.product ++
    [{ name := "BEGIN", value := "VEVENT" }] ++ valueLines "SUMMARY" e.title

/-- The lines of an event from its start to its rule. -/
def Event.middle (e : Event) : List ContentLine :=
  { name := "DTSTART", value := momentText e.start } :: { name := "DTSTAMP", value := momentText e.written } ::
    valueLines "UID" e.identity

theorem Event.lines_eq (e : Event) : e.lines = e.opening ++ (e.middle ++
    [{ name := "RRULE", value := e.rule }, { name := "END", value := "VEVENT" }, { name := "END", value := "VCALENDAR" }]) := by
  simp [Event.lines, Event.opening, Event.middle]

theorem Event.isLine (oneLine : '\n' ∉ e.rule) : ∀ l ∈ e.lines, IsLine l := by
  have fixed (name value : String) (isName : isName name = true) (plain : '\n' ∉ value.toList) :
      IsLine { name := name, value := value } := ⟨isName, plain⟩
  have moment (name : String) (isName : isName name = true) (s : Stamp) : IsLine { name := name, value := momentText s } :=
    ⟨isName, fun member => absurd (noBlank_momentText s _ member) (by decide)⟩
  have data (name : String) (isName : isName name = true) (value : Datum) : ∀ l ∈ valueLines name value, IsLine l := fun l member =>
    ⟨(of_mem_valueLines member).1 ▸ isName, (of_mem_valueLines member).2⟩
  rw [e.lines_eq, Event.opening, Event.middle]
  simp only [List.forall_mem_append, List.forall_mem_cons]
  exact ⟨⟨⟨⟨⟨fixed _ _ rfl (by decide), fixed _ _ rfl (by decide), by simp⟩, data _ rfl _⟩, fixed _ _ rfl (by decide), by simp⟩, data _ rfl _⟩,
    ⟨moment _ rfl _, moment _ rfl _, data _ rfl _⟩, ⟨rfl, oneLine⟩, fixed _ _ rfl (by decide), fixed _ _ rfl (by decide), by simp⟩

/-- What stands in an event before its start is named otherwise than the start and the rule are. -/
theorem Event.opening_name {l : ContentLine} (member : l ∈ e.opening) : l.name ≠ "DTSTART".toList ∧ l.name ≠ "RRULE".toList := by
  simp only [Event.opening, List.mem_append, List.mem_cons, List.not_mem_nil, or_false] at member
  rcases member with (((rfl | rfl) | listed) | rfl) | listed
  · decide
  · decide
  · rw [(of_mem_valueLines listed).1]
    decide
  · decide
  · rw [(of_mem_valueLines listed).1]
    decide

theorem Event.middle_name {l : ContentLine} (member : l ∈ e.middle) : l.name ≠ "RRULE".toList := by
  simp only [Event.middle, List.mem_cons] at member
  rcases member with rfl | rfl | listed
  · exact show "DTSTART".toList ≠ "RRULE".toList by decide
  · exact show "DTSTAMP".toList ≠ "RRULE".toList by decide
  · rw [(of_mem_valueLines listed).1]
    decide

/-- The start and the rule of an event are found in its document. -/
theorem value?_of_text? (oneLine : '\n' ∉ e.rule) {document : Text} (written : e.text? = some document) :
    value? "DTSTART" document = some (momentText e.start) ∧ value? "RRULE" document = some e.rule := by
  obtain rfl : e.lines.flatMap (·.text) = document := by
    unfold Event.text? at written
    dsimp only at written
    split at written
    · exact Option.some.inj written
    · cases written
  have lines := Event.isLine oneLine
  constructor
  · rw [e.lines_eq, Event.middle] at lines ⊢
    exact value?_text lines fun l member => (Event.opening_name member).1
  · rw [e.lines_eq, ← List.append_assoc] at lines ⊢
    refine value?_text lines fun l member => ?_
    rcases List.mem_append.mp member with before | before
    · exact (Event.opening_name before).2
    · exact Event.middle_name before

end Document

end Cadence
