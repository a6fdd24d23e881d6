import Cadence.Proofs.Rule.Checked
import Mathlib.Data.List.Nodup
import Mathlib.Data.List.Perm.Basic

/-!
# What a rule text spells

A rule text spells names and values: those of its line of parts, trimmed and in capitals, in the order in
which they stand there. Blank lines, blank chunks, the name of the line and a line with a start spell
nothing. A text that is read is read to just the parts that it spells, so the line of the rule - the same
parts in their own order - is the same for all texts that spell the same, and is read to itself.
-/

namespace Cadence

open Text

namespace RuleText

variable {r r' : RuleText} {parts : List (RuleKey × Text)} {s t : Text}

/-! ### Spelling -/

/-- What a line of a text holds of parts, without the name of the line. -/
def partsLine? (line : Text) : Option Text :=
  let line := trim line
  if line.isEmpty || startsWith "DTSTART" (upper line) then none
  else if startsWith "RRULE:" (upper line) then some (line.drop 6)
  else some line

/-- The name and the value that a chunk of a line spells. -/
def spelledPart? (chunk : Text) : Option (Text × Text) :=
  if (trim chunk).isEmpty then none
  else (cut? '=' chunk).map fun (name, value) => (upper (trim name), upper (trim value))

/-- The names and values that a text spells. -/
def spelling (s : Text) : List (Text × Text) :=
  ((lines (trim s)).filterMap partsLine?).flatMap fun line => (splitOn ';' line).filterMap spelledPart?

/-- A part under its name. -/
def named (part : RuleKey × Text) : Text × Text := (part.1.name, part.2)

theorem named_injective : Function.Injective named := by
  rintro ⟨key, value⟩ ⟨other, value'⟩ same
  obtain ⟨sameName, rfl⟩ := Prod.mk.inj same
  obtain rfl : key = other := RuleKey.name_injective sameName
  rfl

theorem body_of_addBody {l l' : Lines} {body : Text} (added : l.addBody body = .ok l') :
    l'.body.toList = l.body.toList ++ [body] := by
  unfold Lines.addBody at added
  cases held : l.body with
  | some body =>
    rw [held] at added
    cases added
  | none =>
    rw [held] at added
    cases added
    rfl

theorem body_of_add {l l' : Lines} {line : Text} (added : l.add line = .ok l') :
    l'.body.toList = l.body.toList ++ (partsLine? line).toList := by
  unfold Lines.add at added
  unfold partsLine?
  dsimp only at added ⊢
  split at added
  · rename_i empty
    cases added
    rw [if_pos (Bool.or_eq_true_iff.mpr (.inl empty))]
    exact (List.append_nil _).symm
  · rename_i some
    split at added
    · rename_i dated
      obtain ⟨start, -, rfl⟩ := map_eq_ok.mp added
      rw [if_pos (Bool.or_eq_true_iff.mpr (.inr dated))]
      exact (List.append_nil _).symm
    · rename_i undated
      rw [if_neg (mt Bool.or_eq_true_iff.mp (not_or.mpr ⟨some, undated⟩))]
      split at added
      · rename_i marked
        rw [if_pos marked]
        exact body_of_addBody added
      · rename_i bare
        rw [if_neg bare]
        split at added
        · exact body_of_addBody added
        · cases added

theorem named_of_addPart {chunk : Text} {more : List (RuleKey × Text)} (added : addPart parts chunk = .ok more) :
    more.map named = parts.map named ++ (spelledPart? chunk).toList := by
  unfold addPart at added
  unfold spelledPart?
  split at added
  · rename_i blank
    cases added
    rw [if_pos blank]
    exact (List.append_nil _).symm
  · rename_i some
    rw [if_neg some]
    cases cut : cut? '=' chunk with
    | none =>
      rw [cut] at added
      cases added
    | some pieces =>
      obtain ⟨name, value⟩ := pieces
      rw [cut] at added
      dsimp only at added
      split at added
      · cases added
      · cases found : RuleKey.ofName? (upper (trim name)) with
        | none =>
          rw [found] at added
          cases added
        | some key =>
          rw [found] at added
          dsimp only at added
          split at added
          · cases added
          · cases added
            have same : key.name = upper (trim name) := by simpa using List.find?_some found
            rw [List.map_append, Option.map_some, Option.toList_some]
            exact congrArg (fun name => parts.map named ++ [(name, upper (trim value))]) same

/-- The parts of the one line that a text gives are those that it spells. -/
theorem spelling_of_lines {lines : Lines} {line : Text} (given : (Text.lines (trim s)).foldlM Lines.add {} = .ok lines)
    (body : lines.body = some line) (read : partsOf line = .ok parts) : spelling s = parts.map named := by
  have held : lines.body.toList = (Text.lines (trim s)).filterMap partsLine? :=
    held_of_foldlM (fun l => l.body.toList) partsLine? (fun _ _ _ => body_of_add) given
  rw [spelling, ← held, body, Option.toList_some, List.flatMap_singleton]
  exact (held_of_foldlM (List.map named) spelledPart? (fun _ _ _ => named_of_addPart) read).symm

/-- A text that is read is read to the parts that it spells, in their order. -/
theorem spelling_of_read (read : RuleText.read (.text s) = .ok r) : spelling s = r.parts.map named := by
  obtain ⟨_, ⟨⟩, parsed⟩ := parse_of_read read
  obtain ⟨lines, line, given, held, parts, -⟩ := steps_of_parse parsed
  exact spelling_of_lines given held parts

/-! ### The line of a rule -/

/-- The line of a rule that has been read is read to the parts in their own order. -/
theorem read_line_of_read {rule : Datum} (read : RuleText.read rule = .ok r) :
    RuleText.read (.text (line r.body)) = .ok { parts := r.inOrder RuleKey.all } := by
  have kept := areKept_of_read read
  have checked := check_of_read read
  have some := inOrder_ne_nil_of_check checked
  have trimmed := (isTrimmed_line kept some).trim_eq
  have ne : line r.body ≠ [] := List.cons_ne_nil _ _
  have parsed : parse (line r.body) = .ok { parts := r.inOrder RuleKey.all } := by
    refine parse_of_lines (by rwa [trimmed]) ?_ (partsOf_body kept some) ?_
    · rw [trimmed, (oneLine_line kept).lines_eq ne, List.foldlM_cons, add_line kept checked _ rfl]
      rfl
    · rw [(sameParts_inOrder r none).check_eq, checked]
  rw [RuleText.read, parsed]

/-- The parts in their own order are all the parts. -/
theorem perm_inOrder (areRead : AreRead r.parts) : (r.inOrder RuleKey.all).Perm r.parts := by
  refine (List.perm_ext_iff_of_nodup (List.Nodup.of_map _ (nodup_inOrder RuleKey.nodup_all)) (List.Nodup.of_map _ areRead.nodup)).mpr fun part => ?_
  exact ⟨fun member => mem_of_get? (mem_inOrder.mp member).2, fun member =>
    mem_inOrder.mpr ⟨RuleKey.mem_all part.1, areRead.get?_eq_some member⟩⟩

theorem sameParts_of_perm (areRead : AreRead r.parts) (areRead' : AreRead r'.parts) (perm : r'.parts.Perm r.parts) :
    SameParts r' r := by
  intro key
  cases found : r.get? key with
  | some value => exact areRead'.get?_eq_some (perm.mem_iff.mpr (mem_of_get? found))
  | none =>
    refine Option.eq_none_iff_forall_ne_some.mpr fun value found' => ?_
    have here := areRead.get?_eq_some (perm.mem_iff.mp (mem_of_get? found'))
    rw [found] at here
    cases here

/-- Rules that have been read are written the same if they have the same parts. -/
theorem body_eq_iff_perm {rule rule' : Datum} (read : RuleText.read rule = .ok r) (read' : RuleText.read rule' = .ok r') :
    r'.body = r.body ↔ r'.parts.Perm r.parts := by
  have areRead := areRead_of_read read
  have areRead' := areRead_of_read read'
  refine ⟨fun same => ?_, fun perm => (sameParts_of_perm areRead areRead' perm).body_eq⟩
  have again := read_line_of_read read'
  rw [same, read_line_of_read read] at again
  have inOrder : r.inOrder RuleKey.all = r'.inOrder RuleKey.all := congrArg RuleText.parts (Except.ok.inj again)
  exact ((perm_inOrder areRead').symm.trans (.of_eq inOrder.symm)).trans (perm_inOrder areRead)

/-- The line of a rule is the normal form of its texts: it is read to the same parts and written as it is,
and the texts of one line are those that spell the same parts, in whatever order. -/
theorem isNormalForm_line (read : RuleText.read (.text s) = .ok r) :
    (∃ r', RuleText.read (.text (line r.body)) = .ok r' ∧ r'.parts.Perm r.parts ∧ r'.body = r.body) ∧
    ∀ t r', RuleText.read (.text t) = .ok r' → (r'.body = r.body ↔ (spelling t).Perm (spelling s)) := by
  refine ⟨⟨_, read_line_of_read read, perm_inOrder (areRead_of_read read), (sameParts_inOrder r none).body_eq⟩, fun t r' read' => ?_⟩
  rw [body_eq_iff_perm read read', spelling_of_read read, spelling_of_read read']
  exact (List.map_perm_map_iff named_injective).symm

/-- A rule among blank lines and chunks, below its start, in small letters and with an equals sign in a value. -/
def scatteredText : Text := "\n dtstart;value=date:20250106\n\n rrule: interval = 2;; freq=weekly ;wkst= m=o \n".toList

/-- The rule of that text. -/
def scattered : RuleText where
  parts := [(.interval, "2".toList), (.freq, "WEEKLY".toList), (.weekStart, "M=O".toList)]
  start := some (.ofDay ⟨2025, 1, 6, by decide⟩)

theorem isNormalForm_line_scattered :
    RuleText.read (.text scatteredText) = .ok scattered ∧ scattered.body = "FREQ=WEEKLY;INTERVAL=2;WKST=M=O".toList ∧
    (∃ r, RuleText.read (.text (line scattered.body)) = .ok r ∧ r.parts.Perm scattered.parts ∧ r.body = scattered.body) ∧
    ∀ t r, RuleText.read (.text t) = .ok r → (r.body = scattered.body ↔ (spelling t).Perm (spelling scatteredText)) :=
  have read : RuleText.read (.text scatteredText) = .ok scattered := rfl
  ⟨read, rfl, isNormalForm_line read⟩

end RuleText

end Cadence
