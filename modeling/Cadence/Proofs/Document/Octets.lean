import Cadence.Proofs.Document.Reader
import Cadence.Proofs.Rule.Built

/-!
# Documents with octets

A document can be given out if no half of a pair is left in it. Escaping and folding bring in no character but a few marks,
and a rule that fields make has nothing in it but capitals, digits and marks, so it is the title, the identity and the
product alone that decide.
-/

namespace Cadence

open Text

namespace Text

variable {s t : Text}

theorem isWhole_iff : isWhole s = true ↔ ∀ c ∈ s, half? c = none := by simp [isWhole]

theorem isWhole_append : isWhole (s ++ t) = (isWhole s && isWhole t) := List.all_append

theorem isWhole_cons {c : Char} : isWhole (c :: s) = ((half? c).isNone && isWhole s) := List.all_cons

theorem isWhole_of_subset (whole : isWhole s = true) (inside : t ⊆ s) : isWhole t = true :=
  isWhole_iff.mpr fun c member => isWhole_iff.mp whole c (inside member)

theorem isWhole_row {digits : List Nat} (h : AreDigits digits) : isWhole (row digits) = true := by
  have plain : ∀ d < 10, half? (Nat.digitChar d) = none := by decide
  refine isWhole_iff.mpr fun c member => ?_
  obtain ⟨d, digit, rfl⟩ := mem_row h member
  exact plain d digit

theorem isWhole_ofNat (n : Nat) : isWhole (ofNat n) = true := by
  obtain ⟨digits, written, -, areDigits, -⟩ := exists_digits n
  rw [written]
  exact isWhole_row areDigits

theorem isWhole_joinWith {sep : Char} {items : List Text} (mark : isWhole [sep] = true) (whole : ∀ item ∈ items, isWhole item = true) :
    isWhole (joinWith [sep] items) = true := by
  refine isWhole_iff.mpr fun c member => ?_
  rcases mem_joinWith member with rfl | ⟨item, listed, inside⟩
  · exact isWhole_iff.mp mark c List.mem_cons_self
  · exact isWhole_iff.mp (whole item listed) c inside

end Text

/-! ### Lines -/

namespace ContentLine

theorem readLineEnds_subset (s : Text) : readLineEnds s ⊆ "\n".toList ++ s := by
  fun_induction readLineEnds s <;> simp_all [List.subset_def] <;> grind

theorem escapeChars_subset (s : Text) : escapeChars s ⊆ "\\n;,".toList ++ s := by
  fun_induction escapeChars s <;> simp_all [List.subset_def] <;> grind

theorem foldFrom_subset (used : Nat) (s : Text) : foldFrom used s ⊆ "\r\n ".toList ++ s := by
  fun_induction foldFrom used s <;> simp_all [List.subset_def] <;> grind

theorem isWhole_escape {s : Text} (whole : isWhole s = true) : isWhole (escape s) = true := by
  have ends : isWhole (readLineEnds s) = true :=
    isWhole_of_subset (by rw [isWhole_append, whole]; rfl) (readLineEnds_subset s)
  have chars : isWhole (escapeChars (readLineEnds s)) = true :=
    isWhole_of_subset (by rw [isWhole_append, ends]; rfl) (escapeChars_subset _)
  exact isWhole_of_subset chars (Document.dropMark_subset _)

theorem isWhole_text {l : ContentLine} (name : isWhole l.name = true) (value : isWhole l.value = true) : isWhole l.text = true := by
  have line : isWhole (l.name ++ ':' :: l.value) = true := by
    rw [isWhole_append, isWhole_cons, name, value]
    rfl
  have folded : isWhole (fold (l.name ++ ':' :: l.value)) = true :=
    isWhole_of_subset (by rw [isWhole_append, line]; rfl) (foldFrom_subset 0 _)
  rw [text, isWhole_append, folded]
  rfl

end ContentLine

/-! ### Events -/

namespace Document

theorem isWhole_momentText (s : Stamp) : isWhole (momentText s) = true := by
  rw [momentText_eq, isWhole_append, isWhole_cons, isWhole_append, isWhole_row s.day.areDigits_digits,
    isWhole_row s.clock.areDigits_digits]
  rfl

/-- An event whose rule and whose texts have octets is written. -/
theorem Event.text?_eq {e : Event} {product title identity : Text} (products : e.product = .text product)
    (titles : e.title = .text title) (identities : e.identity = .text identity) (product_whole : isWhole product = true)
    (title_whole : isWhole title = true) (identity_whole : isWhole identity = true) (rule_whole : isWhole e.rule = true) :
    e.text? = some (e.lines.flatMap (·.text)) := by
  have escaped {name s : Text} (named : isWhole name = true) (whole : isWhole s = true) :
      ∀ l ∈ valueLines name (.text s), isWhole l.text = true :=
    List.forall_mem_singleton.mpr (ContentLine.isWhole_text named (ContentLine.isWhole_escape whole))
  have line {name value : Text} (named : isWhole name = true) (whole : isWhole value = true) :
      isWhole (ContentLine.mk name value).text = true := ContentLine.isWhole_text named whole
  have lines : ∀ l ∈ e.lines, isWhole l.text = true := by
    rw [e.lines_eq, Event.opening, Event.middle, products, titles, identities]
    simp only [List.forall_mem_append, List.forall_mem_cons]
    exact ⟨⟨⟨⟨⟨line rfl rfl, line rfl rfl, by simp⟩, escaped rfl product_whole⟩, line rfl rfl, by simp⟩, escaped rfl title_whole⟩,
      ⟨line rfl (isWhole_momentText _), line rfl (isWhole_momentText _), escaped rfl identity_whole⟩,
      line rfl rule_whole, line rfl rfl, line rfl rfl, by simp⟩
  have whole : isWhole (e.lines.flatMap (·.text)) = true := by
    refine isWhole_iff.mpr fun c member => ?_
    obtain ⟨l, listed, inside⟩ := List.mem_flatMap.mp member
    exact isWhole_iff.mp (lines l listed) c inside
  exact if_pos whole

end Document

/-! ### Rules of fields -/

theorem isWhole_symbol (w : Weekday) : isWhole w.symbol = true := by cases w <;> decide

theorem isWhole_placedText : ∀ p ∈ monthPositions, ∀ w ∈ Weekday.all, isWhole (placedText w p) = true := by decide

theorem RuleKey.isWhole_name (key : RuleKey) : isWhole key.name = true := by cases key <;> decide

namespace RuleFields

variable {f : RuleFields} {n : Nat} {p : Int} {key : RuleKey} {value : Text}

/-- The values in a rule that fields make have octets. -/
theorem isWhole_value (sound : f.IsSound n p) (got : (f.ruleOf p).get? key = some value) : isWhole value = true := by
  have number {c : Prop} [Decidable c] {k : Nat} (got : (if c then some (Text.ofNat k) else none) = some value) :
      isWhole value = true := by
    split at got
    · exact Option.some.inj got ▸ isWhole_ofNat k
    · cases got
  rw [get?_ruleOf] at got
  cases key with
  | freq =>
    obtain rfl := Option.some.inj got
    cases f.pattern <;> decide
  | interval => exact Option.some.inj got ▸ sound.interval ▸ isWhole_ofNat n
  | «until» =>
    obtain ⟨e, -, rfl⟩ := Option.map_eq_some_iff.mp got
    obtain ⟨digits, areDigits, same⟩ := Compact.exists_text_eq e
    rw [same, isWhole_append, isWhole_cons, isWhole_row areDigits, isWhole_row e.clock.areDigits_digits]
    rfl
  | byDay =>
    simp only [byDay] at got
    split at got
    · rename_i placed
      exact Option.some.inj got ▸ isWhole_placedText p (mem_monthPositions (sound.placed placed)) _ (Weekday.mem_all _)
    · split at got
      · rw [← Option.some.inj got]
        exact isWhole_joinWith rfl (List.forall_mem_map.mpr fun w _ => isWhole_symbol w)
      · cases got
  | byMonthDay => exact number got
  | byMonth => exact number got
  | _ => cases got

end RuleFields

end Cadence
