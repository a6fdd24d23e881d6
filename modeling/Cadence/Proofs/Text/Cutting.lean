import Cadence.Text.Blank
import Cadence.Text.Case

/-!
# Cutting texts

A text that was joined is cut into the same pieces again, provided that no piece has the separator in
it. A text without blanks is its own only word and its own only line, and trimming leaves it alone.
-/

namespace Cadence.Text

variable {s t : Text} {sep c : Char}

/-! ### Separators -/

theorem splitOn_append (h : sep ∉ s) (rest : Text) : splitOn sep (s ++ sep :: rest) = s :: splitOn sep rest := by
  induction s with
  | nil => simp [splitOn]
  | cons c s ih =>
    rw [List.mem_cons, not_or] at h
    rw [List.cons_append, splitOn, if_neg (Ne.symm h.1), ih h.2]

theorem splitOn_of_not_mem (h : sep ∉ s) : splitOn sep s = [s] := by
  induction s with
  | nil => rfl
  | cons c s ih =>
    rw [List.mem_cons, not_or] at h
    rw [splitOn, if_neg (Ne.symm h.1), ih h.2]

theorem joinWith_cons_cons (glue p q : Text) (more : List Text) :
    joinWith glue (p :: q :: more) = p ++ glue ++ joinWith glue (q :: more) := rfl

/-- Joined pieces are found again. -/
theorem splitOn_joinWith : ∀ {pieces : List Text}, pieces ≠ [] → (∀ p ∈ pieces, sep ∉ p) →
    splitOn sep (joinWith [sep] pieces) = pieces
  | [], hne, _ => absurd rfl hne
  | [p], _, h => splitOn_of_not_mem (h p (List.mem_singleton_self p))
  | p :: q :: more, _, h => by
    have hp : sep ∉ p := h p List.mem_cons_self
    rw [joinWith_cons_cons, List.append_assoc, List.singleton_append, splitOn_append hp,
      splitOn_joinWith (List.cons_ne_nil q more) fun x hx => h x (List.mem_cons_of_mem p hx)]

/-- What is joined has no characters but those of the pieces and the separator. -/
theorem mem_joinWith : ∀ {pieces : List Text}, c ∈ joinWith [sep] pieces → c = sep ∨ ∃ p ∈ pieces, c ∈ p
  | [], h => by simp [joinWith] at h
  | [p], h => Or.inr ⟨p, List.mem_singleton_self p, h⟩
  | p :: q :: more, h => by
    rw [joinWith_cons_cons, List.append_assoc, List.mem_append, List.singleton_append, List.mem_cons] at h
    rcases h with hp | rfl | hmore
    · exact Or.inr ⟨p, List.mem_cons_self, hp⟩
    · exact Or.inl rfl
    · rcases mem_joinWith hmore with rfl | ⟨x, hx, hc⟩
      · exact Or.inl rfl
      · exact Or.inr ⟨x, List.mem_cons_of_mem p hx, hc⟩

theorem mem_joinWith_of_mem {glue p : Text} (hc : c ∈ p) : ∀ {pieces : List Text}, p ∈ pieces → c ∈ joinWith glue pieces
  | [_], h => List.mem_singleton.mp h ▸ hc
  | _ :: q :: more, h => by
    rw [joinWith_cons_cons, List.append_assoc]
    rcases List.mem_cons.mp h with rfl | hmore
    · exact List.mem_append_left _ hc
    · exact List.mem_append_right _ (List.mem_append_right glue (mem_joinWith_of_mem hc hmore))

/-- No piece has the separator in it. -/
theorem not_mem_of_mem_splitOn {p : Text} (h : p ∈ splitOn sep s) : sep ∉ p := by
  induction s generalizing p with
  | nil =>
    rw [List.mem_singleton.mp h]
    exact List.not_mem_nil
  | cons c s ih =>
    rw [splitOn] at h
    split at h
    · rcases List.mem_cons.mp h with rfl | h
      · exact List.not_mem_nil
      · exact ih h
    · rename_i hc
      obtain ⟨q, more, hsplit⟩ := List.exists_cons_of_ne_nil (splitOn_ne_nil sep s)
      rw [hsplit] at h ih
      rcases List.mem_cons.mp h with rfl | h
      · rw [List.mem_cons, not_or]
        exact ⟨Ne.symm hc, ih List.mem_cons_self⟩
      · exact ih (List.mem_cons_of_mem q h)

theorem not_mem_of_splitOn_eq {p : Text} (h : splitOn sep s = [p]) : sep ∉ s := by
  have hs := joinWith_splitOn sep s
  rw [h] at hs
  obtain rfl : p = s := hs
  exact not_mem_of_mem_splitOn (h ▸ List.mem_singleton_self p)

theorem cut?_append (h : sep ∉ s) (rest : Text) : cut? sep (s ++ sep :: rest) = some (s, rest) := by
  induction s with
  | nil => simp [cut?]
  | cons c s ih =>
    rw [List.mem_cons, not_or] at h
    rw [List.cons_append, cut?, if_neg (Ne.symm h.1), ih h.2]
    rfl

theorem cut?_eq_some {before after : Text} (h : cut? sep s = some (before, after)) : s = before ++ sep :: after := by
  induction s generalizing before with
  | nil => cases h
  | cons c s ih =>
    rw [cut?] at h
    split at h
    · rename_i hc
      obtain ⟨rfl, rfl⟩ := Prod.mk.inj (Option.some.inj h)
      rw [hc, List.nil_append]
    · obtain ⟨⟨x, y⟩, found, same⟩ := Option.map_eq_some_iff.mp h
      obtain ⟨rfl, rfl⟩ := Prod.mk.inj same
      rw [ih found, List.cons_append]

theorem cut?_of_not_mem (h : sep ∉ s) : cut? sep s = none := by
  induction s with
  | nil => rfl
  | cons c s ih =>
    rw [List.mem_cons, not_or] at h
    rw [cut?, if_neg (Ne.symm h.1), ih h.2]
    rfl

theorem dropTrailing_concat (c d : Char) (s : Text) :
    dropTrailing c (s ++ [d]) = if d = c then dropTrailing c s else s ++ [d] := by
  rw [dropTrailing, List.reverse_concat, List.dropWhile_cons, dropTrailing]
  simp only [decide_eq_true_eq]
  split
  · rfl
  · rw [List.reverse_cons, List.reverse_reverse]

theorem dropTrailing_of_not_mem (h : c ∉ s) : dropTrailing c s = s := by
  rcases List.eq_nil_or_concat s with rfl | ⟨s, d, rfl⟩
  · rfl
  · rw [List.concat_eq_append, dropTrailing_concat, if_neg]
    rintro rfl
    exact h (by simp)

theorem dropTrailing_append_replicate (h : c ∉ s) (k : Nat) : dropTrailing c (s ++ List.replicate k c) = s := by
  induction k with
  | zero => rw [List.replicate_zero, List.append_nil, dropTrailing_of_not_mem h]
  | succ k ih => rw [List.replicate_succ', ← List.append_assoc, dropTrailing_concat, if_pos rfl, ih]

theorem exists_dropTrailing (c : Char) (s : Text) : ∃ k, s = dropTrailing c s ++ List.replicate k c := by
  refine ⟨(s.reverse.takeWhile (· = c)).length, ?_⟩
  have same : s.reverse.takeWhile (· = c) = List.replicate (s.reverse.takeWhile (· = c)).length c :=
    List.eq_replicate_iff.mpr ⟨rfl, fun d member => by simpa using List.all_eq_true.mp List.all_takeWhile d member⟩
  have split := congrArg List.reverse (List.takeWhile_append_dropWhile (p := (· = c)) (l := s.reverse))
  rw [List.reverse_append, List.reverse_reverse, same, List.reverse_replicate] at split
  exact split.symm

theorem nonEmptyItems_joinWith {pieces : List Text} (h : ∀ p ∈ pieces, ',' ∉ p ∧ p ≠ []) :
    nonEmptyItems (joinWith [','] pieces) = pieces := by
  by_cases hne : pieces = []
  · subst hne
    rfl
  · rw [nonEmptyItems, splitOn_joinWith hne fun p hp => (h p hp).1, List.filter_eq_self]
    intro p hp
    simpa using (h p hp).2

theorem startsWith_append (lead rest : Text) : startsWith lead (lead ++ rest) = true := by
  rw [startsWith, following?_eq_some.mpr rfl]
  rfl

theorem startsWith_of_ne {a b : Char} (h : a ≠ b) (lead : Text) : startsWith (a :: lead) (b :: s) = false := by
  simp [startsWith, following?, h]

theorem afterLast_append (h : sep ∉ s) (before : Text) : afterLast sep (before ++ sep :: s) = s := by
  have hpass : ∀ c ∈ s.reverse, decide (c ≠ sep) = true := by
    intro c hc
    simpa using fun he : c = sep => h (he ▸ List.mem_reverse.mp hc)
  rw [afterLast, List.reverse_append, List.reverse_cons, List.append_assoc, List.takeWhile_append_of_pos hpass,
    List.singleton_append, List.takeWhile_cons_of_neg (by simp), List.append_nil, List.reverse_reverse]

/-! ### Blanks -/

/-- No character is a blank. -/
def NoBlank (s : Text) : Prop := ∀ c ∈ s, isBlank c = false

instance (s : Text) : Decidable (NoBlank s) := List.decidableBAll _ s

theorem NoBlank.append (hs : NoBlank s) (ht : NoBlank t) : NoBlank (s ++ t) := by
  intro c hc
  rcases List.mem_append.mp hc with h | h
  · exact hs c h
  · exact ht c h

theorem NoBlank.cons (hc : isBlank c = false) (hs : NoBlank s) : NoBlank (c :: s) := by
  intro d hd
  rcases List.mem_cons.mp hd with rfl | h
  · exact hc
  · exact hs d h

/-- A line end is a blank. -/
theorem endsLine_eq_false (h : isBlank c = false) : endsLine c = false := by
  simp only [isBlank, blankRanges, inRanges, List.any_cons, List.any_nil, Bool.or_false, Bool.or_eq_false_iff,
    Bool.and_eq_false_iff, decide_eq_false_iff_not] at h
  have hn : c ≠ '\n' := by
    rintro rfl
    simp at h
  have hr : c ≠ '\r' := by
    rintro rfl
    simp at h
  simp only [endsLine, inRanges, hn, hr, List.any_cons, List.any_nil, decide_false, Bool.or_false, Bool.false_or,
    Bool.or_eq_false_iff, Bool.and_eq_false_iff, decide_eq_false_iff_not]
  omega

theorem trimLeft_cons (h : isBlank c = false) (s : Text) : trimLeft (c :: s) = c :: s := by
  rw [trimLeft, List.dropWhile_cons_of_neg (by simp [h])]

theorem trimRight_concat (h : isBlank c = false) (s : Text) : trimRight (s ++ [c]) = s ++ [c] := by
  rw [trimRight, List.reverse_append, List.reverse_singleton, List.singleton_append,
    List.dropWhile_cons_of_neg (by simp [h]), List.reverse_cons, List.reverse_reverse]

/-- Trimming leaves a text alone that neither begins nor ends with a blank. -/
theorem trim_eq_self (hfirst : ∀ c, s.head? = some c → isBlank c = false)
    (hlast : ∀ c, s.getLast? = some c → isBlank c = false) : trim s = s := by
  have hleft : trimLeft s = s := by
    cases s with
    | nil => rfl
    | cons c s => exact trimLeft_cons (hfirst c rfl) s
  rw [trim, hleft]
  rcases List.eq_nil_or_concat s with rfl | ⟨init, c, rfl⟩
  · rfl
  · rw [List.concat_eq_append] at hlast ⊢
    exact trimRight_concat (hlast c (by simp)) init

/-- Trimming brings in no characters. -/
theorem mem_of_mem_trim (h : c ∈ trim s) : c ∈ s := by
  rw [trim, trimRight, List.mem_reverse] at h
  have h := List.mem_reverse.mp (List.dropWhile_subset isBlank h)
  exact List.dropWhile_subset isBlank h

theorem NoBlank.trim_eq (h : NoBlank s) : trim s = s :=
  trim_eq_self (fun _ hc => h _ (List.mem_of_head? hc)) fun _ hc => h _ (List.mem_of_getLast? hc)

/-- A text without blanks is its only word. -/
theorem NoBlank.words_eq (h : NoBlank s) (hne : s ≠ []) : words s = [s] := by
  have hfold : ∀ t : Text, NoBlank t → t.foldr (fun c (x : Text × List Text) =>
      if isBlank c then ([], if x.1.isEmpty then x.2 else x.1 :: x.2) else (c :: x.1, x.2)) ([], []) = (t, []) := by
    intro t ht
    induction t with
    | nil => rfl
    | cons c t ih =>
      rw [List.foldr_cons, ih fun d hd => ht d (List.mem_cons_of_mem c hd), ht c List.mem_cons_self]
      rfl
  unfold words
  rw [hfold s h]
  simp [hne]

theorem linesFrom_append (h : ∀ c ∈ s, endsLine c = false) (line rest : Text) :
    linesFrom line (s ++ rest) = linesFrom (s.reverse ++ line) rest := by
  induction s generalizing line with
  | nil => rfl
  | cons c s ih =>
    have hc := h c List.mem_cons_self
    have hr : c ≠ '\r' := by
      rintro rfl
      simp [endsLine] at hc
    rw [List.cons_append, linesFrom, hc, if_neg (by simp),
      ih fun d hd => h d (List.mem_cons_of_mem c hd), List.reverse_cons, List.append_assoc, List.singleton_append]
    intro x hx
    exact absurd hx hr

/-- A text without blanks is its only line. -/
theorem NoBlank.lines_eq (h : NoBlank s) (hne : s ≠ []) : lines s = [s] := by
  have := linesFrom_append (fun c hc => endsLine_eq_false (h c hc)) [] []
  rw [List.append_nil, List.append_nil] at this
  rw [lines, this, linesFrom]
  simp [hne]

theorem NoBlank.trim_pair (hs : NoBlank s) (ht : NoBlank t) (hsne : s ≠ []) (htne : t ≠ []) (mid : Text) :
    trim (s ++ (mid ++ t)) = s ++ (mid ++ t) := by
  obtain ⟨a, s, rfl⟩ := List.exists_cons_of_ne_nil hsne
  refine trim_eq_self (fun c hc => hs c ?_) fun c hc => ht c ?_
  · obtain rfl : a = c := by simpa using hc
    exact List.mem_cons_self
  · obtain ⟨last, hlast⟩ := Option.isSome_iff_exists.mp (List.getLast?_isSome.mpr htne)
    rw [List.getLast?_append, List.getLast?_append, hlast, Option.some_or, Option.some_or] at hc
    exact List.mem_of_getLast? (hlast.trans hc)

/-! ### Capitals -/

/-- No character has another capital. -/
def Upper (s : Text) : Prop := ∀ c ∈ s, capital c = [c]

instance (s : Text) : Decidable (Upper s) := List.decidableBAll _ s

theorem Upper.append (hs : Upper s) (ht : Upper t) : Upper (s ++ t) := by
  intro c hc
  rcases List.mem_append.mp hc with h | h
  · exact hs c h
  · exact ht c h

theorem Upper.cons (hc : capital c = [c]) (hs : Upper s) : Upper (c :: s) := by
  intro d hd
  rcases List.mem_cons.mp hd with rfl | h
  · exact hc
  · exact hs d h

theorem Upper.upper_eq (h : Upper s) : upper s = s := by
  induction s with
  | nil => rfl
  | cons c s ih =>
    rw [upper, List.flatMap_cons, h c List.mem_cons_self]
    exact congrArg _ (ih fun d hd => h d (List.mem_cons_of_mem c hd))

end Cadence.Text
