import Cadence.Proofs.Text.Capitals

/-!
# Lines and ends of texts

A text on one line stays on one line, and one without blanks at its ends keeps such ends, when it is written in
capitals: capitals bring in no blanks.
-/

namespace Cadence.Text

variable {s t : Text} {c d : Char}

/-! ### Blanks among capitals -/

/-- No code from `first` to `last` is that of a blank. -/
def clearOfBlanks (first last : Nat) : Bool := blankRanges.all fun (low, high) => Nat.blt last low || Nat.blt high first

theorem clearOfBlanks_runs :
    (capitalRuns.all fun r => clearOfBlanks (r.first + r.shift).toNat (r.last + r.shift).toNat) = true := by
  decide +kernel

theorem clearOfBlanks_long : (longCapitals.all fun entry => entry.2.all fun n => clearOfBlanks n n) = true := by
  decide +kernel

theorem longCapitals_ne_nil : (longCapitals.all fun entry => ! entry.2.isEmpty) = true := by decide +kernel

theorem isBlank_ofNat {first last n : Nat} (clear : clearOfBlanks first last = true) (low : first ≤ n) (high : n ≤ last) :
    isBlank (Char.ofNat n) = false := by
  rw [Bool.eq_false_iff]
  intro blank
  obtain ⟨⟨low', high'⟩, member, inside⟩ := List.any_eq_true.mp blank
  have apart := List.all_eq_true.mp clear _ member
  simp only [Nat.blt_eq, Bool.or_eq_true, Bool.and_eq_true, decide_eq_true_eq] at apart inside
  by_cases valid : n.isValidChar
  · have code : (Char.ofNat n).toNat = n := by
      rw [Char.ofNat, dif_pos valid]
      rfl
    omega
  · -- A number that is no code stands for the character with code zero, which is not blank.
    have code : (Char.ofNat n).toNat = 0 := by
      rw [Char.ofNat, dif_neg valid]
      rfl
    have least : ∀ range ∈ blankRanges, 0 < range.1 := by decide
    have := least _ member
    omega

/-- What is written for a character is that character, or is not blank. -/
theorem eq_or_isBlank_of_mem_capital (member : d ∈ capital c) : d = c ∨ isBlank d = false := by
  unfold capital at member
  split at member
  · split at member
    · rename_i plain small
      obtain rfl := List.mem_singleton.mp member
      have low : 97 ≤ c.toNat := small.1
      have high : c.toNat ≤ 122 := small.2
      have clear : clearOfBlanks 65 90 = true := by decide
      exact .inr (isBlank_ofNat clear (by omega) (by omega))
    · exact .inl (List.mem_singleton.mp member)
  · split at member
    · rename_i codes found
      obtain ⟨n, listed, rfl⟩ := List.mem_map.mp member
      have all := List.all_eq_true.mp clearOfBlanks_long _ (List.mem_of_find?_eq_some found)
      exact .inr (isBlank_ofNat (List.all_eq_true.mp all n listed) (Nat.le_refl n) (Nat.le_refl n))
    · split at member
      · rename_i r found
        obtain rfl := List.mem_singleton.mp member
        have clear := List.all_eq_true.mp clearOfBlanks_runs r (List.mem_of_find?_eq_some found)
        have inside := List.find?_some found
        simp only [Bool.and_eq_true, decide_eq_true_eq] at inside
        exact .inr (isBlank_ofNat clear (by omega) (by omega))
      · exact .inl (List.mem_singleton.mp member)

theorem capital_ne_nil (c : Char) : capital c ≠ [] := by
  unfold capital
  split
  · split <;> exact List.cons_ne_nil _ _
  · split
    · rename_i codes found
      have some := List.all_eq_true.mp longCapitals_ne_nil _ (List.mem_of_find?_eq_some found)
      intro none
      rw [List.map_eq_nil_iff] at none
      rw [none] at some
      cases some
    · split <;> exact List.cons_ne_nil _ _

theorem mem_of_isBlank_of_mem_upper (member : d ∈ upper s) (blank : isBlank d = true) : d ∈ s := by
  obtain ⟨c, inside, written⟩ := List.mem_flatMap.mp member
  rcases eq_or_isBlank_of_mem_capital written with rfl | notBlank
  · exact inside
  · rw [blank] at notBlank
    cases notBlank

/-! ### Lines -/

/-- A text without the end of a line. -/
def OneLine (s : Text) : Prop := ∀ c ∈ s, endsLine c = false

theorem NoBlank.oneLine (noBlank : NoBlank s) : OneLine s := fun c member => endsLine_eq_false (noBlank c member)

theorem OneLine.of_subset (oneLine : OneLine s) (sub : t ⊆ s) : OneLine t := fun c member => oneLine c (sub member)

theorem OneLine.append (left : OneLine s) (right : OneLine t) : OneLine (s ++ t) := List.forall_mem_append.mpr ⟨left, right⟩

theorem OneLine.trim (oneLine : OneLine s) : OneLine (trim s) := oneLine.of_subset fun _ => mem_of_mem_trim

theorem OneLine.upper (oneLine : OneLine s) : OneLine (upper s) := by
  intro c member
  cases blank : isBlank c with
  | false => exact endsLine_eq_false blank
  | true => exact oneLine c (mem_of_isBlank_of_mem_upper member blank)

theorem oneLine_linesFrom {line : Text} (begun : OneLine line) : ∀ l ∈ linesFrom line s, OneLine l := by
  have reversed {l : Text} (begun : OneLine l) : OneLine l.reverse := begun.of_subset (List.reverse_subset.mpr (List.Subset.refl l))
  have none : OneLine [] := nofun
  fun_induction linesFrom line s with
  | case1 line empty => exact nofun
  | case2 line some => exact List.forall_mem_singleton.mpr (reversed begun)
  | case3 line rest ih => exact List.forall_mem_cons.mpr ⟨reversed begun, ih none⟩
  | case4 line c rest _ ends ih => exact List.forall_mem_cons.mpr ⟨reversed begun, ih none⟩
  | case5 line c rest _ goesOn ih => exact ih (List.forall_mem_cons.mpr ⟨Bool.eq_false_iff.mpr goesOn, begun⟩)

theorem oneLine_of_mem_lines : ∀ l ∈ lines s, OneLine l := oneLine_linesFrom nofun

theorem OneLine.lines_eq (oneLine : OneLine s) (some : s ≠ []) : lines s = [s] := by
  have read := linesFrom_append oneLine [] []
  rw [List.append_nil, List.append_nil] at read
  rw [lines, read, linesFrom]
  simp [some]

theorem OneLine.lines_pair (first : OneLine s) (second : OneLine t) (some : t ≠ []) : lines (s ++ '\n' :: t) = [s, t] := by
  rw [lines, linesFrom_append first, List.append_nil, linesFrom, List.reverse_reverse]
  · rw [show endsLine '\n' = true from by decide, if_pos rfl]
    exact congrArg _ (second.lines_eq some)
  · intro x same
    simp at same

/-! ### Ends -/

/-- A text without a blank at either end. -/
structure IsTrimmed (s : Text) : Prop where
  first : ∀ c, s.head? = some c → isBlank c = false
  last : ∀ c, s.getLast? = some c → isBlank c = false

theorem IsTrimmed.trim_eq (trimmed : IsTrimmed s) : trim s = s := trim_eq_self trimmed.first trimmed.last

theorem NoBlank.isTrimmed (noBlank : NoBlank s) : IsTrimmed s :=
  ⟨fun _ first => noBlank _ (List.mem_of_head? first), fun _ last => noBlank _ (List.mem_of_getLast? last)⟩

theorem isBlank_head?_dropWhile {c : Char} (first : (s.dropWhile isBlank).head? = some c) : isBlank c = false := by
  have found := List.head?_dropWhile_not isBlank s
  rw [first] at found
  exact Bool.eq_false_iff.mpr (by simpa using found)

theorem isTrimmed_trim (s : Text) : IsTrimmed (trim s) where
  first c first := by
    -- What is dropped at the end leaves the first character, unless it leaves none.
    rw [trim, trimRight] at first
    obtain ⟨rest, parts⟩ := List.head?_eq_some_iff.mp first
    have prefixed := List.reverse_prefix.mpr (List.dropWhile_suffix (l := (trimLeft s).reverse) isBlank)
    rw [List.reverse_reverse, parts] at prefixed
    obtain ⟨more, whole⟩ := prefixed
    refine isBlank_head?_dropWhile (s := s) ?_
    rw [← trimLeft, ← whole]
    rfl
  last c last := by
    rw [trim, trimRight, List.getLast?_reverse] at last
    exact isBlank_head?_dropWhile last

theorem getLast?_append_of_ne_nil (s : Text) (some : t ≠ []) : (s ++ t).getLast? = t.getLast? := by
  obtain ⟨last, found⟩ := Option.isSome_iff_exists.mp (List.getLast?_isSome.mpr some)
  rw [List.getLast?_append, found, Option.some_or]

theorem IsTrimmed.upper (trimmed : IsTrimmed s) : IsTrimmed (upper s) := by
  have clear {c d : Char} (member : d ∈ capital c) (notBlank : isBlank c = false) : isBlank d = false := by
    rcases eq_or_isBlank_of_mem_capital member with rfl | clear
    · exact notBlank
    · exact clear
  constructor
  · intro d first
    cases s with
    | nil => cases first
    | cons c s =>
      obtain ⟨e, rest, parts⟩ := List.exists_cons_of_ne_nil (capital_ne_nil c)
      rw [Text.upper, List.flatMap_cons, parts] at first
      obtain rfl : e = d := Option.some.inj first
      exact clear (parts ▸ List.mem_cons_self) (trimmed.first c rfl)
  · intro d last
    rcases List.eq_nil_or_concat s with rfl | ⟨s, c, rfl⟩
    · cases last
    · have written : Text.upper (s ++ [c]) = Text.upper s ++ capital c := by
        rw [Text.upper, List.flatMap_append, List.flatMap_singleton]
        rfl
      rw [List.concat_eq_append, written, getLast?_append_of_ne_nil _ (capital_ne_nil c)] at last
      exact clear (List.mem_of_getLast? last) (trimmed.last c (by simp))

theorem IsTrimmed.joined {first last : Text} (left : IsTrimmed first) (right : IsTrimmed last) (begins : first ≠ []) (ends : last ≠ [])
    (mid : Text) : IsTrimmed (first ++ (mid ++ last)) := by
  constructor
  · intro c found
    obtain ⟨a, first, rfl⟩ := List.exists_cons_of_ne_nil begins
    exact left.first c found
  · intro c found
    rw [← List.append_assoc, getLast?_append_of_ne_nil _ ends] at found
    exact right.last c found

theorem isTrimmed_joinWith {sep : Char} {pieces : List Text} (all : ∀ p ∈ pieces, IsTrimmed p ∧ p ≠ []) :
    IsTrimmed (joinWith [sep] pieces) := by
  induction pieces with
  | nil => exact ⟨nofun, nofun⟩
  | cons p more ih =>
    obtain ⟨own, some⟩ := all p List.mem_cons_self
    cases more with
    | nil => exact own
    | cons q more =>
      have rest := ih fun x member => all x (List.mem_cons_of_mem p member)
      have some' : joinWith [sep] (q :: more) ≠ [] := by
        obtain ⟨c, q', rfl⟩ := List.exists_cons_of_ne_nil (all q (by simp)).2
        intro none
        have inside : c ∈ joinWith [sep] ((c :: q') :: more) := mem_joinWith_of_mem List.mem_cons_self List.mem_cons_self
        rw [none] at inside
        cases inside
      rw [joinWith_cons_cons, List.append_assoc]
      exact own.joined rest some some' [sep]

end Cadence.Text
