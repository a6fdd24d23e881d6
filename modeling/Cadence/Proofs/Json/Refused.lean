import Cadence.Proofs.Json.Values

/-!
# Texts that are refused as JSON

Each part of the reader stops at an end of the text it was given, so a text that opens no more lists and objects than
may stand inside one another, and has no row of digits longer than the numbers that are read, is refused only for not
being JSON.
-/

namespace Cadence.Json

variable {s t rest : Text} {x : Datum} {room fuel : Nat}

/-! ### What is left of a text -/

theorem skip_suffix (s : Text) : skip s <:+ s := List.dropWhile_suffix isSpace

theorem suffix_of_stringCodes? {codes : List Nat} (read : stringCodes? s = some (codes, rest)) : rest <:+ s := by
  induction s using stringCodes?.induct generalizing codes with
  | case1 => cases read
  | case2 after =>
    cases read
    exact List.suffix_cons _ _
  | case3 a b c d after ih =>
    rw [stringCodes?] at read
    obtain ⟨unit, -, read⟩ := Option.bind_eq_some_iff.mp read
    obtain ⟨⟨codes', after'⟩, more, read⟩ := Option.bind_eq_some_iff.mp read
    cases read
    exact (ih more).trans ⟨['\\', 'u', a, b, c, d], rfl⟩
  | case4 c after escape ih =>
    rw [stringCodes?.eq_4 c after escape] at read
    obtain ⟨code, -, read⟩ := Option.bind_eq_some_iff.mp read
    obtain ⟨⟨codes', after'⟩, more, read⟩ := Option.bind_eq_some_iff.mp read
    cases read
    exact (ih more).trans ⟨['\\', c], rfl⟩
  | case5 c after quote unit escape low =>
    rw [stringCodes?.eq_5 c after quote unit escape, if_pos low] at read
    cases read
  | case6 c after quote unit escape low ih =>
    rw [stringCodes?.eq_5 c after quote unit escape, if_neg low] at read
    obtain ⟨⟨codes', after'⟩, more, read⟩ := Option.bind_eq_some_iff.mp read
    cases read
    exact (ih more).trans (List.suffix_cons _ _)

theorem suffix_of_string? (read : string? s = some (t, rest)) : rest <:+ s := by
  obtain ⟨⟨codes, after⟩, found, same⟩ := Option.map_eq_some_iff.mp read
  cases same
  exact suffix_of_stringCodes? found

theorem suffix_of_word? (found : word? s = some (x, rest)) : rest <:+ s := by
  obtain ⟨⟨name, value⟩, -, read⟩ := List.exists_of_findSome?_eq_some found
  obtain ⟨after, follows, same⟩ := Option.map_eq_some_iff.mp read
  cases same
  exact ⟨name, (Text.following?_eq_some.mp follows).symm⟩

theorem fraction_suffix (s : Text) : (fraction s).2 <:+ s := by
  unfold fraction
  split
  · dsimp only
    split
    · exact List.suffix_refl _
    · exact (List.dropWhile_suffix isPlainDigit).trans (List.suffix_cons _ _)
  · exact List.suffix_refl _

theorem exponent_suffix (s : Text) : (exponent s).2 <:+ s := by
  unfold exponent
  split
  · rename_i c more
    split
    · -- The body of the exponent is what follows its sign, if there is one.
      have body : ∀ body : Bool × Text, body.2 <:+ c :: more →
          (if (body.2.takeWhile isPlainDigit).isEmpty then ((none : Option Int), c :: more)
            else
              (some (if body.1 then -(Text.digitsValue ((body.2.takeWhile isPlainDigit).map fun d => d.toNat - 48) : Int)
                else Text.digitsValue ((body.2.takeWhile isPlainDigit).map fun d => d.toNat - 48)),
                body.2.dropWhile isPlainDigit)).2 <:+ c :: more := by
        intro body suffix
        split
        · exact List.suffix_refl _
        · exact (List.dropWhile_suffix isPlainDigit).trans suffix
      dsimp only
      split
      · exact body (true, _) ⟨[c, '-'], rfl⟩
      · exact body (false, _) ⟨[c, '+'], rfl⟩
      · exact body (false, _) ⟨[c], rfl⟩
    · exact List.suffix_refl _
  · exact List.suffix_refl _

theorem suffix_of_number {negative : Bool} (read : number negative s = .ok (x, rest)) : rest <:+ s := by
  rw [number_eq] at read
  generalize wholeDigits (s.takeWhile isPlainDigit) = whole at read
  have after : (exponent (fraction (s.drop whole.length)).2).2 <:+ s :=
    ((exponent_suffix _).trans (fraction_suffix _)).trans (List.drop_suffix _ _)
  unfold numberFrom at read
  dsimp only at read
  split at read
  · cases read
  · split at read
    · split at read <;> cases read
      exact after
    · cases read
      exact after

/-- What is read at one depth of the search ends where its text does. -/
structure ReadsPart (fuel : Nat) : Prop where
  value : ∀ room s x rest, Json.value fuel room s = .ok (x, rest) → rest <:+ s
  items : ∀ room done s x rest, Json.items fuel room done s = .ok (x, rest) → rest <:+ s
  members : ∀ room done s x rest, Json.members fuel room done s = .ok (x, rest) → rest <:+ s

theorem suffix_of_skip {first : Char} {after : Text} (left : skip t = first :: after) (part : t <:+ s) : after <:+ s :=
  ((List.suffix_cons first after).trans (left ▸ skip_suffix t)).trans part

theorem ReadsPart.value_succ (reads : ReadsPart fuel) (read : Json.value (fuel + 1) room s = .ok (x, rest)) : rest <:+ s := by
  unfold Json.value at read
  split at read
  · rename_i found
    cases read
    exact suffix_of_word? found
  · split at read
    · split at read
      · rename_i found
        cases read
        exact (suffix_of_string? found).trans (List.suffix_cons _ _)
      · cases read
    · split at read
      · cases read
      · split at read
        · rename_i left
          cases read
          exact suffix_of_skip left (List.suffix_cons _ _)
        · exact (reads.items _ _ _ _ _ read).trans ((skip_suffix _).trans (List.suffix_cons _ _))
    · split at read
      · cases read
      · split at read
        · rename_i left
          cases read
          exact suffix_of_skip left (List.suffix_cons _ _)
        · exact (reads.members _ _ _ _ _ read).trans ((skip_suffix _).trans (List.suffix_cons _ _))
    · exact (suffix_of_number read).trans (List.suffix_cons _ _)
    · exact suffix_of_number read

theorem ReadsPart.items_succ {done : List Datum} (reads : ReadsPart fuel) (read : Json.items (fuel + 1) room done s = .ok (x, rest)) :
    rest <:+ s := by
  unfold Json.items at read
  obtain ⟨⟨item, after⟩, found, read⟩ := bind_eq_ok.mp read
  have part := reads.value _ _ _ _ found
  dsimp only at read
  split at read
  · rename_i left
    exact ((reads.items _ _ _ _ _ read).trans (skip_suffix _)).trans (suffix_of_skip left part)
  · rename_i left
    cases read
    exact suffix_of_skip left part
  · cases read

theorem ReadsPart.members_succ {done : List (Text × Datum)} (reads : ReadsPart fuel)
    (read : Json.members (fuel + 1) room done s = .ok (x, rest)) : rest <:+ s := by
  unfold Json.members at read
  split at read
  · rename_i quoted
    split at read
    · cases read
    · rename_i named
      split at read
      · rename_i colon
        have name := suffix_of_skip colon ((suffix_of_string? named).trans (List.suffix_cons '"' quoted))
        obtain ⟨⟨item, after⟩, found, read⟩ := bind_eq_ok.mp read
        have part := (reads.value _ _ _ _ found).trans ((skip_suffix _).trans name)
        dsimp only at read
        split at read
        · rename_i left
          exact ((reads.members _ _ _ _ _ read).trans (skip_suffix _)).trans (suffix_of_skip left part)
        · rename_i left
          cases read
          exact suffix_of_skip left part
        · cases read
      · cases read
  · cases read

theorem readsPart (fuel : Nat) : ReadsPart fuel := by
  induction fuel with
  | zero =>
    refine ⟨fun _ _ _ _ read => ?_, fun _ _ _ _ _ read => ?_, fun _ _ _ _ _ read => ?_⟩
    · unfold Json.value at read
      cases read
    · unfold Json.items at read
      cases read
    · unfold Json.members at read
      cases read
  | succ fuel ih => exact ⟨fun _ _ _ _ => ih.value_succ, fun _ _ _ _ _ => ih.items_succ, fun _ _ _ _ _ => ih.members_succ⟩

/-! ### Why a text is refused -/

/-- A bracket that opens a list or an object. -/
def opens (c : Char) : Bool := c = '[' || c = '\x7b'

/-- How many lists and objects a text opens, were all its brackets such. -/
def openings (s : Text) : Nat := s.countP opens

/-- A text that opens no more lists and objects than there is room for, and no row of whose digits is longer than numbers
    that are read. -/
structure IsWithin (room : Nat) (s : Text) : Prop where
  openings : Json.openings s ≤ room
  rows : ∀ row, row <:+: s → row.all isPlainDigit = true → row.length ≤ Text.maxDigits

theorem IsWithin.suffix (within : IsWithin room s) (part : t <:+ s) : IsWithin room t where
  openings := Nat.le_trans part.sublist.countP_le within.openings
  rows row inside := within.rows row (inside.trans part.isInfix)

theorem IsWithin.opened {bracket : Char} (isBracket : opens bracket = true)
    (within : IsWithin (room + 1) (bracket :: s)) : IsWithin room s where
  openings := by
    have count := within.openings
    rw [Json.openings, List.countP_cons_of_pos isBracket] at count
    exact Nat.le_of_succ_le_succ count
  rows := (within.suffix (List.suffix_cons _ _)).rows

theorem IsWithin.room_ne_zero {bracket : Char} (isBracket : opens bracket = true) :
    ¬ IsWithin 0 (bracket :: s) := by
  intro within
  have count := within.openings
  rw [Json.openings, List.countP_cons_of_pos isBracket] at count
  exact absurd count (Nat.not_succ_le_zero _)

variable {flaw : Flaw}

theorem wholeDigits_begins (run : Text) : wholeDigits run <+: run := by
  unfold wholeDigits
  split
  · exact ⟨_, rfl⟩
  · exact List.prefix_refl _

theorem malformed_of_number {negative : Bool} (within : IsWithin room s) (refused : number negative s = .error flaw) :
    flaw = .malformed := by
  rw [number_eq] at refused
  have few : (wholeDigits (s.takeWhile isPlainDigit)).length ≤ Text.maxDigits := by
    have part := (wholeDigits_begins (s.takeWhile isPlainDigit)).trans (List.takeWhile_prefix isPlainDigit)
    exact within.rows _ part.isInfix (List.all_eq_true.mpr fun c member => isPlainDigit_of_mem_wholeDigits member)
  generalize wholeDigits (s.takeWhile isPlainDigit) = whole at refused few
  unfold numberFrom at refused
  dsimp only at refused
  split at refused
  · cases refused
    rfl
  · split at refused
    · rw [if_neg (Nat.not_lt.mpr few)] at refused
      cases refused
    · cases refused

/-- What is refused at one depth of the search is no JSON. -/
structure Refuses (fuel : Nat) : Prop where
  value : ∀ room s flaw, IsWithin room s → Json.value fuel room s = .error flaw → flaw = .malformed
  items : ∀ room done s flaw, IsWithin room s → Json.items fuel room done s = .error flaw → flaw = .malformed
  members : ∀ room done s flaw, IsWithin room s → Json.members fuel room done s = .error flaw → flaw = .malformed

theorem Refuses.value_succ (refuses : Refuses fuel) (within : IsWithin room s) (refused : Json.value (fuel + 1) room s = .error flaw) :
    flaw = .malformed := by
  unfold Json.value at refused
  split at refused
  · cases refused
  · split at refused
    · split at refused <;> cases refused
      rfl
    · split at refused
      · exact absurd within (IsWithin.room_ne_zero (by decide))
      · split at refused
        · cases refused
        · exact refuses.items _ _ _ _ ((within.opened (by decide)).suffix (skip_suffix _)) refused
    · split at refused
      · exact absurd within (IsWithin.room_ne_zero (by decide))
      · split at refused
        · cases refused
        · exact refuses.members _ _ _ _ ((within.opened (by decide)).suffix (skip_suffix _)) refused
    · exact malformed_of_number (within.suffix (List.suffix_cons _ _)) refused
    · exact malformed_of_number within refused

theorem Refuses.items_succ {done : List Datum} (refuses : Refuses fuel) (within : IsWithin room s)
    (refused : Json.items (fuel + 1) room done s = .error flaw) : flaw = .malformed := by
  unfold Json.items at refused
  rcases bind_eq_error.mp refused with refused | ⟨⟨item, after⟩, found, refused⟩
  · exact refuses.value _ _ _ within refused
  · have part := (readsPart fuel).value _ _ _ _ found
    dsimp only at refused
    split at refused
    · rename_i left
      exact refuses.items _ _ _ _ (within.suffix ((skip_suffix _).trans (suffix_of_skip left part))) refused
    · cases refused
    · cases refused
      rfl

theorem Refuses.members_succ {done : List (Text × Datum)} (refuses : Refuses fuel) (within : IsWithin room s)
    (refused : Json.members (fuel + 1) room done s = .error flaw) : flaw = .malformed := by
  unfold Json.members at refused
  split at refused
  · rename_i quoted
    split at refused
    · cases refused
      rfl
    · rename_i named
      split at refused
      · rename_i colon
        have name := suffix_of_skip colon ((suffix_of_string? named).trans (List.suffix_cons '"' quoted))
        rcases bind_eq_error.mp refused with refused | ⟨⟨item, after⟩, found, refused⟩
        · exact refuses.value _ _ _ (within.suffix ((skip_suffix _).trans name)) refused
        · have part := ((readsPart fuel).value _ _ _ _ found).trans ((skip_suffix _).trans name)
          dsimp only at refused
          split at refused
          · rename_i left
            exact refuses.members _ _ _ _ (within.suffix ((skip_suffix _).trans (suffix_of_skip left part))) refused
          · cases refused
          · cases refused
            rfl
      · cases refused
        rfl
  · cases refused
    rfl

theorem refuses (fuel : Nat) : Refuses fuel := by
  induction fuel with
  | zero =>
    refine ⟨fun _ _ _ _ refused => ?_, fun _ _ _ _ _ refused => ?_, fun _ _ _ _ _ refused => ?_⟩
    · unfold Json.value at refused
      exact (Except.error.inj refused).symm
    · unfold Json.items at refused
      exact (Except.error.inj refused).symm
    · unfold Json.members at refused
      exact (Except.error.inj refused).symm
  | succ fuel ih => exact ⟨fun _ _ _ => ih.value_succ, fun _ _ _ _ => ih.items_succ, fun _ _ _ _ => ih.members_succ⟩

/-- A text that opens no more lists and objects than may stand inside one another, and writes no number too long, is refused only for
    not being JSON. -/
theorem malformed_of_read (within : IsWithin maxDepth s) (refused : Json.read s = .error flaw) : flaw = .malformed := by
  rcases bind_eq_error.mp refused with refused | ⟨⟨found, after⟩, -, refused⟩
  · exact (refuses _).value _ _ _ (within.suffix (skip_suffix s)) refused
  · dsimp only at refused
    split at refused <;> cases refused
    rfl

end Cadence.Json
