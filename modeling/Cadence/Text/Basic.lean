/-!
# Text

Text is a list of characters, so that every reader and writer of the library is a plain function on
lists. This file holds the operations that the rest shares: cutting at a separator, joining, padding.
-/

namespace Cadence

/-- Text as the library reads and writes it: its characters in order. -/
abbrev Text := List Char

/-- A string literal stands for the list of its characters. -/
instance : Coe String Text := ⟨String.toList⟩

namespace Text

/-- The pieces between the occurrences of `sep`. There is always one more piece than separators, so
    empty text has one empty piece. -/
def splitOn (sep : Char) : Text → List Text
  | [] => [[]]
  | c :: rest =>
    if c = sep then [] :: splitOn sep rest
    else
      match splitOn sep rest with
      | [] => [[c]]
      | piece :: more => (c :: piece) :: more

/-- The text before the first `sep` and the text after it; none when there is no `sep`. -/
def cut? (sep : Char) : Text → Option (Text × Text)
  | [] => none
  | c :: rest =>
    if c = sep then some ([], rest)
    else (cut? sep rest).map fun (before, after) => (c :: before, after)

/-- The text after the last `sep`, or all of it when there is none. -/
def afterLast (sep : Char) (s : Text) : Text :=
  (s.reverse.takeWhile (· ≠ sep)).reverse

/-- Pieces written one after the other with `sep` between them. -/
def joinWith (sep : Text) : List Text → Text
  | [] => []
  | [piece] => piece
  | piece :: more => piece ++ sep ++ joinWith sep more

/-- The text without the pieces that are empty, as comma lists are read. -/
def nonEmptyItems (s : Text) : List Text :=
  (splitOn ',' s).filter (! ·.isEmpty)

/-- The text without any `c` at its end. -/
def dropTrailing (c : Char) (s : Text) : Text :=
  (s.reverse.dropWhile (· = c)).reverse

/-- The text with `c` put in front until it has `width` characters. -/
def padLeft (width : Nat) (c : Char) (s : Text) : Text :=
  List.replicate (width - s.length) c ++ s

/-- The text with `c` put behind until it has `width` characters. -/
def padRight (width : Nat) (c : Char) (s : Text) : Text :=
  s ++ List.replicate (width - s.length) c

/-- The text that follows `lead` at the start of a text; none when the text starts otherwise. -/
def following? : Text → Text → Option Text
  | [], s => some s
  | c :: lead, d :: s => if c = d then following? lead s else none
  | _ :: _, [] => none

/-- The text starts with `lead`. -/
def startsWith (lead s : Text) : Bool := (following? lead s).isSome

/-- Character by character order, the shorter text first when one begins the other. -/
def le : Text → Text → Bool
  | [], _ => true
  | _ :: _, [] => false
  | a :: s, b :: t => if a = b then le s t else a.toNat < b.toNat

/-- A character with its code inside one of the listed ranges, both ends included. -/
def inRanges (ranges : List (Nat × Nat)) (c : Char) : Bool :=
  ranges.any fun (lo, hi) => lo ≤ c.toNat && c.toNat ≤ hi

@[simp] theorem splitOn_nil (sep : Char) : splitOn sep [] = [[]] := rfl

theorem following?_eq_some {lead s rest : Text} : following? lead s = some rest ↔ s = lead ++ rest := by
  induction lead generalizing s with
  | nil => simp [following?]
  | cons c lead ih =>
    cases s with
    | nil => simp [following?]
    | cons d s =>
      by_cases h : c = d
      · subst h; simp [following?, ih]
      · simp [following?, h, Ne.symm h]

theorem splitOn_ne_nil (sep : Char) (s : Text) : splitOn sep s ≠ [] := by
  cases s with
  | nil => simp
  | cons c rest =>
    simp only [splitOn]
    split
    · simp
    · split <;> simp

theorem joinWith_splitOn (sep : Char) (s : Text) : joinWith [sep] (splitOn sep s) = s := by
  induction s with
  | nil => rfl
  | cons c rest ih =>
    simp only [splitOn]
    split
    · rename_i h
      cases hs : splitOn sep rest with
      | nil => exact absurd hs (splitOn_ne_nil sep rest)
      | cons piece more => rw [hs] at ih; simp [joinWith, ih, h]
    · cases hs : splitOn sep rest with
      | nil => exact absurd hs (splitOn_ne_nil sep rest)
      | cons piece more =>
        rw [hs] at ih
        cases more with
        | nil => simpa [joinWith] using ih
        | cons p ps => simpa [joinWith] using ih

end Text

end Cadence
