import Cadence.Text.Basic

/-!
# Blank characters and line ends

Blank characters are the Unicode spaces, the horizontal and vertical control spaces, the four
information separators and the next-line character. Text is trimmed and broken into words by them.
Lines end at any Unicode line end, a carriage return with a line feed counting as one.
-/

namespace Cadence.Text

/-- The codes of the blank characters, in ranges. -/
def blankRanges : List (Nat × Nat) :=
  [(9, 13), (28, 32), (133, 133), (160, 160), (5760, 5760), (8192, 8202), (8232, 8233), (8239, 8239),
   (8287, 8287), (12288, 12288)]

/-- A blank character. -/
def isBlank (c : Char) : Bool := inRanges blankRanges c

/-- The text without the blanks at its start. -/
def trimLeft (s : Text) : Text := s.dropWhile isBlank

/-- The text without the blanks at its end. -/
def trimRight (s : Text) : Text := (s.reverse.dropWhile isBlank).reverse

/-- The text without the blanks at both its ends. -/
def trim (s : Text) : Text := trimRight (trimLeft s)

/-- The maximal runs of characters that are not blank, in order. -/
def words (s : Text) : List Text :=
  let (run, done) := s.foldr (fun c (run, done) =>
    if isBlank c then ([], if run.isEmpty then done else run :: done) else (c :: run, done)) ([], [])
  if run.isEmpty then done else run :: done

/-- A character that ends a line. -/
def endsLine (c : Char) : Bool :=
  c = '\n' || c = '\r' || inRanges [(11, 12), (28, 30), (133, 133), (8232, 8233)] c

/-- The lines of a text when `line`, written backwards, has been read of the first one. -/
def linesFrom (line : Text) : Text → List Text
  | [] => if line.isEmpty then [] else [line.reverse]
  | '\r' :: '\n' :: rest => line.reverse :: linesFrom [] rest
  | c :: rest =>
    if endsLine c then line.reverse :: linesFrom [] rest else linesFrom (c :: line) rest

/-- The lines of a text without their ends. A last line that is empty does not count. -/
def lines (s : Text) : List Text := linesFrom [] s

end Cadence.Text
