import Cadence.Text.Basic

/-!
# Content lines

A calendar document consists of lines of a name and a value. Values that are text have their commas,
semicolons, backslashes and line ends escaped. A line longer than 74 octets is folded: it goes on in a
new line after a blank, no character being split.
-/

namespace Cadence

/-- A line of a calendar document. -/
structure ContentLine where
  name : Text
  value : Text
  deriving DecidableEq

namespace ContentLine

/-! ### Text values -/

/-- A backslash before a capital N stands for a line end. -/
def readLineEnds : Text → Text
  | '\\' :: 'N' :: rest => '\n' :: readLineEnds rest
  | c :: rest => c :: readLineEnds rest
  | [] => []

/-- A text as a value, line ends being those of a line feed, alone or after a carriage return. -/
def escapeChars : Text → Text
  | '\r' :: '\n' :: rest => '\\' :: 'n' :: escapeChars rest
  | '\n' :: rest => '\\' :: 'n' :: escapeChars rest
  | '\\' :: rest => '\\' :: '\\' :: escapeChars rest
  | ';' :: rest => '\\' :: ';' :: escapeChars rest
  | ',' :: rest => '\\' :: ',' :: escapeChars rest
  | c :: rest => c :: escapeChars rest
  | [] => []

/-- A text without the mark of byte order that it may begin with. -/
def dropMark : Text → Text
  | c :: rest => if c.toNat = 0xFEFF then rest else c :: rest
  | [] => []

/-- A text as a value. -/
def escape (s : Text) : Text := dropMark (escapeChars (readLineEnds s))

/-! ### Folding -/

/-- The most octets in a line. -/
def maxOctets : Nat := 74

/-- The number of octets of a character. -/
def octets (c : Char) : Nat :=
  if c.toNat < 0x80 then 1 else if c.toNat < 0x800 then 2 else if c.toNat < 0x10000 then 3 else 4

/-- A text with folds in it, `used` octets being in the current line already. -/
def foldFrom (used : Nat) : Text → Text
  | [] => []
  | c :: rest =>
    if maxOctets < used + octets c then '\r' :: '\n' :: ' ' :: c :: foldFrom (octets c) rest
    else c :: foldFrom (used + octets c) rest

/-- A text with folds in it. -/
def fold (s : Text) : Text := foldFrom 0 s

/-- The line as it is written, with its line end. -/
def text (l : ContentLine) : Text := fold (l.name ++ ':' :: l.value) ++ ['\r', '\n']

end ContentLine

end Cadence
