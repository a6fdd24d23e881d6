import Cadence.Text.Half
import Cadence.Text.Printable

/-!
# Quoted text

How a text is shown inside a message: between single quotes, or between double quotes when it holds
single quotes and no double ones. A backslash, the quote that encloses the text, line ends and tabs
are escaped by a backslash, and every character that is not printable by its code.
-/

namespace Cadence.Text

/-- The digits of a code in base sixteen, filled with zeros to `width`. -/
def hex (width : Nat) (n : Nat) : Text := padLeft width '0' (Nat.toDigits 16 n)

/-- One character inside the quotes `mark`. -/
def quoteChar (mark : Char) (c : Char) : Text :=
  if c = mark ∨ c = '\\' then ['\\', c]
  else if c = '\n' then ['\\', 'n']
  else if c = '\r' then ['\\', 'r']
  else if c = '\t' then ['\\', 't']
  else if isPrintable c then [c]
  else
    match half? c with
    | some unit => ['\\', 'u'] ++ hex 4 unit
    | none =>
      if c.toNat < 256 then ['\\', 'x'] ++ hex 2 c.toNat
      else if c.toNat < 65536 then ['\\', 'u'] ++ hex 4 c.toNat
      else ['\\', 'U'] ++ hex 8 c.toNat

/-- The quotes that enclose a text. -/
def quoteMark (s : Text) : Char :=
  if s.contains '\'' && ! s.contains '"' then '"' else '\''

/-- A text between quotes. -/
def quoted (s : Text) : Text :=
  quoteMark s :: s.flatMap (quoteChar (quoteMark s)) ++ [quoteMark s]

end Cadence.Text
