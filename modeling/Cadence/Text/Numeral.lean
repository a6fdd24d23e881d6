import Cadence.Text.Blank
import Cadence.Text.Digit

/-!
# Whole numbers as text

A whole number is read with blanks around it, a sign before it and single underscores between its
digits, in the decimal digits of any script. It is written in plain digits. Numbers of more than
4300 digits are not read.
-/

namespace Cadence.Text

/-- The most digits that a number may be written with. -/
def maxDigits : Nat := 4300

/-- The value of a row of digits, each ten times the next. -/
def digitsValue (digits : List Nat) : Nat :=
  digits.foldl (fun n d => 10 * n + d) 0

/-- The digits' values, none when a character is no decimal digit. -/
def digitValues? (s : Text) : Option (List Nat) := s.mapM digitValue?

/-- Blanks around a number: the blanks other than the four information separators. -/
def isNumberBlank (c : Char) : Bool := isBlank c && ! (28 ≤ c.toNat && c.toNat ≤ 31)

/-- The text without the blanks that may stand around a number. -/
def trimNumber (s : Text) : Text :=
  ((s.dropWhile isNumberBlank).reverse.dropWhile isNumberBlank).reverse

/-- A number without a sign: rows of digits with one underscore between two rows. -/
def readNat? (s : Text) : Option Nat := do
  let rows := splitOn '_' s
  if rows.any (·.isEmpty) then none
  else
    let digits ← digitValues? rows.flatten
    if digits.length ≤ maxDigits then some (digitsValue digits) else none

/-- A whole number with an optional sign and blanks around it. -/
def readInt? (s : Text) : Option Int :=
  match trimNumber s with
  | '-' :: digits => (readNat? digits).map fun n => -(n : Int)
  | '+' :: digits => (readNat? digits).map fun n => (n : Int)
  | digits => (readNat? digits).map fun n => (n : Int)

/-- The plain digits of a number. -/
def ofNat (n : Nat) : Text := Nat.toDigits 10 n

/-- The plain digits of a number, a minus sign before a negative one. -/
def ofInt : Int → Text
  | .ofNat n => ofNat n
  | .negSucc n => '-' :: ofNat (n + 1)

/-- The plain digits of a number, filled with zeros in front to `width` digits. -/
def ofNatPadded (width : Nat) (n : Nat) : Text := padLeft width '0' (ofNat n)

end Cadence.Text
