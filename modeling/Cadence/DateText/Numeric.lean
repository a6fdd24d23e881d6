import Cadence.Calendar.Stamp
import Cadence.Locale

/-!
# Dates in numbers

A date written as three numbers with separators between them, perhaps with a time of day behind. A
number above 31 or of four digits is the year, else the locale says where the year stands; of the
other two a number above 12 is the day, else the locale says which one is. A year of one or two
digits lies between 1950 and 2049.
-/

namespace Cadence

/-- The numbers of a date and a time of day as they are written. -/
structure NumericDate where
  first : Text
  second : Text
  third : Text
  hour : Text := []
  minute : Text := []
  secondOfMinute : Text := []
  deriving DecidableEq

namespace NumericDate

/-- The separators between the numbers of a date. -/
def isSeparator (c : Char) : Bool := c = '/' || c = '.' || c = '-'

/-- The digits at the start of a text. -/
def digits (s : Text) : Text := s.takeWhile Text.isDecimal

/-- One to four digits that a separator follows, and the text after it. -/
def field? (s : Text) : Option (Text × Text) :=
  let run := digits s
  if run.isEmpty || 4 < run.length then none
  else
    match Text.trimLeft (s.drop run.length) with
    | c :: rest => if isSeparator c then some (run, Text.trimLeft rest) else none
    | [] => none

/-- Exactly two digits, and the text after them. -/
def twoDigits? (s : Text) : Option (Text × Text) :=
  match s with
  | a :: b :: rest => if Text.isDecimal a && Text.isDecimal b then some ([a, b], rest) else none
  | _ => none

/-- The minute after the colon that follows an hour, and the second if there is one, up to the end. -/
def clockEnd? (s : Text) : Option (Text × Text) := do
  let (minute, rest) ← twoDigits? (← Text.following? [':'] s)
  match rest with
  | [] => some (minute, [])
  | ':' :: rest => do
    let (second, rest) ← twoDigits? rest
    if rest.isEmpty then some (minute, second) else none
  | _ => none

/-- An hour of one or two digits and what follows it, up to the end. -/
def clock? (s : Text) : Option (Text × Text × Text) :=
  let run := digits s
  if run.isEmpty || 2 < run.length then none
  else (clockEnd? (s.drop run.length)).map fun (minute, second) => (run, minute, second)

/-- The blanks and the comma that may stand between a date and a time of day are left off. -/
def skipComma (s : Text) : Text :=
  match Text.trimLeft s with
  | ',' :: rest => Text.trimLeft rest
  | rest => rest

/-- The third number and the time of day, the number being given `count` digits, or fewer if that does
    not work out. When digits are left over they are the hour. -/
def thirdFrom? (s : Text) : Nat → Option (Text × Text × Text × Text)
  | 0 => none
  | count + 1 =>
    let run := digits s
    let (third, extra) := (run.take (count + 1), run.drop (count + 1))
    let rest := s.drop run.length
    let found :=
      if ! extra.isEmpty then clock? (extra ++ rest)
      else if rest.isEmpty then some ([], [], [])
      else clock? (skipComma rest)
    match found with
    | some (hour, minute, second) => some (third, hour, minute, second)
    | none => thirdFrom? s count

/-- The numbers of a text that has the form of a date in numbers. -/
def ofText? (s : Text) : Option NumericDate := do
  let (first, s) ← field? s
  let (second, s) ← field? s
  let (third, hour, minute, secondOfMinute) ← thirdFrom? s (min 4 (digits s).length)
  some { first, second, third, hour, minute, secondOfMinute }

/-- The size of a number as written, zero when nothing is written. -/
def size (written : Text) : Nat := (Text.readNat? written).getD 0

/-- The number can only be a year. -/
def marksYear (written : Text) : Bool := 31 < size written || written.length = 4

/-- The year that a number stands for: with one or two digits, one between 1950 and 2049. -/
def yearOf (written : Text) : Nat :=
  let n := size written
  if written.length ≤ 2 then (if n < 50 then 2000 + n else 1900 + n) else n

/-- The year and the two other numbers in order. None when two numbers can only be the year. -/
def splitYear? (d : NumericDate) (format : LocaleFormat) : Option (Text × Text × Text) :=
  match marksYear d.first, marksYear d.second, marksYear d.third with
  | true, false, false => some (d.first, d.second, d.third)
  | false, true, false => some (d.second, d.first, d.third)
  | false, false, true => some (d.third, d.first, d.second)
  | false, false, false =>
    if format.order.yearIndex = 0 then some (d.first, d.second, d.third)
    else some (d.third, d.first, d.second)
  | _, _, _ => none

/-- The day and the month among two numbers. None when both are above 12. -/
def dayAndMonth? (a b : Nat) (format : LocaleFormat) : Option (Nat × Nat) :=
  if 12 < a ∧ 12 < b then none
  else if 12 < a then some (a, b)
  else if 12 < b then some (b, a)
  else if format.order.dayFirst then some (a, b)
  else some (b, a)

/-- The timestamp that the numbers stand for in a locale, if there is one. -/
def stamp? (d : NumericDate) (format : LocaleFormat) : Option Stamp := do
  let (year, a, b) ← d.splitYear? format
  let (day, month) ← dayAndMonth? (size a) (size b) format
  Stamp.of? (yearOf year) month day (size d.hour) (size d.minute) (size d.secondOfMinute) 0

end NumericDate

end Cadence
