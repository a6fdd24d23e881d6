import Cadence.Calendar.Stamp
import Cadence.Text.Blank
import Cadence.Text.Case

/-!
# Dates in rule text

Rule text writes a date and time as `20250623T155800`, or a date alone as `20250623`, with any number
of letters `Z` behind. The year has four digits; the other numbers have two, or one where the digits
that follow leave no other reading. Of several readings the first one counts, numbers of two digits
being tried before those of one.
-/

namespace Cadence.Compact

/-- A number within limits at the start of a text, of two digits or of one, with the text after it. -/
abbrev Readings := List (Nat × Text)

/-- The first digit is one of those listed, in plain digits, and the second any digit; both are read. -/
def pairIn (firsts : List Char) (s : Text) : Readings :=
  match s with
  | a :: b :: rest =>
    match Text.digitValue? a, Text.digitValue? b with
    | some m, some n => if firsts.contains a then [(10 * m + n, rest)] else []
    | _, _ => []
  | _ => []

/-- Two plain digits of a number between two others. -/
def plainPair (low high : Nat) (s : Text) : Readings :=
  match s with
  | a :: b :: rest =>
    if '0' ≤ a ∧ a ≤ '9' ∧ '0' ≤ b ∧ b ≤ '9' then
      let n := 10 * (a.toNat - 48) + (b.toNat - 48)
      if low ≤ n ∧ n ≤ high then [(n, rest)] else []
    else []
  | _ => []

/-- A single digit of any script. -/
def single (s : Text) : Readings :=
  match s with
  | a :: rest =>
    match Text.digitValue? a with
    | some n => [(n, rest)]
    | none => []
  | [] => []

/-- A single plain digit other than zero. -/
def singlePositive (s : Text) : Readings :=
  match s with
  | a :: rest => if '1' ≤ a ∧ a ≤ '9' then [(a.toNat - 48, rest)] else []
  | [] => []

/-- The readings of a month. -/
def month (s : Text) : Readings := plainPair 10 12 s ++ plainPair 1 9 s ++ singlePositive s

/-- The readings of a day of the month. A blank may take the place of a leading zero. -/
def day (s : Text) : Readings :=
  plainPair 30 31 s ++ pairIn ['1', '2'] s ++ plainPair 1 9 s ++ singlePositive s ++
    match s with
    | ' ' :: rest => singlePositive rest
    | _ => []

/-- The readings of an hour. -/
def hour (s : Text) : Readings := plainPair 20 23 s ++ pairIn ['0', '1'] s ++ single s

/-- The readings of a minute. -/
def minute (s : Text) : Readings := pairIn ['0', '1', '2', '3', '4', '5'] s ++ single s

/-- The readings of a second. Leap seconds are read, but no timestamp has them. -/
def second (s : Text) : Readings :=
  plainPair 60 61 s ++ pairIn ['0', '1', '2', '3', '4', '5'] s ++ single s

/-- Four digits. -/
def year? (s : Text) : Option (Nat × Text) :=
  match s with
  | a :: b :: c :: d :: rest =>
    (Text.digitValues? [a, b, c, d]).map fun digits => (Text.digitsValue digits, rest)
  | _ => none

/-- The readings of the numbers of a date, each with the text after it. -/
def dates (s : Text) : List ((Nat × Nat × Nat) × Text) :=
  match year? s with
  | none => []
  | some (y, s) => (month s).flatMap fun (m, s) => (day s).map fun (d, s) => ((y, m, d), s)

/-- The readings of the numbers of a time of day, each with the text after it. -/
def times (s : Text) : List ((Nat × Nat × Nat) × Text) :=
  (hour s).flatMap fun (h, s) => (minute s).flatMap fun (m, s) => (second s).map fun (n, s) => ((h, m, n), s)

/-- A date and time with nothing left over. -/
def dateTime? (s : Text) : Option Stamp :=
  let readings := (dates s).flatMap fun (date, s) =>
    match s with
    | 'T' :: s => (times s).map fun (time, s) => ((date, time), s)
    | _ => []
  match readings with
  | (((y, m, d), h, n, k), []) :: _ => Stamp.of? y m d h n k 0
  | _ => none

/-- A date with nothing left over. -/
def date? (s : Text) : Option Stamp :=
  match dates s with
  | ((y, m, d), []) :: _ => Stamp.of? y m d 0 0 0 0
  | _ => none

/-- The timestamp that a text writes in the form of rule text. -/
def read? (s : Text) : Option Stamp :=
  let s := Text.dropTrailing 'Z' (Text.upper (Text.trim s))
  dateTime? s <|> date? s

/-- A timestamp in the form of rule text, the year without leading zeros. -/
def text (s : Stamp) : Text :=
  Text.ofNat s.day.year ++ Text.ofNatPadded 2 s.day.month ++ Text.ofNatPadded 2 s.day.day ++
    'T' :: Text.ofNatPadded 2 s.clock.hour ++ Text.ofNatPadded 2 s.clock.minute ++
    Text.ofNatPadded 2 s.clock.second

end Cadence.Compact
