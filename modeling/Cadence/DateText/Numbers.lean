import Cadence.Calendar.Month
import Cadence.Text.Numeral

/-!
# Year, month and day among numbers

The numbers of a date in words come in any order. Some are known to be the month or the year, from a
name or from their size; `DateNumbers.resolve?` decides about the others.
-/

namespace Cadence

/-- A decimal number as it is written: its digits as one number, and how many of them are decimals. -/
structure Decimal where
  digits : Nat
  places : Nat
  deriving DecidableEq, Repr

namespace Decimal

/-- The decimal number that a token writes. -/
def ofToken? (s : Text) : Option Decimal :=
  match Text.cut? '.' s with
  | none => (Text.digitValues? s).bind fun ds => if ds.isEmpty then none else some ⟨Text.digitsValue ds, 0⟩
  | some (whole, places) =>
    match Text.digitValues? whole, Text.digitValues? places with
    | some (d :: ds), some ps => some ⟨Text.digitsValue (d :: ds ++ ps), ps.length⟩
    | _, _ => none

/-- The part before the point. -/
def whole (x : Decimal) : Nat := x.digits / Nat.pow 10 x.places

/-- The part behind the point, in units of the last place. -/
def fraction (x : Decimal) : Nat := x.digits % Nat.pow 10 x.places

/-- The number is at most a whole number. -/
def atMost (x : Decimal) (n : Nat) : Bool := x.digits ≤ n * Nat.pow 10 x.places

/-- How many significant digits numbers are reckoned with. -/
def precision : Nat := 28

/-- A whole number rounded to the significant digits that are reckoned with, a half going to the even
    neighbour. -/
def rounded (n : Nat) : Nat :=
  let unit := Nat.pow 10 ((Nat.toDigits 10 n).length - precision)
  let (quotient, rest) := (n / unit, n % unit)
  let up := unit < 2 * rest ∨ (2 * rest = unit ∧ quotient % 2 = 1)
  (if up then quotient + 1 else quotient) * unit

/-- The part before the point is short enough for the part behind it to be reckoned with. -/
def isReckonable (x : Decimal) : Bool := x.whole < Nat.pow 10 precision

/-- How many sixtieths the part behind the point holds. Both that part and sixty times it are rounded, so
    that a part just below one holds all sixty. -/
def sixtieths (x : Decimal) : Nat := rounded (60 * rounded x.fraction) / Nat.pow 10 x.places

theorem rounded_of_short {n : Nat} (h : (Nat.toDigits 10 n).length ≤ precision) : rounded n = n := by
  simp [rounded, Nat.sub_eq_zero_of_le h, Nat.mod_one]

end Decimal

/-- The numbers of a date in the order they were read, with the places of the year and the month as
    far as these are known. -/
structure DateNumbers where
  values : List Nat := []
  yearAt : Option Nat := none
  monthAt : Option Nat := none
  century : Bool := false
  deriving DecidableEq, Repr

namespace DateNumbers

/-- One more number of unknown kind. -/
def push (d : DateNumbers) (n : Nat) : DateNumbers := { d with values := d.values ++ [n] }

/-- One more number that is the year. There can be only one. -/
def pushYear? (d : DateNumbers) (n : Nat) : Option DateNumbers :=
  if d.yearAt.isSome then none else some { (d.push n) with yearAt := some d.values.length }

/-- One more number that is the month. There can be only one. -/
def pushMonth? (d : DateNumbers) (n : Nat) : Option DateNumbers :=
  if d.monthAt.isSome then none else some { (d.push n) with monthAt := some d.values.length }

/-- One more number as written; one of more than two digits is a year with its century. -/
def pushText? (d : DateNumbers) (s : Text) : Option DateNumbers := do
  let n ← Text.readNat? s
  if 2 < s.length then pushYear? { d with century := true } n else some (d.push n)

/-- The year as written. -/
def pushYearText? (d : DateNumbers) (s : Text) : Option DateNumbers := do
  let n ← Text.readNat? s
  pushYear? { d with century := d.century || 2 < s.length } n

/-- One more decimal number; one above a hundred is a year with its century. -/
def pushDecimal? (d : DateNumbers) (x : Decimal) : Option DateNumbers :=
  if x.atMost 100 then some (d.push x.whole) else pushYear? { d with century := true } x.whole

/-- The number at a place. -/
def at? (d : DateNumbers) (place : Option Nat) : Option Nat := place.bind (d.values[·]?)

/-- A decimal number may still be the day: it lies within the month, as far as month and year are
    known. -/
def couldBeDay (d : DateNumbers) (x : Decimal) : Bool :=
  let longest := match d.at? d.monthAt with
    | none => 31
    | some month => daysInMonth ((d.at? d.yearAt).getD 2000) month
  1 ≤ x.whole && x.atMost longest

/-- Year, month and day, each if it is there. -/
abbrev Resolved := Option Nat × Option Nat × Option Nat

/-- Both year and month are known among three numbers, so that the third is the day. -/
def remaining? (values : List Nat) (yearAt monthAt : Nat) : Option Nat :=
  ([0, 1, 2].find? fun place => place ≠ yearAt && place ≠ monthAt).bind (values[·]?)

/-- What each of the numbers is. None when there are too many. -/
def resolve? (d : DateNumbers) (dayFirst : Bool) : Option Resolved :=
  match d.values, d.yearAt, d.monthAt with
  | [n], some _, none => some (some n, none, none)
  | [n], none, some _ => some (none, some n, none)
  | [_, _], some y, some m => some (d.values[y]?, d.values[m]?, none)
  | [_, _, _], some y, some m => some (d.values[y]?, d.values[m]?, remaining? d.values y m)
  | [], _, _ => some (none, none, none)
  | [n], _, _ => if 31 < n then some (some n, none, none) else some (none, none, some n)
  | [a, b], _, some m =>
    let (month, other) := if m = 0 then (a, b) else (b, a)
    if 31 < other then some (some other, some month, none) else some (none, some month, some other)
  | [a, b], _, none =>
    if 31 < a then some (some a, some b, none)
    else if 31 < b then some (some b, some a, none)
    else if dayFirst ∧ b ≤ 12 then some (none, some b, some a)
    else some (none, some a, some b)
  | [a, b, c], _, some 0 => if 31 < b then some (some b, some a, some c) else some (some c, some a, some b)
  | [a, b, c], _, some 1 => if 31 < a then some (some a, some b, some c) else some (some c, some b, some a)
  | [a, b, c], _, some _ => if 31 < b then some (some b, some c, some a) else some (some a, some c, some b)
  | [a, b, c], yearAt, none =>
    if 31 < a ∨ yearAt = some 0 then
      if dayFirst ∧ c ≤ 12 then some (some a, some c, some b) else some (some a, some b, some c)
    else if 12 < a ∨ (dayFirst ∧ b ≤ 12) then some (some c, some b, some a)
    else some (some c, some a, some b)
  | _, _, _ => none

end DateNumbers

end Cadence
