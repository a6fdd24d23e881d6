import Cadence.Calendar.Stamp

/-!
# Reading timestamps as they are written

`Day.ofText?` and `Stamp.ofText?` read exactly what `Day.text` and `Stamp.text` write: numbers of fixed
width with their marks between them, a fraction of up to six digits and a zone if there is one.
-/

namespace Cadence

/-- A number of so many digits at the start of a text, and the text after it. -/
def fixedNat? (width : Nat) (s : Text) : Option (Nat × Text) :=
  if (s.take width).length < width then none
  else (Text.readNat? (s.take width)).map fun n => (n, s.drop width)

/-- A number after a mark, and the text after it. -/
def markedNat? (mark : Char) (width : Nat) (s : Text) : Option (Nat × Text) :=
  (Text.following? [mark] s).bind (fixedNat? width)

/-- A day at the start of a text, and the text after it. -/
def Day.read? (s : Text) : Option (Day × Text) := do
  let (year, s) ← fixedNat? 4 s
  let (month, s) ← markedNat? '-' 2 s
  let (day, s) ← markedNat? '-' 2 s
  (Day.of? year month day).map fun d => (d, s)

/-- The day that a text writes. -/
def Day.ofText? (s : Text) : Option Day :=
  match Day.read? s with
  | some (d, []) => some d
  | _ => none

/-- The microseconds that a fraction at the start of a text writes, none being zero, and the text after
    it. -/
def microsWritten (s : Text) : Nat × Text :=
  match s with
  | '.' :: rest =>
    let digits := rest.takeWhile Text.isDecimal
    (((Text.readNat? (Text.padRight 6 '0' (digits.take 6))).getD 0), rest.drop digits.length)
  | _ => (0, s)

/-- The zone that a text writes: nothing, or a sign with hours and minutes. -/
def zoneWritten? (s : Text) : Option (Option Int) :=
  match s with
  | [] => some none
  | sign :: rest => do
    let (hours, rest) ← fixedNat? 2 rest
    let (minutes, rest) ← markedNat? ':' 2 rest
    let size : Int := hours * 60 + minutes
    if ¬ rest.isEmpty ∨ 1440 ≤ size then none
    else if sign = '+' then some (some size)
    else if sign = '-' then some (some (-size))
    else none

/-- The timestamp that a text writes. -/
def Stamp.ofText? (s : Text) : Option Stamp := do
  let (day, s) ← Day.read? s
  let (hour, s) ← markedNat? 'T' 2 s
  let (minute, s) ← markedNat? ':' 2 s
  let (second, s) ← markedNat? ':' 2 s
  let (micro, s) := microsWritten s
  let zone ← zoneWritten? s
  let clock ← Clock.of? hour minute second micro
  some { day, clock, zone }

end Cadence
