import Cadence.Host.Load
import Cadence.Summary

/-!
# Phrases of hosts

The parts of sentences when numbers, names and patterns are values that a host gives.
-/

namespace Cadence.Host

/-- The least whole number that is beyond every binary floating-point number. -/
def beyondFloat : Nat := Nat.pow 2 1024 - Nat.pow 2 970

/-- An ordinal number for a whole number that is not negative. -/
def ordinal (n : Nat) : Result Text :=
  if beyondFloat ≤ n then .error (.fault .range) else .ok (Phrase.ordinal n)

/-- A number of any kind as a whole number, its sign, and whether it is exactly minus one. -/
def position? : Datum → Result (Option (Bool × Nat × Bool))
  | .bool b => .ok (some (false, if b then 1 else 0, false))
  | .int n => .ok (some (decide (n < 0), n.natAbs, decide (n = -1)))
  | .real x =>
    match x.truncate? with
    | some n =>
      let negative := match x with
        | .finite negative m _ => negative && m ≠ 0
        | _ => false
      .ok (some (negative, n.natAbs, decide (n = -1) && x.isWhole))
    | none => .ok none
  | _ => .error (.fault .kind)

/-- The text for a number that is not finite. -/
def notFinite : Datum → Text
  | .real (.infinity _) => "+Inf"
  | _ => "NaN"

/-- The value is the infinity below all numbers. -/
def isBelowAll : Datum → Bool
  | .real (.infinity negative) => negative
  | _ => false

/-- A position counted from the start, or from the end when it is negative. -/
def positionLabel (value : Datum) : Result Text := do
  match ← position? value with
  | none => return if isBelowAll value then notFinite value ++ " to last" else notFinite value
  | some (_, _, true) => return "last"
  | some (true, n, false) => return (← ordinal n) ++ " to last"
  | some (false, n, false) => ordinal n

/-- A day of the month, counted from its end when negative. -/
def monthDayPhrase (value : Datum) : Result Text := do
  match ← position? value with
  | none =>
    return "the " ++ (if isBelowAll value then notFinite value ++ " to last day" else notFinite value)
  | some (_, _, true) => return "the last day"
  | some (true, n, false) => return "the " ++ (← ordinal n) ++ " to last day"
  | some (false, n, false) => return "the " ++ (← ordinal n)

/-- The name of a month. Names are counted from an empty one on, negative numbers from the end. -/
def monthNameOf (value : Datum) : Result Text := do
  let n ← match value with
    | .bool b => .ok (if b then 1 else 0)
    | .int n => .ok n
    | _ => .error (.fault .kind)
  let place := if n < 0 then n + 13 else n
  if place < 0 ∨ 13 ≤ place then throw (.fault .index) else return monthName place.toNat

/-- How often something recurs, the number being any value. -/
def intervalPhrase (pattern every : Datum) : Result Text := do
  match pattern with
  | .text s =>
    match Pattern.ofToken? s with
    | some pattern => return Phrase.intervalOf pattern every
    | none => throw (.fault .value)
  | _ => throw (.fault .value)

/-- The texts of a list. -/
def textsOf : List Datum → Result (List Text)
  | [] => .ok []
  | .text s :: rest => (textsOf rest).map (s :: ·)
  | _ :: _ => .error (.fault .kind)

/-- Names joined with a conjunction. A single one stays as it is. -/
def joinNames (names conjunction : Datum) : Result Datum := do
  match ← itemsOf names with
  | [] => return .text []
  | [name] => return name
  | items =>
    let first ← textsOf items.dropLast
    let last := (items.getLastD .null).plain
    return .text (Text.joinWith ", " first ++ ' ' :: conjunction.plain ++ ' ' :: last)

/-- The weekdays of tokens, in week order and each once. -/
def sortWeekdays (tokens : Datum) : Result (List Weekday) := do
  return Weekday.sorted (← (← itemsOf tokens).mapM weekdayOf)

/-- The pattern of a frequency. -/
def patternOfFrequency : Datum → Result Pattern
  | .text s =>
    match Pattern.ofFrequency? s with
    | some pattern => .ok pattern
    | none => .error (.unknownFrequency s)
  | _ => .error (.fault .member)

/-- The start's day, none for null, a fault for a value that is no date. -/
def startDay : Datum → Option (Except Fault Day)
  | .null => none
  | .day d => some (.ok d)
  | .stamp s => some (.ok s.day)
  | _ => some (.error .member)

/-- The sentence in front of the end date. -/
def summary (c : Choices) (start : Datum) (hasEnd : Bool) : Result Text :=
  liftFault (c.summary (startDay start) hasEnd)

/-- A description that starts at a given date, or on the current day. A day is shown as such. -/
def defaultDescription (c : Setting) (start : Datum) : Result Datum :=
  if ! start.truthy then .ok ({ start := c.dayStart : Description }).toDatum
  else
    match start with
    | .stamp s => .ok ({ start := s : Description }).toDatum
    | .day d => .ok (({ start := .ofDay d : Description }).objectFrom d.text)
    | _ => .error (.fault .member)

end Cadence.Host
