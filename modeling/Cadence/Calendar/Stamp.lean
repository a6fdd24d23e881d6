import Cadence.Calendar.Day
import Cadence.Text.Numeral

/-!
# Timestamps

A timestamp is a day with a time of day to the microsecond, and with a distance from universal time
if it has a time zone. Two timestamps can be compared when both have a zone or neither has: local
ones by day and time, others by the instant they name. `Stamp.text` writes a timestamp in the ISO
format.
-/

namespace Cadence

/-- The four numbers name a time of day. -/
def IsTime (hour minute second micro : Nat) : Prop :=
  hour < 24 ∧ minute < 60 ∧ second < 60 ∧ micro < 1000000

instance (hour minute second micro : Nat) : Decidable (IsTime hour minute second micro) := by
  unfold IsTime; infer_instance

/-- A time of day. -/
structure Clock where
  hour : Nat
  minute : Nat
  second : Nat
  micro : Nat
  valid : IsTime hour minute second micro
  deriving DecidableEq

namespace Clock

/-- The time of day with these parts, if there is one. -/
def of? (hour minute second micro : Nat) : Option Clock :=
  if h : IsTime hour minute second micro then some ⟨hour, minute, second, micro, h⟩ else none

/-- The start of a day. -/
def midnight : Clock := ⟨0, 0, 0, 0, by decide⟩

/-- The number of microseconds since midnight. -/
def micros (c : Clock) : Nat := ((c.hour * 60 + c.minute) * 60 + c.second) * 1000000 + c.micro

/-- The microseconds of a day. -/
def microsPerDay : Nat := 86400000000

/-- The time of day that comes so many microseconds after midnight, days left off. -/
def ofMicros (n : Nat) : Clock :=
  ⟨n / 3600000000 % 24, n / 60000000 % 60, n / 1000000 % 60, n % 1000000, by
    refine ⟨?_, ?_, ?_, ?_⟩ <;> exact Nat.mod_lt _ (by decide)⟩

/-- The last second of a day. -/
def lastSecond : Clock := ⟨23, 59, 59, 0, by decide⟩

/-- The time without the part of a second. -/
def wholeSecond (c : Clock) : Clock :=
  ⟨c.hour, c.minute, c.second, 0, ⟨c.valid.1, c.valid.2.1, c.valid.2.2.1, by decide⟩⟩

/-- The time comes before the other on a day. -/
def before (a b : Clock) : Bool := a.micros < b.micros

end Clock

/-- A day and a time of day, with the distance from universal time in minutes if there is a zone. -/
structure Stamp where
  day : Day
  clock : Clock
  zone : Option Int := none
  deriving DecidableEq

namespace Stamp

/-- The day's first moment, without a zone. -/
def ofDay (day : Day) : Stamp := { day, clock := .midnight }

/-- The timestamp without a zone that has these parts, if there is one. -/
def of? (year month day hour minute second micro : Nat) : Option Stamp :=
  match Day.of? year month day, Clock.of? hour minute second micro with
  | some day, some clock => some { day, clock }
  | _, _ => none

/-- Which of the numbers of a date and time is out of range. -/
inductive Flaw where
  | year (year : Nat) | month | day | hour | minute | second
  deriving DecidableEq, Repr

/-- The first number that is out of range when the numbers are no date and time of whole seconds. -/
def flawOf (year month day hour minute : Nat) : Flaw :=
  if year = 0 ∨ lastYear < year then .year year
  else if month = 0 ∨ 12 < month then .month
  else if day = 0 ∨ daysInMonth year month < day then .day
  else if 23 < hour then .hour
  else if 59 < minute then .minute
  else .second

/-- The microseconds of the timestamp's own calendar and clock, counted from the day before the first. -/
def ticks (s : Stamp) : Int := s.day.ordinal * Clock.microsPerDay + s.clock.micros

/-- The instant: the ticks at universal time, a timestamp without a zone being taken to be there. -/
def instant (s : Stamp) : Int := s.ticks - (s.zone.getD 0) * 60000000

/-- The timestamp with so many ticks in a zone, if the calendar has it. -/
def ofTicks? (ticks : Int) (zone : Option Int) : Option Stamp :=
  if ticks < 0 then none
  else
    (Day.ofOrdinal? (ticks.toNat / Clock.microsPerDay)).map fun day =>
      { day, clock := .ofMicros (ticks.toNat % Clock.microsPerDay), zone }

/-- The timestamp so many microseconds later, if the calendar has it. -/
def addMicros? (s : Stamp) (n : Int) : Option Stamp := ofTicks? (s.ticks + n) s.zone

/-- The timestamp so many days later at the same time, if the calendar has it. -/
def addDays? (s : Stamp) (n : Int) : Option Stamp :=
  (s.day.addDays? n).map fun day => { s with day }

/-- Both timestamps have a zone, or neither has. -/
def comparable (a b : Stamp) : Bool := a.zone.isSome = b.zone.isSome

/-- The timestamp comes before the other. Meant for comparable ones. -/
def before (a b : Stamp) : Bool := a.instant < b.instant

/-- The timestamps name the same moment: comparable ones by their instants, others never. -/
def same (a b : Stamp) : Bool := a.comparable b && a.instant = b.instant

/-- The timestamp at the start of its day. -/
def startOfDay (s : Stamp) : Stamp := { s with clock := .midnight }

/-- The timestamp without the part of a second. -/
def wholeSecond (s : Stamp) : Stamp := { s with clock := s.clock.wholeSecond }

/-- The timestamp without its zone, day and time kept. -/
def withoutZone (s : Stamp) : Stamp := { s with zone := none }

/-- The last microsecond of the timestamp's day. The last day of the calendar has none, because it is
    found by going back from the next day. -/
def endOfDay? (s : Stamp) : Option Stamp := do
  (← s.startOfDay.addDays? 1).addMicros? (-1)

/-- The timestamp's moment at universal time, one without a zone being taken to be there. -/
def toUniversal? (s : Stamp) : Option Stamp :=
  match s.zone with
  | none => some { s with zone := some 0 }
  | some _ => ofTicks? s.instant (some 0)

end Stamp

/-! ### Writing -/

/-- A day in the ISO format, year first. -/
def Day.text (d : Day) : Text :=
  Text.ofNatPadded 4 d.year ++ "-" ++ Text.ofNatPadded 2 d.month ++ "-" ++ Text.ofNatPadded 2 d.day

/-- Hours and minutes. -/
def Clock.minuteText (c : Clock) : Text :=
  Text.ofNatPadded 2 c.hour ++ ":" ++ Text.ofNatPadded 2 c.minute

/-- Hours, minutes and seconds. -/
def Clock.secondText (c : Clock) : Text := c.minuteText ++ ":" ++ Text.ofNatPadded 2 c.second

/-- A distance from universal time: a sign, hours and minutes. -/
def zoneText (minutes : Int) : Text :=
  (if minutes < 0 then "-" else "+") ++ Text.ofNatPadded 2 (minutes.natAbs / 60) ++ ":" ++
    Text.ofNatPadded 2 (minutes.natAbs % 60)

/-- A timestamp in the ISO format, the microseconds only when there are some. -/
def Stamp.text (s : Stamp) : Text :=
  s.day.text ++ "T" ++ s.clock.secondText ++
    (if s.clock.micro = 0 then [] else '.' :: Text.ofNatPadded 6 s.clock.micro) ++
    (match s.zone with
      | none => []
      | some minutes => zoneText minutes)

end Cadence
