import Cadence.Rule.Trace
import Cadence.Rule.Year

/-!
# Occurrences of a schedule

A schedule is evaluated period by period: each period has the days that the rule admits, each day the
times of day, and positions in the set of a period may pick out some of them. `Schedule.trace` is what
is found from the start on, up to the end and the count. Periods are years, months, weeks, days or
parts of a day; after each one the next is found from the interval.
-/

namespace Cadence

namespace LineFailure

/-- The fault that a failure is when it comes up during evaluation. -/
def toFault : LineFailure → Fault
  | flaw _ => .value
  | fault f => f

end LineFailure

namespace Schedule

/-- Where the evaluation stands: a day of the period, the part of the day counted from midnight, and the
    times of day of the period. -/
structure Cursor where
  day : Day
  tick : Nat
  times : List Clock

/-! ### Parts of a day -/

/-- The part of a day in which a time falls. -/
def tickOf (s : Schedule) (c : Clock) : Nat :=
  match s.frequency with
  | .hourly => c.hour
  | .minutely => c.hour * 60 + c.minute
  | .secondly => (c.hour * 60 + c.minute) * 60 + c.second
  | _ => 0

/-- The hour, minute and second with which a part of a day begins. -/
def clockOfTick (s : Schedule) (tick : Nat) : Nat × Nat × Nat :=
  match s.frequency with
  | .hourly => (tick, 0, 0)
  | .minutely => (tick / 60, tick % 60, 0)
  | .secondly => (tick / 3600, tick / 60 % 60, tick % 60)
  | _ => (0, 0, 0)

/-- A list that restricts nothing, or that has the number. -/
def allows (numbers : List Int) (n : Nat) : Bool := numbers.isEmpty || numbers.contains (n : Int)

/-- The rule admits a part of a day. -/
def acceptsTick (s : Schedule) (tick : Nat) : Bool :=
  let (hour, minute, second) := s.clockOfTick tick
  match s.frequency with
  | .hourly => allows s.hours hour
  | .minutely => allows s.hours hour && allows s.minutes minute
  | .secondly => allows s.hours hour && allows s.minutes minute && allows s.seconds second
  | _ => true

/-- The times of day of a period. -/
def timesAt (s : Schedule) (tick : Nat) : Except Fault (List Clock) :=
  let (hour, minute, second) := s.clockOfTick tick
  match s.frequency with
  | .hourly => (timesOf [(hour : Int)] s.minutes s.seconds).mapError (·.toFault)
  | .minutely => (timesOf [(hour : Int)] [(minute : Int)] s.seconds).mapError (·.toFault)
  | .secondly => (timesOf [(hour : Int)] [(minute : Int)] [(second : Int)]).mapError (·.toFault)
  | _ => .ok s.times

/-- The list for the schedule's own part of a day, and how many of them make the next larger one. -/
def ownNumbers (s : Schedule) : List Int × Nat :=
  match s.frequency with
  | .hourly => (s.hours, 24)
  | .minutely => (s.minutes, 60)
  | .secondly => (s.seconds, 60)
  | _ => ([], 1)

/-- How many intervals lead from a part of a day to one with a number of the list; none when no number
    of intervals does. -/
def stepsToOwn (s : Schedule) (tick : Nat) : Option Nat :=
  let (numbers, base) := s.ownNumbers
  if numbers.isEmpty then some 1
  else ((List.range base).map (· + 1)).find? fun k => numbers.contains (((tick + k * s.every) % base : Nat) : Int)

/-- The next part of a day that the rule admits, counted on from midnight of the same day. -/
def seekTick (s : Schedule) : Nat → Nat → Except Fault Nat
  | 0, _ => .error .value
  | rounds + 1, tick =>
    match s.stepsToOwn tick with
    | none => .error .kind
    | some k =>
      let next := tick + k * s.every
      if s.acceptsTick (next % s.frequency.perDay) then .ok next else seekTick s rounds next

/-- The next part of a day after one. When the day was not admitted, the rest of it is passed over. -/
def nextTick (s : Schedule) (tick : Nat) (passOver : Bool) : Except Fault Nat :=
  let perDay := s.frequency.perDay
  let tick := if passOver then tick + (perDay - 1 - tick) / s.every * s.every else tick
  s.seekTick (perDay / Nat.gcd s.every perDay) tick

/-! ### Periods -/

/-- The days of a period. -/
def periodDays (s : Schedule) (y : RuleYear) (day : Day) : List YearDay :=
  let index := day.ordinal - y.firstOrdinal
  match s.frequency with
  | .yearly => y.days
  | .monthly => y.monthDays day.month
  | .weekly => (List.range (y.weekEnd s.weekStart index - index)).map fun k => y.dayAt (index + k)
  | _ => [y.dayAt index]

/-- The day on which the next period begins, for periods of days or longer; none beyond the calendar. -/
def nextDay? (s : Schedule) (day : Day) : Option Day :=
  match s.frequency with
  | .yearly => Day.of? (day.year + s.every) 1 1
  | .monthly =>
    let count := day.year * 12 + (day.month - 1) + s.every
    Day.of? (count / 12) (count % 12 + 1) 1
  | .weekly => day.addDays? ((s.every * 7 : Nat) - ((day.weekday.index + 7 - s.weekStart.index) % 7 : Nat))
  | _ => day.addDays? s.every

/-- The next period. -/
def next (s : Schedule) (c : Cursor) (passOver : Bool) : Except Fault (Option Cursor) :=
  if s.frequency.isTimed then do
    let tick ← s.nextTick c.tick passOver
    let perDay := s.frequency.perDay
    let times ← s.timesAt (tick % perDay)
    return (c.day.addDays? (tick / perDay)).map fun day => { day, tick := tick % perDay, times }
  else .ok ((s.nextDay? c.day).map fun day => { c with day })

/-! ### Timestamps of a period -/

/-- The timestamp of a time of day, in the zone of the start. -/
def stampAt (s : Schedule) (day : Day) (clock : Clock) : Stamp := { day, clock, zone := s.start.zone }

/-- The timestamps of the given days at all times. A day beyond the calendar is a fault. -/
def stampsOf (s : Schedule) (y : RuleYear) (times : List Clock) : List YearDay → List Stamp × Option Fault
  | [] => ([], none)
  | d :: rest =>
    match Day.ofOrdinal? (y.firstOrdinal + d.index) with
    | none => ([], some .value)
    | some day =>
      let (more, fault) := stampsOf s y times rest
      (times.map (s.stampAt day) ++ more, fault)

/-- The day and time at a position in the set of a period, from the end when negative. -/
def placed (days : List YearDay) (times : List Clock) (position : Int) : Option (YearDay × Clock) :=
  let place := if position < 0 then position else position - 1
  let count : Int := times.length
  let dayPlace := if place / count < 0 then place / count + days.length else place / count
  if dayPlace < 0 then none
  else do some (← days[dayPlace.toNat]?, ← times[(place % count).toNat]?)

/-- The timestamps in order, each once. -/
def inOrder (found : List Stamp) : List Stamp :=
  (found.mergeSort fun a b => decide (a.ticks ≤ b.ticks)).foldr
    (fun s l => if l.head? = some s then l else s :: l) []

/-- The timestamps at the positions of a rule. -/
def stampsPlaced (s : Schedule) (y : RuleYear) (times : List Clock) (days : List YearDay) :
    List Stamp × Option Fault :=
  let found := (s.setPositions.filterMap (placed days times)).mapM fun (d, clock) =>
    (Day.ofOrdinal? (y.firstOrdinal + d.index)).map (s.stampAt · clock)
  match found with
  | some found => (inOrder found, none)
  | none => ([], some .value)

/-- What a period comes to: the timestamps found, and then a fault, the end, or the next period. -/
inductive Step where
  | fault (found : List Stamp) (f : Fault)
  | last (found : List Stamp)
  | more (found : List Stamp) (next : Cursor)

/-- The evaluation of a period. -/
def step (s : Schedule) (c : Cursor) : Step :=
  let y : RuleYear := ⟨c.day.year⟩
  match y.marks s c.day.month with
  | .error f => .fault [] f
  | .ok marks =>
    let days := s.periodDays y c.day
    let admitted := days.filter (y.admits s marks)
    let (found, fault) :=
      if s.setPositions.isEmpty || c.times.isEmpty then s.stampsOf y c.times admitted
      else s.stampsPlaced y c.times admitted
    match fault with
    | some f => .fault found f
    | none =>
      match s.next c (admitted.length < days.length) with
      | .error f => .fault found f
      | .ok none => .last found
      | .ok (some next) => .more found next

/-- The timestamps from a period on, at most `fuel` periods being looked at. -/
def traceFrom (s : Schedule) : Nat → Cursor → Trace
  | 0, _ => .done
  | fuel + 1, c =>
    match s.step c with
    | .fault found f => .prepend found fun _ => .failed f
    | .last found => .ofList found
    | .more [] next => traceFrom s fuel next
    | .more (first :: found) next => .item first fun _ => .prepend found fun _ => traceFrom s fuel next

/-- A number of periods that the calendar does not have after a day. -/
def fuelFrom (s : Schedule) (day : Day) : Nat := (Day.lastOrdinal - day.ordinal + 1) * s.frequency.perDay + 1

/-- The timestamps of all periods, those before the start among them. -/
def periods (s : Schedule) : Trace :=
  let tick := s.tickOf s.start.clock
  match (if s.acceptsTick tick then s.timesAt tick else .ok []) with
  | .error f => .failed f
  | .ok times => s.traceFrom (s.fuelFrom s.start.day) { day := s.start.day, tick, times }

/-- The occurrences of the schedule. -/
def trace (s : Schedule) : Trace :=
  let ended := match s.finish with
    | some finish => s.periods.upTo finish
    | none => s.periods
  let begun := ended.onwards s.start
  match s.count with
  | some count => begun.first count
  | none => begun

end Schedule

end Cadence
