import Cadence.Rule.Spec
import Cadence.Calendar.Shift

/-!
# Schedules

A schedule is a rule with its start: what the parts leave open is taken from the start, and the times
of day are worked out where the periods are days or longer. A start counts in whole seconds.
-/

namespace Cadence

/-- A rule that can be evaluated. An empty list does not restrict anything. -/
structure Schedule where
  frequency : Frequency
  every : Nat
  start : Stamp
  count : Option Nat
  finish : Option Stamp
  weekStart : Weekday
  setPositions : List Int
  months : List Int
  monthDays : List Int
  yearDays : List Int
  weekNumbers : List Int
  easterDays : List Int
  weekdays : List Weekday
  nthWeekdays : List (Weekday × Int)
  hours : List Int
  minutes : List Int
  seconds : List Int
  times : List Clock

namespace Schedule

/-- The numbers in order, each once. -/
def sortedSet (numbers : List Int) : List Int :=
  (numbers.mergeSort fun a b => decide (a ≤ b)).foldr (fun n l => if l.head? = some n then l else n :: l) []

/-- A time of day. A number beyond a machine word is a fault, any other out of range a flaw. -/
def timeOfDay (hour minute second : Int) : Except LineFailure Clock :=
  if ! (fitsWord hour && fitsWord minute && fitsWord second) then .error (.fault .range)
  else if hour < 0 ∨ 23 < hour then .error (.flaw (.offClock "hour" 23))
  else if minute < 0 ∨ 59 < minute then .error (.flaw (.offClock "minute" 59))
  else
    match Clock.of? hour.toNat minute.toNat second.toNat 0 with
    | some clock => if second < 0 then .error (.flaw (.offClock "second" 59)) else .ok clock
    | none => .error (.flaw (.offClock "second" 59))

/-- The times of day with one of the hours, minutes and seconds each. -/
def timesOf (hours minutes seconds : List Int) : Except LineFailure (List Clock) :=
  (hours.flatMap fun h => minutes.flatMap fun m => seconds.map fun s => (h, m, s)).mapM fun (h, m, s) =>
    timeOfDay h m s

/-- The position of a set is between one and 366 from either end. -/
def isSetPosition (n : Int) : Bool := n ≠ 0 && -366 ≤ n && n ≤ 366

/-- The numbers that steps of `every` reach from `start`, round after round of `base`. -/
def reachable (start base every : Nat) (numbers : List Int) : Except LineFailure (List Int) :=
  let step := Nat.gcd every base
  match numbers.filter fun n => (n - (start : Int)) % (step : Int) = 0 with
  | [] => .error (.flaw .emptySet)
  | found => .ok found

/-- The hours, minutes or seconds of a rule. Where a period is `own`, only those that are ever reached
    count; where it is longer, the start's own number is the default. -/
def clockList (given : Option (List Int)) (start base every : Nat) (own longer : Bool) :
    Except LineFailure (List Int) :=
  match given with
  | some numbers => (if own then reachable start base every numbers else .ok numbers).map sortedSet
  | none => .ok (if longer then [(start : Int)] else [])

/-- The rule names days of its own, so that the start's day is not the default. -/
def namesDays (spec : RuleSpec) : Bool :=
  spec.weekNumbers.isSome || spec.yearDays.isSome || spec.monthDays.isSome || spec.weekdays.isSome ||
    spec.easterDays.isSome

/-- The weekdays of a rule that count wherever they fall: those without a position, and all of them
    where a period is a week or shorter. -/
def plainWeekdays (frequency : Frequency) (items : List NthWeekday) : List Weekday :=
  items.filterMap fun (day, position) =>
    if position.isNone || ! (frequency = .yearly || frequency = .monthly) then some day else none

/-- The weekdays of a rule that count at their position only. -/
def placedWeekdays (frequency : Frequency) (items : List NthWeekday) : List (Weekday × Int) :=
  items.filterMap fun (day, position) =>
    if frequency = .yearly || frequency = .monthly then position.map fun n => (day, n) else none

/-- The schedule of a rule from a start on. -/
def of (spec : RuleSpec) (start : Stamp) : Except LineFailure Schedule := do
  match spec.frequency with
  | none => throw (.flaw .noFrequency)
  | some frequency =>
    let start := start.wholeSecond
    let day := start.day
    let clock := start.clock
    let every := max 1 spec.every.toNat
    if spec.finish.isSome && start.zone.isSome then throw (.flaw .localEnd)
    let setPositions := spec.setPositions.getD []
    if ! setPositions.all isSetPosition then throw (.flaw .badSetPosition)
    let free := ! namesDays spec
    let months := spec.months.getD (if free && frequency = .yearly then [(day.month : Int)] else [])
    let monthDays := spec.monthDays.getD
      (if free && (frequency = .yearly || frequency = .monthly) then [(day.day : Int)] else [])
    let weekdays := spec.weekdays.getD (if free && frequency = .weekly then [(day.weekday, none)] else [])
    let hours ← clockList spec.hours clock.hour 24 every (frequency = .hourly) (! frequency.isTimed)
    let minutes ← clockList spec.minutes clock.minute 60 every (frequency = .minutely)
      (! frequency.isTimed || frequency = .hourly)
    let seconds ← clockList spec.seconds clock.second 60 every (frequency = .secondly)
      (frequency ≠ .secondly)
    let times ← if frequency.isTimed then .ok [] else timesOf hours minutes seconds
    return {
      frequency, every, start, times, hours, minutes, seconds
      count := spec.count.map (·.toNat)
      finish := spec.finish
      weekStart := spec.weekStart
      setPositions
      months := sortedSet months
      monthDays := (sortedSet monthDays).filter (· ≠ 0)
      yearDays := sortedSet (spec.yearDays.getD [])
      weekNumbers := sortedSet (spec.weekNumbers.getD [])
      easterDays := sortedSet (spec.easterDays.getD [])
      weekdays := plainWeekdays frequency weekdays
      nthWeekdays := placedWeekdays frequency weekdays }

end Schedule

end Cadence
