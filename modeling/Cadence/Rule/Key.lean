import Cadence.Text.Basic

/-!
# Parts of a rule

The fourteen parts that a rule text may have, and the seven frequencies. Parts have an order of their
own in which rule texts are written: what the fields of a recurrence can express comes first, the rest
follows by name.
-/

namespace Cadence

/-- A part of a rule. -/
inductive RuleKey where
  | freq | until | count | interval | byDay | byMonthDay | byMonth | byHour | byMinute | bySecond | bySetPos
  | byWeekNo | byYearDay | weekStart
  deriving DecidableEq, Repr, Inhabited

namespace RuleKey

/-- The parts in the order in which a rule text is written. -/
def all : List RuleKey :=
  [freq, .until, count, interval, byDay, byMonthDay, byMonth, byHour, byMinute, bySecond, bySetPos, byWeekNo,
   byYearDay, weekStart]

/-- The name of a part. -/
def name : RuleKey → Text
  | freq => "FREQ"
  | .until => "UNTIL"
  | count => "COUNT"
  | interval => "INTERVAL"
  | byDay => "BYDAY"
  | byMonthDay => "BYMONTHDAY"
  | byMonth => "BYMONTH"
  | byHour => "BYHOUR"
  | byMinute => "BYMINUTE"
  | bySecond => "BYSECOND"
  | bySetPos => "BYSETPOS"
  | byWeekNo => "BYWEEKNO"
  | byYearDay => "BYYEARDAY"
  | weekStart => "WKST"

/-- The part with a name. -/
def ofName? (s : Text) : Option RuleKey := all.find? (·.name = s)

/-- The fields of a recurrence can express the part. -/
def isImportable : RuleKey → Bool
  | freq | .until | interval | byDay | byMonthDay | byMonth | weekStart => true
  | _ => false

/-- The parts in the order of their names. -/
def byName : List RuleKey :=
  [byDay, byHour, byMinute, byMonth, byMonthDay, bySecond, bySetPos, byWeekNo, byYearDay, count, freq, interval,
   .until, weekStart]

theorem mem_all (k : RuleKey) : k ∈ all := by cases k <;> simp [all]

theorem ofName?_name (k : RuleKey) : ofName? k.name = some k := by cases k <;> decide

theorem name_injective {a b : RuleKey} (h : a.name = b.name) : a = b := by
  have := ofName?_name a
  rw [h, ofName?_name b] at this
  exact (Option.some.inj this).symm

end RuleKey

/-- How often the periods of a rule follow each other, before its interval is applied. -/
inductive Frequency where
  | yearly | monthly | weekly | daily | hourly | minutely | secondly
  deriving DecidableEq, Repr, Inhabited

namespace Frequency

/-- The frequencies from years to seconds. -/
def all : List Frequency := [yearly, monthly, weekly, daily, hourly, minutely, secondly]

/-- The name of a frequency. -/
def name : Frequency → Text
  | yearly => "YEARLY"
  | monthly => "MONTHLY"
  | weekly => "WEEKLY"
  | daily => "DAILY"
  | hourly => "HOURLY"
  | minutely => "MINUTELY"
  | secondly => "SECONDLY"

/-- The frequency with a name. -/
def ofName? (s : Text) : Option Frequency := all.find? (·.name = s)

/-- Periods of the frequency are parts of a day. -/
def isTimed : Frequency → Bool
  | hourly | minutely | secondly => true
  | _ => false

/-- The number of periods in a day, for those that are parts of a day. -/
def perDay : Frequency → Nat
  | hourly => 24
  | minutely => 1440
  | secondly => 86400
  | _ => 1

theorem ofName?_name (f : Frequency) : ofName? f.name = some f := by cases f <;> decide

end Frequency

end Cadence
