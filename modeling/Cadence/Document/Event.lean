import Cadence.Document.Line
import Cadence.Rule.Query
import Cadence.Text.Half

/-!
# Calendar documents

A rule is wrapped into a calendar document with a single event. The event has a title, an identity,
the times at which it starts and was written, in universal time, and the rule with its numbers written
plainly and its end in universal time as well.
-/

namespace Cadence

namespace Document

/-! ### Moments -/

/-- A timestamp in universal time as documents write it. -/
def momentText (s : Stamp) : Text :=
  Text.ofNatPadded 4 s.day.year ++ Text.ofNatPadded 2 s.day.month ++ Text.ofNatPadded 2 s.day.day ++
    'T' :: Text.ofNatPadded 2 s.clock.hour ++ Text.ofNatPadded 2 s.clock.minute ++
    Text.ofNatPadded 2 s.clock.second ++ ['Z']

/-- The number in a stretch of a text. -/
def numberIn? (s : Text) (first size : Nat) : Option Nat :=
  (Text.readInt? ((s.drop first).take size)).bind fun n => if n < 0 then none else some n.toNat

/-- The end of a rule, written as a date, or as a date and time with a `Z` behind or nothing. A slash
    makes it a period, which is no end. -/
def finish? (s : Text) : Option Stamp := do
  let year ← numberIn? s 0 4
  let month ← numberIn? s 4 2
  let day ← numberIn? s 6 2
  if s.contains '/' then none
  else if s.length = 8 then Stamp.of? year month day 0 0 0 0
  else if s.length = 15 ∨ (s.length = 16 ∧ s[15]? = some 'Z') then
    Stamp.of? year month day (← numberIn? s 9 2) (← numberIn? s 11 2) (← numberIn? s 13 2) 0
  else none

/-! ### Rules -/

/-- The parts in the order in which documents write them. -/
def ruleOrder : List RuleKey :=
  [.freq, .until, .count, .interval, .bySecond, .byMinute, .byHour, .byDay, .byMonthDay, .byYearDay, .byWeekNo,
   .byMonth, .bySetPos, .weekStart]

/-- A month. One with a sign loses its last digit and is marked as a leap month. -/
def monthText? (item : Text) : Option Text :=
  if ! item.isEmpty && item.all Text.isDigit then (Text.readInt? item).map Text.ofInt
  else (Text.readInt? item.dropLast).map fun n => Text.ofInt n ++ ['L']

/-- An item of a part. -/
def itemText? (key : RuleKey) (item : Text) : Option Text :=
  match key with
  | .byDay => some item
  | .freq => (Frequency.ofName? item).map (·.name)
  | .weekStart => (Weekday.ofSymbol? item).map (·.symbol)
  | .until => (finish? item).map momentText
  | .byMonth => monthText? item
  | _ => (Text.readInt? item).map Text.ofInt

/-- A part with its items written plainly. A part with a second equals sign is left out. -/
def partText? (key : RuleKey) (value : Text) : Option (List Text) :=
  if value.contains '=' then some []
  else
    ((Text.splitOn ',' value).mapM (itemText? key)).map fun items =>
      [key.name ++ '=' :: Text.joinWith [','] items]

/-- A rule as documents write it. -/
def ruleText? (rule : RuleText) : Option Text :=
  ((rule.inOrder ruleOrder).mapM fun (key, value) => partText? key value).map fun (parts : List (List Text)) =>
    Text.joinWith [';'] parts.flatten

/-! ### Documents -/

/-- A single event with its rule, and the product that writes it. Product, title and identity may be
    lists, which give a line for each item. -/
structure Event where
  product : Datum
  title : Datum
  identity : Datum
  start : Stamp
  written : Stamp
  rule : Text

/-- The lines of a value. -/
def valueLines (name : Text) : Datum → List ContentLine
  | .list items => items.map fun item => { name, value := ContentLine.escape item.plain }
  | value => [{ name, value := ContentLine.escape value.plain }]

/-- The lines of a document. -/
def Event.lines (e : Event) : List ContentLine :=
  [{ name := "BEGIN", value := "VCALENDAR" }, { name := "VERSION", value := "2.0" }] ++
  valueLines "PRODID" e.product ++
  [{ name := "BEGIN", value := "VEVENT" }] ++
  valueLines "SUMMARY" e.title ++
  [{ name := "DTSTART", value := momentText e.start }, { name := "DTSTAMP", value := momentText e.written }] ++
  valueLines "UID" e.identity ++
  [{ name := "RRULE", value := e.rule }, { name := "END", value := "VEVENT" },
   { name := "END", value := "VCALENDAR" }]

/-- A document. None when a line holds half a pair of units, which has no octets. -/
def Event.text? (e : Event) : Option Text :=
  let text := e.lines.flatMap (·.text)
  if Text.isWhole text then some text else none

end Document

/-- The product that is named as the writer of documents. -/
def defaultProduct : Text := "-//Recurrence Picker//EN"

/-- The event of a rule. -/
def eventOf (c : Setting) (rule title start identity product : Datum) : Result Document.Event := do
  let parsed ← RuleText.read rule
  let _ ← parsed.recurrence c.plain start
  let anchor ← parsed.anchor c.plain start
  let start ← orFault .range anchor.toUniversal?
  let text ← orFault .value (Document.ruleText? parsed)
  return {
    product, title, start
    identity := if identity.truthy then identity else .text (c.identity ++ "@recurrence-picker")
    written := c.today
    rule := text }

/-- The document of a rule, empty when the rule or its start cannot be used. -/
def exportDocument (c : Setting) (rule title start identity product : Datum) : Result Text :=
  Result.recover (do orFault .value (← eventOf c rule title start identity product).text?) Failure.isValueOrKind []

end Cadence
