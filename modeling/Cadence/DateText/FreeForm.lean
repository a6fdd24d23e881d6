import Cadence.Calendar.Stamp
import Cadence.DateText.Numbers
import Cadence.DateText.Token
import Cadence.Text.Case

/-!
# Dates in words

`FreeForm.read` reads dates such as `5 May 2025 at 3 pm`, token by token: numbers, names of months and
weekdays, labels of hours, minutes and seconds, halves of the day and zones. What a text does not give
is taken from a default. Small words between the parts are passed over; any other word is an error.
Years of two digits lie within fifty years of the current one. A weekday without a day of the month
moves the date forward to that weekday. A zone does not change the date; `FreeForm.readLocal` does not
look at it, and `FreeForm.read` refuses one that lies too far from universal time.
-/

namespace Cadence.FreeForm

/-- Why a text is no date. -/
inductive Flaw where
  /-- A token does not fit. -/
  | unknown
  /-- There is nothing of a date in the text. -/
  | noDate
  /-- The last day is asked for of a month that there is not. -/
  | noMonth (month : Nat)
  /-- The numbers are no date. -/
  | offCalendar (flaw : Stamp.Flaw)
  /-- A number is too large for any date, the date lies beyond the calendar, or its zone beyond reckoning. -/
  | offScale
  /-- A number has more digits before its point than can be reckoned with. -/
  | offPrecision
  deriving DecidableEq, Repr

/-! ### Words -/

/-- The words that are passed over. -/
def fillers : List Text :=
  [" ", ".", ",", ";", "-", "/", "'", "at", "on", "and", "ad", "m", "t", "of", "st", "nd", "rd", "th"]

/-- The token is passed over. -/
def isFiller (token : Text) : Bool := fillers.contains (Text.lower token)

/-- The weekday that a name or its first three letters stand for. -/
def weekday? (token : Text) : Option Weekday :=
  Weekday.all.find? fun day =>
    Text.lower token = Text.lower day.name || Text.lower token = (Text.lower day.name).take 3

/-- The month that a name or abbreviation stands for. -/
def month? (token : Text) : Option Nat :=
  let plain := Text.lower token
  if plain = "sept".toList then some 9
  else
    ((List.range 12).map (· + 1)).find? fun month =>
      plain = Text.lower (monthName month) || plain = Text.lower (monthAbbreviation month)

/-- The parts of a time that have labels. -/
inductive TimeUnit where
  | hour | minute | second
  deriving DecidableEq, Repr

/-- The part of a time that a label names. -/
def unit? (token : Text) : Option TimeUnit :=
  let plain := Text.lower token
  if ["h".toList, "hour".toList, "hours".toList].contains plain then some .hour
  else if ["m".toList, "minute".toList, "minutes".toList].contains plain then some .minute
  else if ["s".toList, "second".toList, "seconds".toList].contains plain then some .second
  else none

/-- The next smaller part of a time. -/
def TimeUnit.next? : TimeUnit → Option TimeUnit
  | hour => some minute
  | minute => some second
  | second => none

/-- The half of the day that a label names, the afternoon being true. -/
def afternoon? (token : Text) : Option Bool :=
  let plain := Text.lower token
  if ["am".toList, "a".toList].contains plain then some false
  else if ["pm".toList, "p".toList].contains plain then some true
  else none

/-- The hour of the day for an hour in a half of it. An hour past the twelfth is one of the day already. -/
def halfHour (hour : Nat) (afternoon : Bool) : Nat :=
  if hour = 12 ∧ ! afternoon then 0 else if hour < 12 ∧ afternoon then hour + 12 else hour

/-- The token names a number that is none, or none that is finite. -/
def isNoNumber (token : Text) : Bool :=
  ["nan".toList, "inf".toList, "infinity".toList].contains (Text.lower token)

/-- A year of two digits as the one within fifty years of the current year. -/
def fullYear (currentYear year : Nat) (century : Bool) : Nat :=
  if 100 ≤ year ∨ century then year
  else
    let y := year + currentYear / 100 * 100
    if currentYear + 50 ≤ y then y - 100 else if y + 50 < currentYear then y + 100 else y

/-! ### Fields -/

/-- What has been read of a date. -/
structure Fields where
  numbers : DateNumbers := {}
  weekday : Option Weekday := none
  hour : Option Nat := none
  minute : Option Nat := none
  second : Option Nat := none
  micro : Option Nat := none
  zoneName : Option Text := none
  /-- The seconds that the zone is ahead of universal time. -/
  offset : Option Int := none
  /-- The sign of the offset that follows is to be read the other way. -/
  reversed : Bool := false

/-- Seconds and microseconds as written, the latter cut off after six places. -/
def seconds? (s : Text) : Option (Nat × Nat) :=
  match Text.splitOn '.' s with
  | [whole] => (Text.readNat? whole).map fun n => (n, 0)
  | [whole, places] => do
    some (← Text.readNat? whole, ← Text.readNat? ((Text.padRight 6 '0' places).take 6))
  | _ => none

/-- A value that the text must give. -/
def known {α : Type} : Option α → Except Flaw α
  | some a => .ok a
  | none => .error .unknown

/-- A number whose part behind the point is reckoned with. -/
def reckoned (x : Decimal) : Except Flaw Unit := if x.isReckonable then .ok () else .error .offPrecision

/-- The fields with a decimal number of minutes. -/
def Fields.withMinutes (f : Fields) (x : Decimal) : Except Flaw Fields := do
  reckoned x
  return { f with minute := some x.whole, second := if x.fraction = 0 then none else some x.sixtieths }

/-- The fields with a decimal number of hours. -/
def Fields.withHours (f : Fields) (x : Decimal) : Except Flaw Fields := do
  reckoned x
  return { f with hour := some x.whole, minute := if x.fraction = 0 then f.minute else some x.sixtieths }

/-- The fields with seconds as written. -/
def Fields.withSeconds? (f : Fields) (s : Text) : Option Fields :=
  (seconds? s).map fun (second, micro) => { f with second := some second, micro := some micro }

/-- The fields with a labelled number. -/
def Fields.withUnit (f : Fields) (token : Text) (x : Decimal) : Option TimeUnit → Except Flaw Fields
  | some .hour => f.withHours x
  | some .minute => f.withMinutes x
  | some .second => known (f.withSeconds? token)
  | none => .ok f

/-- The token may be the name of a zone: short capitals, after an hour and before any other zone. -/
def Fields.mayNameZone (f : Fields) (offset : Bool) (token : Text) : Bool :=
  f.hour.isSome && f.zoneName.isNone && ! offset && token.length ≤ 5 &&
    (token.all (fun c => 'A' ≤ c && c ≤ 'Z') || token = ['z'])

/-- Nothing has been read. -/
def Fields.isEmpty (f : Fields) (resolved : DateNumbers.Resolved) : Bool :=
  resolved = (none, none, none) && f.weekday.isNone && f.hour.isNone && f.minute.isNone && f.second.isNone &&
    f.micro.isNone && f.zoneName.isNone && f.offset.isNone

/-! ### Numbers -/

/-- What labels a number: how many tokens behind it are used up, and the part of a time. A label behind
    the number counts for it, one before it for the next larger part. -/
def label? (back next : List Text) : Option (Nat × Option TimeUnit) :=
  let following := match next with
    | first :: _ => (unit? first).map fun u => (1, some u)
    | [] => none
  let afterBlank := match next with
    | [' '] :: second :: _ => (unit? second).map fun u => (2, some u)
    | _ => none
  let preceding := match back with
    | last :: _ => (unit? last).map fun u => (0, u.next?)
    | [] => none
  let beforeBlank := match next, back with
    | [], [' '] :: last :: _ => (unit? last).map fun u => (0, u.next?)
    | _, _ => none
  following <|> afterBlank <|> preceding <|> beforeBlank

/-- A number that separators connect to others: the tokens used up behind it, and the fields. -/
def connected? (f : Fields) (token sep : Text) (rest : List Text) : Option (Nat × Fields) := do
  let numbers ← f.numbers.pushText? token
  match rest with
  | [] => some (1, { f with numbers })
  | second :: more =>
    if isFiller second then some (1, { f with numbers })
    else
      let numbers ←
        if second.all Text.isDigit then numbers.pushText? second
        else
          match month? second with
          | some month => numbers.pushMonth? month
          | none => none
      match more with
      | again :: more =>
        if again = sep then
          match more with
          | [] => none
          | third :: _ =>
            let numbers ← match month? third with
              | some month => numbers.pushMonth? month
              | none => numbers.pushText? third
            some (4, { f with numbers })
        else some (2, { f with numbers })
      | [] => some (2, { f with numbers })

/-- A number followed by a colon and what follows that: hours, minutes and perhaps seconds. -/
def clock (f : Fields) (x : Decimal) (minutes : Text) (more : List Text) : Except Flaw (Nat × Fields) := do
  let f ← Fields.withMinutes { f with hour := some x.whole } (← known (Decimal.ofToken? minutes))
  match more with
  | [':'] :: seconds :: _ => return (4, ← known (f.withSeconds? seconds))
  | _ => return (2, f)

/-- A row of six digits, which is a date without separators or a time. -/
def sixDigits? (f : Fields) (token : Text) : Option Fields :=
  if f.numbers.values.isEmpty ∧ ¬ token.contains '.' then do
    let numbers ← f.numbers.pushText? (token.take 2)
    let numbers ← numbers.pushText? ((token.drop 2).take 2)
    let numbers ← numbers.pushText? (token.drop 4)
    some { f with numbers }
  else do
    let hour ← Text.readNat? (token.take 2)
    let minute ← Text.readNat? ((token.drop 2).take 2)
    Fields.withSeconds? { f with hour := some hour, minute := some minute } (token.drop 4)

/-- A row of eight, twelve or fourteen digits: a date, hours and minutes, seconds. -/
def longDigits? (f : Fields) (token : Text) : Option Fields := do
  let numbers ← f.numbers.pushYearText? (token.take 4)
  let numbers ← numbers.pushText? ((token.drop 4).take 2)
  let numbers ← numbers.pushText? ((token.drop 6).take 2)
  let f := { f with numbers }
  if token.length = 8 then some f
  else
    let hour ← Text.readNat? ((token.drop 8).take 2)
    let minute ← Text.readNat? ((token.drop 10).take 2)
    let f := { f with hour := some hour, minute := some minute }
    if token.length = 12 then some f
    else
      let second ← Text.readNat? (token.drop 12)
      some { f with second := some second }

/-- A row of two or four digits after a full date: hours and perhaps minutes. -/
def hourDigits? (f : Fields) (token : Text) : Option Fields := do
  let hour ← Text.readNat? (token.take 2)
  if token.length = 4 then
    let minute ← Text.readNat? (token.drop 2)
    some { f with hour := some hour, minute := some minute }
  else some { f with hour := some hour }

/-- A number by itself: an hour when a half of the day follows, otherwise a part of the date. -/
def lone? (f : Fields) (x : Decimal) (next : List Text) : Option (Nat × Fields) :=
  match next with
  | _ :: label :: _ =>
    match afternoon? label with
    | some half => some (2, { f with hour := some (halfHour x.whole half) })
    | none => (f.numbers.pushDecimal? x).map fun numbers => (1, { f with numbers })
  | _ => (f.numbers.pushDecimal? x).map fun numbers => (1, { f with numbers })

/-- A number right before a token that is neither filler nor separator. -/
def joined? (f : Fields) (x : Decimal) (following : Text) : Option (Nat × Fields) :=
  match afternoon? following with
  | some half =>
    if x.whole < 24 then some (1, { f with hour := some (halfHour x.whole half) })
    else if f.numbers.couldBeDay x then (f.numbers.pushDecimal? x).map fun numbers => (0, { f with numbers })
    else none
  | none =>
    if f.numbers.couldBeDay x then (f.numbers.pushDecimal? x).map fun numbers => (0, { f with numbers })
    else none

/-- A number of two or four digits after a full date is a time of day, unless it begins a time with a
    colon or has a label behind it. -/
def opensTime (f : Fields) (token : Text) (next : List Text) : Bool :=
  let stands := match next with
    | [] => true
    | following :: _ => following ≠ [':'] && (unit? following).isNone
  f.numbers.values.length = 3 && (token.length = 2 || token.length = 4) && f.hour.isNone && stands

/-- A number that is part of a date, or of a time without a label: the tokens used up behind it, and the
    fields. -/
def unlabelled (f : Fields) (token : Text) (x : Decimal) (next : List Text) : Except Flaw (Nat × Fields) :=
  match next with
  | [] => known (lone? f x next)
  | [':'] :: minutes :: more => clock f x minutes more
  | following :: rest =>
    if following = ['-'] ∨ following = ['/'] ∨ following = ['.'] then known (connected? f token following rest)
    else if isFiller following then known (lone? f x next)
    else known (joined? f x following)

/-- A number: the tokens used up behind it, and the fields. -/
def number (f : Fields) (token : Text) (x : Decimal) (back next : List Text) : Except Flaw (Nat × Fields) :=
  let size := token.length
  if opensTime f token next then (known (hourDigits? f token)).map (0, ·)
  else if size = 6 ∨ (6 < size ∧ token[6]? = some '.' ∧ ¬ (token.take 6).contains '.') then
    (known (sixDigits? f token)).map (0, ·)
  else if size = 8 ∨ size = 12 ∨ size = 14 then (known (longDigits? f token)).map (0, ·)
  else
    match label? back next with
    | some (used, unit) => (f.withUnit token x unit).map (used, ·)
    | none => unlabelled f token x next

/-! ### Names and zones -/

/-- The name of a month: the tokens used up behind it, and the fields. -/
def monthName? (f : Fields) (currentYear month : Nat) (next : List Text) : Option (Nat × Fields) := do
  let numbers ← f.numbers.pushMonth? month
  match next with
  | [] => some (0, { f with numbers })
  | sep :: rest =>
    if sep = ['-'] ∨ sep = ['/'] then
      match rest with
      | [] => none
      | second :: more => do
        let numbers ← numbers.pushText? second
        match more with
        | again :: more =>
          if again = sep then
            match more with
            | [] => none
            | third :: _ => some (4, { f with numbers := ← numbers.pushText? third })
          else some (2, { f with numbers })
        | [] => some (2, { f with numbers })
    else
      match next with
      | [' '] :: word :: [' '] :: year :: _ =>
        if Text.lower word = "of".toList then
          if year.all Text.isDigit then do
            let n ← Text.readNat? year
            let numbers ← numbers.pushYearText? (Text.ofNat (fullYear currentYear n false))
            some (4, { f with numbers })
          else some (4, { f with numbers })
        else some (0, { f with numbers })
      | _ => some (0, { f with numbers })

/-- The token names universal time. -/
def isUniversal (token : Text) : Bool :=
  ["utc".toList, "gmt".toList, "z".toList].contains (Text.lower token)

/-- The name of a zone. A sign right behind it begins an offset that counts the other way; the zone then
    is not universal time itself. -/
def zoneName (f : Fields) (token : Text) (next : List Text) : Fields :=
  let signed : Bool := match next with
    | first :: _ => first = ['+'] || first = ['-']
    | [] => false
  { f with zoneName := if signed && isUniversal token then none else some token, reversed := signed }

/-- The seconds of an offset without its sign: the tokens used up, the seconds, and the tokens behind. -/
def offsetSeconds? : List Text → Option (Nat × Nat × List Text)
  | [] => none
  | digits :: rest =>
    if digits.length = 4 then do
      let hours ← Text.readNat? (digits.take 2)
      let minutes ← Text.readNat? (digits.drop 2)
      some (1, hours * 3600 + minutes * 60, rest)
    else
      match rest with
      | [':'] :: more =>
        match more with
        | minutes :: more => do
          some (3, (← Text.readNat? digits) * 3600 + (← Text.readNat? minutes) * 60, more)
        | [] => none
      | _ => if digits.length ≤ 2 then (Text.readNat? digits).map fun hours => (1, hours * 3600, rest) else none

/-- A sign after an hour: the offset of a zone behind it, perhaps with the zone's name in brackets. -/
def zoneOffset? (f : Fields) (ahead : Bool) (next : List Text) : Option (Nat × Fields) := do
  let (used, seconds, rest) ← offsetSeconds? next
  let offset : Int := if ahead = f.reversed then - (seconds : Int) else seconds
  let f := { f with offset := some offset, reversed := false }
  match rest with
  | blank :: ['('] :: name :: [')'] :: _ =>
    if isFiller blank ∧ 3 ≤ name.length ∧ f.mayNameZone false name then
      some (used + 4, { f with zoneName := some name })
    else some (used, f)
  | _ => some (used, f)

/-- The days that an offset may reach either way. -/
def lastOffsetDay : Int := 999999999

/-- The zone can be reckoned with. An offset from universal time by that name does not count. -/
def Fields.hasZone (f : Fields) : Bool :=
  if f.zoneName.any isUniversal then true
  else
    let days := Int.fdiv (f.offset.getD 0) 86400
    days ≤ lastOffsetDay && 0 ≤ days + lastOffsetDay

/-- One token that is no number: the tokens used up behind it, and the fields. -/
def word? (f : Fields) (currentYear : Nat) (token : Text) (next : List Text) : Option (Nat × Fields) :=
  match weekday? token, month? token, afternoon? token with
  | some day, _, _ => some (0, { f with weekday := some day })
  | none, some month, _ => monthName? f currentYear month next
  | none, none, some half => do
    let hour ← f.hour
    if hour ≤ 12 then some (0, { f with hour := some (halfHour hour half) }) else none
  | none, none, none =>
    if f.mayNameZone f.offset.isSome token then some (0, zoneName f token next)
    else if f.hour.isSome ∧ (token = ['+'] ∨ token = ['-']) then zoneOffset? f (token = ['+']) next
    else if isFiller token then some (0, f)
    else none

/-- The fields of the tokens `next` when `back` has been read already, last token first. -/
def fields (currentYear : Nat) : Nat → List Text → List Text → Fields → Except Flaw Fields
  | 0, _, _, f => .ok f
  | _ + 1, _, [], f => .ok f
  | fuel + 1, back, token :: next, f => do
    if isNoNumber token then throw .unknown
    else
      let (used, f) ← match Decimal.ofToken? token with
        | some x => number f token x back next
        | none => known (word? f currentYear token next)
      fields currentYear fuel ((next.take used).reverse ++ token :: back) (next.drop used) f

/-! ### The date -/

/-- The day of the month: the one given, or the default's, or the month's last one if that is later. -/
def dayOf (year month : Nat) (default : Nat) : Option Nat → Except Flaw Nat
  | some day => .ok day
  | none =>
    if 1 ≤ month ∧ month ≤ 12 then .ok (min default (daysInMonth year month)) else .error (.noMonth month)

/-- The timestamp that fields stand for, with a default for what they leave open. -/
def stamp (f : Fields) (resolved : DateNumbers.Resolved) (default : Stamp) : Except Flaw Stamp := do
  let (year, month, day) := resolved
  let years := year.getD default.day.year
  let months := month.getD default.day.month
  let days ← dayOf years months default.day.day day
  let hour := f.hour.getD default.clock.hour
  let minute := f.minute.getD default.clock.minute
  let second := f.second.getD default.clock.second
  let micro := f.micro.getD default.clock.micro
  if [years, months, days, hour, minute, second].any (2147483647 < ·) then throw .offScale
  match Stamp.of? years months days hour minute second micro with
  | none => throw (.offCalendar (Stamp.flawOf years months days hour minute))
  | some stamp =>
    match f.weekday, day with
    | some weekday, none =>
      match stamp.addDays? ((7 - stamp.day.weekday.index + weekday.index) % 7) with
      | some moved => return moved
      | none => throw .offScale
    | _, _ => return stamp

/-- The timestamp that a text stands for, and whether its zone can be reckoned with. -/
def readZoned (currentYear : Nat) (dayFirst : Bool) (default : Stamp) (s : Text) : Except Flaw (Stamp × Bool) := do
  let tokens := DateToken.tokens s
  let f ← fields currentYear tokens.length [] tokens {}
  let (year, month, day) ← known (f.numbers.resolve? dayFirst)
  let resolved := (year.map (fullYear currentYear · f.numbers.century), month, day)
  if f.isEmpty resolved then throw .noDate
  return (← stamp f resolved default, f.hasZone)

/-- The timestamp that a text stands for, its zone being left aside. -/
def readLocal (currentYear : Nat) (default : Stamp) (s : Text) : Except Flaw Stamp :=
  (readZoned currentYear false default s).map (·.1)

/-- The timestamp that a text stands for. Its zone must make sense but does not change it. -/
def read (currentYear : Nat) (dayFirst : Bool) (default : Stamp) (s : Text) : Except Flaw Stamp := do
  let (stamp, hasZone) ← readZoned currentYear dayFirst default s
  if hasZone then return stamp else throw .offScale

end Cadence.FreeForm
