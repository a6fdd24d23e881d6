import Cadence.Calendar.Stamp

/-!
# ISO dates

`Iso.read?` reads a date written `2025-06-23`, alone or followed by the letter `T` and a time of day
with an optional zone. The time has two digits each for hour, minute and second, with colons between
all or none of them, and a decimal fraction after the second; what is left off is zero. The hour may
be 24 at the end of a day. The zone is checked and then left off.
-/

namespace Cadence.Iso

/-- A character of the plain alphabet. -/
def isPlain (c : Char) : Bool := c.toNat < 128

/-- The text has the outer form of an ISO date: digits and hyphens in their places, and then nothing or
    a `T` followed by characters none of which is blank. -/
def hasForm (s : Text) : Bool :=
  match s with
  | y₁ :: y₂ :: y₃ :: y₄ :: '-' :: m₁ :: m₂ :: '-' :: d₁ :: d₂ :: rest =>
    [y₁, y₂, y₃, y₄, m₁, m₂, d₁, d₂].all Text.isDecimal &&
      match rest with
      | [] => true
      | 'T' :: time => ! time.isEmpty && ! time.any Text.isBlank
      | _ => false
  | _ => false

/-- A number written in the first two characters, and the text after them. -/
def pair? (s : Text) : Option (Int × Text) :=
  (Text.readInt? (s.take 2)).map fun n => (n, s.drop 2)

/-- The character begins a zone. -/
def beginsZone (c : Char) : Bool := c = '-' || c = '+' || c = 'Z' || c = 'z'

/-- The text is a zone: the letter Z, or a sign with hours and perhaps minutes. -/
def isZone (s : Text) : Bool :=
  match s with
  | ['Z'] | ['z'] => true
  | sign :: offset =>
    (sign = '-' || sign = '+') && (s.length = 3 || s.length = 5 || s.length = 6) &&
      (match pair? offset with
      | none => false
      | some (hours, rest) =>
        let minutes := match rest with
          | [] => some 0
          | ':' :: digits => Text.readInt? digits
          | digits => Text.readInt? digits
        match minutes with
        | none => false
        | some minutes => minutes ≤ 59 && hours ≤ 23)
  | [] => false

/-- Nothing is left to read but a zone, or nothing at all. -/
def endsHere (s : Text) : Bool :=
  match s with
  | [] => true
  | c :: _ => beginsZone c && isZone s

/-- The time ends here although a zone may follow that is none. -/
def stopsHere (s : Text) : Bool :=
  match s with
  | [] => true
  | c :: _ => beginsZone c

/-- A time of day as it is written, any numbers. -/
structure Time where
  hour : Int := 0
  minute : Int := 0
  second : Int := 0
  micro : Nat := 0

/-- The time when nothing of it is left to read, provided that what is left is a zone or nothing. -/
def finish? (time : Time) (rest : Text) : Option Time := if endsHere rest then some time else none

/-- The fraction of a second at the start of a text in microseconds, and the text after it. -/
def fraction (s : Text) : Nat × Text :=
  match s with
  | mark :: rest =>
    let digits := rest.takeWhile fun c => '0' ≤ c && c ≤ '9'
    if (mark = '.' || mark = ',') && ! digits.isEmpty then
      (Text.digitsValue ((Text.padRight 6 '0' (digits.take 6)).map fun c => c.toNat - 48), rest.drop digits.length)
    else (0, s)
  | [] => (0, s)

/-- A time of day with an optional zone. -/
def time? (s : Text) : Option Time :=
  if s.length < 2 then none
  else if stopsHere s then finish? {} s
  else do
    let (hour, s) ← pair? s
    if stopsHere s then finish? { hour } s
    else
      let (colons, s) := match s with
        | ':' :: rest => (true, rest)
        | _ => (false, s)
      let (minute, s) ← pair? s
      if stopsHere s then finish? { hour, minute } s
      else
        let s ← if colons then Text.following? [':'] s else some s
        let (second, s) ← pair? s
        if stopsHere s then finish? { hour, minute, second } s
        else
          let (micro, s) := fraction s
          finish? { hour, minute, second, micro } s

/-- The timestamp of a day and a written time, if there is one. -/
def stampAt? (day : Day) (time : Time) : Option Stamp :=
  if time.hour = 24 then
    if time.minute = 0 ∧ time.second = 0 ∧ time.micro = 0 then (Stamp.ofDay day).addDays? 1 else none
  else if time.hour < 0 ∨ time.minute < 0 ∨ time.second < 0 then none
  else
    (Clock.of? time.hour.toNat time.minute.toNat time.second.toNat time.micro).map fun clock => { day, clock }

/-- The timestamp that a text of the outer form writes, if it is one. -/
def read? (s : Text) : Option Stamp := do
  if ! s.all isPlain then none
  else
    let year ← Text.readNat? (s.take 4)
    let month ← Text.readNat? ((s.drop 5).take 2)
    let number ← Text.readNat? ((s.drop 8).take 2)
    let day ← Day.of? year month number
    match s.drop 10 with
    | [] => some (.ofDay day)
    | _ :: written => stampAt? day (← time? written)

end Cadence.Iso
