import Cadence.Binary64
import Cadence.Calendar.Stamp
import Cadence.Text.Quoted

/-!
# Host values

What a host hands over where the library expects a date, a number or a text: a JSON value, or a day
or timestamp given as such. `Datum.shown` is how a value appears inside a message, `Datum.plain` how
it appears inside a sentence, and `Datum.same` compares values as the host does: numbers of all kinds
by their size, truth values being 0 and 1.
-/

namespace Cadence

/-- A value given by a host. -/
inductive Datum where
  | null
  | bool (b : Bool)
  | int (n : Int)
  | real (x : Binary64)
  | text (s : Text)
  | list (items : List Datum)
  | object (members : List (Text × Datum))
  | day (d : Day)
  | stamp (s : Stamp)
  deriving Inhabited

/-- What is wrong with a value that an operation cannot work with. -/
inductive Fault where
  /-- A value that the operation does not take. -/
  | value
  /-- A value of a kind that the operation does not take. -/
  | kind
  /-- A value without the feature that the operation uses. -/
  | member
  /-- A place that a list does not have. -/
  | index
  /-- A name that a table does not have. -/
  | key
  /-- A number beyond the range of the calendar or of machine words. -/
  | range
  /-- A decimal number with more digits than can be reckoned with. -/
  | precision
  /-- Values inside values more deeply than can be followed. -/
  | depth
  deriving DecidableEq, Repr

namespace Datum

/-! ### Appearance -/

/-- A timestamp's zone inside a message: its seconds from universal time, those behind it counted
    from a whole day earlier. -/
def zoneShown (minutes : Int) : Text :=
  if minutes = 0 then "datetime.timezone.utc"
  else
    let seconds : Text :=
      if minutes < 0 then "days=-1, seconds=" ++ Text.ofInt (86400 + minutes * 60)
      else "seconds=" ++ Text.ofInt (minutes * 60)
    "datetime.timezone(datetime.timedelta(" ++ seconds ++ "))"

/-- A day inside a message: its numbers in order. -/
def dayShown (d : Day) : Text :=
  "datetime.date(" ++ Text.joinWith ", " [Text.ofNat d.year, Text.ofNat d.month, Text.ofNat d.day] ++ ")"

/-- A timestamp inside a message: its numbers in order, seconds and microseconds left off at the end
    when they are zero. -/
def stampShown (s : Stamp) : Text :=
  let c := s.clock
  let numbers := [s.day.year, s.day.month, s.day.day, c.hour, c.minute] ++
    (if c.second = 0 ∧ c.micro = 0 then [] else [c.second]) ++ (if c.micro = 0 then [] else [c.micro])
  let zone : List Text := match s.zone with
    | none => []
    | some minutes => ["tzinfo=" ++ zoneShown minutes]
  "datetime.datetime(" ++ Text.joinWith ", " (numbers.map Text.ofNat ++ zone) ++ ")"

/-- A truth value inside a message. -/
def boolShown (b : Bool) : Text := if b then "True" else "False"

mutual
/-- A value inside a message: texts between quotes, lists and objects with their members. -/
def shown : Datum → Text
  | null => "None"
  | bool b => boolShown b
  | int n => Text.ofInt n
  | real x => x.text "nan" "inf"
  | text s => Text.quoted s
  | list items => '[' :: Text.joinWith ", " (shownItems items) ++ [']']
  | object members => '\x7b' :: Text.joinWith ", " (shownMembers members) ++ ['\x7d']
  | day d => dayShown d
  | stamp s => stampShown s

/-- The items of a list inside a message. -/
def shownItems : List Datum → List Text
  | [] => []
  | item :: rest => shown item :: shownItems rest

/-- The members of an object inside a message. -/
def shownMembers : List (Text × Datum) → List Text
  | [] => []
  | (name, value) :: rest => (Text.quoted name ++ ": " ++ shown value) :: shownMembers rest
end

/-- A value inside a sentence: texts as they are, days and timestamps as dates, others as in messages. -/
def plain : Datum → Text
  | text s => s
  | day d => d.text
  | stamp s => s.day.text ++ ' ' :: s.text.drop (s.day.text.length + 1)
  | other => other.shown

/-! ### Reading a value -/

/-- A value that counts as given: neither null, false, zero nor empty. -/
def truthy : Datum → Bool
  | null => false
  | bool b => b
  | int n => n ≠ 0
  | real x => ! x.isZero
  | text s => ! s.isEmpty
  | list items => ! items.isEmpty
  | object members => ! members.isEmpty
  | day _ | stamp _ => true

/-- The value, or null in place of one that does not count as given. -/
def orNull (d : Datum) : Datum := if d.truthy then d else null

/-- The whole number that a value stands for: a truth value is 0 or 1, other numbers lose their
    fraction, texts are read. -/
def toInt : Datum → Except Fault Int
  | bool b => .ok (if b then 1 else 0)
  | int n => .ok n
  | real .nan => .error .value
  | real x =>
    match x.truncate? with
    | some n => .ok n
    | none => .error .range
  | text s =>
    match Text.readInt? s with
    | some n => .ok n
    | none => .error .value
  | _ => .error .kind

/-- The size of a value that is a number of any kind. -/
def number? : Datum → Option (Int ⊕ Binary64)
  | bool b => some (.inl (if b then 1 else 0))
  | int n => some (.inl n)
  | real x =>
    match x.truncate? with
    | some n => if x.isWhole then some (.inl n) else some (.inr x)
    | none => some (.inr x)
  | _ => none

/-- Two numbers of any kind are the same. -/
def sameNumber : Int ⊕ Binary64 → Int ⊕ Binary64 → Bool
  | .inl m, .inl n => m = n
  | .inr x, .inr y => x.same y
  | _, _ => false

/-- The value of a member of an object, null when there is none. -/
def lookup (name : Text) : List (Text × Datum) → Datum
  | [] => null
  | (key, value) :: rest => if key = name then value else lookup name rest

/-- The object has a member of this name. -/
def hasMember (name : Text) (members : List (Text × Datum)) : Bool :=
  members.any fun member => member.1 = name

/-- An object with one more member. A name that is there already keeps its place and takes the new
    value. -/
def setMember (name : Text) (value : Datum) : List (Text × Datum) → List (Text × Datum)
  | [] => [(name, value)]
  | (key, old) :: rest => if key = name then (key, value) :: rest else (key, old) :: setMember name value rest

mutual
/-- The two values are equal: numbers by their size, objects whatever the order of their members. -/
def same : Datum → Datum → Bool
  | null, null => true
  | text s, text t => s = t
  | list xs, list ys => sameItems xs ys
  | object xs, object ys => xs.length = ys.length && sameMembers xs ys
  | day a, day b => a = b
  | stamp a, stamp b => a.same b
  | a, b =>
    match a.number?, b.number? with
    | some x, some y => sameNumber x y
    | _, _ => false

/-- The lists are equal item by item. -/
def sameItems : List Datum → List Datum → Bool
  | [], [] => true
  | x :: xs, y :: ys => same x y && sameItems xs ys
  | _, _ => false

/-- Each of the members is found in the other object with an equal value. -/
def sameMembers : List (Text × Datum) → List (Text × Datum) → Bool
  | [], _ => true
  | (name, value) :: rest, others =>
    hasMember name others && same value (lookup name others) && sameMembers rest others
end

end Datum

end Cadence
