import Cadence.Datum
import Cadence.Text.Half
import Cadence.Text.Numeral

/-!
# Reading JSON

`Json.read` reads one JSON value with nothing but white space around it. Three words for numbers that
are not finite are read too. Of members with the same name the last one counts, in the place of the
first. Characters below the space must be escaped inside strings. A whole number keeps all its digits;
one with a fraction or an exponent becomes a binary number.
-/

namespace Cadence.Json

/-- Why a text is not read as JSON. -/
inductive Flaw where
  /-- The text is not JSON. -/
  | malformed
  /-- A whole number has more digits than a number may be written with. -/
  | longNumber
  /-- Lists and objects stand inside one another too deeply. -/
  | tooDeep
  deriving DecidableEq, Repr

/-- White space between the parts of a JSON text. -/
def isSpace (c : Char) : Bool := c = ' ' || c = '\t' || c = '\n' || c = '\r'

/-- The text without the white space at its start. -/
def skip (s : Text) : Text := s.dropWhile isSpace

/-- A plain digit. -/
def isPlainDigit (c : Char) : Bool := '0' ≤ c && c ≤ '9'

/-! ### Strings -/

/-- The value of a digit in base sixteen. -/
def hexDigit? (c : Char) : Option Nat :=
  if '0' ≤ c ∧ c ≤ '9' then some (c.toNat - 48)
  else if 'a' ≤ c ∧ c ≤ 'f' then some (c.toNat - 87)
  else if 'A' ≤ c ∧ c ≤ 'F' then some (c.toNat - 55)
  else none

/-- The value of four digits in base sixteen. -/
def hexUnit? (a b c d : Char) : Option Nat := do
  some (4096 * (← hexDigit? a) + 256 * (← hexDigit? b) + 16 * (← hexDigit? c) + (← hexDigit? d))

/-- The code of the character that a letter stands for after a backslash. -/
def escaped? : Char → Option Nat
  | '"' => some 34
  | '\\' => some 92
  | '/' => some 47
  | 'b' => some 8
  | 'f' => some 12
  | 'n' => some 10
  | 'r' => some 13
  | 't' => some 9
  | _ => none

/-- The codes of a string whose opening quote has been read, and the text after its closing quote. -/
def stringCodes? : Text → Option (List Nat × Text)
  | [] => none
  | '"' :: rest => some ([], rest)
  | '\\' :: 'u' :: a :: b :: c :: d :: rest => do
    let unit ← hexUnit? a b c d
    let (codes, after) ← stringCodes? rest
    some (unit :: codes, after)
  | '\\' :: c :: rest => do
    let code ← escaped? c
    let (codes, after) ← stringCodes? rest
    some (code :: codes, after)
  | c :: rest =>
    if c.toNat < 32 then none
    else do
      let (codes, after) ← stringCodes? rest
      some (c.toNat :: codes, after)

/-- The character with a code, or the one that half a pair stands for. -/
def charOf (n : Nat) : Char :=
  if Text.isHighHalf n || Text.isLowHalf n then Text.ofHalf n else Char.ofNat n

/-- The characters with these codes, two halves of a pair making one. -/
def charsOf : List Nat → Text
  | high :: low :: rest =>
    if Text.isHighHalf high && Text.isLowHalf low then
      Char.ofNat (0x10000 + (high - 0xD800) * 0x400 + (low - 0xDC00)) :: charsOf rest
    else charOf high :: charsOf (low :: rest)
  | [code] => [charOf code]
  | [] => []

/-- A string whose opening quote has been read, and the text after it. -/
def string? (s : Text) : Option (Text × Text) :=
  (stringCodes? s).map fun (codes, rest) => (charsOf codes, rest)

/-! ### Numbers -/

/-- The digits of a fraction and the text after them; no digits unless a point and a digit follow. -/
def fraction (s : Text) : Text × Text :=
  match s with
  | '.' :: rest =>
    let digits := rest.takeWhile isPlainDigit
    if digits.isEmpty then ([], s) else (digits, rest.dropWhile isPlainDigit)
  | _ => ([], s)

/-- The exponent after a number and the text after it; none unless its letter and a digit follow. -/
def exponent (s : Text) : Option Int × Text :=
  match s with
  | c :: rest =>
    if c = 'e' || c = 'E' then
      let (negative, body) := match rest with
        | '-' :: body => (true, body)
        | '+' :: body => (false, body)
        | body => (false, body)
      let digits := body.takeWhile isPlainDigit
      if digits.isEmpty then (none, s)
      else
        let size : Int := Text.digitsValue (digits.map fun d => d.toNat - 48)
        (some (if negative then -size else size), body.dropWhile isPlainDigit)
    else (none, s)
  | [] => (none, s)

/-- The size of a row of plain digits. -/
def digitsSize (digits : Text) : Nat := Text.digitsValue (digits.map fun d => d.toNat - 48)

/-- A number without its sign and the text after it. -/
def number (negative : Bool) (s : Text) : Except Flaw (Datum × Text) :=
  let run := s.takeWhile isPlainDigit
  let whole := match run with
    | '0' :: _ => ['0']
    | _ => run
  if whole.isEmpty then .error .malformed
  else
    let (places, rest) := fraction (s.drop whole.length)
    let (power, after) := exponent rest
    if places.isEmpty && power.isNone then
      if Text.maxDigits < whole.length then .error .longNumber
      else
        let size : Int := digitsSize whole
        .ok (.int (if negative then -size else size), after)
    else
      .ok (.real (.ofDecimal negative (digitsSize (whole ++ places)) (power.getD 0 - places.length)), after)

/-! ### Values -/

/-- The words that stand for a value. -/
def words : List (Text × Datum) :=
  [("null", .null), ("true", .bool true), ("false", .bool false), ("NaN", .real .nan),
   ("Infinity", .real (.infinity false)), ("-Infinity", .real (.infinity true))]

/-- A word at the start of a text, and the text after it. -/
def word? (s : Text) : Option (Datum × Text) :=
  words.findSome? fun (name, value) => (Text.following? name s).map fun rest => (value, rest)

/-- How many lists and objects may stand inside one another. -/
def maxDepth : Nat := 990

mutual
/-- A value at the start of a text, inside lists and objects of which `room` more may be opened, and the
    text after it. -/
def value : Nat → Nat → Text → Except Flaw (Datum × Text)
  | 0, _, _ => .error .malformed
  | fuel + 1, room, s =>
    match word? s with
    | some found => .ok found
    | none =>
      match s with
      | '"' :: rest =>
        match string? rest with
        | some (text, after) => .ok (.text text, after)
        | none => .error .malformed
      | '[' :: rest =>
        match room with
        | 0 => .error .tooDeep
        | room + 1 =>
          match skip rest with
          | ']' :: after => .ok (.list [], after)
          | first => items fuel room [] first
      | '\x7b' :: rest =>
        match room with
        | 0 => .error .tooDeep
        | room + 1 =>
          match skip rest with
          | '\x7d' :: after => .ok (.object [], after)
          | first => members fuel room [] first
      | '-' :: rest => number true rest
      | _ => number false s

/-- The items of a list from one of them on, those before it being in `done` backwards. -/
def items : Nat → Nat → List Datum → Text → Except Flaw (Datum × Text)
  | 0, _, _, _ => .error .malformed
  | fuel + 1, room, done, s => do
    let (item, rest) ← value fuel room s
    match skip rest with
    | ',' :: more => items fuel room (item :: done) (skip more)
    | ']' :: after => .ok (.list (item :: done).reverse, after)
    | _ => .error .malformed

/-- The members of an object from one of them on, those before it being in `done`. -/
def members : Nat → Nat → List (Text × Datum) → Text → Except Flaw (Datum × Text)
  | 0, _, _, _ => .error .malformed
  | fuel + 1, room, done, s =>
    match s with
    | '"' :: rest =>
      match string? rest with
      | none => .error .malformed
      | some (name, rest) =>
        match skip rest with
        | ':' :: rest => do
          let (item, rest) ← value fuel room (skip rest)
          let done := Datum.setMember name item done
          match skip rest with
          | ',' :: more => members fuel room done (skip more)
          | '\x7d' :: after => .ok (.object done, after)
          | _ => .error .malformed
        | _ => .error .malformed
    | _ => .error .malformed
end

/-- The value that a text writes. -/
def read (s : Text) : Except Flaw Datum := do
  let (found, rest) ← value (2 * s.length + 2) maxDepth (skip s)
  if (skip rest).isEmpty then .ok found else .error .malformed

end Cadence.Json
