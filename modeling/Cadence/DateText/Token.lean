import Cadence.Text.Letter
import Cadence.Text.Blank

/-!
# Tokens of a date in words

A text is cut into runs of letters, runs of digits, single blanks and single other characters. A
point, or a comma after two digits, may continue a run of digits as a decimal number; a run that turns
out to be no decimal number is cut at its points and commas again.
-/

namespace Cadence.DateToken

/-- What a run of characters has been so far. -/
inductive Run where
  | letters | digits | dottedLetters | dottedDigits
  deriving DecidableEq, Repr

/-- What the run becomes with one more character; none when the character does not belong to it. The
    run's last character and its length are given. -/
def Run.extend? (run : Run) (last : Char) (length : Nat) (c : Char) : Option Run :=
  match run with
  | letters => if Text.isLetter c then some letters else if c = '.' then some dottedLetters else none
  | digits =>
    if Text.isDigit c then some digits
    else if c = '.' || (c = ',' && 2 ≤ length) then some dottedDigits
    else none
  | dottedLetters =>
    if c = '.' || Text.isLetter c then some dottedLetters
    else if Text.isDigit c && last = '.' then some dottedDigits
    else none
  | dottedDigits =>
    if c = '.' || Text.isDigit c then some dottedDigits
    else if Text.isLetter c && last = '.' then some dottedLetters
    else none

/-- A run with its characters backwards, and whether another character came up after letters. -/
structure Reading where
  run : Run
  backwards : Text
  lettered : Bool := false

/-- A character comes up after letters. -/
def Reading.seen (r : Reading) : Reading :=
  { r with lettered := r.lettered || r.run = .letters || r.run = .dottedLetters }

/-- The longest run at the start of a text, and the text after it. -/
def readRun (r : Reading) : Text → Reading × Text
  | [] => (r, [])
  | c :: rest =>
    match r.run.extend? (r.backwards.headD ' ') r.backwards.length c with
    | some run => readRun { r.seen with run, backwards := c :: r.backwards } rest
    | none => (r.seen, c :: rest)

/-- The pieces of a text between its points and commas, and those characters themselves, in order. -/
def cutAtPoints : Text → List Text
  | [] => [[]]
  | c :: rest =>
    if c = '.' ∨ c = ',' then [] :: [c] :: cutAtPoints rest
    else
      match cutAtPoints rest with
      | [] => [[c]]
      | piece :: more => (c :: piece) :: more

/-- The tokens that a run stands for. -/
def Reading.tokens (r : Reading) : List Text :=
  let token := r.backwards.reverse
  let dotted := r.run = .dottedLetters || r.run = .dottedDigits
  let last := r.backwards.headD ' '
  if dotted && (r.lettered || 1 < token.count '.' || last = '.' || last = ',') then
    (cutAtPoints token).filter (! ·.isEmpty)
  else if r.run = .dottedDigits && token.count '.' = 0 then
    [token.map fun c => if c = ',' then '.' else c]
  else [token]

/-- The tokens of a text, `fuel` being at least its length. -/
def tokensFrom : Nat → Text → List Text
  | 0, _ => []
  | _ + 1, [] => []
  | fuel + 1, c :: rest =>
    if Text.isLetter c then
      let (r, after) := readRun { run := .letters, backwards := [c] } rest
      r.tokens ++ tokensFrom fuel after
    else if Text.isDigit c then
      let (r, after) := readRun { run := .digits, backwards := [c] } rest
      r.tokens ++ tokensFrom fuel after
    else (if Text.isBlank c then [' '] else [c]) :: tokensFrom fuel rest

/-- The tokens of a text. Null characters do not count. -/
def tokens (s : Text) : List Text :=
  let s := s.filter (·.toNat ≠ 0)
  tokensFrom s.length s

end Cadence.DateToken
