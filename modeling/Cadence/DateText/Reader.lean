import Cadence.DateText.FreeForm
import Cadence.DateText.Iso
import Cadence.DateText.Numeric
import Cadence.Failure

/-!
# Reading dates

`Datum.stampIn` resolves what a host gives for a date: a timestamp stays as it is, a day means its
midnight, and a text is read in the format of a locale, which may be missing as long as it is not used.
Text is read as an ISO date if it is one, else as a date in numbers, else as a date in words if it names
a month and spells out its year in four digits.
-/

namespace Cadence

namespace DateText

/-- The word begins with the name of a month in three letters and has plain letters only. -/
def isMonthWord (word : Text) : Bool :=
  word.all Text.isPlainLetter &&
    ((List.range 12).any fun month => Text.lower (monthAbbreviation (month + 1)) = Text.lower (word.take 3))

/-- One of the words of a text is the name of a month, or begins with one; `word` is the part of the
    current word that has been read, backwards. -/
def namesMonthFrom (word : Text) : Text → Bool
  | [] => isMonthWord word.reverse
  | c :: rest =>
    if Text.isWordPart c then namesMonthFrom (c :: word) rest
    else isMonthWord word.reverse || namesMonthFrom [] rest

/-- The text names a month. -/
def namesMonth (s : Text) : Bool := namesMonthFrom [] s

/-- Four digits stand together somewhere in the text; `run` of them have just been read. -/
def spellsYearFrom (run : Nat) : Text → Bool
  | [] => false
  | c :: rest =>
    if Text.isDecimal c then run = 3 || spellsYearFrom (run + 1) rest else spellsYearFrom 0 rest

/-- Four digits stand together somewhere in the text. -/
def spellsYear (s : Text) : Bool := spellsYearFrom 0 s

/-- The date that missing parts of a date in words are taken from. -/
def wordsDefault : Stamp := .ofDay ⟨2000, 1, 1, by decide⟩

/-- The timestamp that a date in words stands for, none if it is no date. -/
def inWords (currentYear : Nat) (format : LocaleFormat) (s : Text) : Except Fault (Option Stamp) :=
  match FreeForm.read currentYear format.order.dayFirst wordsDefault s with
  | .ok stamp => .ok (if spellsYear s then some stamp else none)
  | .error .offPrecision => .error .precision
  | .error _ => .ok none

/-- The timestamp that a text stands for, blanks around it left off; none if it is no date. An ISO date
    needs no format. -/
def resolve (currentYear : Nat) (format : Except Fault LocaleFormat) (s : Text) : Except Fault (Option Stamp) :=
  let s := Text.trim s
  match (if Iso.hasForm s then Iso.read? s else none) with
  | some stamp => .ok (some stamp)
  | none =>
    match NumericDate.ofText? s with
    | some numbers => format.map numbers.stamp?
    | none => if namesMonth s then do inWords currentYear (← format) s else .ok none

/-- The timestamp that a text stands for, or a failure that shows the text. -/
def read (currentYear : Nat) (format : Except Fault LocaleFormat) (s : Text) : Result Stamp :=
  match resolve currentYear format s with
  | .ok (some stamp) => .ok stamp
  | .ok none => .error (.unparseableDate s)
  | .error f => .error (.fault f)

end DateText

/-- The timestamp that a value stands for as a date. -/
def Datum.stampIn (currentYear : Nat) (format : Except Fault LocaleFormat) : Datum → Result Stamp
  | .stamp s => .ok s
  | .day d => .ok (.ofDay d)
  | .text s => DateText.read currentYear format s
  | other => .error (.invalidDate other)

end Cadence
