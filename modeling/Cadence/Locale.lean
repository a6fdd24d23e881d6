import Cadence.Datum
import Cadence.Text.Case

/-!
# Date formats of locales

The order, separator and padding of numeric dates in the locales the library knows. A tag is looked
up as it stands, an underscore counting as a hyphen; failing that by its language alone; failing that
the British format is used.
-/

namespace Cadence

/-- The order of the numbers of a date. -/
inductive DateOrder where
  | monthDayYear | dayMonthYear | yearMonthDay
  deriving DecidableEq, Repr, Inhabited

namespace DateOrder

/-- The initials of the numbers in order. -/
def token : DateOrder → Text
  | monthDayYear => "MDY" | dayMonthYear => "DMY" | yearMonthDay => "YMD"

/-- The day comes before the month. -/
def dayFirst : DateOrder → Bool
  | dayMonthYear => true
  | monthDayYear | yearMonthDay => false

/-- The place of the year. -/
def yearIndex : DateOrder → Nat
  | monthDayYear | dayMonthYear => 2
  | yearMonthDay => 0

end DateOrder

/-- How a locale writes dates in numbers. -/
structure LocaleFormat where
  order : DateOrder
  separator : Char
  zeroPad : Bool := true
  deriving DecidableEq, Repr, Inhabited

namespace LocaleFormat

open DateOrder

/-- The British format. -/
def british : LocaleFormat := { order := dayMonthYear, separator := '/' }

/-- The known locales. The first one of a language stands for the language. -/
def known : List (Text × LocaleFormat) :=
  [("en-US", { order := monthDayYear, separator := '/', zeroPad := false }),
   ("en-GB", british),
   ("en-AU", { order := dayMonthYear, separator := '/' }),
   ("en-IE", { order := dayMonthYear, separator := '/' }),
   ("en-IN", { order := dayMonthYear, separator := '/', zeroPad := false }),
   ("en-NZ", { order := dayMonthYear, separator := '/' }),
   ("en-CA", { order := yearMonthDay, separator := '-' }),
   ("fr-FR", { order := dayMonthYear, separator := '/' }),
   ("fr-CA", { order := yearMonthDay, separator := '-' }),
   ("de-DE", { order := dayMonthYear, separator := '.' }),
   ("de-AT", { order := dayMonthYear, separator := '.' }),
   ("de-CH", { order := dayMonthYear, separator := '.' }),
   ("es-ES", { order := dayMonthYear, separator := '/' }),
   ("es-MX", { order := dayMonthYear, separator := '/' }),
   ("it-IT", { order := dayMonthYear, separator := '/' }),
   ("pt-PT", { order := dayMonthYear, separator := '/' }),
   ("pt-BR", { order := dayMonthYear, separator := '/' }),
   ("nl-NL", { order := dayMonthYear, separator := '-', zeroPad := false }),
   ("pl-PL", { order := dayMonthYear, separator := '.' }),
   ("ru-RU", { order := dayMonthYear, separator := '.' }),
   ("da-DK", { order := dayMonthYear, separator := '.' }),
   ("nb-NO", { order := dayMonthYear, separator := '.' }),
   ("fi-FI", { order := dayMonthYear, separator := '.', zeroPad := false }),
   ("sv-SE", { order := yearMonthDay, separator := '-' }),
   ("ja-JP", { order := yearMonthDay, separator := '/' }),
   ("zh-CN", { order := yearMonthDay, separator := '/', zeroPad := false })]

/-- The language of a tag: what stands before its first hyphen. -/
def language (tag : Text) : Text := tag.takeWhile (· ≠ '-')

/-- The format of a locale. -/
def ofTag (tag : Text) : LocaleFormat :=
  if tag.isEmpty then british
  else
    let tag := tag.map fun c => if c = '_' then '-' else c
    match known.find? (·.1 = tag) with
    | some (_, format) => format
    | none =>
      match known.find? (language ·.1 = Text.lower (language tag)) with
      | some (_, format) => format
      | none => british

/-- The format of a locale that a host gives as a value, the British one when none counts as given. -/
def ofDatum (locale : Datum) : Except Fault LocaleFormat :=
  if ! locale.truthy then .ok british
  else
    match locale with
    | .text tag => .ok (ofTag tag)
    | .day _ | .stamp _ => .error .kind
    | _ => .error .member

theorem ofDatum_text (tag : Text) : ofDatum (.text tag) = .ok (ofTag tag) := by
  cases tag <;> simp [ofDatum, Datum.truthy, ofTag]

theorem ofDatum_null : ofDatum .null = .ok british := rfl

end LocaleFormat

end Cadence
