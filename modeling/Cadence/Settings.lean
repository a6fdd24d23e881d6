import Cadence.Document.Event

/-!
# Settings

What can be set from outside: the locale, how many months a new recurrence lasts, how many occurrences
a preview shows, the product named in documents, and how much is logged. A host may set all but the
last to any value; what is no locale or no number fails where it is used. A variable that is empty or
missing leaves its setting as it is.
-/

namespace Cadence

/-- The settings. -/
structure Settings where
  locale : Datum := .text "en-GB"
  endMonths : Datum := .int 3
  previewCount : Datum := .int 5
  product : Datum := .text defaultProduct
  logLevel : Text := "INFO"

namespace Settings

/-- The variables of an environment that are set. -/
abbrev Environment := List (Text × Text)

/-- The value of a variable that is set and not empty. -/
def get? (env : Environment) (name : Text) : Option Text :=
  (env.find? (·.1 = name)).bind fun entry => if entry.2.isEmpty then none else some entry.2

/-- A text from a variable. -/
def text (env : Environment) (name : Text) (default : Datum) : Datum :=
  match get? env name with
  | none => default
  | some value => .text value

/-- A whole number from a variable. -/
def integer (env : Environment) (name : Text) (default : Datum) : Result Datum :=
  match get? env name with
  | none => .ok default
  | some raw =>
    match Text.readInt? raw with
    | some n => .ok (.int n)
    | none => .error (.settingNotInteger name raw)

/-- The settings that an environment makes. -/
def ofEnvironment (env : Environment) : Result Settings := do
  let standard : Settings := {}
  let endMonths ← integer env "RECURRENCE_DEFAULT_END_MONTHS" standard.endMonths
  let previewCount ← integer env "RECURRENCE_PREVIEW_COUNT" standard.previewCount
  return {
    locale := text env "RECURRENCE_LOCALE" standard.locale
    endMonths, previewCount
    product := text env "RECURRENCE_PRODID" standard.product
    logLevel := (get? env "LOG_LEVEL").getD standard.logLevel }

end Settings

end Cadence
