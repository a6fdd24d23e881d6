import Cadence.Form

/-!
# Edits of hosts

The edits of a form when what is typed or chosen is a value that a host gives. A value that an edit
does not take leaves the form as it is; an interval that is no number becomes one.
-/

namespace Cadence.Host

/-- Another start. -/
def setStart (f : Form) (today : Stamp) : Datum → Form.Outcome Unit
  | .text s => f.setStart today s
  | _ => (f, .error (.fault .member))

/-- Another end. -/
def setFinish (f : Form) (today : Stamp) : Datum → Form.Outcome Unit
  | .text s => f.setFinish today s
  | _ => (f, .error (.fault .member))

/-- A choice by its token. -/
def choose {α : Type} (f : Form) (ofToken? : Text → Option α) (value : Datum) (edit : α → Form.Outcome Unit) :
    Form.Outcome Unit :=
  let chosen? : Option α := match value with
    | .text s => ofToken? s
    | _ => none
  match chosen? with
  | some chosen => edit chosen
  | none => (f, .error (.fault .value))

/-- Another pattern. -/
def setPattern (f : Form) (today : Stamp) (value : Datum) : Form.Outcome Unit :=
  choose f Pattern.ofToken? value (f.setPattern today)

/-- Another interval. -/
def setEvery (f : Form) (today : Stamp) (value : Datum) : Form.Outcome Unit :=
  match value.toInt with
  | .ok n => f.setEvery today n
  | .error .value | .error .kind => f.setEvery today 1
  | .error e => (f, .error (.fault e))

/-- A weekday more or less. -/
def toggleDay (f : Form) (today : Stamp) (value : Datum) : Form.Outcome Unit :=
  match weekdayOf value with
  | .ok day => f.toggleDay today day
  | .error e => (f, .error e)

/-- Another monthly option. -/
def setMonthlyOption (f : Form) (today : Stamp) (value : Datum) : Form.Outcome Unit :=
  choose f MonthlyOption.ofToken? value (f.setMonthlyOption today)

/-- Another yearly option. -/
def setYearlyOption (f : Form) (today : Stamp) (value : Datum) : Form.Outcome Unit :=
  choose f YearlyOption.ofToken? value (f.setYearlyOption today)

end Cadence.Host
