import Cadence.Text.Blank
import Cadence.Text.Case

/-!
# Weekdays

The seven weekdays, Monday first. Each has a token (the label of its button), a symbol (its name in
rule text) and a full name. `Weekday.ofToken?` reads a token as it is spelled, or a symbol, a full
name or the first three letters of a full name in any case.
-/

namespace Cadence

/-- A day of the week. Weeks begin on Monday unless a rule says otherwise. -/
inductive Weekday where
  | monday | tuesday | wednesday | thursday | friday | saturday | sunday
  deriving DecidableEq, Repr, Inhabited

namespace Weekday

/-- The weekdays from Monday to Sunday. -/
def all : List Weekday := [monday, tuesday, wednesday, thursday, friday, saturday, sunday]

/-- The place in the week, Monday's being 0. -/
def index : Weekday → Nat
  | monday => 0 | tuesday => 1 | wednesday => 2 | thursday => 3 | friday => 4 | saturday => 5 | sunday => 6

/-- The weekday at a place in the week, places counted round and round. -/
def ofIndex (n : Nat) : Weekday :=
  match n % 7 with
  | 0 => monday | 1 => tuesday | 2 => wednesday | 3 => thursday | 4 => friday | 5 => saturday | _ => sunday

/-- The label of the weekday's button. -/
def token : Weekday → Text
  | monday => "M" | tuesday => "T" | wednesday => "W" | thursday => "Th" | friday => "F" | saturday => "S"
  | sunday => "Su"

/-- The two letters that name the weekday in rule text. -/
def symbol : Weekday → Text
  | monday => "MO" | tuesday => "TU" | wednesday => "WE" | thursday => "TH" | friday => "FR" | saturday => "SA"
  | sunday => "SU"

/-- The full name of the weekday. -/
def name : Weekday → Text
  | monday => "Monday" | tuesday => "Tuesday" | wednesday => "Wednesday" | thursday => "Thursday"
  | friday => "Friday" | saturday => "Saturday" | sunday => "Sunday"

/-- The weekday that a symbol names. -/
def ofSymbol? (s : Text) : Option Weekday := all.find? (·.symbol = s)

/-- The weekday that a token, symbol or name stands for. Tokens are told apart by their case, since
    `T` and `Th` are tokens and `TH` is a symbol. -/
def ofToken? (s : Text) : Option Weekday :=
  let cleaned := Text.trim s
  match all.find? (·.token = cleaned) with
  | some day => some day
  | none =>
    let plain := Text.lower cleaned
    all.find? fun day =>
      plain = Text.lower day.symbol || plain = Text.lower day.name || plain = (Text.lower day.name).take 3

/-- The given weekdays in week order, each once. -/
def sorted (days : List Weekday) : List Weekday := all.filter days.contains

theorem ofIndex_index (d : Weekday) : ofIndex d.index = d := by cases d <;> rfl

theorem index_ofIndex (n : Nat) : (ofIndex n).index = n % 7 := by
  have h : n % 7 < 7 := Nat.mod_lt _ (by decide)
  unfold ofIndex
  generalize n % 7 = k at h
  match k, h with
  | 0, _ | 1, _ | 2, _ | 3, _ | 4, _ | 5, _ | 6, _ => rfl

theorem mem_sorted {days : List Weekday} {d : Weekday} : d ∈ sorted days ↔ d ∈ days := by
  cases d <;> simp [sorted, all]

theorem ofToken?_token (d : Weekday) : ofToken? d.token = some d := by cases d <;> decide

theorem ofSymbol?_symbol (d : Weekday) : ofSymbol? d.symbol = some d := by cases d <;> decide

end Weekday

end Cadence
