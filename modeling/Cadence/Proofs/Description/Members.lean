import Cadence.Host.Load
import Cadence.Proofs.Failure

/-!
# The members of an object

The fields that an object of a host stands for, each read from the member with its name or standing at its default.
-/

namespace Cadence.Description

variable {c : Setting} {members : List (Text × Datum)} {d : Description}

/-- The start that an object gives, or the current day. -/
def startIn (c : Setting) (members : List (Text × Datum)) : Result Stamp :=
  let given := Datum.lookup "startDate" members
  if given.truthy then c.stamp given else .ok c.dayStart

/-- The end that an object gives, if it gives one. -/
def finishIn (c : Setting) (members : List (Text × Datum)) : Result (Option Stamp) :=
  let given := Datum.lookup "endDate" members
  if given.truthy then (c.stamp given).map some else .ok none

/-- The interval that an object gives, or one. -/
def everyIn (members : List (Text × Datum)) : Except Fault Int :=
  let given := Datum.lookup "every" members
  if given.truthy then given.toInt else .ok 1

/-- There is an end in use: the object says so, or says nothing and gives one. -/
def wantsEnd (members : List (Text × Datum)) (finish : Option Stamp) : Bool :=
  if Datum.hasMember "hasEndDate" members then (Datum.lookup "hasEndDate" members).truthy else finish.isSome

/-- The members of an object stand for the fields of a description. -/
structure IsIn (c : Setting) (members : List (Text × Datum)) (d : Description) : Prop where
  start : startIn c members = .ok d.start
  finish : finishIn c members = .ok d.finish
  every : ∃ n, everyIn members = .ok n ∧ d.every = max 1 n
  pattern : choiceOf Pattern.ofToken? .day (Datum.lookup "pattern" members) = .ok d.pattern
  selectedDays : weekdaysOf (Datum.lookup "selectedDays" members) = .ok d.selectedDays
  monthlyOption : choiceOf MonthlyOption.ofToken? .day (Datum.lookup "monthlyOption" members) = .ok d.monthlyOption
  yearlyOption : choiceOf YearlyOption.ofToken? .date (Datum.lookup "yearlyOption" members) = .ok d.yearlyOption
  hasEnd : d.hasEnd = (wantsEnd members d.finish && d.finish.isSome)
  rule : d.rule = (Datum.lookup "rrule" members).orNull
  sentence : d.sentence = (Datum.lookup "description" members).orNull

theorem ofMembers_eq (c : Setting) (members : List (Text × Datum)) : ofMembers c members = (do
    let start ← startIn c members
    let finish ← finishIn c members
    let every ← liftFault (everyIn members)
    let pattern ← choiceOf Pattern.ofToken? .day (Datum.lookup "pattern" members)
    let selectedDays ← weekdaysOf (Datum.lookup "selectedDays" members)
    let monthlyOption ← choiceOf MonthlyOption.ofToken? .day (Datum.lookup "monthlyOption" members)
    let yearlyOption ← choiceOf YearlyOption.ofToken? .date (Datum.lookup "yearlyOption" members)
    return {
      start, finish, pattern, selectedDays, monthlyOption, yearlyOption
      every := max 1 every
      hasEnd := wantsEnd members finish && finish.isSome
      rule := (Datum.lookup "rrule" members).orNull
      sentence := (Datum.lookup "description" members).orNull }) := by
  unfold ofMembers startIn finishIn
  dsimp only
  split <;> split <;> rfl

/-- The fields that the members of an object are read to are those that they stand for. -/
theorem ofMembers_eq_ok : ofMembers c members = .ok d ↔ IsIn c members d := by
  rw [ofMembers_eq]
  constructor
  · intro read
    obtain ⟨start, started, read⟩ := bind_eq_ok.mp read
    obtain ⟨finish, ended, read⟩ := bind_eq_ok.mp read
    obtain ⟨every, counted, read⟩ := bind_eq_ok.mp read
    obtain ⟨pattern, chosen, read⟩ := bind_eq_ok.mp read
    obtain ⟨selectedDays, listed, read⟩ := bind_eq_ok.mp read
    obtain ⟨monthlyOption, monthly, read⟩ := bind_eq_ok.mp read
    obtain ⟨yearlyOption, yearly, read⟩ := bind_eq_ok.mp read
    cases read
    exact ⟨started, ended, ⟨every, liftFault_eq_ok.mp counted, rfl⟩, chosen, listed, monthly, yearly, rfl, rfl, rfl⟩
  · rintro ⟨started, ended, ⟨every, counted, positive⟩, chosen, listed, monthly, yearly, hasEnd, rule, sentence⟩
    simp only [started, ended, counted, chosen, listed, monthly, yearly, liftFault_ok, bind, Except.bind, ← positive, ← hasEnd,
      ← rule, ← sentence]
    rfl

end Cadence.Description
