import Cadence.Proofs.Failure
import Cadence.Proofs.Text.Decimals
import Cadence.Rule.Query

/-!
# Rules as they are written

`RuleText.written` is the rule that a text writes before its parts are checked. A check refuses it for a stated
reason, unless its interval is a row of digits that is no number: one of the digits has no place value, or there are
more of them than are read.
-/

namespace Cadence

namespace Text

/-- A row of decimal digits is a number, if there are not more of them than are read. -/
theorem exists_readInt? {s : Text} (nonempty : s ≠ []) (decimals : s.all isDecimal = true) (few : s.length ≤ maxDigits) :
    ∃ n, readInt? s = some n := by
  have decimals : Decimals s := List.all_eq_true.mp decimals
  refine ⟨value s, ?_⟩
  unfold readInt?
  rw [trimNumber_eq_self decimals.noBlank]
  split
  · exact absurd List.mem_cons_self (decimals.not_mem (c := '-') (by decide))
  · exact absurd List.mem_cons_self (decimals.not_mem (c := '+') (by decide))
  · rw [decimals.readNat?_eq nonempty few]
    rfl

end Text

open Text

namespace RuleText

variable {r : RuleText} {s : Text} {f : Fault} {e : Failure}

/-- An interval written in digits of any kind is written in decimal digits, and not in more of them than are read. -/
def IsCounted (r : RuleText) : Prop :=
  ∀ value, r.get? .interval = some value → value.all isDigit = true → value.all isDecimal = true ∧ value.length ≤ maxDigits

theorem checkInterval_ne_fault (counted : r.IsCounted) : r.checkInterval ≠ .error (.inr f) := by
  intro failed
  unfold checkInterval at failed
  split at failed
  · cases failed
  · rename_i value got
    split at failed
    · cases failed
    · rename_i digits
      rw [not_or, Decidable.not_not] at digits
      obtain ⟨decimals, few⟩ := counted value got digits.2
      obtain ⟨n, number⟩ := exists_readInt? (fun none => digits.1 (by rw [none]; rfl)) decimals few
      rw [number] at failed
      dsimp only at failed
      split at failed <;> cases failed

theorem mapError_inl_ne {α : Type} {x : Except RuleFlaw α} : x.mapError Sum.inl ≠ .error (Sum.inr f) := by
  cases x <;> exact nofun

/-- The only fault of a rule that is checked is that of its interval. -/
theorem checkInterval_of_check (failed : r.check = .error (.inr f)) : r.checkInterval = .error (.inr f) := by
  unfold check at failed
  split at failed
  · cases failed
  · rcases bind_eq_error.mp failed with interval | ⟨_, -, failed⟩
    · exact interval
    · rcases bind_eq_error.mp failed with failed | ⟨_, -, failed⟩
      · exact absurd failed mapError_inl_ne
      · rcases bind_eq_error.mp failed with failed | ⟨_, -, failed⟩
        · exact absurd failed mapError_inl_ne
        · rcases bind_eq_error.mp failed with failed | ⟨_, -, failed⟩ <;> exact absurd failed mapError_inl_ne

/-- A check refuses a rule for a stated reason, if its interval is counted in decimal digits. -/
theorem check_ne_fault (counted : r.IsCounted) : r.check ≠ .error (.inr f) := fun failed =>
  checkInterval_ne_fault counted (checkInterval_of_check failed)

/-- A rule whose interval is no number is a fault of a value. -/
theorem value_of_check (failed : r.check = .error (.inr f)) : f = .value := by
  have interval := checkInterval_of_check failed
  unfold checkInterval at interval
  split at interval
  · cases interval
  · split at interval
    · cases interval
    · split at interval
      · cases interval
        rfl
      · split at interval <;> cases interval

/-- The rule that a text writes, its parts being unchecked. -/
def written (s : Text) : Except RuleFlaw RuleText := do
  if (trim s).isEmpty then throw .empty
  let lines ← (Text.lines (trim s)).foldlM Lines.add {}
  match lines.body with
  | none => throw .missingRule
  | some body => return { parts := ← partsOf body, start := lines.start }

/-- A text is read by checking the rule that it writes. -/
theorem parse_eq (s : Text) : parse s = ((written s).mapError .inl >>= fun r => r.check.map fun _ => r) := by
  unfold parse written
  cases (trim s).isEmpty with
  | true => rfl
  | false =>
    cases (Text.lines (trim s)).foldlM Lines.add {} with
    | error flaw => rfl
    | ok lines =>
      obtain ⟨body, start⟩ := lines
      cases body with
      | none => rfl
      | some body =>
        show ((partsOf body).mapError .inl >>= fun parts => RuleText.check { parts, start } >>= fun _ => pure { parts, start } :
            Except (RuleFlaw ⊕ Fault) RuleText) =
          ((partsOf body >>= fun parts => pure { parts, start } : Except RuleFlaw RuleText).mapError .inl >>=
            fun r : RuleText => r.check.map fun _ => r)
        have checked (parts : List (RuleKey × Text)) : (RuleText.check { parts, start } >>= fun _ => pure { parts, start }) =
            (RuleText.check { parts, start }).map fun _ => ({ parts, start } : RuleText) := by
          cases RuleText.check { parts, start } <;> rfl
        cases partsOf body with
        | error flaw => rfl
        | ok parts => exact checked parts

/-- A text that is no rule is refused with a failure about a value. -/
theorem isValue_of_read {rule : Datum} (refused : read rule = .error e) : e.isValue = true := by
  unfold read at refused
  split at refused
  · split at refused
    · cases refused
    · cases refused
      rfl
    · rename_i parsed
      cases refused
      rw [parse_eq] at parsed
      rcases bind_eq_error.mp parsed with failed | ⟨r, -, failed⟩
      · exact absurd failed mapError_inl_ne
      · rw [value_of_check (map_eq_error.mp failed)]
        rfl
  · cases refused
    rfl

theorem written_of_read (accepted : read (.text s) = .ok r) : written s = .ok r := by
  unfold read at accepted
  dsimp only at accepted
  split at accepted
  · rename_i parsed
    obtain rfl := Except.ok.inj accepted
    rw [parse_eq] at parsed
    obtain ⟨r', same, checked⟩ := bind_eq_ok.mp parsed
    obtain ⟨-, -, rfl⟩ := map_eq_ok.mp checked
    exact mapError_eq_ok.mp same
  · cases accepted
  · cases accepted

/-- A text whose interval is counted in decimal digits is read as a rule, or refused for a stated reason. -/
theorem isRule_of_read (counted : ∀ r, written s = .ok r → r.IsCounted) (failed : read (.text s) = .error e) : e.isRule = true := by
  unfold read at failed
  dsimp only at failed
  split at failed
  · cases failed
  · cases failed
    rfl
  · rename_i f parsed
    exfalso
    rw [parse_eq] at parsed
    cases wrote : written s with
    | error flaw =>
      rw [wrote] at parsed
      cases parsed
    | ok r =>
      rw [wrote] at parsed
      exact check_ne_fault (counted r wrote) (map_eq_error.mp parsed)

end RuleText

end Cadence
