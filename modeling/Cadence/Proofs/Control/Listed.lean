import Cadence.Control
import Cadence.Proofs.Description.Fields
import Cadence.Proofs.Rule.Queries

/-!
# Occurrences that a control lists

A control lists the first occurrences of a rule as the query does from the start that it reads in its locale: no more than it
is asked for, and a shorter list begins a longer one. Asked for none, it lists as many as a preview shows.
-/

namespace Cadence

namespace Control

variable {k : Control} {c : Setting} {rule start anchor : Datum}

theorem listOccurrences_eq (read : k.anchor c start = .ok anchor) {n : Int} (counts : n ≠ 0) :
    k.listOccurrences c rule (.int n) start = occurrences c rule (.int n) anchor := by
  have given : (Datum.int n).truthy = true := decide_eq_true counts
  rw [listOccurrences, withAnchor, read, given]
  rfl

/-- Asked for a number of occurrences other than zero, from a start that it can read or from none, a control lists those of
    the query from that start. It lists no more than it is asked for, and begins a longer list of a rule that lasts with a
    shorter one. -/
theorem listOccurrences_respects (k : Control) (c : Setting) (rule : Datum) (read : k.anchor c start = .ok anchor) :
    (∀ n : Int, n ≠ 0 → k.listOccurrences c rule (.int n) start = occurrences c rule (.int n) anchor) ∧
    (∀ (n : Int) found, n ≠ 0 → k.listOccurrences c rule (.int n) start = .ok found → (found.length : Int) ≤ max n 0) ∧
    ∀ (m n : Int) found, m ≠ 0 → n ≠ 0 → m ≤ n → n ≤ maxLimit →
      (∀ recurrence, recurrenceOf c.plain rule anchor = .ok recurrence → recurrence.trace.Lasts n.toNat) →
      k.listOccurrences c rule (.int n) start = .ok found →
      ∃ first, k.listOccurrences c rule (.int m) start = .ok first ∧ first <+: found := by
  refine ⟨fun n counts => listOccurrences_eq read counts, fun n found counts listed => ?_,
    fun m n found counts counts' le countable lasts listed => ?_⟩
  · rw [listOccurrences_eq read counts] at listed
    exact length_occurrences_le listed
  · rw [listOccurrences_eq read counts'] at listed
    rw [listOccurrences_eq read counts]
    exact occurrences_prefix le countable lasts listed

open Description (newYear2025)

/-- A rule for three days. -/
def threeDays : Text := "FREQ=DAILY;COUNT=3".toList

/-- The first of June as it is typed in British, and as it is read. -/
def typedJune : Datum := .text "01/06/2025".toList

def firstOfJune : Datum := .stamp (.ofDay ⟨2025, 6, 1, by decide⟩)

theorem ends_threeDays : (recurrenceOf newYear2025.plain (.text threeDays) firstOfJune).toOption.map (·.trace.toList.2) = some none := by
  decide +kernel

theorem listed_threeDays : ((ofSettings {}).listOccurrences newYear2025 (.text threeDays) (.int 7) typedJune).toOption.map List.length =
    some 3 := by
  decide +kernel

/-- Seven days are asked for of a rule for three. -/
theorem listOccurrences_respects_threeDays : (ofSettings {}).anchor newYear2025 typedJune = .ok firstOfJune ∧
    ∃ found, (ofSettings {}).listOccurrences newYear2025 (.text threeDays) (.int 7) typedJune = .ok found ∧
      occurrences newYear2025 (.text threeDays) (.int 7) firstOfJune = .ok found ∧ (found.length : Int) ≤ max 7 0 ∧
      ∃ first, (ofSettings {}).listOccurrences newYear2025 (.text threeDays) (.int 2) typedJune = .ok first ∧ first <+: found := by
  have read : (ofSettings {}).anchor newYear2025 typedJune = .ok firstOfJune := rfl
  obtain ⟨found, listed, -⟩ := Option.map_eq_some_iff.mp listed_threeDays
  have listed := toOption_eq_some listed
  obtain ⟨same, within, begins⟩ := listOccurrences_respects (ofSettings {}) newYear2025 (.text threeDays) read
  have lasts : ∀ recurrence, recurrenceOf newYear2025.plain (.text threeDays) firstOfJune = .ok recurrence →
      recurrence.trace.Lasts (7 : Int).toNat := fun recurrence evaluated => by
    have ends := ends_threeDays
    rw [evaluated] at ends
    exact .inr (.inl (Option.some.inj ends))
  exact ⟨read, found, listed, (same 7 (by decide)).symm.trans listed, within 7 found (by decide) listed,
    begins 2 7 found (by decide) (by decide) (by decide) (by decide) lasts listed⟩

/-- Asked for no occurrences, a control lists as many as a preview shows. -/
theorem listOccurrences_none : (ofSettings {}).anchor newYear2025 typedJune = .ok firstOfJune ∧
    occurrences newYear2025 (.text "FREQ=DAILY".toList) (.int 0) firstOfJune = .ok [] ∧
    ((ofSettings {}).listOccurrences newYear2025 (.text "FREQ=DAILY".toList) (.int 0) typedJune).toOption.map List.length = some 5 :=
  ⟨rfl, rfl, by decide +kernel⟩

end Control

end Cadence
