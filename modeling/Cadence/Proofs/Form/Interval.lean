import Cadence.Proofs.Form.Choices

/-!
# The interval of a form

The interval that a form holds is a positive number, and so is the one that it goes back to. A form is opened with
such an interval, and no operation puts another one in.
-/

namespace Cadence

/-- The interval that the fields of a form hold is a positive number. -/
def FormValues.IsCounted (v : FormValues) : Prop := ∃ n, v.every = .int n ∧ 1 ≤ n

namespace Form

/-- The intervals that a form holds and goes back to are positive numbers. -/
structure IsCounted (f : Form) : Prop where
  values : f.values.IsCounted
  opened : f.opened.IsCounted

variable {f : Form}

/-- The interval is a positive number. -/
def Counts (c : Choices) : Prop := ∃ n, c.every = .int n ∧ 1 ≤ n

theorem isKept_counts : Choices.IsKept Counts where
  fresh := ⟨1, rfl, Int.le_refl 1⟩
  described d positive := ⟨d.every, rfl, positive⟩
  pattern _ _ counts := counts
  every _ n positive _ := ⟨n, rfl, positive⟩
  selectedDays _ _ counts := counts
  monthlyOption _ _ counts := counts
  yearlyOption _ _ counts := counts

theorem isCounted_iff : f.IsCounted ↔ f.Meets Counts := ⟨fun ⟨values, opened⟩ => ⟨values, opened⟩, fun ⟨values, opened⟩ => ⟨values, opened⟩⟩

/-- No operation leads to an interval below one. -/
theorem IsCounted.after (counted : f.IsCounted) (op : Operation) (today : Stamp) : (op.after f today).IsCounted :=
  isCounted_iff.mpr ((isCounted_iff.mp counted).after isKept_counts op today)

theorem isCounted_of_open {c : Setting} {settings : Settings} {initial : Option Description}
    (positive : ∀ d, initial = some d → 1 ≤ d.every) (opens : open? c settings (initial.map (·.draft)) = .ok f) : f.IsCounted :=
  isCounted_iff.mpr (meets_of_open isKept_counts positive opens)

end Form

end Cadence
