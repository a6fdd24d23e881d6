import Cadence.Proofs.Calendar.Numbering

/-!
# Intervals of days

The days of the calendar whose numbers lie in an interval, in order. Adjoining intervals make one.
-/

namespace Cadence.Day

variable {a b c n : Nat} {d e : Day}

/-- The days with a number from `a` on and before `b`, in order. -/
def between (a b : Nat) : List Day := (List.range' a (b - a)).filterMap ofOrdinal?

/-- The days with a number from `a` on, in order. -/
def upFrom (a : Nat) : List Day := between a (lastOrdinal + 1)

theorem mem_between : d ∈ between a b ↔ a ≤ d.ordinal ∧ d.ordinal < b := by
  simp only [between, List.mem_filterMap, List.mem_range'_1, ofOrdinal?_eq_some]
  constructor
  · rintro ⟨n, ⟨h₁, h₂⟩, rfl⟩
    omega
  · intro h
    exact ⟨d.ordinal, by omega, rfl⟩

theorem mem_upFrom : d ∈ upFrom a ↔ a ≤ d.ordinal := by
  have := d.ordinal_le_last
  rw [upFrom, mem_between]
  omega

theorem between_append (hab : a ≤ b) (hbc : b ≤ c) : between a b ++ between b c = between a c := by
  unfold between
  rw [← List.filterMap_append, show c - a = (b - a) + (c - b) by omega, ← List.range'_append,
    show a + 1 * (b - a) = b by omega]

theorem between_append_upFrom (hab : a ≤ b) (hb : b ≤ lastOrdinal + 1) : between a b ++ upFrom b = upFrom a :=
  between_append hab hb

theorem between_eq_nil (h : b ≤ a) : between a b = [] := by
  rw [between, Nat.sub_eq_zero_of_le h]
  rfl

/-- The first day of an interval. -/
theorem between_cons (h : d.ordinal < b) : between d.ordinal b = d :: between (d.ordinal + 1) b := by
  unfold between
  rw [show b - d.ordinal = (b - (d.ordinal + 1)) + 1 by omega, List.range'_succ,
    List.filterMap_cons_some (ofOrdinal?_ordinal d)]

theorem upFrom_cons (d : Day) : upFrom d.ordinal = d :: upFrom (d.ordinal + 1) := by
  have := d.ordinal_le_last
  exact between_cons (by omega)

/-- The days of an interval are in order. -/
theorem pairwise_between (a b : Nat) : (between a b).Pairwise (fun d e => d.ordinal < e.ordinal) := by
  unfold between
  rw [List.pairwise_filterMap]
  refine List.Pairwise.imp ?_ List.pairwise_lt_range'
  intro m n hmn d hd e he
  rw [ofOrdinal?_eq_some] at hd he
  omega

theorem pairwise_upFrom (a : Nat) : (upFrom a).Pairwise (fun d e => d.ordinal < e.ordinal) := pairwise_between a _

end Cadence.Day
