import Cadence.Proofs.Text.Cutting

/-!
# Capitals are their own capitals

No capital has another capital, so a text in capitals stays as it is when it is made capitals again. The
codes that have a capital form progressions, and so do the codes of the capitals; that none of the latter
meets any of the former is seen from their ends, or from one being even where the other is odd.
-/

namespace Cadence.Text

/-! ### Progressions of codes -/

/-- The code is one of those from `first` to `last` in steps of `step`. -/
def InSteps (first last step n : Nat) : Prop := first ≤ n ∧ n ≤ last ∧ (n - first) % step = 0

theorem inSteps_self (n : Nat) : InSteps n n 1 n := ⟨Nat.le_refl n, Nat.le_refl n, by simp⟩

/-- Two progressions with no code in common, as far as their ends and their parity show. -/
def apart (first last step first' last' step' : Nat) : Bool :=
  Nat.blt last first' || (Nat.blt last' first ||
    ((Nat.beq step 2 || Nat.beq first last) && (Nat.beq step' 2 && ! Nat.beq (first % 2) (first' % 2))))

theorem not_inSteps_of_apart {first last step first' last' step' n : Nat}
    (h : apart first last step first' last' step' = true) (hn : InSteps first last step n) :
    ¬ InSteps first' last' step' n := by
  obtain ⟨lower, upper, steps⟩ := hn
  rintro ⟨lower', upper', steps'⟩
  simp only [apart, Nat.blt_eq, Nat.beq_eq, Bool.or_eq_true, Bool.and_eq_true, Bool.not_eq_true',
    ← Bool.not_eq_true] at h
  rcases h with h | h | ⟨rfl | rfl, rfl, h⟩ <;> omega

/-- The codes of a progression are codes of characters past the digits and marks of the plain alphabet, and
    none of them has a capital. -/
def areCapitals (first last step : Nat) : Bool :=
  Nat.ble 65 first && (Nat.blt last 97 || Nat.blt 122 first) &&
    (Nat.blt last 55296 || (Nat.blt 57343 first && Nat.blt last 1114112)) &&
    longCapitals.all (fun entry => apart first last step entry.1 entry.1 1) &&
    capitalRuns.all fun r => apart first last step r.first r.last r.step

theorem areCapitals_plain : areCapitals 65 90 1 = true := by decide +kernel

theorem areCapitals_runs :
    (capitalRuns.all fun r => areCapitals (r.first + r.shift).toNat (r.last + r.shift).toNat r.step) = true := by
  decide +kernel

theorem areCapitals_long : (longCapitals.all fun entry => entry.2.all fun n => areCapitals n n 1) = true := by
  decide +kernel

/-! ### Capitals -/

/-- The code of a character that is written for a capital. -/
def IsCapital (n : Nat) : Prop := ∃ first last step, areCapitals first last step = true ∧ InSteps first last step n

section Code
variable {n : Nat} (h : IsCapital n)
include h

theorem IsCapital.le : 65 ≤ n := by
  obtain ⟨first, last, step, all, lower, -⟩ := h
  simp only [areCapitals, Bool.and_eq_true, Nat.ble_eq] at all
  exact Nat.le_trans all.1.1.1.1 lower

theorem IsCapital.toNat_ofNat : (Char.ofNat n).toNat = n := by
  obtain ⟨first, last, step, all, lower, upper, -⟩ := h
  simp only [areCapitals, Bool.and_eq_true, Bool.or_eq_true, Nat.blt_eq] at all
  have valid : n.isValidChar := by
    rcases all.1.1.2 with low | ⟨high, last⟩
    · exact .inl (by omega)
    · exact .inr ⟨by omega, by omega⟩
  rw [Char.ofNat, dif_pos valid]
  rfl

theorem IsCapital.capital_eq : capital (Char.ofNat n) = [Char.ofNat n] := by
  have code := h.toNat_ofNat
  obtain ⟨first, last, step, all, inside⟩ := h
  have lower := inside.1
  have upper := inside.2.1
  simp only [areCapitals, Bool.and_eq_true, Bool.or_eq_true, Nat.blt_eq, List.all_eq_true] at all
  obtain ⟨⟨⟨⟨-, plain⟩, -⟩, long⟩, runs⟩ := all
  unfold capital
  rw [code]
  split
  · have large : ¬ ('a' ≤ Char.ofNat n ∧ Char.ofNat n ≤ 'z') := by
      rintro ⟨low, high⟩
      have low : 97 ≤ (Char.ofNat n).toNat := low
      have high : (Char.ofNat n).toNat ≤ 122 := high
      omega
    rw [if_neg large]
  · have noLong : longCapitals.find? (·.1 = n) = none := by
      refine List.find?_eq_none.mpr fun entry member same => ?_
      obtain rfl : entry.1 = n := by simpa using same
      exact not_inSteps_of_apart (long entry member) inside (inSteps_self _)
    have noRun : (capitalRuns.find? fun r => r.first ≤ n && n ≤ r.last && (n - r.first) % r.step = 0) = none := by
      refine List.find?_eq_none.mpr fun r member found => ?_
      simp only [Bool.and_eq_true, decide_eq_true_eq] at found
      exact not_inSteps_of_apart (runs r member) inside ⟨found.1.1, found.1.2, found.2⟩
    rw [noLong, noRun]

end Code

/-- A character has no capital but itself, or its capital is written with codes of capitals. -/
theorem mem_capital {c d : Char} (h : d ∈ capital c) :
    d = c ∧ capital c = [c] ∨ ∃ n, IsCapital n ∧ d = Char.ofNat n := by
  unfold capital at h ⊢
  split at h
  · rename_i plain
    rw [if_pos plain]
    split at h
    · rename_i small
      have low : 97 ≤ c.toNat := small.1
      have high : c.toNat ≤ 122 := small.2
      exact .inr ⟨c.toNat - 32, ⟨65, 90, 1, areCapitals_plain, by omega, by omega, Nat.mod_one _⟩,
        List.mem_singleton.mp h⟩
    · rename_i large
      exact .inl ⟨List.mem_singleton.mp h, if_neg large⟩
  · rename_i far
    rw [if_neg far]
    split at h
    · rename_i codes found
      obtain ⟨n, member, rfl⟩ := List.mem_map.mp h
      have all := List.all_eq_true.mp areCapitals_long _ (List.mem_of_find?_eq_some found)
      exact .inr ⟨n, ⟨n, n, 1, List.all_eq_true.mp all n member, inSteps_self n⟩, rfl⟩
    · split at h
      · rename_i r found
        have member := List.mem_of_find?_eq_some found
        have all := List.all_eq_true.mp areCapitals_runs r member
        have low : 65 ≤ ((r.first : Int) + r.shift).toNat := by
          simp only [areCapitals, Bool.and_eq_true, Nat.ble_eq] at all
          exact all.1.1.1.1
        have inside := List.find?_some found
        simp only [Bool.and_eq_true, decide_eq_true_eq] at inside
        refine .inr ⟨_, ⟨_, _, r.step, all, by omega, by omega, ?_⟩, List.mem_singleton.mp h⟩
        rw [← inside.2]
        congr 1
        omega
      · exact .inl ⟨List.mem_singleton.mp h, rfl⟩

/-- What is written in capitals has no other capitals. -/
theorem upper_upper (s : Text) : Upper (upper s) := by
  intro d hd
  obtain ⟨c, -, hc⟩ := List.mem_flatMap.mp hd
  rcases mem_capital hc with ⟨rfl, own⟩ | ⟨n, isCapital, rfl⟩
  · exact own
  · exact isCapital.capital_eq

/-- Capitals bring in no digits and none of the marks that come before the letters. -/
theorem mem_of_mem_upper {s : Text} {c : Char} (h : c ∈ upper s) (mark : c.toNat < 65) : c ∈ s := by
  obtain ⟨d, member, hd⟩ := List.mem_flatMap.mp h
  rcases mem_capital hd with ⟨rfl, -⟩ | ⟨n, isCapital, rfl⟩
  · exact member
  · rw [isCapital.toNat_ofNat] at mark
    exact absurd isCapital.le (by omega)

end Cadence.Text
