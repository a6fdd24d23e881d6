import Cadence.Text.Basic

/-!
# Halves of pairs

Characters beyond the basic plane are written as pairs of 16-bit units, and a writer may give one half
of a pair alone. That is no character, so a text holds a private one in its place: `ofHalf` is the
character for a half, and `half?_ofHalf` says that the half is found again. A text with a half in it has
no octets.
-/

namespace Cadence.Text

/-- The unit is the first half of a pair. -/
def isHighHalf (unit : Nat) : Bool := 0xD800 ≤ unit && unit < 0xDC00

/-- The unit is the second half of a pair. -/
def isLowHalf (unit : Nat) : Bool := 0xDC00 ≤ unit && unit < 0xE000

/-- How far the private characters stand behind the units. -/
def halfDistance : Nat := 0xF0000

/-- The character that a half stands for by itself. -/
def ofHalf (unit : Nat) : Char := Char.ofNat (unit + halfDistance)

/-- The half that a character holds the place of. -/
def half? (c : Char) : Option Nat :=
  if 0xFD800 ≤ c.toNat ∧ c.toNat < 0xFE000 then some (c.toNat - halfDistance) else none

/-- There is no half of a pair in the text. -/
def isWhole (s : Text) : Bool := s.all fun c => (half? c).isNone

theorem half?_ofHalf {unit : Nat} (low : 0xD800 ≤ unit) (high : unit < 0xE000) :
    half? (ofHalf unit) = some unit := by
  have valid : (unit + halfDistance).isValidChar := by right; simp only [halfDistance]; omega
  have code : (ofHalf unit).toNat = unit + halfDistance := by
    rw [ofHalf, Char.ofNat, dif_pos valid]
    rfl
  simp only [half?, code, halfDistance]
  rw [if_pos (by omega)]
  simp

end Cadence.Text
