import Mathlib.Tactic.Ring
import Mathlib.Tactic.Linarith

/-!
# LemonMarket.Lib.Division

**Rounded proportions.** `mulDiv x y d` is `x * y / d`, rounded down or up. The
lemmas state which side of the exact rational the result falls on and by how
much, always cleared of the denominator, because that is the form the share
arithmetic composes in.
-/

namespace Lib

/-- The direction a proportion is rounded in. -/
inductive Rounding
  | floor
  | ceil
  deriving Repr, DecidableEq

/-- `x * y / d` rounded as asked. Rounding up adds one exactly when the division
leaves a remainder. -/
def mulDiv (x y d : Nat) : Rounding → Nat
  | .floor => x * y / d
  | .ceil => x * y / d + if 0 < x * y % d then 1 else 0

variable {x y d : Nat}

theorem mulDiv_floor_mul_le : mulDiv x y d .floor * d ≤ x * y :=
  Nat.div_mul_le_self _ _

theorem le_mulDiv_ceil_mul (hd : 0 < d) : x * y ≤ mulDiv x y d .ceil * d := by
  have hdm := Nat.div_add_mod' (x * y) d
  have hlt := Nat.mod_lt (x * y) hd
  simp only [mulDiv]
  split
  next => rw [Nat.add_mul]; omega
  next hr => rw [Nat.add_zero]; omega

/-- A proportion of a part is at most the part when the ratio is at most one. -/
theorem mulDiv_floor_le_left (h : y ≤ d) : mulDiv x y d .floor ≤ x := by
  rcases Nat.eq_zero_or_pos d with rfl | hd
  · simp [mulDiv]
  · exact Nat.div_le_of_le_mul (by rw [Nat.mul_comm d]; exact Nat.mul_le_mul_left _ h)

theorem mulDiv_floor_le_right (h : x ≤ d) : mulDiv x y d .floor ≤ y := by
  rw [mulDiv, Nat.mul_comm]
  exact mulDiv_floor_le_left h

/-- Taking the whole of `x` out of `x` parts of `y` takes all of `y`. -/
theorem mulDiv_floor_self (hx : 0 < x) : mulDiv x y x .floor = y :=
  Nat.mul_div_cancel_left y hx

theorem le_mulDiv_floor_iff {k : Nat} (hd : 0 < d) : k ≤ mulDiv x y d .floor ↔ k * d ≤ x * y :=
  Nat.le_div_iff_mul_le hd

theorem mulDiv_floor_lt_iff {k : Nat} (hd : 0 < d) : mulDiv x y d .floor < k ↔ x * y < k * d :=
  Nat.div_lt_iff_lt_mul hd

end Lib
