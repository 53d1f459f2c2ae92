import Mathlib.Algebra.Order.Round
import Mathlib.Algebra.Order.Ring.Rat
import Mathlib.Data.Rat.Floor
import Mathlib.Tactic.Linarith

/-!
# LemonMarket.Lib.Number

**Numbers as a program gets them**: finite, infinite, or not a number at all. A finite one
is its exact value. No comparison with what is not a number holds.
-/

namespace Lib

inductive Number
  | finite (q : ℚ)
  | infinite (negative : Bool)
  | nan
  deriving Repr, DecidableEq

namespace Number

/-- The value of a finite number. -/
def finite? : Number → Option ℚ
  | finite q => some q
  | _ => none

/-- `a <= b`. -/
def le : Number → Number → Bool
  | finite a, finite b => a ≤ b
  | infinite negative, finite _ => negative
  | finite _, infinite negative => !negative
  | infinite a, infinite b => a || !b
  | nan, _ => false
  | _, nan => false

/-- `Math.abs`. -/
def abs : Number → Number
  | finite q => finite |q|
  | infinite _ => infinite false
  | nan => nan

/-- `a * b`, exactly. -/
def mul : Number → Number → Number
  | finite a, finite b => finite (a * b)
  | infinite negative, finite b => if b = 0 then nan else infinite (negative ^^ b < 0)
  | finite a, infinite negative => if a = 0 then nan else infinite (negative ^^ a < 0)
  | infinite a, infinite b => infinite (a ^^ b)
  | nan, _ => nan
  | _, nan => nan

instance : Mul Number := ⟨mul⟩

/-- `a + b`, exactly. -/
protected def add : Number → Number → Number
  | finite a, finite b => finite (a + b)
  | infinite negative, finite _ => infinite negative
  | finite _, infinite negative => infinite negative
  | infinite a, infinite b => if a = b then infinite a else nan
  | nan, _ => nan
  | _, nan => nan

instance : Add Number := ⟨Number.add⟩

protected def neg : Number → Number
  | finite q => finite (-q)
  | infinite negative => infinite !negative
  | nan => nan

instance : Neg Number := ⟨Number.neg⟩
instance : Sub Number := ⟨fun a b => a + -b⟩

/-- `a / b`, exactly, where zero is taken for a positive one. -/
protected def div : Number → Number → Number
  | finite a, finite b =>
      if b = 0 then (if a = 0 then nan else infinite (a < 0)) else finite (a / b)
  | infinite negative, finite b => infinite (negative ^^ b < 0)
  | finite _, infinite _ => finite 0
  | infinite _, infinite _ => nan
  | nan, _ => nan
  | _, nan => nan

instance : Div Number := ⟨Number.div⟩

/-- `a < b`. -/
def lt (a b : Number) : Bool := a.le b && !b.le a

/-- `Math.max`. -/
protected def max (a b : Number) : Number :=
  if a = nan ∨ b = nan then nan else if a.le b then b else a

/-- `n || 0`. -/
def orZero : Number → Number
  | nan => finite 0
  | n => n

/-- `BigInt(Math.round(n))`, which throws for what is not finite. -/
def toBigInt : Number → Option Int
  | finite q => some (round q)
  | _ => none

@[simp] theorem le_finite {a b : ℚ} : le (finite a) (finite b) = true ↔ a ≤ b :=
  decide_eq_true_iff

@[simp] theorem lt_finite {a b : ℚ} : lt (finite a) (finite b) = true ↔ a < b := by
  simp only [lt, Bool.and_eq_true, le_finite, Bool.not_eq_true', ← Bool.not_eq_true, not_le]
  exact and_iff_right_of_imp le_of_lt

/-! ### What operations come to -/

section

variable (a b : ℚ) (c : Number) (negative : Bool)

@[simp] theorem finite_add : finite a + finite b = finite (a + b) := rfl

@[simp] theorem finite_sub : finite a - finite b = finite (a - b) :=
  congrArg finite (sub_eq_add_neg a b).symm

@[simp] theorem finite_mul : finite a * finite b = finite (a * b) := rfl

theorem finite_div (h : b ≠ 0) : finite a / finite b = finite (a / b) := if_neg h

@[simp] theorem abs_finite : (finite a).abs = finite |a| := rfl

@[simp] theorem finite_add_infinite : finite a + infinite negative = infinite negative := rfl

@[simp] theorem finite_sub_infinite : finite a - infinite negative = infinite !negative := rfl

@[simp] theorem infinite_add_finite : infinite negative + finite a = infinite negative := rfl

@[simp] theorem infinite_sub_finite : infinite negative - finite a = infinite negative := rfl

@[simp] theorem infinite_add_self : infinite negative + infinite negative = infinite negative :=
  if_pos rfl

/-- The difference of two infinities of a kind is no number. -/
@[simp] theorem infinite_sub_infinite (negative' : Bool) :
    infinite negative - infinite negative' =
      if negative = !negative' then infinite negative else nan := rfl

theorem infinite_mul_finite (h : 0 < b) : infinite negative * finite b = infinite negative := by
  change (if b = 0 then nan else infinite (negative ^^ b < 0)) = _
  rw [if_neg h.ne', decide_eq_false h.not_gt, Bool.xor_false]

theorem infinite_div_finite (h : 0 < b) : infinite negative / finite b = infinite negative := by
  change infinite (negative ^^ b < 0) = _
  rw [decide_eq_false h.not_gt, Bool.xor_false]

theorem orZero_ne_nan : c.orZero ≠ nan := by cases c <;> simp [orZero]

@[simp] theorem nan_add : nan + c = nan := rfl

@[simp] theorem add_nan : c + nan = nan := by cases c <;> rfl

@[simp] theorem nan_sub : nan - c = nan := rfl

@[simp] theorem sub_nan : c - nan = nan := by cases c <;> rfl

@[simp] theorem nan_mul : nan * c = nan := rfl

@[simp] theorem nan_div : nan / c = nan := rfl

end

theorem le_trans {a b c : Number} (hab : a.le b = true) (hbc : b.le c = true) :
    a.le c = true := by
  cases a <;> cases b <;> cases c <;> grind [le]

theorem finite?_eq_some {n : Number} {q : ℚ} : n.finite? = some q ↔ n = finite q := by
  cases n <;> simp [finite?]

/-- A product is finite if what is multiplied is. -/
theorem finite?_mul (a b : Number) :
    (a.mul b).finite? = a.finite?.bind fun p => b.finite?.map fun q => p * q := by
  cases a <;> cases b <;> simp only [mul]
  case finite.infinite => split_ifs <;> rfl
  case infinite.finite => split_ifs <;> rfl
  all_goals rfl

theorem finite?_abs (a : Number) : a.abs.finite? = a.finite?.map (|·|) := by
  cases a <;> rfl

theorem toBigInt_eq (a : Number) : a.toBigInt = a.finite?.map round := by
  cases a <;> rfl

end Number

theorem round_nonneg {q : ℚ} (h : 0 ≤ q) : 0 ≤ round q := by
  rw [round_eq, Int.le_floor, Int.cast_zero]
  exact add_nonneg h one_half_pos.le

/-- Rounding does not round up exactly when less than half is left. -/
theorem round_eq_floor_iff {q : ℚ} : round q = ⌊q⌋ ↔ Int.fract q < 1 / 2 := by
  have hround : round q = if 2 * Int.fract q < 1 then ⌊q⌋ else ⌈q⌉ := rfl
  rw [hround]
  by_cases h : 2 * Int.fract q < 1
  · exact iff_of_true (if_pos h) (by linarith)
  · have hlt : ⌊q⌋ < ⌈q⌉ := by
      rw [Int.lt_ceil, ← sub_pos, Int.self_sub_floor]
      linarith
    rw [if_neg h]
    exact iff_of_false hlt.ne' (by linarith)

/-- Cut to a whole number, toward zero. -/
def truncate (q : ℚ) : Int := if 0 ≤ q then ⌊q⌋ else ⌈q⌉

theorem truncate_of_nonneg {q : ℚ} (h : 0 ≤ q) : truncate q = ⌊q⌋ := if_pos h

theorem truncate_neg {q : ℚ} (h : 0 ≤ q) : truncate (-q) = -⌊q⌋ := by
  rcases h.eq_or_lt with rfl | hpos
  · rfl
  · rw [truncate, if_neg (by linarith), Int.ceil_neg]

end Lib
