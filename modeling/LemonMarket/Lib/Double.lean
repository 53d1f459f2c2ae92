import LemonMarket.Lib.Number
import Mathlib.Algebra.Order.Ring.WithTop
import Mathlib.Data.Int.Log
import Mathlib.Data.Nat.Cast.Order.Field
import Mathlib.Order.Lattice
import Mathlib.Tactic.Positivity

/-!
# LemonMarket.Lib.Double

**Arithmetic in doubles.** A finite double is a whole number of at most 53 bits times a
power of two from `2 ^ -1074` on (`IsDouble`), and an operation gives the double nearest its
exact result, of two as near the one with the even significand (`nearest`). What rounds to
`2 ^ 1024` or beyond is an infinity (`Number.toDouble`).

No double is nearer an exact value than the one it rounds to (`abs_nearest_sub_le`). From
that the rounding keeps the order and leaves doubles as they are, and a quotient of two
naturals of 53 bits keeps its whole part (`floor_nearest_div`).

Zero has no sign here.
-/

namespace Lib

/-! ### The nearest whole number -/

/-- The whole number nearest, and the even one of two. -/
def roundEven (q : ℚ) : Int :=
  if Int.fract q < 1 / 2 then ⌊q⌋
  else if 1 / 2 < Int.fract q then ⌊q⌋ + 1
  else ⌊q⌋ + ⌊q⌋ % 2

variable {p q : ℚ}

theorem abs_roundEven_sub_le_half (q : ℚ) : |(roundEven q : ℚ) - q| ≤ 1 / 2 := by
  have hfract : Int.fract q = q - ⌊q⌋ := rfl
  have hnonneg := Int.fract_nonneg q
  have hlt := Int.fract_lt_one q
  rw [roundEven]
  split
  next h => rw [abs_le]; constructor <;> linarith
  next h =>
    split
    next h' => push_cast; rw [abs_le]; constructor <;> linarith
    next h' =>
      -- exactly a half is left, and either neighbour is a half away
      have heven : (0 : ℚ) ≤ (⌊q⌋ % 2 : Int) ∧ ((⌊q⌋ % 2 : Int) : ℚ) ≤ 1 := by
        constructor <;> norm_cast <;> omega
      obtain ⟨hlow, hhigh⟩ := heven
      push_cast
      rw [abs_le]
      constructor <;> linarith

/-- No whole number is nearer. -/
theorem abs_roundEven_sub_le (q : ℚ) (n : Int) : |(roundEven q : ℚ) - q| ≤ |(n : ℚ) - q| := by
  rcases eq_or_ne n (roundEven q) with rfl | hne
  · exact le_rfl
  · have hstep : (1 : ℚ) ≤ |(n : ℚ) - roundEven q| := by
      exact_mod_cast Int.one_le_abs (sub_ne_zero.mpr hne)
    have hhalf := abs_roundEven_sub_le_half q
    have htriangle := abs_sub_le (n : ℚ) q (roundEven q)
    rw [abs_sub_comm q] at htriangle
    linarith

/-! ### The nearest double -/

namespace Double

/-- The exponent of the doubles about a value: 53 bits, and none below `2 ^ -1074`. -/
def exponent (q : ℚ) : Int := max (Int.log 2 |q| - 52) (-1074)

/-- The distance between the doubles about a value. -/
def ulp (q : ℚ) : ℚ := 2 ^ exponent q

/-- The double nearest a value, were there no greatest one. -/
def nearest (q : ℚ) : ℚ := roundEven (q / ulp q) * ulp q

/-- Where the doubles end. -/
def overflow : ℚ := 2 ^ 1024

/-- A double, were there no greatest one. -/
def IsDouble (q : ℚ) : Prop := ∃ m e : Int, |m| ≤ 2 ^ 53 ∧ -1074 ≤ e ∧ q = m * 2 ^ e

theorem ulp_pos (q : ℚ) : 0 < ulp q := zpow_pos two_pos _

theorem abs_lt_ulp (q : ℚ) : |q| < 2 ^ 53 * ulp q := by
  calc |q| < 2 ^ (Int.log 2 |q| + 1) := Int.lt_zpow_succ_log_self one_lt_two _
    _ ≤ 2 ^ (53 + exponent q) :=
        zpow_le_zpow_right₀ one_le_two (by rw [exponent]; omega)
    _ = 2 ^ 53 * ulp q := by rw [zpow_add₀ two_ne_zero, ulp]; norm_cast

/-- Of 53 bits the first is set, but for subnormals. -/
theorem ulp_le (hq : q ≠ 0) (h : -1074 ≤ Int.log 2 |q| - 52) : 2 ^ 52 * ulp q ≤ |q| := by
  calc (2 : ℚ) ^ 52 * ulp q = 2 ^ Int.log 2 |q| := by
        rw [ulp, exponent, max_eq_left h, ← zpow_natCast, ← zpow_add₀ two_ne_zero]
        congr 1
        omega
    _ ≤ |q| := Int.zpow_log_le_self one_lt_two (abs_pos.mpr hq)

/-- Of the doubles at the distances `ulp`, none is nearer. -/
theorem abs_nearest_sub_le_of_multiple (q : ℚ) (n : Int) :
    |nearest q - q| ≤ |n * ulp q - q| := by
  have hpos := ulp_pos q
  have hscale : ∀ k : Int, |(k : ℚ) * ulp q - q| = |(k : ℚ) - q / ulp q| * ulp q := by
    intro k
    nth_rewrite 3 [← abs_of_pos hpos]
    rw [← abs_mul, sub_mul, div_mul_cancel₀ _ hpos.ne']
  rw [nearest, hscale, hscale]
  exact mul_le_mul_of_nonneg_right (abs_roundEven_sub_le _ _) hpos.le

theorem abs_nearest_sub_le_half (q : ℚ) : |nearest q - q| ≤ ulp q / 2 := by
  have hpos := ulp_pos q
  have hscale : nearest q - q = (roundEven (q / ulp q) - q / ulp q) * ulp q := by
    rw [nearest, sub_mul, div_mul_cancel₀ _ hpos.ne']
  calc |nearest q - q| = |(roundEven (q / ulp q) : ℚ) - q / ulp q| * ulp q := by
        rw [hscale, abs_mul, abs_of_pos hpos]
    _ ≤ 1 / 2 * ulp q := mul_le_mul_of_nonneg_right (abs_roundEven_sub_le_half _) hpos.le
    _ = ulp q / 2 := one_div_mul_eq_div _ _

theorem isDouble_nearest (q : ℚ) : IsDouble (nearest q) := by
  refine ⟨roundEven (q / ulp q), exponent q, ?_, le_max_right _ _, rfl⟩
  have hpos := ulp_pos q
  have hlt : |q / ulp q| < 2 ^ 53 := by
    rw [abs_div, abs_of_pos hpos, div_lt_iff₀ hpos]
    exact abs_lt_ulp q
  have hhalf := abs_roundEven_sub_le_half (q / ulp q)
  have htriangle := abs_sub_abs_le_abs_sub (roundEven (q / ulp q) : ℚ) (q / ulp q)
  have hbound : (|roundEven (q / ulp q)| : ℚ) < 2 ^ 53 + 1 := by linarith
  have hcast : |roundEven (q / ulp q)| < 2 ^ 53 + 1 := by exact_mod_cast hbound
  omega

/-- A double that is not at one of those distances is closer to zero than the value is. -/
theorem IsDouble.multiple_or_lt (hp : IsDouble p) (hq : q ≠ 0) :
    (∃ n : Int, p = n * ulp q) ∨ (|p| ≤ 2 ^ 52 * ulp q ∧ 2 ^ 52 * ulp q ≤ |q|) := by
  obtain ⟨m, e, hm, he, rfl⟩ := hp
  rcases le_or_gt (exponent q) e with hle | hlt
  -- its exponent is as large: a multiple of that distance
  · refine .inl ⟨m * 2 ^ (e - exponent q).toNat, ?_⟩
    have hsplit : (2 : ℚ) ^ e = 2 ^ (e - exponent q).toNat * 2 ^ exponent q := by
      rw [← zpow_natCast, ← zpow_add₀ two_ne_zero]
      congr 1
      omega
    push_cast
    rw [ulp, hsplit, mul_assoc]
  · -- its exponent is below, so this is no subnormal and the value has all 53 bits
    refine .inr ⟨?_, ?_⟩
    · have hdouble : (2 : ℚ) * 2 ^ e ≤ ulp q := by
        rw [ulp, ← zpow_one_add₀ two_ne_zero]
        exact zpow_le_zpow_right₀ one_le_two (by omega)
      have hcast : (|m| : ℚ) ≤ 2 ^ 53 := by exact_mod_cast hm
      have hpow : (0 : ℚ) < 2 ^ e := zpow_pos two_pos _
      rw [abs_mul, abs_of_pos hpow]
      calc |(m : ℚ)| * 2 ^ e ≤ 2 ^ 53 * 2 ^ e := mul_le_mul_of_nonneg_right hcast hpow.le
        _ = 2 ^ 52 * (2 * 2 ^ e) := by ring
        _ ≤ 2 ^ 52 * ulp q := mul_le_mul_of_nonneg_left hdouble (by positivity)
    · refine ulp_le hq ?_
      rw [exponent] at hlt
      omega

@[simp] theorem nearest_zero : nearest 0 = 0 := by simpa using abs_nearest_sub_le_of_multiple 0 0

/-- No double is nearer. -/
theorem abs_nearest_sub_le (hp : IsDouble p) (q : ℚ) : |nearest q - q| ≤ |p - q| := by
  rcases eq_or_ne q 0 with rfl | hq
  · rw [nearest_zero, sub_zero, abs_zero]
    exact abs_nonneg _
  rcases hp.multiple_or_lt hq with ⟨n, rfl⟩ | ⟨hp, hle⟩
  · exact abs_nearest_sub_le_of_multiple q n
  · -- the double of the same 53 bits' start lies between the two
    rcases hq.lt_or_gt with hneg | hpos
    · have hbetween := abs_nearest_sub_le_of_multiple q (-2 ^ 52)
      refine hbetween.trans ?_
      rw [abs_of_neg hneg] at hle
      push_cast
      have hlow := neg_le_of_abs_le hp
      rw [abs_of_nonneg (by linarith), abs_of_nonneg (by linarith)]
      linarith
    · have hbetween := abs_nearest_sub_le_of_multiple q (2 ^ 52)
      refine hbetween.trans ?_
      rw [abs_of_pos hpos] at hle
      push_cast
      have hhigh := le_of_abs_le hp
      rw [abs_of_nonpos (by linarith), abs_of_nonpos (by linarith)]
      linarith

theorem IsDouble.nearest_eq (hp : IsDouble p) : nearest p = p := by
  have hle := abs_nearest_sub_le hp p
  rw [sub_self, abs_zero] at hle
  exact sub_eq_zero.mp (abs_nonpos_iff.mp hle)

theorem isDouble_intCast {n : Int} (h : |n| ≤ 2 ^ 53) : IsDouble n :=
  ⟨n, 0, h, by decide, by simp⟩

theorem nearest_natCast {n : Nat} (h : n ≤ 2 ^ 53) : nearest n = n := by
  have hdouble : IsDouble (n : Int) := isDouble_intCast (by rw [Nat.abs_cast]; omega)
  simpa using hdouble.nearest_eq

/-- Rounding keeps the order. -/
theorem nearest_mono (h : p ≤ q) : nearest p ≤ nearest q := by
  by_contra hlt
  have hp := abs_nearest_sub_le (isDouble_nearest q) p
  have hq := abs_nearest_sub_le (isDouble_nearest p) q
  -- each is at least as near its own value as the other's, so the values cross halfway
  grind

theorem nearest_nonneg (h : 0 ≤ q) : 0 ≤ nearest q := nearest_zero ▸ nearest_mono h

/-- Above the subnormals the rounding is relative to the value. -/
theorem abs_nearest_sub_le_div (h : (2 : ℚ) ^ (-1022 : Int) ≤ |q|) :
    |nearest q - q| ≤ |q| / 2 ^ 53 := by
  have hpos : 0 < |q| := (zpow_pos two_pos _).trans_le h
  have hlog : -1022 ≤ Int.log 2 |q| := (Int.zpow_le_iff_le_log one_lt_two hpos).mp h
  have hulp := ulp_le (abs_pos.mp hpos) (by omega)
  have hhalf := abs_nearest_sub_le_half q
  linarith

/-- A quotient of naturals of 53 bits keeps its whole part: what is missing to the next
natural is more than the rounding can add. -/
theorem floor_nearest_div {m n : Nat} (hm : m < 2 ^ 53) (hn : n < 2 ^ 53) (hpos : 0 < n) :
    ⌊nearest ((m : ℚ) / n)⌋ = (m / n : Nat) := by
  have hn' : (0 : ℚ) < n := Nat.cast_pos.mpr hpos
  have hm53 : (m : ℚ) < 2 ^ 53 := by exact_mod_cast hm
  have hn53 : (n : ℚ) < 2 ^ 53 := by exact_mod_cast hn
  rw [Int.floor_eq_iff, Int.cast_natCast]
  constructor
  -- the whole part is a double, so rounding does not go below it
  · have hdouble : nearest ((m / n : Nat) : ℚ) = (m / n : Nat) :=
      nearest_natCast ((Nat.div_le_self m n).trans hm.le)
    exact hdouble ▸ nearest_mono Nat.cast_div_le
  · rcases Nat.eq_zero_or_pos m with rfl | hmpos
    · simp
    have hone : (1 : ℚ) ≤ m := Nat.one_le_cast.mpr hmpos
    have hq : (0 : ℚ) < m / n := div_pos (one_pos.trans_le hone) hn'
    have hlarge : (2 : ℚ) ^ (-1022 : Int) ≤ |(m : ℚ) / n| := by
      rw [abs_of_pos hq]
      calc (2 : ℚ) ^ (-1022 : Int) ≤ 2 ^ (-53 : Int) := zpow_le_zpow_right₀ one_le_two (by decide)
        _ = 1 / 2 ^ 53 := by norm_num
        _ ≤ m / n := div_le_div₀ (one_pos.trans_le hone).le hone hn' hn53.le
    have hrounded := (le_abs_self _).trans (abs_nearest_sub_le_div hlarge)
    rw [abs_of_pos hq] at hrounded
    -- half a unit in the last place is less than the room to the next natural
    have hless : (m : ℚ) / n / 2 ^ 53 < 1 / n := by
      rw [div_div, mul_comm, ← div_div]
      exact div_lt_div_of_pos_right ((div_lt_one (by norm_num)).mpr hm53) hn'
    have hroom : (m : ℚ) / n + 1 / n ≤ (m / n : Nat) + 1 := by
      rw [← add_div, div_le_iff₀ hn']
      exact_mod_cast Nat.lt_mul_of_div_lt (Nat.lt_succ_self (m / n)) hpos
    linarith

end Double

/-! ### Numbers rounded to doubles -/

namespace Number

open Double

/-- A number among the others: what is not a number comes last. -/
private def place : Number → WithTop (WithBot (WithTop ℚ))
  | finite q => ((q : WithTop ℚ) : WithBot (WithTop ℚ))
  | infinite true => (⊥ : WithBot (WithTop ℚ))
  | infinite false => ((⊤ : WithTop ℚ) : WithBot (WithTop ℚ))
  | nan => ⊤

private theorem place_injective : Function.Injective place := by
  intro a b h
  rcases a with p | (_ | _) | _ <;> rcases b with q | (_ | _) | _ <;> simp_all [place]

instance : LinearOrder Number := LinearOrder.lift' place place_injective

/-- The double an operation gives for its exact result. -/
def toDouble : Number → Number
  | finite q =>
      if overflow ≤ nearest q then infinite false
      else if nearest q ≤ -overflow then infinite true
      else finite (nearest q)
  | n => n

/-- `Math.floor`. -/
def floor : Number → Number
  | finite q => finite ⌊q⌋
  | n => n

/-- The order of numbers is that of `<=`, with what is no number after them. -/
theorem le_iff {a b : Number} : a ≤ b ↔ b = nan ∨ a.le b = true := by
  change place a ≤ place b ↔ _
  rcases a with p | (_ | _) | _ <;> rcases b with q | (_ | _) | _ <;> simp [place, le]

theorem finite_le_finite : finite p ≤ finite q ↔ p ≤ q := by simp [le_iff]

/-- Numbers are told apart by the sign of their difference, the infinities too. -/
theorem sub_pos_iff {a b : Number} (ha : a ≠ nan) (hb : b ≠ nan) :
    (finite 0).lt (a - b) = true ↔ b < a := by
  rw [← not_le, le_iff]
  rcases a with p | (_ | _) | _ <;> rcases b with q | (_ | _) | _
  case finite.finite => simp
  all_goals simp_all [lt, le]

theorem sub_neg_iff {a b : Number} (ha : a ≠ nan) (hb : b ≠ nan) :
    (a - b).lt (finite 0) = true ↔ a < b := by
  rw [← not_le, le_iff]
  rcases a with p | (_ | _) | _ <;> rcases b with q | (_ | _) | _
  case finite.finite => simp
  all_goals simp_all [lt, le]

theorem toDouble_finite_mono (h : p ≤ q) : (finite p).toDouble ≤ (finite q).toDouble := by
  have hmono := nearest_mono h
  have hend : -overflow < overflow := neg_lt_self (pow_pos two_pos _)
  rw [le_iff, toDouble, toDouble]
  refine .inr ?_
  split_ifs <;> first | rfl | (rw [le_finite]; exact hmono) | linarith

theorem toDouble_mono {a b : Number} (h : a ≤ b) : a.toDouble ≤ b.toDouble := by
  rcases a with p | (_ | _) | _ <;> rcases b with q | (_ | _) | _ <;> rw [le_iff] at *
  case finite.finite =>
    exact le_iff.mp (toDouble_finite_mono (finite_le_finite.mp (le_iff.mpr h)))
  -- an infinity stays where it is, before or after whatever the other rounds to
  all_goals grind [toDouble, le]

theorem floor_mono {a b : Number} (h : a ≤ b) : a.floor ≤ b.floor := by
  rcases a with p | (_ | _) | _ <;> rcases b with q | (_ | _) | _ <;>
    simp_all [le_iff, le, floor]
  exact Int.floor_mono h

/-- Multiplying by what is positive keeps the order. -/
theorem mul_mono {a b : Number} (hq : 0 < q) (h : a ≤ b) : a.mul (finite q) ≤ b.mul (finite q) := by
  rcases a with p | (_ | _) | _ <;> rcases b with r | (_ | _) | _ <;>
    simp_all [le_iff, le, mul, hq.ne', hq.not_gt]

/-- Below the overflow, the nearest double. -/
theorem toDouble_eq (h : |nearest q| < overflow) : (finite q).toDouble = finite (nearest q) := by
  obtain ⟨hlow, hhigh⟩ := abs_lt.mp h
  rw [toDouble, if_neg (not_le.mpr hhigh), if_neg (not_le.mpr hlow)]

/-- So for what is no more than a natural of 53 bits. -/
theorem toDouble_of_le {n : Nat} (hnonneg : 0 ≤ q) (hle : q ≤ n) (hn : n ≤ 2 ^ 53) :
    (finite q).toDouble = finite (nearest q) := by
  refine toDouble_eq ?_
  rw [abs_of_nonneg (nearest_nonneg hnonneg)]
  calc nearest q ≤ nearest n := nearest_mono hle
    _ = n := nearest_natCast hn
    _ ≤ 2 ^ 53 := by exact_mod_cast hn
    _ < overflow := pow_lt_pow_right₀ one_lt_two (by decide)

theorem toDouble_natCast {n : Nat} (hn : n ≤ 2 ^ 53) : (finite n).toDouble = finite n := by
  rw [toDouble_of_le (Nat.cast_nonneg n) le_rfl hn, nearest_natCast hn]

end Number

end Lib
