import Mathlib.Algebra.Order.Field.Basic
import Mathlib.Analysis.SpecialFunctions.Log.Base
import Mathlib.Tactic.Linarith
import Mathlib.Tactic.Ring

/-!
# LemonMarket.Lib.Backoff

**Exponential backoff.** The wait after a number of failures in a row doubles from a base up
to a cap. Times are `Spaced` if each is no sooner than the wait of those up to it allows.

In a window, all waits but the first few are the whole cap, so the times that fall in it are
at most one, those few, and one for each cap that fits the window (`countP_le`). The few are
the doublings from the base to the cap: `countP_le_logb` puts them as a logarithm.
-/

namespace Lib

namespace Backoff

variable {K : Type} [Field K] [LinearOrder K]

/-- The wait after `n` failures in a row. -/
def wait (base cap : K) (n : Nat) : K := min cap (base * 2 ^ (n - 1))

/-- Times in a row, the first of them after `n` others. -/
def Spaced (base cap : K) : Nat → List K → Prop
  | n, x :: y :: rest => x + wait base cap (n + 1) ≤ y ∧ Spaced base cap (n + 1) (y :: rest)
  | _, _ => True

/-- The times in a closed window. -/
def within (times : List K) (lo hi : K) : Nat := times.countP fun t => lo ≤ t ∧ t ≤ hi

variable {base cap x y lo hi : K} {n k : Nat} {times : List K}

omit [Field K] in
theorem within_cons : within (x :: times) lo hi =
    within times lo hi + if lo ≤ x ∧ x ≤ hi then 1 else 0 := by
  simp [within, List.countP_cons]

/-- One more time is spaced if it is from the last. -/
theorem spaced_snoc : Spaced base cap n (times ++ [y]) ↔
    Spaced base cap n times ∧ ∀ x ∈ times.getLast?, x + wait base cap (n + times.length) ≤ y := by
  induction times generalizing n with
  | nil => simp [Spaced]
  | cons x rest ih =>
      cases rest with
      | nil => simp [Spaced]
      | cons x' rest =>
          have hlen : n + (x :: x' :: rest).length = n + 1 + (x' :: rest).length := by
            simp only [List.length_cons]
            omega
          rw [hlen, List.getLast?_cons_cons, List.cons_append, List.cons_append, Spaced, Spaced,
            ← List.cons_append, ih, and_assoc]

section

variable [IsStrictOrderedRing K]

theorem wait_nonneg (hbase : 0 ≤ base) (hcap : 0 ≤ cap) : 0 ≤ wait base cap n :=
  le_min hcap (mul_nonneg hbase (pow_nonneg zero_le_two _))

/-- Spaced times ascend. -/
theorem Spaced.head_le (hbase : 0 ≤ base) (hcap : 0 ≤ cap)
    (h : Spaced base cap n (x :: times)) : ∀ t ∈ times, x ≤ t := by
  induction times generalizing n x with
  | nil => simp
  | cons y rest ih =>
      obtain ⟨hgap, hrest⟩ := h
      have hxy : x ≤ y := (le_add_of_nonneg_right (wait_nonneg hbase hcap)).trans hgap
      intro t ht
      rcases List.mem_cons.mp ht with rfl | ht
      · exact hxy
      · exact hxy.trans (ih hrest t ht)

/-- None of them is in a window that is over before the first. -/
theorem Spaced.within_eq_zero (hbase : 0 ≤ base) (hcap : 0 ≤ cap)
    (h : Spaced base cap n (x :: times)) (hx : hi < x) : within (x :: times) lo hi = 0 := by
  refine List.countP_eq_zero.mpr fun t ht => ?_
  have hxt : x ≤ t := by
    rcases List.mem_cons.mp ht with rfl | ht
    · exact le_rfl
    · exact h.head_le hbase hcap t ht
  simp only [decide_eq_true_eq, not_and, not_le]
  exact fun _ => hx.trans_le hxt

/-- From a time in the window on: all but `k` of the waits take a cap out of what is left
of it. -/
theorem within_le_from (hbase : 0 ≤ base) (hcap : 0 < cap)
    (hk : ∀ i, n + k ≤ i → cap ≤ base * 2 ^ i) (h : Spaced base cap n (x :: times))
    (hlo : lo ≤ x) (hhi : x ≤ hi) :
    ((within (x :: times) lo hi : K) - 1 - k) * cap ≤ hi - x := by
  induction times generalizing n k x with
  | nil =>
      have hone : within [x] lo hi = 1 := by simp [within, hlo, hhi]
      rw [hone, Nat.cast_one, sub_self, zero_sub, neg_mul]
      have hshort : 0 ≤ (k : K) * cap := mul_nonneg (Nat.cast_nonneg k) hcap.le
      linarith
  | cons y rest ih =>
      obtain ⟨hgap, hrest⟩ := h
      have hcount : within (x :: y :: rest) lo hi = within (y :: rest) lo hi + 1 := by
        rw [within_cons, if_pos ⟨hlo, hhi⟩]
      have hxy : x + 0 ≤ y :=
        (add_le_add_right (wait_nonneg hbase hcap.le) x).trans hgap
      rw [add_zero] at hxy
      rw [hcount, Nat.cast_add, Nat.cast_one, add_sub_cancel_right]
      by_cases hy : y ≤ hi
      · cases k with
        | zero =>
            -- the wait is the cap from here on
            have hwait : wait base cap (n + 1) = cap := min_eq_left (hk n le_rfl)
            have hih := ih (k := 0) (fun i hi' => hk i (by omega)) hrest (hlo.trans hxy) hy
            rw [hwait] at hgap
            simp only [Nat.cast_zero, sub_zero, sub_mul, one_mul] at hih ⊢
            linarith
        | succ k =>
            have hih := ih (k := k) (fun i hi' => hk i (by omega)) hrest (hlo.trans hxy) hy
            rw [Nat.cast_add, Nat.cast_one]
            have hsame : ((within (y :: rest) lo hi : K) - (k + 1)) =
                (within (y :: rest) lo hi : K) - 1 - k := by ring
            rw [hsame]
            linarith
      · have hnone : within (y :: rest) lo hi = 0 :=
          hrest.within_eq_zero hbase hcap.le (not_le.mp hy)
        rw [hnone, Nat.cast_zero, zero_sub, neg_mul]
        have hshort : 0 ≤ (k : K) * cap := mul_nonneg (Nat.cast_nonneg k) hcap.le
        linarith

/-- In any window: all but `k` of the waits between its times take a cap out of it. -/
theorem within_le (hbase : 0 ≤ base) (hcap : 0 < cap)
    (hk : ∀ i, n + k ≤ i → cap ≤ base * 2 ^ i) (h : Spaced base cap n times) (hwindow : lo ≤ hi) :
    ((within times lo hi : K) - 1 - k) * cap ≤ hi - lo := by
  induction times generalizing n with
  | nil =>
      have hshort : 0 ≤ ((1 : K) + k) * cap :=
        mul_nonneg (add_nonneg zero_le_one (Nat.cast_nonneg k)) hcap.le
      have hneg : ((within ([] : List K) lo hi : K) - 1 - k) * cap = -((1 + k) * cap) := by
        simp only [within, List.countP_nil, Nat.cast_zero]
        ring
      rw [hneg]
      linarith
  | cons x rest ih =>
      by_cases hx : lo ≤ x ∧ x ≤ hi
      · have hfrom := within_le_from hbase hcap hk h hx.1 hx.2
        linarith [hx.1]
      -- a time before or after the window does not count
      · have hrest : Spaced base cap (n + 1) rest := by
          cases rest with
          | nil => trivial
          | cons y rest => exact h.2
        rw [within_cons, if_neg hx, add_zero]
        exact ih (fun i hi' => hk i (by omega)) hrest

end

/-- The times in a window, by the doublings from the base to the cap. -/
theorem within_le_logb {base cap lo hi : ℚ} {times : List ℚ} (hbase : 0 < base)
    (hcap : base ≤ cap) (h : Spaced base cap 0 times) (hwindow : lo ≤ hi) :
    (within times lo hi : ℝ) ≤
      Real.logb 2 ((cap : ℝ) / base) + 2 + ((hi : ℝ) - lo) / cap := by
  have hpos : 0 < cap := hbase.trans_le hcap
  have hratio : (1 : ℝ) ≤ (cap : ℝ) / base := by
    rw [one_le_div (by exact_mod_cast hbase)]
    exact_mod_cast hcap
  have hlog : 0 ≤ Real.logb 2 ((cap : ℝ) / base) := Real.logb_nonneg one_lt_two hratio
  -- the waits that fall short of the cap
  have hk : ∀ i, 0 + ⌈Real.logb 2 ((cap : ℝ) / base)⌉₊ ≤ i → cap ≤ base * 2 ^ i := by
    intro i hi'
    rw [zero_add, Nat.ceil_le, Real.logb_le_iff_le_rpow one_lt_two (by linarith),
      Real.rpow_natCast, div_le_iff₀ (by exact_mod_cast hbase)] at hi'
    have hcast : ((cap : ℚ) : ℝ) ≤ ((base * 2 ^ i : ℚ) : ℝ) := by
      push_cast
      linarith
    exact_mod_cast hcast
  have hcount := within_le hbase.le hpos hk h hwindow
  have hfew := Nat.ceil_lt_add_one hlog
  have hcapR : (0 : ℝ) < cap := by exact_mod_cast hpos
  have hcountR : ((within times lo hi : ℝ) - 1 - ⌈Real.logb 2 ((cap : ℝ) / base)⌉₊) ≤
      ((hi : ℝ) - lo) / cap := by
    rw [le_div_iff₀ hcapR]
    exact_mod_cast hcount
  linarith

end Backoff

end Lib
