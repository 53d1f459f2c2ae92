import Mathlib.Algebra.BigOperators.Group.List.Basic
import Mathlib.Algebra.Order.Group.Nat
import Mathlib.Tactic.Linarith

/-!
# LemonMarket.Lib.Window

**Caps over a sliding window.** A history is a list of timed amounts, in time
order; `within h lo len` is what falls in `[lo, lo + len)`. A limiter that keeps
one counter and the time it last moved caps every window if the counter only ever
does one of two things: go up by the amount, or start again at the amount once a
whole window has passed (`Metered.accumulate`, `Metered.restart`).

The invariant (`Metered`) is that the counter covers every window that is not over
yet: one that the last recorded time falls before the end of.
-/

namespace Lib

/-- An amount moved at a time. -/
structure Timed where
  time : Nat
  amount : Nat
  deriving Repr, DecidableEq

/-- What a history moved in the half-open interval of length `len` from `lo`. -/
def within (h : List Timed) (lo len : Nat) : Nat :=
  ((h.filter fun e => lo ≤ e.time ∧ e.time < lo + len).map Timed.amount).sum

variable {h : List Timed} {lo len cap clock counter t a : Nat}

@[simp] theorem within_nil : within [] lo len = 0 := rfl

theorem within_snoc (e : Timed) : within (h ++ [e]) lo len =
    within h lo len + if lo ≤ e.time ∧ e.time < lo + len then e.amount else 0 := by
  simp only [within, List.filter_append, List.map_append, List.sum_append]
  congr 1
  by_cases he : lo ≤ e.time ∧ e.time < lo + len <;> simp [he]

/-- Nothing falls in a window that starts after everything recorded. -/
theorem within_eq_zero (hpast : ∀ e ∈ h, e.time < lo) : within h lo len = 0 := by
  have hnone : (h.filter fun e => lo ≤ e.time ∧ e.time < lo + len) = [] := by
    apply List.filter_eq_nil_iff.mpr
    intro e he
    have := hpast e he
    simp only [decide_eq_true_eq, not_and]
    omega
  rw [within, hnone]
  rfl

/-- The counter at `clock` covers every window still open, and no window exceeds the
cap. -/
structure Metered (len cap : Nat) (h : List Timed) (clock counter : Nat) : Prop where
  past : ∀ e ∈ h, e.time ≤ clock
  covers : ∀ lo, clock < lo + len → within h lo len ≤ counter
  capped : ∀ lo, within h lo len ≤ cap

theorem Metered.nil : Metered len cap [] clock counter :=
  ⟨by simp, by simp, by simp⟩

theorem Metered.past_snoc (hm : Metered len cap h clock counter) (ht : clock ≤ t) :
    ∀ e ∈ h ++ [⟨t, a⟩], e.time ≤ t := by
  intro e he
  rcases List.mem_append.mp he with he | he
  · exact (hm.past e he).trans ht
  · exact Nat.le_of_eq (congrArg Timed.time (List.mem_singleton.mp he))

/-- Once a window's content is bounded where the new amount counts, and the counter is
within the cap, the meter goes on. -/
theorem Metered.snoc (hm : Metered len cap h clock counter) (ht : clock ≤ t) {counter' : Nat}
    (hcap : counter' ≤ cap)
    (hnew : ∀ lo, lo ≤ t → t < lo + len → within h lo len + a ≤ counter') :
    Metered len cap (h ++ [⟨t, a⟩]) t counter' := by
  refine ⟨hm.past_snoc ht, ?_, ?_⟩
  · intro lo hlo
    rw [within_snoc]
    split
    next hin => exact hnew lo hin.1 hin.2
    next hout =>
      have hlater : t < lo := by simp only at hout; omega
      rw [within_eq_zero fun e he => ((hm.past e he).trans ht).trans_lt hlater]
      exact Nat.zero_le _
  · intro lo
    rw [within_snoc]
    split
    next hin => exact (hnew lo hin.1 hin.2).trans hcap
    next => exact hm.capped lo

/-- The counter goes up by the amount. -/
theorem Metered.accumulate (hm : Metered len cap h clock counter) (ht : clock ≤ t)
    (hcap : counter + a ≤ cap) : Metered len cap (h ++ [⟨t, a⟩]) t (counter + a) :=
  hm.snoc ht hcap fun lo _ hhi => Nat.add_le_add_right (hm.covers lo (by omega)) a

/-- A whole window has passed, and the counter starts again. -/
theorem Metered.restart (hm : Metered len cap h clock counter) (ht : clock + len ≤ t)
    (hcap : a ≤ cap) : Metered len cap (h ++ [⟨t, a⟩]) t a :=
  hm.snoc (by omega) hcap fun lo _ hhi => by
    have hold : clock < lo := by omega
    rw [within_eq_zero fun e he => (hm.past e he).trans_lt hold, Nat.zero_add]

end Lib
