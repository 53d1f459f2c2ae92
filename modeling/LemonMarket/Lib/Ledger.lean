import Mathlib.Algebra.BigOperators.Group.Finset.Basic
import Mathlib.Algebra.Order.BigOperators.Group.Finset
import Mathlib.Data.Fintype.Basic
import Mathlib.Tactic.Linarith

/-!
# LemonMarket.Lib.Ledger

**Ledgers that conserve.** A `Ledger α` is a balance for every account together
with the total, and carries the proof that the balances add up to it. Three
operations change one: `credit` (issue to an account), `debit` (retire from an
account that holds enough) and `move` (between accounts). Because conservation is
a field, a transfer that loses or creates value cannot be written down.

The two facts about sums (`sum_update_add`, `sum_update_sub`) are stated balanced,
with additions on both sides, so that no truncated subtraction ever has to be
reasoned about; they are used for any other table kept in step with its total.
-/

namespace Lib

variable {α : Type} [Fintype α]

/-! ### Sums over a table with one entry changed -/

/-- One entry is at most the total. -/
theorem le_sum (f : α → Nat) (a : α) : f a ≤ ∑ x, f x :=
  Finset.single_le_sum (fun _ _ => Nat.zero_le _) (Finset.mem_univ a)

variable [DecidableEq α]

theorem sum_update_add (f : α → Nat) (a : α) (n : Nat) :
    ∑ x, Function.update f a (f a + n) x = ∑ x, f x + n := by
  have hrest : ∑ x ∈ Finset.univ.erase a, Function.update f a (f a + n) x =
      ∑ x ∈ Finset.univ.erase a, f x :=
    Finset.sum_congr rfl fun x hx => Function.update_of_ne (Finset.ne_of_mem_erase hx) ..
  have hnew := Finset.add_sum_erase Finset.univ (Function.update f a (f a + n))
    (Finset.mem_univ a)
  have hold := Finset.add_sum_erase Finset.univ f (Finset.mem_univ a)
  rw [Function.update_self] at hnew
  omega

theorem sum_update_sub (f : α → Nat) (a : α) (n : Nat) (h : n ≤ f a) :
    ∑ x, Function.update f a (f a - n) x + n = ∑ x, f x := by
  have hback := sum_update_add (Function.update f a (f a - n)) a n
  rw [Function.update_self, Nat.sub_add_cancel h, Function.update_idem,
    Function.update_eq_self] at hback
  exact hback.symm

/-! ### The ledger -/

/-- Balances and their total. -/
structure Ledger (α : Type) [Fintype α] where
  balance : α → Nat
  total : Nat
  conserved : ∑ a, balance a = total

namespace Ledger

variable {t : Ledger α} {a b c : α} {n : Nat}

omit [DecidableEq α] in
theorem balance_le_total (t : Ledger α) (a : α) : t.balance a ≤ t.total :=
  t.conserved ▸ le_sum t.balance a

/-- Issue `n` to `a`. -/
def credit (t : Ledger α) (a : α) (n : Nat) : Ledger α where
  balance := Function.update t.balance a (t.balance a + n)
  total := t.total + n
  conserved := by rw [sum_update_add, t.conserved]

/-- Retire `n` from `a`, who holds it. -/
def debit (t : Ledger α) (a : α) (n : Nat) (h : n ≤ t.balance a) : Ledger α where
  balance := Function.update t.balance a (t.balance a - n)
  total := t.total - n
  conserved := by
    have hsum := sum_update_sub t.balance a n h
    rw [t.conserved] at hsum
    omega

/-- Move `n` from `a`, who holds it, to `b`. -/
def move (t : Ledger α) (a b : α) (n : Nat) (h : n ≤ t.balance a) : Ledger α :=
  { (t.debit a n h).credit b n with
    total := t.total
    conserved := by
      have hle := Nat.le_trans h (t.balance_le_total a)
      rw [((t.debit a n h).credit b n).conserved]
      exact Nat.sub_add_cancel hle }

@[simp] theorem credit_self : (t.credit a n).balance a = t.balance a + n :=
  Function.update_self ..

@[simp] theorem credit_of_ne (h : c ≠ a) : (t.credit a n).balance c = t.balance c :=
  Function.update_of_ne h ..

theorem le_credit : t.balance c ≤ (t.credit a n).balance c := by
  by_cases h : c = a
  · subst h; simp
  · simp [h]

@[simp] theorem debit_self (h : n ≤ t.balance a) :
    (t.debit a n h).balance a = t.balance a - n :=
  Function.update_self ..

@[simp] theorem debit_of_ne (h : n ≤ t.balance a) (hc : c ≠ a) :
    (t.debit a n h).balance c = t.balance c :=
  Function.update_of_ne hc ..

theorem move_balance (h : n ≤ t.balance a) :
    (t.move a b n h).balance = ((t.debit a n h).credit b n).balance := rfl

/-- A move out of `a` leaves the difference there. -/
theorem move_from (h : n ≤ t.balance a) (hab : a ≠ b) :
    (t.move a b n h).balance a = t.balance a - n := by
  rw [move_balance, credit_of_ne hab, debit_self]

theorem move_to (h : n ≤ t.balance a) (hab : a ≠ b) :
    (t.move a b n h).balance b = t.balance b + n := by
  rw [move_balance, credit_self, debit_of_ne _ hab.symm]

/-- A move changes what its two ends hold only. -/
theorem move_of_ne (h : n ≤ t.balance a) (ha : c ≠ a) (hb : c ≠ b) :
    (t.move a b n h).balance c = t.balance c := by
  rw [move_balance, credit_of_ne hb, debit_of_ne _ ha]

/-- What everyone holds after a move, the two ends added up. -/
theorem move_add (h : n ≤ t.balance a) (c : α) :
    (t.move a b n h).balance c + (if c = a then n else 0) =
      t.balance c + if c = b then n else 0 := by
  rw [move_balance]
  by_cases ha : c = a
  · subst ha
    by_cases hb : c = b
    · subst hb
      simp only [credit_self, debit_self, if_pos]
      omega
    · rw [credit_of_ne hb, debit_self, if_pos rfl, if_neg hb]
      omega
  · by_cases hb : c = b
    · subst hb
      rw [credit_self, debit_of_ne h ha, if_neg ha, if_pos rfl, Nat.add_zero]
    · rw [credit_of_ne hb, debit_of_ne h ha, if_neg ha, if_neg hb]

/-- A move to oneself changes nothing. -/
theorem move_self (h : n ≤ t.balance a) : (t.move a a n h).balance = t.balance := by
  funext c
  by_cases hc : c = a
  · subst hc
    rw [move_balance, credit_self, debit_self, Nat.sub_add_cancel h]
  · rw [move_balance, credit_of_ne hc, debit_of_ne _ hc]

/-- Nobody but the sender ever holds less after a move. -/
theorem le_move (h : n ≤ t.balance a) (hc : c ≠ a) :
    t.balance c ≤ (t.move a b n h).balance c := by
  rw [move_balance]
  calc t.balance c = (t.debit a n h).balance c := (debit_of_ne h hc).symm
    _ ≤ _ := le_credit

end Ledger

end Lib
