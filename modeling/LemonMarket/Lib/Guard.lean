import Mathlib.Tactic.Common

/-!
# LemonMarket.Lib.Guard

**Guarded computations.** A transaction either reverts with an error or yields a
value, so it is an `Except`. This module gives the one guard the models are
written with (`revertIf`) and the equations that take a successful run apart:
every proof about a transaction starts from `h : f s = .ok s'` and peels `h` with
the simp set below, one guard or one bind at a time, instead of unfolding the
monad.
-/

namespace Lib

variable {ε ε' α β : Type}

/-- Fail with `e` when `c` holds: Solidity's `if (c) revert e`. -/
def revertIf (c : Prop) [Decidable c] (e : ε) : Except ε Unit :=
  if c then .error e else .ok ()

@[simp] theorem revertIf_eq_ok {c : Prop} [Decidable c] {e : ε} {u : Unit} :
    revertIf c e = .ok u ↔ ¬ c := by
  by_cases hc : c <;> simp [revertIf, hc]

@[simp] theorem revertIf_eq_error {c : Prop} [Decidable c] {e e' : ε} :
    revertIf c e = .error e' ↔ c ∧ e = e' := by
  by_cases hc : c <;> simp [revertIf, hc]

theorem revertIf_of_not {c : Prop} [Decidable c] {e : ε} (h : ¬ c) :
    revertIf c e = .ok () := if_neg h

/-- A sequenced computation succeeds exactly when both halves do. -/
@[simp] theorem bind_eq_ok {x : Except ε α} {f : α → Except ε β} {b : β} :
    (x >>= f) = .ok b ↔ ∃ a, x = .ok a ∧ f a = .ok b := by
  cases x with
  | error e => simp [bind, Except.bind]
  | ok a => simp [bind, Except.bind]

/-- It fails when the first half does, or when the second does after it. -/
@[simp] theorem bind_eq_error {x : Except ε α} {f : α → Except ε β} {e : ε} :
    (x >>= f) = .error e ↔ x = .error e ∨ ∃ a, x = .ok a ∧ f a = .error e := by
  cases x with
  | error e => simp [bind, Except.bind]
  | ok a => simp [bind, Except.bind]

@[simp] theorem pure_eq_ok {a b : α} : (pure a : Except ε α) = .ok b ↔ a = b := by
  simp [pure, Except.pure]

@[simp] theorem pure_eq_error {a : α} {e : ε} : (pure a : Except ε α) = .error e ↔ False := by
  simp [pure, Except.pure]

/-- A first half known to succeed drops out of the sequence. -/
theorem bind_of_ok {x : Except ε α} {f : α → Except ε β} {a : α} (h : x = .ok a) :
    (x >>= f) = f a := by
  rw [h]; rfl

@[simp] theorem map_eq_ok {x : Except ε α} {g : α → β} {b : β} :
    g <$> x = .ok b ↔ ∃ a, x = .ok a ∧ g a = b := by
  cases x with
  | error e => simp [Functor.map, Except.map]
  | ok a => simp [Functor.map, Except.map]

/-- A computation answered with the second half of its value. -/
theorem snd_eq_ok {x : Except ε (α × β)} {b : β} (h : Prod.snd <$> x = .ok b) :
    ∃ a, x = .ok (a, b) := by
  obtain ⟨⟨a, b'⟩, hx, rfl⟩ := map_eq_ok.mp h
  exact ⟨a, hx⟩

@[simp] theorem mapError_eq_ok {x : Except ε α} {g : ε → ε'} {a : α} :
    x.mapError g = .ok a ↔ x = .ok a := by
  cases x <;> simp [Except.mapError]

@[simp] theorem mapError_eq_error {x : Except ε α} {g : ε → ε'} {e' : ε'} :
    x.mapError g = .error e' ↔ ∃ e, x = .error e ∧ g e = e' := by
  cases x <;> simp [Except.mapError]

@[simp] theorem toOption_eq_some {x : Except ε α} {a : α} :
    x.toOption = some a ↔ x = .ok a := by
  cases x <;> simp [Except.toOption]

end Lib
