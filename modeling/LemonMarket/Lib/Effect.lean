import Mathlib.Tactic.Common

/-!
# LemonMarket.Lib.Effect

**Computations that act on the way to failing.** An `Effect` threads a state and may
stop with an error, and what it did to the state before it stopped stays done: the
semantics of an imperative routine that talks to the outside world and throws. `attempt`
is `try`/`catch`, and rolls nothing back either.

`Keeps f x` is the frame condition: whichever way `x` ends, the part of the state that
`f` reads is untouched. `Yields x a` is total correctness with a known answer: from every
state `x` ends well and answers `a`. Both are closed under everything effects are built
with, so they are proved by following the program text.
-/

namespace Lib

/-- A computation over a state `σ` with errors `ε`. -/
def Effect (σ ε α : Type) : Type := σ → Except ε α × σ

namespace Effect

variable {σ ε α β γ : Type}

instance : Monad (Effect σ ε) where
  pure a := fun s => (.ok a, s)
  bind x f := fun s =>
    match x s with
    | (.ok a, s') => f a s'
    | (.error e, s') => (.error e, s')

/-- Stop with an error. -/
def fail (e : ε) : Effect σ ε α := fun s => (.error e, s)

/-- Stop with an error built from the state. -/
def failWith (e : σ → ε) : Effect σ ε α := fun s => (.error (e s), s)

/-- Change the state. -/
def update (g : σ → σ) : Effect σ ε Unit := fun s => (.ok (), g s)

/-- `try x catch handle`. -/
def attempt (x : Effect σ ε α) (handle : ε → Effect σ ε α) : Effect σ ε α := fun s =>
  match x s with
  | (.ok a, s') => (.ok a, s')
  | (.error e, s') => handle e s'

/-- Stop unless a condition holds. -/
def require (c : Bool) (e : ε) : Effect σ ε Unit := if c then pure () else fail e

/-- Stop unless a value is there. -/
def expect (e : ε) : Option α → Effect σ ε α
  | some a => pure a
  | none => fail e

/-- Run `x` only under a condition. -/
def onlyIf (c : Prop) [Decidable c] (x : Effect σ ε Unit) : Effect σ ε Unit :=
  if c then x else pure ()

theorem bind_of_ok {x : Effect σ ε α} {f : α → Effect σ ε β} {s s' : σ} {a : α}
    (h : x s = (.ok a, s')) : (x >>= f) s = f a s' := by
  show (match x s with
    | (.ok a, s') => f a s'
    | (.error e, s') => (.error e, s')) = f a s'
  rw [h]

theorem bind_of_error {x : Effect σ ε α} {f : α → Effect σ ε β} {s s' : σ} {e : ε}
    (h : x s = (.error e, s')) : (x >>= f) s = (.error e, s') := by
  show (match x s with
    | (.ok a, s') => f a s'
    | (.error e, s') => (.error e, s')) = (.error e, s')
  rw [h]

/-- The rest of a program only sees how what came first has ended. -/
theorem bind_eq_of_eq {x y : Effect σ ε α} {f : α → Effect σ ε β} {s s' : σ} (h : x s = y s') :
    (x >>= f) s = (y >>= f) s' := by
  rcases hy : y s' with ⟨e | a, s''⟩
  · exact (bind_of_error (h.trans hy)).trans (bind_of_error hy).symm
  · exact (bind_of_ok (h.trans hy)).trans (bind_of_ok hy).symm

theorem attempt_of_ok {x : Effect σ ε α} {handle : ε → Effect σ ε α} {s s' : σ} {a : α}
    (h : x s = (.ok a, s')) : attempt x handle s = (.ok a, s') := by
  simp only [attempt, h]

theorem attempt_of_error {x : Effect σ ε α} {handle : ε → Effect σ ε α} {s s' : σ} {e : ε}
    (h : x s = (.error e, s')) : attempt x handle s = handle e s' := by
  simp only [attempt, h]

instance : LawfulMonad (Effect σ ε) := by
  refine LawfulMonad.mk' _ (fun x => ?_) (fun a f => rfl) fun x f g => ?_
  · funext s
    rcases hx : x s with ⟨e | a, s'⟩
    · exact bind_of_error hx
    · exact bind_of_ok hx
  · funext s
    rcases hx : x s with ⟨e | a, s'⟩
    · exact (bind_of_error (bind_of_error hx)).trans (bind_of_error hx).symm
    · have hleft : (x >>= f) s = f a s' := bind_of_ok hx
      rcases hf : f a s' with ⟨e | b, s''⟩
      · exact (bind_of_error (hleft.trans hf)).trans
          ((bind_of_ok hx).trans (bind_of_error hf)).symm
      · exact (bind_of_ok (hleft.trans hf)).trans ((bind_of_ok hx).trans (bind_of_ok hf)).symm

/-! ### Frames -/

/-- Whichever way `x` ends, what `f` reads of the state is as it was. -/
def Keeps (f : σ → γ) (x : Effect σ ε α) : Prop := ∀ s, f (x s).2 = f s

namespace Keeps

variable {f : σ → γ} {x : Effect σ ε α}

theorem pure (a : α) : Keeps f (Pure.pure a : Effect σ ε α) := fun _ => rfl

theorem fail (e : ε) : Keeps f (Effect.fail e : Effect σ ε α) := fun _ => rfl

theorem failWith (e : σ → ε) : Keeps f (Effect.failWith e : Effect σ ε α) := fun _ => rfl

theorem update {g : σ → σ} (h : ∀ s, f (g s) = f s) :
    Keeps f (Effect.update g : Effect σ ε Unit) := h

theorem require (c : Bool) (e : ε) : Keeps f (Effect.require c e : Effect σ ε Unit) := by
  cases c
  · exact fail e
  · exact pure ()

theorem expect (e : ε) (a : Option α) : Keeps f (Effect.expect e a : Effect σ ε α) := by
  cases a with
  | none => exact fail e
  | some a => exact pure a

theorem bind {k : α → Effect σ ε β} (hx : Keeps f x) (hk : ∀ a, Keeps f (k a)) :
    Keeps f (x >>= k) := by
  intro s
  rcases hs : x s with ⟨_ | a, s'⟩
  · rw [bind_of_error hs, ← hx s, hs]
  · rw [bind_of_ok hs, hk a s', ← hx s, hs]

theorem ite {y : Effect σ ε α} {c : Prop} [Decidable c] (hx : Keeps f x) (hy : Keeps f y) :
    Keeps f (if c then x else y) := by
  split
  · exact hx
  · exact hy

theorem onlyIf {y : Effect σ ε Unit} {c : Prop} [Decidable c] (hy : Keeps f y) :
    Keeps f (Effect.onlyIf c y) := .ite hy (.pure ())

theorem attempt {handle : ε → Effect σ ε α} (hx : Keeps f x) (hh : ∀ e, Keeps f (handle e)) :
    Keeps f (Effect.attempt x handle) := by
  intro s
  rcases hs : x s with ⟨e | a, s'⟩
  · rw [attempt_of_error hs, hh e s', ← hx s, hs]
  · rw [attempt_of_ok hs, ← hx s, hs]

end Keeps

/-! ### Answers -/

/-- From every state `x` ends well, with the answer `a`. -/
def Yields (x : Effect σ ε α) (a : α) : Prop := ∀ s, ∃ s', x s = (.ok a, s')

namespace Yields

variable {x : Effect σ ε α} {a : α}

theorem pure (a : α) : Yields (Pure.pure a : Effect σ ε α) a := fun s => ⟨s, rfl⟩

theorem update (g : σ → σ) : Yields (Effect.update g : Effect σ ε Unit) () := fun s => ⟨g s, rfl⟩

theorem require {c : Bool} (h : c = true) (e : ε) :
    Yields (Effect.require c e : Effect σ ε Unit) () := by
  subst h
  exact pure ()

theorem onlyIf {y : Effect σ ε Unit} {c : Prop} [Decidable c] (hy : Yields y ()) :
    Yields (Effect.onlyIf c y) () := by
  by_cases hc : c
  · rw [Effect.onlyIf, if_pos hc]
    exact hy
  · rw [Effect.onlyIf, if_neg hc]
    exact pure ()

theorem bind {k : α → Effect σ ε β} {b : β} (hx : Yields x a) (hk : Yields (k a) b) :
    Yields (x >>= k) b := by
  intro s
  obtain ⟨s', hs'⟩ := hx s
  rw [bind_of_ok hs']
  exact hk s'

theorem attempt (hx : Yields x a) (handle : ε → Effect σ ε α) :
    Yields (Effect.attempt x handle) a := by
  intro s
  obtain ⟨s', hs'⟩ := hx s
  exact ⟨s', attempt_of_ok hs'⟩

/-- What is answered from a state, with what is kept of it. -/
theorem run {f : σ → γ} (hx : Yields x a) (hf : Keeps f x) (s : σ) :
    ∃ s', x s = (.ok a, s') ∧ f s' = f s := by
  obtain ⟨s', hs'⟩ := hx s
  exact ⟨s', hs', by rw [← hf s, hs']⟩

end Yields

/-- From every state `x` stops with an error. -/
def Fails (x : Effect σ ε α) : Prop := ∀ s, ∃ e s', x s = (.error e, s')

namespace Fails

variable {x : Effect σ ε α}

theorem fail (e : ε) : Fails (Effect.fail e : Effect σ ε α) := fun s => ⟨e, s, rfl⟩

theorem failWith (e : σ → ε) : Fails (Effect.failWith e : Effect σ ε α) := fun s => ⟨e s, s, rfl⟩

theorem require {c : Bool} (h : c = false) (e : ε) :
    Fails (Effect.require c e : Effect σ ε Unit) := by
  subst h
  exact fail e

theorem bind_left (hx : Fails x) (k : α → Effect σ ε β) : Fails (x >>= k) := by
  intro s
  obtain ⟨e, s', hs'⟩ := hx s
  exact ⟨e, s', bind_of_error hs'⟩

theorem bind_right {a : α} {k : α → Effect σ ε β} (hx : Yields x a) (hk : Fails (k a)) :
    Fails (x >>= k) := by
  intro s
  obtain ⟨s', hs'⟩ := hx s
  rw [bind_of_ok hs']
  exact hk s'

/-- A handler that answers turns a failure into that answer. -/
theorem attempt {handle : ε → Effect σ ε α} {a : α} (hx : Fails x)
    (hh : ∀ e, Yields (handle e) a) : Yields (Effect.attempt x handle) a := by
  intro s
  obtain ⟨e, s', hs'⟩ := hx s
  obtain ⟨s'', hs''⟩ := hh e s'
  exact ⟨s'', (attempt_of_error hs').trans hs''⟩

end Fails

end Effect

end Lib
