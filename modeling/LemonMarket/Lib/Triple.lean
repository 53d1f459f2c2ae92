import LemonMarket.Lib.Effect

/-!
# LemonMarket.Lib.Triple

**Pre- and postconditions of effects.** `Triple P x Q E`: from a state `P` holds of, `x`
ends well with `Q` of its answer and the state, or stops with `E` of its error and the
state. There is one rule for each way an effect is built, so a proof follows the program
text; `attempt` turns what is known where a routine stops into what its handler starts
from.
-/

namespace Lib

namespace Effect

variable {σ ε α β : Type}

def Triple (P : σ → Prop) (x : Effect σ ε α) (Q : α → σ → Prop) (E : ε → σ → Prop) :
    Prop :=
  ∀ s, P s →
    match x s with
    | (.ok a, s') => Q a s'
    | (.error e, s') => E e s'

namespace Triple

variable {P P' : σ → Prop} {x : Effect σ ε α} {Q Q' : α → σ → Prop} {E E' : ε → σ → Prop}

theorem ok (h : Triple P x Q E) {s s' : σ} {a : α} (hs : P s) (hx : x s = (.ok a, s')) :
    Q a s' := by
  have hpost := h s hs
  rw [hx] at hpost
  exact hpost

theorem error (h : Triple P x Q E) {s s' : σ} {e : ε} (hs : P s) (hx : x s = (.error e, s')) :
    E e s' := by
  have hpost := h s hs
  rw [hx] at hpost
  exact hpost

/-- Whatever follows from the two ways of ending is a triple. -/
theorem intro (hok : ∀ s s' a, P s → x s = (.ok a, s') → Q a s')
    (herror : ∀ s s' e, P s → x s = (.error e, s') → E e s') : Triple P x Q E := by
  intro s hs
  rcases hx : x s with ⟨e | a, s'⟩
  · exact herror s s' e hs hx
  · exact hok s s' a hs hx

theorem consequence (h : Triple P x Q E) (hP : ∀ s, P' s → P s) (hQ : ∀ a s, Q a s → Q' a s)
    (hE : ∀ e s, E e s → E' e s) : Triple P' x Q' E' :=
  intro (fun _ _ a hs hx => hQ a _ (h.ok (hP _ hs) hx))
    (fun _ _ e hs hx => hE e _ (h.error (hP _ hs) hx))

theorem strengthen (h : Triple P x Q E) (hP : ∀ s, P' s → P s) : Triple P' x Q E :=
  h.consequence hP (fun _ _ hs => hs) fun _ _ hs => hs

theorem pure {a : α} (h : ∀ s, P s → Q a s) : Triple P (Pure.pure a : Effect σ ε α) Q E := h

theorem fail {e : ε} (h : ∀ s, P s → E e s) : Triple P (Effect.fail e : Effect σ ε α) Q E := h

theorem failWith {e : σ → ε} (h : ∀ s, P s → E (e s) s) :
    Triple P (Effect.failWith e : Effect σ ε α) Q E := h

theorem update {g : σ → σ} {Q : Unit → σ → Prop} (h : ∀ s, P s → Q () (g s)) :
    Triple P (Effect.update g : Effect σ ε Unit) Q E := h

theorem bind {k : α → Effect σ ε β} {R : β → σ → Prop} (hx : Triple P x Q E)
    (hk : ∀ a, Triple (Q a) (k a) R E) : Triple P (x >>= k) R E := by
  intro s hs
  rcases hxs : x s with ⟨e | a, s'⟩
  · rw [bind_of_error hxs]
    exact hx.error hs hxs
  · rw [bind_of_ok hxs]
    exact hk a s' (hx.ok hs hxs)

theorem ite {y : Effect σ ε α} {c : Prop} [Decidable c] (hx : c → Triple P x Q E)
    (hy : ¬ c → Triple P y Q E) : Triple P (if c then x else y) Q E := by
  split
  next hc => exact hx hc
  next hc => exact hy hc

theorem onlyIf {y : Effect σ ε Unit} {c : Prop} [Decidable c]
    {Q : Unit → σ → Prop} (hy : Triple P y Q E) (hskip : ∀ s, P s → Q () s) :
    Triple P (Effect.onlyIf c y) Q E :=
  ite (fun _ => hy) fun _ => pure hskip

theorem attempt {handle : ε → Effect σ ε α} (hx : Triple P x Q E')
    (hh : ∀ e, Triple (E' e) (handle e) Q E) : Triple P (Effect.attempt x handle) Q E := by
  intro s hs
  rcases hxs : x s with ⟨e | a, s'⟩
  · rw [attempt_of_error hxs]
    exact hh e s' (hx.error hs hxs)
  · rw [attempt_of_ok hxs]
    exact hx.ok hs hxs

end Triple

end Effect

end Lib
