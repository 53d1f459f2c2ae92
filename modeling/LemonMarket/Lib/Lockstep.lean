import LemonMarket.Lib.Effect

/-!
# LemonMarket.Lib.Lockstep

**Two effects side by side.** `Lockstep P x y Q E`: from states that `P` relates, `x` and `y` end
alike, both well, with `Q` of their answers and states, or both in an error, with `E` of these.
There is one rule for each way two effects are built alike, and one for a step that only the
first makes (`Lockstep.alone`), so a proof follows the two texts together.
-/

namespace Lib

namespace Effect

variable {σ τ ε φ α β γ δ : Type}

/-- Two runs end alike. -/
def Alike (Q : α → β → σ → τ → Prop) (E : ε → φ → σ → τ → Prop) :
    Except ε α × σ → Except φ β × τ → Prop
  | (.ok a, s), (.ok b, t) => Q a b s t
  | (.error e, s), (.error f, t) => E e f s t
  | _, _ => False

theorem Alike.mono {Q Q' : α → β → σ → τ → Prop} {E E' : ε → φ → σ → τ → Prop}
    {x : Except ε α × σ} {y : Except φ β × τ} (h : Alike Q E x y)
    (hQ : ∀ a b s t, Q a b s t → Q' a b s t) (hE : ∀ e f s t, E e f s t → E' e f s t) :
    Alike Q' E' x y := by
  rcases x with ⟨e | a, s⟩ <;> rcases y with ⟨f | b, t⟩
  · exact hE e f s t h
  · exact h
  · exact h
  · exact hQ a b s t h

def Lockstep (P : σ → τ → Prop) (x : Effect σ ε α) (y : Effect τ φ β)
    (Q : α → β → σ → τ → Prop) (E : ε → φ → σ → τ → Prop) : Prop :=
  ∀ s t, P s t → Alike Q E (x s) (y t)

namespace Lockstep

variable {P P' : σ → τ → Prop} {x : Effect σ ε α} {y : Effect τ φ β}
  {Q Q' : α → β → σ → τ → Prop} {E E' : ε → φ → σ → τ → Prop}

theorem consequence (h : Lockstep P x y Q E) (hP : ∀ s t, P' s t → P s t)
    (hQ : ∀ a b s t, Q a b s t → Q' a b s t) (hE : ∀ e f s t, E e f s t → E' e f s t) :
    Lockstep P' x y Q' E' :=
  fun s t hst => (h s t (hP s t hst)).mono hQ hE

/-- What the states have in common may be taken apart first. -/
theorem of_exists {ι : Type} {P : ι → σ → τ → Prop} (h : ∀ i, Lockstep (P i) x y Q E) :
    Lockstep (fun s t => ∃ i, P i s t) x y Q E :=
  fun s t ⟨i, hst⟩ => h i s t hst

/-- What is known whatever the states are may be taken apart first. -/
theorem of_and {p : Prop} (h : p → Lockstep P x y Q E) :
    Lockstep (fun s t => p ∧ P s t) x y Q E :=
  fun s t hst => h hst.1 s t hst.2

theorem pure {a : α} {b : β} (h : ∀ s t, P s t → Q a b s t) :
    Lockstep P (Pure.pure a : Effect σ ε α) (Pure.pure b : Effect τ φ β) Q E := h

theorem fail {e : ε} {f : φ} (h : ∀ s t, P s t → E e f s t) :
    Lockstep P (Effect.fail e : Effect σ ε α) (Effect.fail f : Effect τ φ β) Q E := h

theorem failWith {e : σ → ε} {f : τ → φ} (h : ∀ s t, P s t → E (e s) (f t) s t) :
    Lockstep P (Effect.failWith e : Effect σ ε α) (Effect.failWith f : Effect τ φ β) Q E := h

theorem update {g : σ → σ} {k : τ → τ} {Q : Unit → Unit → σ → τ → Prop}
    (h : ∀ s t, P s t → Q () () (g s) (k t)) :
    Lockstep P (Effect.update g : Effect σ ε Unit) (Effect.update k : Effect τ φ Unit) Q E := h

theorem bind {k : α → Effect σ ε γ} {l : β → Effect τ φ δ} {R : γ → δ → σ → τ → Prop}
    (hxy : Lockstep P x y Q E) (hkl : ∀ a b, Lockstep (Q a b) (k a) (l b) R E) :
    Lockstep P (x >>= k) (y >>= l) R E := by
  intro s t hst
  have hends := hxy s t hst
  rcases hx : x s with ⟨e | a, s'⟩ <;> rcases hy : y t with ⟨f | b, t'⟩ <;> rw [hx, hy] at hends
  · rw [bind_of_error hx, bind_of_error hy]
    exact hends
  · exact hends.elim
  · exact hends.elim
  · rw [bind_of_ok hx, bind_of_ok hy]
    exact hkl a b s' t' hends

/-- A step of the first alone. -/
theorem alone {k : α → Effect σ ε γ} {y : Effect τ φ δ} {R : γ → δ → σ → τ → Prop}
    {Q : α → σ → τ → Prop} (hx : ∀ s t, P s t → ∃ a s', x s = (.ok a, s') ∧ Q a s' t)
    (hk : ∀ a, Lockstep (Q a) (k a) y R E) : Lockstep P (x >>= k) y R E := by
  intro s t hst
  obtain ⟨a, s', hs', hq⟩ := hx s t hst
  rw [bind_of_ok hs']
  exact hk a s' t hq

theorem ite {x' : Effect σ ε α} {y' : Effect τ φ β} {c d : Prop} [Decidable c] [Decidable d]
    (hcd : c ↔ d) (hthen : c → Lockstep P x y Q E) (helse : ¬ c → Lockstep P x' y' Q E) :
    Lockstep P (if c then x else x') (if d then y else y') Q E := by
  by_cases hc : c
  · rw [if_pos hc, if_pos (hcd.mp hc)]
    exact hthen hc
  · rw [if_neg hc, if_neg (mt hcd.mpr hc)]
    exact helse hc

theorem onlyIf {x : Effect σ ε Unit} {y : Effect τ φ Unit} {c d : Prop} [Decidable c]
    [Decidable d] {Q : Unit → Unit → σ → τ → Prop} (hcd : c ↔ d) (hxy : Lockstep P x y Q E)
    (hskip : ∀ s t, P s t → Q () () s t) :
    Lockstep P (Effect.onlyIf c x) (Effect.onlyIf d y) Q E :=
  ite hcd (fun _ => hxy) fun _ => pure hskip

theorem attempt {handle : ε → Effect σ ε α} {handle' : φ → Effect τ φ β}
    {F : ε → φ → σ → τ → Prop} (hxy : Lockstep P x y Q F)
    (hh : ∀ e f, Lockstep (F e f) (handle e) (handle' f) Q E) :
    Lockstep P (Effect.attempt x handle) (Effect.attempt y handle') Q E := by
  intro s t hst
  have hends := hxy s t hst
  rcases hx : x s with ⟨e | a, s'⟩ <;> rcases hy : y t with ⟨f | b, t'⟩ <;> rw [hx, hy] at hends
  · rw [attempt_of_error hx, attempt_of_error hy]
    exact hh e f s' t' hends
  · exact hends.elim
  · exact hends.elim
  · rw [attempt_of_ok hx, attempt_of_ok hy]
    exact hends

end Lockstep

end Effect

end Lib
