import LemonMarket.Lib.Run

/-!
# LemonMarket.Lib.Since

**What has held since.** `Since p q t` says of a history that an entry `p` is in it and no `q`
after that entry. A history that grows keeps it while the entries added are not `q`
(`Since.snoc`), and an entry `p` starts it again (`Since.last`).

Along a run, a property that steps of one kind establish and steps of another end is one that has
held since (`Run.since_iff`).
-/

namespace Lib

variable {α : Type} {p p' q q' : α → Prop} {t : List α} {e : α}

/-- There was a `p`, and no `q` since. -/
def Since (p q : α → Prop) (t : List α) : Prop :=
  ∃ before e after, t = before ++ e :: after ∧ p e ∧ ∀ x ∈ after, ¬ q x

/-- The last entry is one. -/
theorem Since.last (h : p e) : Since p q (t ++ [e]) := ⟨t, e, [], rfl, h, by simp⟩

theorem Since.snoc (h : Since p q t) (he : ¬ q e) : Since p q (t ++ [e]) := by
  obtain ⟨before, x, after, rfl, hx, hafter⟩ := h
  refine ⟨before, x, after ++ [e], by simp, hx, ?_⟩
  intro y hy
  rcases List.mem_append.mp hy with hy | hy
  · exact hafter y hy
  · exact List.mem_singleton.mp hy ▸ he

theorem Since.mono (h : Since p q t) (hp : ∀ e ∈ t, p e → p' e) (hq : ∀ e ∈ t, q' e → q e) :
    Since p' q' t := by
  obtain ⟨before, x, after, rfl, hx, hafter⟩ := h
  refine ⟨before, x, after, rfl, hp x (by simp) hx, ?_⟩
  intro y hy hqy
  exact hafter y hy (hq y (by simp [hy]) hqy)

theorem Since.exists_mem (h : Since p q t) : ∃ e ∈ t, p e := by
  obtain ⟨before, x, after, rfl, hx, -⟩ := h
  exact ⟨x, by simp, hx⟩

/-- What has held since, an entry later. -/
theorem since_snoc_iff : Since p q (t ++ [e]) ↔ p e ∨ Since p q t ∧ ¬ q e := by
  constructor
  · rintro ⟨before, x, after, heq, hx, hafter⟩
    rcases List.eq_nil_or_concat after with rfl | ⟨after, y, rfl⟩
    · obtain ⟨-, hlast⟩ := List.append_inj' heq rfl
      obtain rfl := List.singleton_inj.mp hlast
      exact .inl hx
    · rw [List.concat_eq_append, ← List.cons_append, ← List.append_assoc] at heq
      obtain ⟨rfl, hlast⟩ := List.append_inj' heq rfl
      obtain rfl := List.singleton_inj.mp hlast
      exact .inr ⟨⟨before, x, after, rfl, hx, fun z hz => hafter z (by simp [hz])⟩,
        hafter e (by simp)⟩
  · rintro (h | ⟨h, he⟩)
    · exact .last h
    · exact h.snoc he

/-- **What the last such entry left.** A property that a step establishes by being a `p`, and
otherwise keeps unless it is a `q`, holds at the end of a run exactly where there was a `p` and no
`q` since. -/
theorem Run.since_iff {σ ℓ : Type} {next : σ → ℓ → Option σ} {s₀ s : σ}
    {tr : List (Transition σ ℓ)} {V : σ → Prop} {p q : Transition σ ℓ → Prop}
    (h : Run next s₀ tr s) (start : ¬ V s₀)
    (step : ∀ s l s', next s l = some s' → (V s' ↔ p ⟨s, l, s'⟩ ∨ V s ∧ ¬ q ⟨s, l, s'⟩)) :
    V s ↔ Since p q tr := by
  induction h with
  | nil => exact iff_of_false start (by simp [Since])
  | snoc run hs ih => rw [since_snoc_iff, step _ _ _ hs, ih]

end Lib
