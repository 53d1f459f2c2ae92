import LemonMarket.Lib.Run

/-!
# LemonMarket.Lib.Blocks

**Folding a history that comes in blocks.** A `Block` is a part of a run with the state it
leaves, and a `BlockRun` a run in such parts; where the cuts fall is not constrained. What
follows a run by a fold (`foldlM` with a step that may fail) is related to its states by
two rules. `Run.fold` goes transition by transition, `BlockRun.fold` block by block, and in
both the fold does not fail because no step of it does. `foldlM_any` is about a part of the
accumulator that a step either overwrites or leaves.
-/

namespace Lib

variable {σ ℓ α : Type} {next : σ → ℓ → Option σ} {s₀ s : σ} {tr : List (Transition σ ℓ)}

/-- Some transitions of a run, and the state after the last of them. -/
structure Block (σ ℓ : Type) where
  transitions : List (Transition σ ℓ)
  post : σ

/-- `BlockRun next s₀ blocks s`: the blocks, in order, lead from `s₀` to `s`. -/
inductive BlockRun (next : σ → ℓ → Option σ) (s₀ : σ) : List (Block σ ℓ) → σ → Prop
  | nil : BlockRun next s₀ [] s₀
  | snoc {blocks : List (Block σ ℓ)} {s : σ} {b : Block σ ℓ} (chain : BlockRun next s₀ blocks s)
      (run : Run next s b.transitions b.post) : BlockRun next s₀ (blocks ++ [b]) b.post

/-- One transition in a block of its own. -/
def Block.single (t : Transition σ ℓ) : Block σ ℓ := ⟨[t], t.post⟩

variable {blocks : List (Block σ ℓ)} {a : α}

/-- A run is one in blocks of a single transition. -/
theorem Run.singles (h : Run next s₀ tr s) : BlockRun next s₀ (tr.map Block.single) s := by
  induction h with
  | nil => exact .nil
  | @snoc tr s s' l run hs ih =>
      rw [List.map_append]
      exact .snoc ih (.snoc .nil hs)

/-- What relates the start of a fold to the start of a run, and every step taken under a
condition carries on, relates their ends. -/
theorem Run.fold {f : α → Transition σ ℓ → Option α} {J : α → σ → Prop}
    {P : Transition σ ℓ → Prop} (h : Run next s₀ tr s) (meets : ∀ t ∈ tr, P t) (start : J a s₀)
    (step : ∀ a s l s', P ⟨s, l, s'⟩ → J a s → next s l = some s' →
      ∃ a', f a ⟨s, l, s'⟩ = some a' ∧ J a' s') :
    ∃ a', tr.foldlM f a = some a' ∧ J a' s := by
  refine h.history (I := fun tr s => ∃ a', tr.foldlM f a = some a' ∧ J a' s) meets
    ⟨a, rfl, start⟩ ?_
  rintro tr s l s' hp ⟨a₁, hfold, hJ⟩ hs
  obtain ⟨a₂, hlast, hJ⟩ := step a₁ s l s' hp hJ hs
  exact ⟨a₂, by simp [List.foldlM_append, hfold, hlast], hJ⟩

/-- The same for a fold over blocks. -/
theorem BlockRun.fold {f : α → Block σ ℓ → Option α} {J : α → σ → Prop} {P : Block σ ℓ → Prop}
    (h : BlockRun next s₀ blocks s) (meets : ∀ b ∈ blocks, P b) (start : J a s₀)
    (block : ∀ a s b, P b → J a s → Run next s b.transitions b.post →
      ∃ a', f a b = some a' ∧ J a' b.post) :
    ∃ a', blocks.foldlM f a = some a' ∧ J a' s := by
  induction h with
  | nil => exact ⟨a, rfl, start⟩
  | @snoc blocks s b chain run ih =>
      obtain ⟨a₁, hfold, hJ⟩ := ih fun b hb => meets b (List.mem_append_left _ hb)
      obtain ⟨a₂, hlast, hJ⟩ := block a₁ s b
        (meets b (List.mem_append_right _ (List.mem_singleton_self b))) hJ run
      exact ⟨a₂, by simp [List.foldlM_append, hfold, hlast], hJ⟩

/-- Where every step of a fold sets what `g` reads to `c`, or leaves it, the fold sets it if
any step does. -/
theorem foldlM_any {β γ : Type} {f : α → β → Option α} {g : α → γ} {c : γ} {p : β → Bool}
    {l : List β} {a' : α} (step : ∀ a b a', f a b = some a' → g a' = if p b then c else g a)
    (h : l.foldlM f a = some a') : g a' = if l.any p then c else g a := by
  induction l generalizing a with
  | nil =>
      obtain rfl := Option.some.inj h
      rfl
  | cons b l ih =>
      rw [List.foldlM_cons] at h
      obtain ⟨a₁, hstep, hrest⟩ := Option.bind_eq_some_iff.mp h
      rw [ih hrest, step a b a₁ hstep, List.any_cons]
      cases p b <;> simp

end Lib
