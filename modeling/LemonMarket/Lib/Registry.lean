import Mathlib.Data.List.Basic
import Mathlib.Data.List.Nodup
import Mathlib.Logic.Function.Basic

/-!
# LemonMarket.Lib.Registry

**A table that enrols each entry once.** A registry keeps a list of entries and looks them
up by key through a table whose unused keys read zero. `Enrols f xs` says that the two
agree: every used key names a listed entry, every listed entry has a key, and no two keys
share one. Writing a fresh entry under an unused key keeps that, and changes no key in use;
so keys and entries correspond one to one whatever the order of the enrolments.
-/

namespace Lib

variable {κ α : Type} [DecidableEq κ] [Zero α]

/-- The table `f` and the list `xs` are one registry. -/
structure Enrols (f : κ → α) (xs : List α) : Prop where
  nonzero : 0 ∉ xs
  listed : ∀ k, f k ≠ 0 → f k ∈ xs
  keyed : ∀ a ∈ xs, ∃ k, f k = a
  once : ∀ k k', f k ≠ 0 → f k = f k' → k = k'

namespace Enrols

variable {f : κ → α} {xs : List α} {a : α} {k : κ}

omit [DecidableEq κ] in
theorem empty : Enrols (fun _ : κ => (0 : α)) [] where
  nonzero := by simp
  listed _ h := absurd rfl h
  keyed := by simp
  once _ _ h := absurd rfl h

omit [DecidableEq κ] in
/-- A listed entry has one key. -/
theorem existsUnique (h : Enrols f xs) (ha : a ∈ xs) : ∃! k, f k = a := by
  obtain ⟨k, rfl⟩ := h.keyed a ha
  have hk : f k ≠ 0 := fun hz => h.nonzero (hz ▸ ha)
  exact ⟨k, rfl, fun k' hk' => (h.once k k' hk hk'.symm).symm⟩

omit [DecidableEq κ] in
/-- A listed entry's key is the one it is known to have. -/
theorem eq_iff (h : Enrols f xs) (ha : a ∈ xs) (hk : f k = a) (k' : κ) : f k' = a ↔ k' = k := by
  obtain ⟨k₀, -, honly⟩ := h.existsUnique ha
  constructor
  · intro hk'
    rw [honly k' hk', honly k hk]
  · rintro rfl
    exact hk

/-- Enrol a fresh entry under an unused key. -/
theorem enrol (h : Enrols f xs) (hfree : f k = 0) (hfresh : a ∉ xs) (ha : a ≠ 0) :
    Enrols (Function.update f k a) (xs ++ [a]) where
  nonzero := by simp [h.nonzero, Ne.symm ha]
  listed k' hk' := by
    by_cases hkk : k' = k
    · subst hkk; simp
    · rw [Function.update_of_ne hkk] at hk' ⊢
      exact List.mem_append_left _ (h.listed k' hk')
  keyed b hb := by
    rcases List.mem_append.mp hb with hb | hb
    · obtain ⟨k', rfl⟩ := h.keyed b hb
      refine ⟨k', Function.update_of_ne ?_ ..⟩
      -- the key in use is not the unused one
      rintro rfl
      exact h.nonzero (hfree ▸ hb)
    · obtain rfl := List.mem_singleton.mp hb
      exact ⟨k, Function.update_self ..⟩
  once k₁ k₂ h₁ h₁₂ := by
    have hother : ∀ k', k' ≠ k → f k' ≠ a := by
      rintro k' - rfl
      exact hfresh (h.listed k' ha)
    by_cases hk₁ : k₁ = k <;> by_cases hk₂ : k₂ = k
    · rw [hk₁, hk₂]
    · rw [hk₁, Function.update_self, Function.update_of_ne hk₂] at h₁₂
      exact absurd h₁₂.symm (hother k₂ hk₂)
    · rw [hk₂, Function.update_self, Function.update_of_ne hk₁] at h₁₂
      exact absurd h₁₂ (hother k₁ hk₁)
    · rw [Function.update_of_ne hk₁] at h₁ h₁₂
      rw [Function.update_of_ne hk₂] at h₁₂
      exact h.once k₁ k₂ h₁ h₁₂

/-- An enrolment leaves the other keys as they were. -/
theorem update_of_used {k' : κ} (hfree : f k = 0) (hused : f k' ≠ 0) :
    Function.update f k a k' = f k' := by
  refine Function.update_of_ne ?_ ..
  rintro rfl
  exact hused hfree

end Enrols

end Lib
