import Mathlib.Data.List.Induction
import Mathlib.Data.List.Nodup
import Mathlib.Tactic.Common

/-!
# LemonMarket.Lib.History

**Histories that grow at the end.** `Each ok t` says that every entry of a history is one
`ok` allows after the entries before it; adding an entry asks for that entry only.
`numbered f t` lists what each entry of a history brings about, under the number of the
entry, so that two entries never bring about the same thing.
-/

namespace Lib

variable {α κ : Type}

/-- Every entry is allowed by the entries before it. -/
def Each (ok : List α → α → Prop) (t : List α) : Prop :=
  ∀ before e after, t = before ++ e :: after → ok before e

section

variable {ok : List α → α → Prop} {t : List α} {e : α}

theorem each_nil : Each ok [] := by
  intro before e after h
  cases before <;> cases h

theorem each_snoc : Each ok (t ++ [e]) ↔ Each ok t ∧ ok t e := by
  constructor
  · intro h
    constructor
    · intro before x after ht
      refine h before x (after ++ [e]) ?_
      rw [ht, List.append_assoc, List.cons_append]
    · exact h t e [] rfl
  · rintro ⟨hinit, hlast⟩ before x after ht
    rcases List.eq_nil_or_concat after with rfl | ⟨after, y, rfl⟩
    · obtain ⟨rfl, hx⟩ := List.append_inj' ht rfl
      obtain rfl := List.singleton_inj.mp hx
      exact hlast
    · rw [List.concat_eq_append, ← List.cons_append, ← List.append_assoc] at ht
      obtain ⟨hinit', -⟩ := List.append_inj' ht rfl
      exact hinit before x after hinit'

end

/-- What the entries bring about, each under the number of its entry. -/
def numbered (f : α → List κ) (t : List α) : List (κ × Nat) :=
  t.zipIdx.flatMap fun entry => (f entry.1).map fun k => (k, entry.2)

variable {f : α → List κ} {t : List α} {e : α}

@[simp] theorem numbered_nil : numbered f ([] : List α) = [] := rfl

theorem numbered_snoc :
    numbered f (t ++ [e]) = numbered f t ++ (f e).map fun k => (k, t.length) := by
  simp [numbered, List.zipIdx_append]

theorem numbered_lt {x : κ × Nat} (h : x ∈ numbered f t) : x.2 < t.length := by
  obtain ⟨entry, hentry, hx⟩ := List.mem_flatMap.mp h
  obtain ⟨k, -, rfl⟩ := List.mem_map.mp hx
  have hlt := List.snd_lt_of_mem_zipIdx hentry
  omega

theorem numbered_nodup (h : ∀ e ∈ t, (f e).Nodup) : (numbered f t).Nodup := by
  induction t using List.reverseRecOn with
  | nil => exact List.nodup_nil
  | append_singleton t e ih =>
      rw [numbered_snoc]
      refine List.Nodup.append (ih fun x hx => h x (List.mem_append_left _ hx)) ?_ ?_
      · refine (h e (List.mem_append_right _ (List.mem_singleton_self e))).map ?_
        intro a b hab
        exact (Prod.mk.inj hab).1
      · intro x hx hlast
        obtain ⟨k, -, rfl⟩ := List.mem_map.mp hlast
        exact absurd (numbered_lt hx) (Nat.lt_irrefl _)

end Lib
