import Mathlib.Algebra.BigOperators.Group.List.Basic
import Mathlib.Data.List.Infix

/-!
# LemonMarket.Lib.Run

**Runs of a labelled transition function.** `next s ℓ` is the state a label takes
`s` to, or `none` when the label is refused there. A `Run` is the trace of the
transitions taken, each with the state on either side, so a property of a whole
history (a sum over the steps, a bound at every state reached) is a property of a
list.

* `Run.history` is the one induction on runs: what one step carries on holds of the
  whole history. `Run.invariant` is its instance for a property of states, and
  `Run.invariant_of` that for the runs whose steps all meet a condition.
* `trace` computes the run a list of labels takes, and `trace_run` says it is
  one, so a concrete history is checked by evaluation.
-/

namespace Lib

variable {σ ℓ : Type}

/-- One step taken: the state before, the label, the state after. -/
structure Transition (σ ℓ : Type) where
  pre : σ
  label : ℓ
  post : σ

/-- `Run next s₀ tr s`: the transitions `tr`, in order, lead from `s₀` to `s`. -/
inductive Run (next : σ → ℓ → Option σ) (s₀ : σ) : List (Transition σ ℓ) → σ → Prop
  | nil : Run next s₀ [] s₀
  | snoc {tr : List (Transition σ ℓ)} {s s' : σ} {l : ℓ}
      (run : Run next s₀ tr s) (step : next s l = some s') :
      Run next s₀ (tr ++ [⟨s, l, s'⟩]) s'

variable {next : σ → ℓ → Option σ} {s₀ s : σ} {tr : List (Transition σ ℓ)}

/-- What holds of the empty history, and every step taken under a condition carries on,
holds of the history and the end of a run whose steps meet the condition. -/
theorem Run.history {I : List (Transition σ ℓ) → σ → Prop} {P : Transition σ ℓ → Prop}
    (h : Run next s₀ tr s) (meets : ∀ t ∈ tr, P t) (start : I [] s₀)
    (step : ∀ tr s l s', P ⟨s, l, s'⟩ → I tr s → next s l = some s' →
      I (tr ++ [⟨s, l, s'⟩]) s') : I tr s := by
  induction h with
  | nil => exact start
  | snoc run hs ih =>
      have hlast := meets _ (List.mem_append_right _ (List.mem_singleton_self _))
      exact step _ _ _ _ hlast (ih fun t ht => meets t (List.mem_append_left _ ht)) hs

/-- What the start has, and every step taken under a condition keeps, every state of a
run whose steps meet the condition has. -/
theorem Run.invariant_of {I : σ → Prop} {P : Transition σ ℓ → Prop} (h : Run next s₀ tr s)
    (meets : ∀ t ∈ tr, P t) (start : I s₀)
    (step : ∀ s l s', P ⟨s, l, s'⟩ → I s → next s l = some s' → I s') :
    I s ∧ ∀ t ∈ tr, I t.pre ∧ I t.post := by
  refine h.history (I := fun tr s => I s ∧ ∀ t ∈ tr, I t.pre ∧ I t.post) meets
    ⟨start, by simp⟩ ?_
  intro tr s l s' hp ih hs
  have hpost := step s l s' hp ih.1 hs
  refine ⟨hpost, ?_⟩
  intro t ht
  rcases List.mem_append.mp ht with ht | ht
  · exact ih.2 t ht
  · obtain rfl := List.mem_singleton.mp ht
    exact ⟨ih.1, hpost⟩

/-- What the start has and one step keeps, every state of the run has. -/
theorem Run.invariant {I : σ → Prop} (h : Run next s₀ tr s) (start : I s₀)
    (step : ∀ s l s', I s → next s l = some s' → I s') :
    I s ∧ ∀ t ∈ tr, I t.pre ∧ I t.post :=
  h.invariant_of (P := fun _ => True) (fun _ _ => trivial) start fun s l s' _ => step s l s'

/-- Every transition of a run is a step of the system. -/
theorem Run.step_of_mem (h : Run next s₀ tr s) :
    ∀ t ∈ tr, next t.pre t.label = some t.post := by
  induction h with
  | nil => simp
  | snoc run hs ih =>
      intro t ht
      rcases List.mem_append.mp ht with ht | ht
      · exact ih t ht
      · obtain rfl := List.mem_singleton.mp ht
        exact hs

/-- The states a history goes through, its start included. -/
def reached (s₀ : σ) (tr : List (Transition σ ℓ)) : List σ := s₀ :: tr.map Transition.post

theorem mem_reached {m : σ} : m ∈ reached s₀ tr ↔ m = s₀ ∨ ∃ t ∈ tr, t.post = m := by
  simp [reached]

/-- A run ends in a state it went through. -/
theorem Run.last_reached (h : Run next s₀ tr s) : s ∈ reached s₀ tr := by
  cases h with
  | nil => exact mem_reached.mpr (.inl rfl)
  | snoc run hs =>
      exact mem_reached.mpr
        (.inr ⟨_, List.mem_append_right _ (List.mem_singleton_self _), rfl⟩)

/-- A transition of a run starts in a state the run went through. -/
theorem Run.pre_reached (h : Run next s₀ tr s) : ∀ t ∈ tr, t.pre ∈ reached s₀ tr := by
  induction h with
  | nil => simp
  | @snoc tr s s' l run hs ih =>
      intro t ht
      have hmore : ∀ m ∈ reached s₀ tr, m ∈ reached s₀ (tr ++ [⟨s, l, s'⟩]) := by
        intro m hm
        rcases mem_reached.mp hm with hm | ⟨u, hu, hm⟩
        · exact mem_reached.mpr (.inl hm)
        · exact mem_reached.mpr (.inr ⟨u, List.mem_append_left _ hu, hm⟩)
      rcases List.mem_append.mp ht with ht | ht
      · exact hmore _ (ih t ht)
      · obtain rfl := List.mem_singleton.mp ht
        exact hmore _ run.last_reached

/-- A run reaches the state after each of its transitions, by a prefix of its
trace. -/
theorem Run.upto_mem {t : Transition σ ℓ} (h : Run next s₀ tr s) (ht : t ∈ tr) :
    ∃ tr₁, tr₁ ++ [t] <+: tr ∧ Run next s₀ (tr₁ ++ [t]) t.post := by
  induction h with
  | nil => simp at ht
  | @snoc tr s s' l run hs ih =>
      rcases List.mem_append.mp ht with ht | ht
      · obtain ⟨tr₁, hpre, hrun⟩ := ih ht
        exact ⟨tr₁, hpre.trans (List.prefix_append _ _), hrun⟩
      · obtain rfl := List.mem_singleton.mp ht
        exact ⟨tr, List.prefix_rfl, .snoc run hs⟩

/-- Cut at one of its transitions, a run is a run up to there and a step. -/
theorem Run.split {tr₁ tr₂ : List (Transition σ ℓ)} {t : Transition σ ℓ}
    (h : Run next s₀ tr s) (ht : tr = tr₁ ++ t :: tr₂) :
    Run next s₀ tr₁ t.pre ∧ next t.pre t.label = some t.post := by
  induction h generalizing tr₂ with
  | nil => simp at ht
  | @snoc tr s s' l run hs ih =>
      rcases List.eq_nil_or_concat tr₂ with rfl | ⟨tr₂, u, rfl⟩
      · obtain ⟨rfl, hlast⟩ := List.append_inj' ht rfl
        obtain rfl := (List.cons.inj hlast).1
        exact ⟨run, hs⟩
      · rw [List.concat_eq_append, ← List.cons_append, ← List.append_assoc] at ht
        exact ih (List.append_inj' ht rfl).1

/-- One run after another. -/
theorem Run.append {tr₁ tr₂ : List (Transition σ ℓ)} {m : σ} (h₁ : Run next s₀ tr₁ m)
    (h₂ : Run next m tr₂ s) : Run next s₀ (tr₁ ++ tr₂) s := by
  induction h₂ with
  | nil => simpa using h₁
  | snoc run hs ih =>
      rw [← List.append_assoc]
      exact .snoc ih hs

/-- A run is a run of any system that takes its steps under other labels. -/
theorem Run.relabel {ℓ' : Type} (next' : σ → ℓ' → Option σ) (f : σ → ℓ → ℓ')
    (h : Run next s₀ tr s) (step : ∀ s l s', next s l = some s' → next' s (f s l) = some s') :
    Run next' s₀ (tr.map fun t => ⟨t.pre, f t.pre t.label, t.post⟩) s := by
  induction h with
  | nil => exact .nil
  | snoc run hs ih =>
      rw [List.map_append]
      exact .snoc ih (step _ _ _ hs)

/-- A run is a run of any system that takes its steps under other labels, where those without
a label there change nothing. -/
theorem Run.project {ℓ' : Type} {next' : σ → ℓ' → Option σ} (f : ℓ → Option ℓ')
    (h : Run next s₀ tr s)
    (step : ∀ s l s', next s l = some s' → match f l with
      | some l' => next' s l' = some s'
      | none => s' = s) :
    Run next' s₀ (tr.filterMap fun t => (f t.label).map fun l => ⟨t.pre, l, t.post⟩) s := by
  induction h with
  | nil => exact .nil
  | @snoc tr s s' l run hs ih =>
      have hstep := step s l s' hs
      rw [List.filterMap_append]
      cases hl : f l with
      | some l' =>
          rw [hl] at hstep
          simpa [hl] using Run.snoc ih hstep
      | none =>
          rw [hl] at hstep
          obtain rfl := hstep
          simpa [hl] using ih

/-- The run a list of labels takes, and where it ends. -/
def trace (next : σ → ℓ → Option σ) : σ → List ℓ → Option (List (Transition σ ℓ) × σ)
  | s, [] => some ([], s)
  | s, l :: ls => do
      let s' ← next s l
      let (tr, last) ← trace next s' ls
      return (⟨s, l, s'⟩ :: tr, last)

theorem trace_run {ls : List ℓ} {s s' : σ} (h : trace next s ls = some (tr, s')) :
    Run next s tr s' := by
  induction ls generalizing s tr with
  | nil =>
      obtain ⟨rfl, rfl⟩ : tr = [] ∧ s' = s := by simpa [trace, eq_comm] using h
      exact .nil
  | cons l ls ih =>
      simp only [trace, Option.bind_eq_bind, Option.bind_eq_some_iff, Option.pure_def,
        Option.some.injEq, Prod.mk.injEq] at h
      obtain ⟨m, hm, ⟨tr', last⟩, hrest, rfl, rfl⟩ := h
      exact Run.append (.snoc .nil hm) (ih hrest)

/-- The transitions of a trace are labelled as asked. -/
theorem trace_labels {ls : List ℓ} {s s' : σ} (h : trace next s ls = some (tr, s')) :
    tr.map Transition.label = ls := by
  induction ls generalizing s tr with
  | nil =>
      obtain ⟨rfl, -⟩ : tr = [] ∧ s' = s := by simpa [trace, eq_comm] using h
      rfl
  | cons l ls ih =>
      simp only [trace, Option.bind_eq_bind, Option.bind_eq_some_iff, Option.pure_def,
        Option.some.injEq, Prod.mk.injEq] at h
      obtain ⟨m, -, ⟨tr', last⟩, hrest, rfl, rfl⟩ := h
      rw [List.map_cons, ih hrest]

end Lib
