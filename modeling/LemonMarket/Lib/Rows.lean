import Mathlib.Algebra.BigOperators.Group.List.Basic
import Mathlib.Tactic.Linarith

/-!
# LemonMarket.Lib.Rows

**Totals over selected rows of a table.** `rowsTotal p w rows` is what a query selecting
`p` and adding up `w` answers. Rows are addressed by position, are appended and changed in
place; `rowsTotal_modify` says what one change does to a total, with additions on both
sides.
-/

namespace Lib

variable {ρ : Type} {p q : ρ → Bool} {w : ρ → Nat} {rows : List ρ}

/-- The total of `w` over the rows `p` selects. -/
def rowsTotal (p : ρ → Bool) (w : ρ → Nat) (rows : List ρ) : Nat :=
  ((rows.filter p).map w).sum

theorem rowsTotal_cons (r : ρ) :
    rowsTotal p w (r :: rows) = (if p r then w r else 0) + rowsTotal p w rows := by
  by_cases hp : p r <;> simp [rowsTotal, hp]

/-- A row that is not selected adds nothing. -/
theorem rowsTotal_append_of_not {r : ρ} (hr : p r = false) :
    rowsTotal p w (rows ++ [r]) = rowsTotal p w rows := by
  simp [rowsTotal, hr]

/-- Changing one row takes its old share out of a total and puts its new one in. -/
theorem rowsTotal_modify {i : Nat} {r : ρ} (f : ρ → ρ) (hi : rows[i]? = some r) :
    rowsTotal p w (rows.modify i f) + (if p r then w r else 0) =
      rowsTotal p w rows + (if p (f r) then w (f r) else 0) := by
  induction rows generalizing i with
  | nil => simp at hi
  | cons r' rows ih =>
      cases i with
      | zero =>
          obtain rfl : r' = r := by simpa using hi
          rw [List.modify_zero_cons, rowsTotal_cons, rowsTotal_cons]
          omega
      | succ i =>
          have htail := ih (by simpa using hi)
          rw [List.modify_succ_cons, rowsTotal_cons, rowsTotal_cons]
          omega

/-- A change that neither selects, drops nor revalues any row leaves a total alone. -/
theorem rowsTotal_modify_of_same {i : Nat} (f : ρ → ρ)
    (hf : ∀ r, p (f r) = p r ∧ w (f r) = w r) :
    rowsTotal p w (rows.modify i f) = rowsTotal p w rows := by
  rcases hi : rows[i]? with _ | r
  · rw [List.modify_eq_self (List.getElem?_eq_none_iff.mp hi)]
  · have hchange := rowsTotal_modify (p := p) (w := w) f hi
    rw [(hf r).1, (hf r).2] at hchange
    omega

/-- A row after a change is one before it, changed or not. -/
theorem getElem?_of_modify {i j : Nat} {r : ρ} {f : ρ → ρ}
    (h : (rows.modify i f)[j]? = some r) :
    ∃ r₀, rows[j]? = some r₀ ∧ r = if i = j then f r₀ else r₀ := by
  rw [List.getElem?_modify] at h
  obtain ⟨r₀, hr₀, rfl⟩ := Option.map_eq_some_iff.mp h
  exact ⟨r₀, hr₀, rfl⟩

/-- A row after an insertion is one before it or the new one, which comes last. -/
theorem getElem?_of_insert {i : Nat} {r r' : ρ} (h : (rows ++ [r])[i]? = some r') :
    rows[i]? = some r' ∨ i = rows.length ∧ r' = r := by
  rcases Nat.lt_or_ge i rows.length with hi | hi
  · exact .inl (by rwa [List.getElem?_append_left hi] at h)
  · rw [List.getElem?_append_right hi, List.getElem?_singleton] at h
    by_cases hzero : i - rows.length = 0
    · rw [if_pos hzero, Option.some.injEq] at h
      exact .inr ⟨by omega, h.symm⟩
    · simp [hzero] at h

/-- Two queries that select the same rows answer the same. -/
theorem rowsTotal_congr (h : ∀ r ∈ rows, p r = q r) : rowsTotal p w rows = rowsTotal q w rows := by
  rw [rowsTotal, rowsTotal, List.filter_congr h]

end Lib
