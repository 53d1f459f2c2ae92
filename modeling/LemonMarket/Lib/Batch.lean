import LemonMarket.Lib.Table
import Mathlib.Algebra.BigOperators.Group.Finset.Basic
import Mathlib.Algebra.Ring.Int.Defs

/-!
# LemonMarket.Lib.Batch

**Many writes to a table at once**, and what a table's rows come to. `upsertAll` writes a row
for each of some items, and `updateAll` changes the rows of some keys, or none if one is
missing. `columnSum` adds a number up over every row; it is read off the columns, so two
tables are compared key by key.
-/

namespace Lib

namespace Table

variable {κ ρ α : Type} [DecidableEq κ] {t u : Table κ ρ} {k : κ} {r : ρ} {f : ρ → ρ}
  {g : ρ → Int} {items : List α} {key : α → κ} {fresh : α → ρ} {onConflict : α → ρ → ρ}

/-- Insert or change the row of each item. -/
def upsertAll (t : Table κ ρ) (items : List α) (key : α → κ) (fresh : α → ρ)
    (onConflict : α → ρ → ρ) : Table κ ρ :=
  items.foldl (fun t a => t.upsert (key a) (fresh a) (onConflict a)) t

/-- Change the row of each key. There is no result where one has no row. -/
def updateAll (t : Table κ ρ) (keys : List κ) (f : ρ → ρ) : Option (Table κ ρ) :=
  keys.foldlM (fun t k => t.update k f) t

/-- A number added up over the rows. -/
def columnSum (t : Table κ ρ) (g : ρ → Int) : Int := (t.rows.map fun row => g row.2).sum

/-! ### Batches -/

theorem lookup_upsertAll_of_not_mem (h : k ∉ items.map key) :
    (t.upsertAll items key fresh onConflict).lookup k = t.lookup k := by
  induction items generalizing t with
  | nil => rfl
  | cons a rest ih =>
      rw [List.map_cons, List.mem_cons, not_or] at h
      rw [upsertAll, List.foldl_cons, ← upsertAll, ih h.2]
      exact lookup_upsert_of_ne h.1

theorem lookup_upsertAll_of_mem (hkeys : (items.map key).Nodup) {a : α} (ha : a ∈ items) :
    (t.upsertAll items key fresh onConflict).lookup (key a) =
      some (((t.lookup (key a)).map (onConflict a)).getD (fresh a)) := by
  induction items generalizing t with
  | nil => cases ha
  | cons b rest ih =>
      obtain ⟨hb, hrest⟩ := List.nodup_cons.mp hkeys
      rw [upsertAll, List.foldl_cons, ← upsertAll]
      rcases List.mem_cons.mp ha with rfl | ha
      · rw [lookup_upsertAll_of_not_mem hb]
        exact lookup_upsert_self
      · have hne : key a ≠ key b := fun heq => hb (heq ▸ List.mem_map_of_mem ha)
        rw [ih hrest ha, lookup_upsert_of_ne hne]

/-- Where every key has its row, all of them are changed. -/
theorem updateAll_some {keys : List κ} (hidem : ∀ r, f (f r) = f r)
    (h : ∀ k ∈ keys, (t.lookup k).isSome) :
    ∃ u, t.updateAll keys f = some u ∧
      ∀ k, u.lookup k = if k ∈ keys then (t.lookup k).map f else t.lookup k := by
  induction keys generalizing t with
  | nil => exact ⟨t, rfl, fun k => rfl⟩
  | cons k₀ rest ih =>
      obtain ⟨r₀, hr₀⟩ := Option.isSome_iff_exists.mp (h k₀ List.mem_cons_self)
      have hupdate : t.update k₀ f = some (t.insert k₀ (f r₀)) :=
        update_eq_some.mpr ⟨r₀, hr₀, rfl⟩
      have hlookup : ∀ k, AList.lookup k (t.insert k₀ (f r₀)) =
          if k = k₀ then (t.lookup k).map f else t.lookup k := by
        intro k
        split
        next heq => rw [heq, AList.lookup_insert, hr₀, Option.map_some]
        next hne => exact AList.lookup_insert_ne hne
      obtain ⟨u, hu, hlook⟩ := ih (t := t.insert k₀ (f r₀)) fun k hk => by
        have hsome := h k (List.mem_cons_of_mem _ hk)
        rw [hlookup]
        split
        next => rwa [Option.isSome_map]
        next => exact hsome
      refine ⟨u, ?_, fun k => ?_⟩
      · rw [updateAll, List.foldlM_cons, hupdate]
        exact hu
      · rw [hlook, hlookup]
        by_cases heq : k = k₀
        · subst heq
          -- a key named twice is changed to the same again
          have hagain : ((t.lookup k).map f).map f = (t.lookup k).map f := by
            rw [Option.map_map]
            exact congrArg (fun h => Option.map h (t.lookup k)) (funext hidem)
          simp [hagain]
        · simp [heq]

/-! ### Sums -/

theorem column_of_lookup_none (h : t.lookup k = none) : t.column g k = 0 := by
  rw [column, h]
  rfl

theorem columnSum_eq_sum_keys : t.columnSum g = (t.keys.map (t.column g)).sum := by
  rw [columnSum, ← map_fst_rows, List.map_map]
  congr 1
  refine List.map_congr_left fun row hrow => ?_
  exact (column_of_lookup (mem_rows.mp hrow)).symm

/-- Over any keys that include all that have a row. -/
theorem columnSum_eq_sum {s : Finset κ} (h : ∀ k, (t.lookup k).isSome → k ∈ s) :
    t.columnSum g = ∑ k ∈ s, t.column g k := by
  rw [columnSum_eq_sum_keys, ← List.sum_toFinset _ t.keys_nodup]
  refine Finset.sum_subset ?_ ?_
  · intro k hk
    refine h k (AList.lookup_isSome.mpr ?_)
    exact List.mem_toFinset.mp hk
  · intro k _ hk
    refine column_of_lookup_none (AList.lookup_eq_none.mpr fun hmem => hk ?_)
    exact List.mem_toFinset.mpr hmem

theorem columnSum_congr (h : ∀ k, t.lookup k = u.lookup k) : t.columnSum g = u.columnSum g := by
  have hkeys : ∀ k, (t.lookup k).isSome → k ∈ u.keys.toFinset := by
    intro k hk
    rw [h] at hk
    exact List.mem_toFinset.mpr (AList.lookup_isSome.mp hk)
  rw [columnSum_eq_sum hkeys, columnSum_eq_sum fun k hk => hkeys k (by rwa [h])]
  refine Finset.sum_congr rfl fun k _ => ?_
  rw [column, column, h]

end Table

end Lib
