import Mathlib.Data.List.AList

/-!
# LemonMarket.Lib.Table

**Keyed tables, and the three writes a handler of events makes to one.** A `Table κ ρ` has
at most one row for each key. `upsert` inserts a row or changes the one that is there,
`update` changes a row that has to be there, and `tryUpdate` changes it if it is.

`column` reads a number off the row of a key, a missing row counting as zero, so that a
table of amounts is compared with a total function. What a write adds to a column is the
same whether the row was there or not, but for a `tryUpdate` that finds none: that one is
lost, and `column_tryUpdate` asks for a nonzero entry.
-/

namespace Lib

/-- Rows by their key. -/
abbrev Table (κ ρ : Type) := AList fun _ : κ => ρ

namespace Table

variable {κ ρ : Type} [DecidableEq κ] {t u : Table κ ρ} {k k' : κ} {r fresh : ρ} {f : ρ → ρ}
  {g : ρ → Int} {d : Int}

/-- Insert a row, or change the one in the way. -/
def upsert (t : Table κ ρ) (k : κ) (fresh : ρ) (onConflict : ρ → ρ) : Table κ ρ :=
  t.insert k (((t.lookup k).map onConflict).getD fresh)

/-- Change a row. There is no result where there is no row. -/
def update (t : Table κ ρ) (k : κ) (f : ρ → ρ) : Option (Table κ ρ) :=
  (t.lookup k).map fun r => t.insert k (f r)

/-- Change a row, if there is one. -/
def tryUpdate (t : Table κ ρ) (k : κ) (f : ρ → ρ) : Table κ ρ := (t.update k f).getD t

/-- One number of a key's row. -/
def column (t : Table κ ρ) (g : ρ → Int) (k : κ) : Int := ((t.lookup k).map g).getD 0

/-- Every row, with its key. -/
def rows (t : Table κ ρ) : List (κ × ρ) := t.entries.map fun e => (e.1, e.2)

/-! ### Lookups -/

theorem lookup_upsert_self :
    (t.upsert k fresh f).lookup k = some (((t.lookup k).map f).getD fresh) :=
  AList.lookup_insert t

theorem lookup_upsert_of_ne (h : k' ≠ k) : (t.upsert k fresh f).lookup k' = t.lookup k' :=
  AList.lookup_insert_ne h

theorem update_eq_some : t.update k f = some u ↔ ∃ r, t.lookup k = some r ∧ t.insert k (f r) = u :=
  Option.map_eq_some_iff

theorem lookup_update_self (hr : t.lookup k = some r) (h : t.update k f = some u) :
    u.lookup k = some (f r) := by
  obtain ⟨r', hr', rfl⟩ := update_eq_some.mp h
  obtain rfl : r = r' := Option.some.inj (hr.symm.trans hr')
  exact AList.lookup_insert t

theorem lookup_update_of_ne (hk : k' ≠ k) (h : t.update k f = some u) :
    u.lookup k' = t.lookup k' := by
  obtain ⟨r, -, rfl⟩ := update_eq_some.mp h
  exact AList.lookup_insert_ne hk

theorem lookup_tryUpdate_of_ne (hk : k' ≠ k) :
    (t.tryUpdate k f).lookup k' = t.lookup k' := by
  rw [tryUpdate]
  rcases hu : t.update k f with _ | u
  · rfl
  · exact lookup_update_of_ne hk hu

/-! ### Columns -/

@[simp] theorem column_empty : column (∅ : Table κ ρ) g k = 0 := rfl

theorem column_of_lookup (h : t.lookup k = some r) : t.column g k = g r := by
  rw [column, h]
  rfl

theorem column_insert : column (t.insert k r) g k' = if k' = k then g r else t.column g k' := by
  by_cases hk : k' = k
  · subst hk
    rw [if_pos rfl]
    exact column_of_lookup (AList.lookup_insert t)
  · rw [if_neg hk, column, column, AList.lookup_insert_ne hk]

/-- A key with a nonzero entry has a row. -/
theorem exists_row (h : t.column g k ≠ 0) : ∃ r, t.lookup k = some r := by
  rcases hr : t.lookup k with _ | r
  · rw [column, hr] at h
    exact absurd rfl h
  · exact ⟨r, rfl⟩

/-- A new row that starts a column at `d`, and a change that adds `d`, add `d`. -/
theorem column_upsert (hfresh : g fresh = d) (hf : ∀ r, g (f r) = g r + d) :
    (t.upsert k fresh f).column g k' = t.column g k' + if k' = k then d else 0 := by
  rw [upsert, column_insert]
  split
  next hk =>
    subst hk
    rcases hr : t.lookup k' with _ | r
    · simp [column, hr, hfresh]
    · simp [column, hr, hf]
  next => rw [Int.add_zero]

theorem column_update (hf : ∀ r, g (f r) = g r + d) (h : t.update k f = some u) :
    u.column g k' = t.column g k' + if k' = k then d else 0 := by
  obtain ⟨r, hr, rfl⟩ := update_eq_some.mp h
  rw [column_insert]
  split
  next hk => rw [hf, hk, column_of_lookup hr]
  next => rw [Int.add_zero]

/-- An update of a key with a nonzero entry goes through. -/
theorem update_of_column (h : t.column g k ≠ 0) : ∃ u, t.update k f = some u := by
  obtain ⟨r, hr⟩ := exists_row h
  exact ⟨_, update_eq_some.mpr ⟨r, hr, rfl⟩⟩

/-- Where the entry is nonzero, or the change adds nothing, no change is lost. -/
theorem column_tryUpdate (hf : ∀ r, g (f r) = g r + d) (h : t.column g k ≠ 0 ∨ d = 0) :
    (t.tryUpdate k f).column g k' = t.column g k' + if k' = k then d else 0 := by
  rcases hu : t.update k f with _ | u
  · obtain rfl : d = 0 := by
      refine h.resolve_left fun hne => ?_
      obtain ⟨u, hsome⟩ := update_of_column (f := f) hne
      rw [hu] at hsome
      cases hsome
    rw [tryUpdate, hu, Option.getD_none, ite_self, Int.add_zero]
  · rw [tryUpdate, hu, Option.getD_some]
    exact column_update hf hu

theorem column_tryUpdate_of_ne (hk : k' ≠ k) : (t.tryUpdate k f).column g k' = t.column g k' := by
  rw [tryUpdate, update]
  rcases t.lookup k with _ | r
  · rfl
  · exact column_insert.trans (if_neg hk)

/-! ### Rows -/

omit [DecidableEq κ] in
theorem map_fst_rows : t.rows.map Prod.fst = t.keys := by
  rw [rows, List.map_map]
  rfl

omit [DecidableEq κ] in
/-- No key has two rows. -/
theorem nodup_rows : (t.rows.map Prod.fst).Nodup := by
  rw [map_fst_rows]
  exact t.keys_nodup

theorem mem_rows : (k, r) ∈ t.rows ↔ t.lookup k = some r := by
  have hentry : (k, r) ∈ t.rows ↔ (⟨k, r⟩ : Sigma fun _ : κ => ρ) ∈ t.entries := by
    rw [rows, List.mem_map]
    constructor
    · rintro ⟨e, he, heq⟩
      obtain ⟨rfl, rfl⟩ := Prod.mk.inj heq
      exact he
    · intro he
      exact ⟨_, he, rfl⟩
  rw [hentry]
  exact (AList.mem_lookup_iff (s := t)).symm

end Table

end Lib
