import LemonMarket.Lib.Number
import Mathlib.Data.List.Basic
import Mathlib.Data.Prod.Lex
import Mathlib.Data.List.Sort

/-!
# LemonMarket.Lib.Join

**Rows joined by a key, and put in order.** A map built of rows has the last of each key
(`lastWith`). What a join finds a partner for and what it does not are together the rows it
started with (`join_perm`).

A comparison answers with a number, and one that cannot be told apart from nothing counts as
nothing: it need not be an order. A `Sorting` puts rows in the order of a comparison that is
one on them, so by a comparison that goes by a rank they come in the order of their ranks
(`Sorting.pairwise_rank`). With any other comparison the rows come in some order.
-/

namespace Lib

variable {α β γ κ : Type}

/-- The row a map of the rows has for a key: the last of them. -/
def lastWith [DecidableEq κ] (key : α → κ) (rows : List α) (k : κ) : Option α :=
  rows.reverse.find? fun row => key row = k

section lastWith

variable [DecidableEq κ] {key : α → κ} {rows : List α} {k : κ} {row : α}

theorem lastWith_some (h : lastWith key rows k = some row) : row ∈ rows ∧ key row = k :=
  ⟨List.mem_reverse.mp (List.mem_of_find?_eq_some h), by simpa using List.find?_some h⟩

theorem lastWith_isSome : (lastWith key rows k).isSome ↔ ∃ row ∈ rows, key row = k := by
  simp [lastWith, List.find?_isSome]

end lastWith

/-- The rows that are joined and those that are not, by what they have in common, are the rows
there were. -/
theorem join_perm (f : α → Option β) (joined : β → γ) (single : α → γ) (rows : List α)
    (h : ∀ a ∈ rows, ∀ b, f a = some b → joined b = single a) :
    ((rows.filterMap f).map joined ++ (rows.filter fun a => (f a).isNone).map single).Perm
      (rows.map single) := by
  induction rows with
  | nil => simp
  | cons a rows ih =>
      have ih := ih fun a ha => h a (List.mem_cons_of_mem _ ha)
      cases hf : f a with
      | none =>
          simp only [List.filterMap_cons, hf, List.filter_cons, Option.isNone_none, if_true,
            List.map_cons]
          exact List.perm_middle.trans (ih.cons _)
      | some b =>
          simp only [List.filterMap_cons, hf, List.filter_cons, Option.isNone_some,
            Bool.false_eq_true, if_false, List.map_cons, List.cons_append,
            h a (List.mem_cons_self ..) b hf]
          exact ih.cons _

/-! ### Rows put in order -/

/-- What a comparison says of two rows: the first goes after the second. -/
def After (compare : α → α → Number) (a b : α) : Prop := (Number.finite 0).lt (compare a b) = true

instance (compare : α → α → Number) : DecidableRel (After compare) :=
  fun _ _ => inferInstanceAs (Decidable (_ = true))

/-- On these rows a comparison is an order. -/
structure Consistent (compare : α → α → Number) (rows : List α) : Prop where
  swap : ∀ a ∈ rows, ∀ b ∈ rows, After compare a b ↔ (compare b a).lt (.finite 0) = true
  trans : ∀ a ∈ rows, ∀ b ∈ rows, ∀ c ∈ rows,
    ¬ After compare a b → ¬ After compare b c → ¬ After compare a c

/-- A language's sort. By a comparison that is no order it orders the rows as it likes. -/
structure Sorting where
  sort {α : Type} : (α → α → Number) → List α → List α
  perm : ∀ {α : Type} (compare : α → α → Number) (rows : List α), (sort compare rows).Perm rows
  sorted : ∀ {α : Type} {compare : α → α → Number} {rows : List α}, Consistent compare rows →
    (sort compare rows).Pairwise fun a b => ¬ After compare a b

variable {compare : α → α → Number} {rows : List α}

/-- Two rows are never each after the other. -/
theorem Consistent.total (h : Consistent compare rows) {a b : α} (ha : a ∈ rows) (hb : b ∈ rows) :
    ¬ After compare a b ∨ ¬ After compare b a := by
  by_contra hboth
  obtain ⟨hab, hba⟩ := not_or.mp hboth
  have hlow := (h.swap a ha b hb).mp (not_not.mp hab)
  have hhigh : (Number.finite 0).lt (compare b a) = true := not_not.mp hba
  simp only [Number.lt, Bool.and_eq_true] at hlow hhigh
  simp [hlow.1] at hhigh

/-- Going by a rank, a comparison is an order. -/
theorem Consistent.of_rank {δ : Type} [LinearOrder δ] (rank : α → δ)
    (hafter : ∀ a ∈ rows, ∀ b ∈ rows, After compare a b ↔ rank b < rank a)
    (hbefore : ∀ a ∈ rows, ∀ b ∈ rows,
      (compare a b).lt (.finite 0) = true ↔ rank a < rank b) :
    Consistent compare rows where
  swap a ha b hb := (hafter a ha b hb).trans (hbefore b hb a ha).symm
  trans a ha b hb c hc hab hbc := by
    rw [hafter a ha b hb, not_lt] at hab
    rw [hafter b hb c hc, not_lt] at hbc
    rw [hafter a ha c hc, not_lt]
    exact hab.trans hbc

/-- Sorted by a comparison that goes by a rank, rows come in its order. -/
theorem Sorting.pairwise_rank (sorting : Sorting) {δ : Type} [LinearOrder δ] (rank : α → δ)
    (hafter : ∀ a ∈ rows, ∀ b ∈ rows, After compare a b ↔ rank b < rank a)
    (hbefore : ∀ a ∈ rows, ∀ b ∈ rows,
      (compare a b).lt (.finite 0) = true ↔ rank a < rank b) :
    (sorting.sort compare rows).Pairwise fun a b => rank a ≤ rank b := by
  have hperm := sorting.perm compare rows
  have hsorted := sorting.sorted (.of_rank rank hafter hbefore)
  refine hsorted.imp_of_mem fun ha hb hab => ?_
  rwa [hafter _ (hperm.mem_iff.mp ha) _ (hperm.mem_iff.mp hb), not_lt] at hab

/-- Sorting by insertion. -/
def Sorting.insertion : Sorting where
  sort compare rows := rows.insertionSort fun a b => ¬ After compare a b
  perm _ rows := List.perm_insertionSort _ rows
  sorted {α compare rows} h := by
    -- among the rows themselves the comparison is total and transitive
    let r (a b : { a // a ∈ rows }) : Prop := ¬ After compare a.1 b.1
    have : Std.Total r := ⟨fun a b => h.total a.2 b.2⟩
    have : IsTrans _ r := ⟨fun a b c hab hbc => h.trans _ a.2 _ b.2 _ c.2 hab hbc⟩
    have hmap : (rows.attach.insertionSort r).map Subtype.val =
        rows.insertionSort fun a b => ¬ After compare a b := by
      rw [List.map_insertionSort r (fun a b => ¬ After compare a b) Subtype.val rows.attach
        fun a _ b _ => Iff.rfl, List.attach_map_subtype_val]
    rw [← hmap, List.pairwise_map]
    exact List.pairwise_insertionSort r rows.attach

end Lib
