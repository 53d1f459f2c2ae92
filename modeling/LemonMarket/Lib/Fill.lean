import Mathlib.Algebra.BigOperators.Group.List.Basic
import Mathlib.Algebra.Order.BigOperators.Group.List
import Mathlib.Algebra.Order.Ring.Nat
import Mathlib.Data.List.Sort

/-!
# LemonMarket.Lib.Fill

**Filling an amount from keys in an order.** A fill records what each key has given,
what it can still give, and what is still wanted. A loop that draws from one key after
another keeps the books (`Fill.Sound`), and reaches a key only when what stands ahead of
it is used up (`Draws.emptied`).

The order is usually a stable sort; `ahead_insertionSort` says which of two entries it
puts first.
-/

namespace Lib

universe u v w

/-! ### Lists -/

section Lists

variable {α : Type u}

theorem sum_map_add_le {l : List α} {f g : α → Nat} {a : α} {n : Nat} (ha : a ∈ l)
    (hle : ∀ x ∈ l, f x ≤ g x) (hlt : f a + n ≤ g a) : (l.map f).sum + n ≤ (l.map g).sum := by
  obtain ⟨before, after, rfl⟩ := List.append_of_mem ha
  have hbefore : (before.map f).sum ≤ (before.map g).sum :=
    List.sum_le_sum fun x hx => hle x (List.mem_append_left _ hx)
  have hafter : (after.map f).sum ≤ (after.map g).sum :=
    List.sum_le_sum fun x hx => hle x (List.mem_append_right _ (List.mem_cons_of_mem _ hx))
  simp only [List.map_append, List.map_cons, List.sum_append, List.sum_cons]
  omega

theorem sum_map_update [DecidableEq α] {l : List α} (hl : l.Nodup) {a : α} (ha : a ∈ l)
    (f : α → Nat) (n : Nat) :
    (l.map (Function.update f a (f a + n))).sum = (l.map f).sum + n := by
  obtain ⟨before, after, rfl⟩ := List.append_of_mem ha
  rw [List.nodup_middle, List.nodup_cons, List.mem_append, not_or] at hl
  have hframe : ∀ xs : List α, a ∉ xs → xs.map (Function.update f a (f a + n)) = xs.map f :=
    fun xs hxs => List.map_congr_left fun x hx =>
      Function.update_of_ne (fun h : x = a => hxs (h ▸ hx)) _ _
  simp only [List.map_append, List.map_cons, List.sum_append, List.sum_cons, Function.update_self]
  rw [hframe before hl.1.1, hframe after hl.1.2]
  omega

theorem sum_filter_pos (l : List (α × Nat)) :
    ((l.filter fun entry => entry.2 > 0).map Prod.snd).sum = (l.map Prod.snd).sum := by
  induction l with
  | nil => rfl
  | cons entry rest ih =>
      by_cases hpos : entry.2 > 0
      · rw [List.filter_cons_of_pos (by simpa using hpos), List.map_cons, List.map_cons,
          List.sum_cons, List.sum_cons, ih]
      · rw [List.filter_cons_of_neg (by simpa using hpos), List.map_cons, List.sum_cons, ih]
        omega

/-- Two entries of a list, one of them ahead. -/
theorem pair_sublist_or {l : List α} {a b : α} (ha : a ∈ l) (hb : b ∈ l) (hab : a ≠ b) :
    [a, b].Sublist l ∨ [b, a].Sublist l := by
  obtain ⟨before, after, rfl⟩ := List.append_of_mem ha
  rw [List.mem_append, List.mem_cons] at hb
  rcases hb with hb | rfl | hb
  · exact .inr ((List.singleton_sublist.mpr hb).append
      (List.singleton_sublist.mpr (List.mem_cons_self ..)))
  · exact absurd rfl hab
  · exact .inl (((List.singleton_sublist.mpr hb).cons_cons a).trans (List.sublist_append_right ..))

theorem pair_sublist_trans {l : List α} (hl : l.Nodup) {a b c : α} (hab : [a, b].Sublist l)
    (hbc : [b, c].Sublist l) : [a, c].Sublist l := by
  induction l with
  | nil => exact absurd hab (by simp)
  | cons d rest ih =>
      obtain ⟨hd, hrest⟩ := List.nodup_cons.mp hl
      have hb : b ∈ rest := by
        rcases List.sublist_cons_iff.mp hab with h | ⟨_, h, htail⟩
        · exact h.subset (by simp)
        · cases h
          exact List.singleton_sublist.mp htail
      have hbc' : [b, c].Sublist rest := by
        rcases List.sublist_cons_iff.mp hbc with h | ⟨_, h, -⟩
        · exact h
        · cases h
          exact absurd hb hd
      rcases List.sublist_cons_iff.mp hab with h | ⟨_, h, -⟩
      · exact (ih hrest h hbc').cons d
      · cases h
        exact List.Sublist.cons_cons _ (List.singleton_sublist.mpr (hbc'.subset (by simp)))

theorem pair_sublist_filter {l : List α} {a b : α} {p : α → Bool} (h : [a, b].Sublist l)
    (ha : p a = true) (hb : p b = true) : [a, b].Sublist (l.filter p) := by
  have hfilter := h.filter p
  rwa [List.filter_cons_of_pos ha, List.filter_cons_of_pos hb, List.filter_nil] at hfilter

/-- A stable sort puts `a` ahead of `b` if the order does, or ties them and the list
did. -/
theorem ahead_insertionSort {r : α → α → Prop} [DecidableRel r] [Std.Total r] [IsTrans α r]
    {l : List α} {a b : α} (ha : a ∈ l) (hb : b ∈ l) (hab : r a b)
    (h : ¬ r b a ∨ [a, b].Sublist l) : [a, b].Sublist (l.insertionSort r) := by
  rcases h with h | h
  · have hne : a ≠ b := fun e => h (e ▸ e ▸ hab)
    rcases pair_sublist_or ((List.mem_insertionSort r).mpr ha) ((List.mem_insertionSort r).mpr hb)
      hne with hfirst | hsecond
    · exact hfirst
    · have hrel := (List.pairwise_insertionSort r l).sublist hsecond
      exact absurd (List.rel_of_pairwise_cons hrel (List.mem_singleton_self a)) h
  · exact List.pair_sublist_insertionSort hab h

end Lists

/-! ### Fills -/

/-- What each key has given, what it has left, and what is still wanted. -/
structure Fill (κ : Type u) where
  given : κ → Nat
  left : κ → Nat
  wanted : Nat

namespace Fill

variable {κ : Type u} [DecidableEq κ]

def draw (f : Fill κ) (k : κ) (n : Nat) : Fill κ where
  given := Function.update f.given k (f.given k + n)
  left := Function.update f.left k (f.left k - n)
  wanted := f.wanted - n

variable {f : Fill κ} {k k' : κ} {n : Nat}

@[simp] theorem draw_given_self : (f.draw k n).given k = f.given k + n := Function.update_self ..

@[simp] theorem draw_left_self : (f.draw k n).left k = f.left k - n := Function.update_self ..

@[simp] theorem draw_wanted : (f.draw k n).wanted = f.wanted - n := rfl

theorem draw_given_of_ne (h : k' ≠ k) : (f.draw k n).given k' = f.given k' :=
  Function.update_of_ne h ..

theorem draw_left_of_ne (h : k' ≠ k) : (f.draw k n).left k' = f.left k' :=
  Function.update_of_ne h ..

@[simp] theorem draw_zero : f.draw k 0 = f := by simp [draw]

/-- The books of a fill of `amount` from what each key had. -/
structure Sound (has : κ → Nat) (keys : List κ) (amount : Nat) (f : Fill κ) : Prop where
  split : ∀ k, f.given k + f.left k = has k
  total : (keys.map f.given).sum + f.wanted = amount

theorem Sound.draw {has : κ → Nat} {keys : List κ} {amount : Nat} (h : f.Sound has keys amount)
    (hkeys : keys.Nodup) (hk : k ∈ keys) (hwanted : n ≤ f.wanted) (hleft : n ≤ f.left k) :
    (f.draw k n).Sound has keys amount where
  split k' := by
    by_cases hkk : k' = k
    · have := h.split k
      rw [hkk, draw_given_self, draw_left_self]
      omega
    · rw [draw_given_of_ne hkk, draw_left_of_ne hkk, h.split]
  total := by
    have := h.total
    show (keys.map (Function.update f.given k (f.given k + n))).sum + (f.wanted - n) = amount
    rw [sum_map_update hkeys hk]
    omega

end Fill

/-! ### Loops that draw -/

/-- A step draws from its entry's key no more than is wanted or left there, and nothing
when less than `floor` is wanted. -/
def Draws {σ : Type u} {β : Type v} {κ : Type w} [DecidableEq κ] (view : σ → Fill κ)
    (step : σ → β → σ) (key : β → κ) (floor : Nat) : Prop :=
  ∀ s b, ∃ n, n ≤ (view s).wanted ∧ n ≤ (view s).left (key b) ∧
    view (step s b) = (view s).draw (key b) n ∧ ((view s).wanted < floor → n = 0)

namespace Draws

variable {σ : Type u} {β : Type v} {κ : Type w} [DecidableEq κ] {view : σ → Fill κ}
  {step : σ → β → σ} {key : β → κ} {floor : Nat} {l : List β} {x y : β} {k : κ} {s : σ}

theorem foldl_sound (h : Draws view step key floor) {has : κ → Nat} {keys : List κ} {amount : Nat}
    (hkeys : keys.Nodup) (hl : ∀ b ∈ l, key b ∈ keys) (hs : (view s).Sound has keys amount) :
    (view (l.foldl step s)).Sound has keys amount := by
  induction l generalizing s with
  | nil => exact hs
  | cons b rest ih =>
      obtain ⟨n, hwanted, hleft, hview, -⟩ := h s b
      refine ih (fun b hb => hl b (List.mem_cons_of_mem _ hb)) ?_
      rw [hview]
      exact hs.draw hkeys (hl b (List.mem_cons_self ..)) hwanted hleft

theorem step_le (h : Draws view step key floor) (b : β) (k : κ) :
    (view s).given k ≤ (view (step s b)).given k ∧ (view (step s b)).left k ≤ (view s).left k ∧
      (view (step s b)).wanted ≤ (view s).wanted := by
  obtain ⟨n, -, -, hview, -⟩ := h s b
  rw [hview]
  by_cases hk : k = key b
  · rw [hk, Fill.draw_given_self, Fill.draw_left_self, Fill.draw_wanted]
    omega
  · rw [Fill.draw_given_of_ne hk, Fill.draw_left_of_ne hk, Fill.draw_wanted]
    omega

theorem foldl_le (h : Draws view step key floor) (l : List β) (s : σ) (k : κ) :
    (view s).given k ≤ (view (l.foldl step s)).given k ∧
      (view (l.foldl step s)).left k ≤ (view s).left k ∧
      (view (l.foldl step s)).wanted ≤ (view s).wanted := by
  induction l generalizing s with
  | nil => exact ⟨le_rfl, le_rfl, le_rfl⟩
  | cons b rest ih =>
      have hstep := h.step_le (s := s) b k
      have hrest := ih (step s b)
      show (view s).given k ≤ (view (rest.foldl step (step s b))).given k ∧ _
      exact ⟨hstep.1.trans hrest.1, hrest.2.1.trans hstep.2.1, hrest.2.2.trans hstep.2.2⟩

/-- A key no entry of the loop names is left alone. -/
theorem foldl_of_not_mem (h : Draws view step key floor) (hk : k ∉ l.map key) :
    (view (l.foldl step s)).given k = (view s).given k ∧
      (view (l.foldl step s)).left k = (view s).left k := by
  induction l generalizing s with
  | nil => exact ⟨rfl, rfl⟩
  | cons b rest ih =>
      rw [List.map_cons, List.mem_cons, not_or] at hk
      obtain ⟨n, -, -, hview, -⟩ := h s b
      have hrest := ih (s := step s b) hk.2
      rw [hview, Fill.draw_given_of_ne hk.1, Fill.draw_left_of_ne hk.1] at hrest
      exact hrest

/-- Below the floor the loop draws nothing more. -/
theorem foldl_of_lt (h : Draws view step key floor) (hs : (view s).wanted < floor) :
    view (l.foldl step s) = view s := by
  induction l generalizing s with
  | nil => rfl
  | cons b rest ih =>
      obtain ⟨n, -, -, hview, hfloor⟩ := h s b
      rw [hfloor hs, Fill.draw_zero] at hview
      rw [List.foldl_cons, ih (hview ▸ hs), hview]

/-- The visit to an entry: until then its key is as it was, and after it too. -/
theorem visit (h : Draws view step key floor) (hl : (l.map key).Nodup) (hx : x ∈ l) (s : σ) :
    ∃ (m : σ) (rest : List β), l.foldl step s = rest.foldl step (step m x) ∧
      (view m).given (key x) = (view s).given (key x) ∧
      (view m).left (key x) = (view s).left (key x) ∧ key x ∉ rest.map key := by
  obtain ⟨before, rest, rfl⟩ := List.append_of_mem hx
  rw [List.map_append, List.map_cons, List.nodup_middle, List.nodup_cons, List.mem_append,
    not_or] at hl
  have hbefore := h.foldl_of_not_mem (s := s) hl.1.1
  exact ⟨before.foldl step s, rest, by rw [List.foldl_append, List.foldl_cons], hbefore.1,
    hbefore.2, hl.1.2⟩

/-- Where a visit empties its key or leaves less than the floor, so does the loop. -/
theorem visited (h : Draws view step key floor) (hl : (l.map key).Nodup) (hx : x ∈ l)
    (hstep : ∀ m, (view m).left (key x) = (view s).left (key x) →
      (view (step m x)).left (key x) = 0 ∨ (view (step m x)).wanted < floor) :
    (view (l.foldl step s)).left (key x) = 0 ∨ (view (l.foldl step s)).wanted < floor := by
  obtain ⟨m, rest, hfold, -, hleft, -⟩ := h.visit hl hx s
  have hrest := h.foldl_le rest (step m x) (key x)
  rw [hfold]
  rcases hstep m hleft with hempty | hlow
  · exact .inl (by omega)
  · exact .inr (by omega)

/-- A key is drawn on only when every entry ahead of it is used up. -/
theorem emptied (h : Draws view step key floor) (hl : (l.map key).Nodup)
    (hahead : [x, y].Sublist l)
    (hstep : ∀ m, (view m).left (key x) = (view s).left (key x) →
      (view (step m x)).left (key x) = 0 ∨ (view (step m x)).wanted < floor)
    (hy : (view s).given (key y) < (view (l.foldl step s)).given (key y)) :
    (view (l.foldl step s)).left (key x) = 0 := by
  obtain ⟨before, after, rfl, hx, hafter⟩ := List.cons_sublist_iff.mp hahead
  have hmem := List.singleton_sublist.mp hafter
  rw [List.map_append, List.nodup_append] at hl
  obtain ⟨hbefore, -, hdisjoint⟩ := hl
  have hnot : key y ∉ before.map key := fun hkey =>
    hdisjoint _ hkey _ (List.mem_map_of_mem hmem) rfl
  rw [List.foldl_append] at hy ⊢
  have hrest := h.foldl_le after (before.foldl step s) (key x)
  rcases h.visited hbefore hx hstep with hempty | hlow
  · omega
  · -- nothing is drawn past this point, and `y` was not reached before it
    rw [h.foldl_of_lt hlow, (h.foldl_of_not_mem hnot).1] at hy
    omega

end Draws

end Lib
