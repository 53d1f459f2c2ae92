import LemonMarket.Lib.Window

/-!
# LemonMarket.Lib.Lots

**Lots drawn first in, first out.** A bucket that keeps only a total can be read as
the list of what was put into it, oldest first: `drawn ls n` is what taking `n` out
takes, and `left ls n` what it leaves, the lot on the boundary being split between
them. Nothing is lost (`total_drawn`, `total_left`), and a lot in either part keeps
its time (`drawn_time`, `left_time`), so whatever bounds the ages of a bucket bounds
the ages of what is taken from it.
-/

namespace Lib

/-- What a list of lots comes to. -/
def total : List Timed → Nat
  | [] => 0
  | l :: ls => l.amount + total ls

/-- The oldest `n` of a list of lots. -/
def drawn : List Timed → Nat → List Timed
  | [], _ => []
  | l :: ls, n => if n < l.amount then [⟨l.time, n⟩] else l :: drawn ls (n - l.amount)

/-- What is there once the oldest `n` are gone. -/
def left : List Timed → Nat → List Timed
  | [], _ => []
  | l :: ls, n => if n < l.amount then ⟨l.time, l.amount - n⟩ :: ls else left ls (n - l.amount)

variable {ls : List Timed} {n : Nat}

@[simp] theorem total_nil : total [] = 0 := rfl

@[simp] theorem total_snoc (l : Timed) : total (ls ++ [l]) = total ls + l.amount := by
  induction ls with
  | nil => simp [total]
  | cons x xs ih =>
      simp only [List.cons_append, total, ih]
      omega

theorem total_drawn (h : n ≤ total ls) : total (drawn ls n) = n := by
  induction ls generalizing n with
  | nil =>
      rw [total] at h
      rw [drawn, total]
      omega
  | cons l ls ih =>
      rw [total] at h
      unfold drawn
      split
      next => rfl
      next hl =>
        have hrest := ih (n := n - l.amount) (by omega)
        rw [total, hrest]
        omega

theorem total_left (h : n ≤ total ls) : total (left ls n) + n = total ls := by
  induction ls generalizing n with
  | nil =>
      rw [total] at h
      rw [left, total]
      omega
  | cons l ls ih =>
      rw [total] at h
      unfold left
      split
      next hl =>
        simp only [total]
        omega
      next hl =>
        have hrest := ih (n := n - l.amount) (by omega)
        rw [total]
        omega

/-- A lot that was taken was put in when it says. -/
theorem drawn_time {l : Timed} (h : l ∈ drawn ls n) : ∃ m ∈ ls, m.time = l.time := by
  induction ls generalizing n with
  | nil => simp [drawn] at h
  | cons x xs ih =>
      unfold drawn at h
      split at h
      next =>
        obtain rfl := List.mem_singleton.mp h
        exact ⟨x, List.mem_cons_self, rfl⟩
      next =>
        rcases List.mem_cons.mp h with rfl | h
        · exact ⟨l, List.mem_cons_self, rfl⟩
        · obtain ⟨m, hm, ht⟩ := ih h
          exact ⟨m, List.mem_cons_of_mem _ hm, ht⟩

/-- A lot that stays was put in when it says. -/
theorem left_time {l : Timed} (h : l ∈ left ls n) : ∃ m ∈ ls, m.time = l.time := by
  induction ls generalizing n with
  | nil => simp [left] at h
  | cons x xs ih =>
      unfold left at h
      split at h
      next =>
        rcases List.mem_cons.mp h with rfl | h
        · exact ⟨x, List.mem_cons_self, rfl⟩
        · exact ⟨l, List.mem_cons_of_mem _ h, rfl⟩
      next =>
        obtain ⟨m, hm, ht⟩ := ih h
        exact ⟨m, List.mem_cons_of_mem _ hm, ht⟩

end Lib
