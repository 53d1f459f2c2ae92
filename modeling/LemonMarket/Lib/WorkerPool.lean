import LemonMarket.Lib.Run
import Mathlib.Data.List.Nodup
import Mathlib.Data.List.Range
import Mathlib.Logic.Function.Basic

/-!
# LemonMarket.Lib.WorkerPool

**Workers sharing one cursor.** A pool has a number of tasks, a cursor to the first one
nobody has taken, and workers, each of which takes the task at the cursor, works on it, and
comes back for the next until there is none. Workers run one at a time and give way only
while they work, so the pool is a transition system whose steps are replies: the worker on
some task is answered, with a result or with a failure that ends it.

`Sound` is what every schedule keeps. Its consequences are stated of whole runs: a task is
answered once and by the reply it was given (`History.of_run`), nothing is left out of a pool
that finished without a failure (`History.fulfilled`), and as long as it has not ended somebody
is at work on a task (`History.progress`).
-/

namespace Lib

variable {ρ : Type}

/-- What a list has somewhere after one entry was set is an old one, or the one that was set. -/
theorem getElem?_set_cases {α : Type} {l : List α} {x y : α} {w v : Nat}
    (h : (l.set w x)[v]? = some y) : (v ≠ w ∧ l[v]? = some y) ∨ (v = w ∧ x = y) := by
  by_cases hv : v = w
  · subst hv
    rw [List.getElem?_set_self'] at h
    exact .inr ⟨rfl, by
      cases hx : l[v]? with
      | none => simp [hx] at h
      | some z => simpa [hx] using h⟩
  · rw [List.getElem?_set_ne (Ne.symm hv)] at h
    exact .inl ⟨hv, h⟩

/-- What a list has somewhere after one entry was added is an old one, or the new one. -/
theorem getElem?_concat_cases {α : Type} {l : List α} {x y : α} {w : Nat}
    (h : (l ++ [x])[w]? = some y) : l[w]? = some y ∨ (w = l.length ∧ x = y) := by
  rcases Nat.lt_trichotomy w l.length with hlt | rfl | hgt
  · exact .inl (by rwa [List.getElem?_append_left hlt] at h)
  · exact .inr ⟨rfl, by simpa using h⟩
  · rw [List.getElem?_eq_none (by simp; omega)] at h
    cases h

/-- What came back to a worker: a result, or a failure. -/
inductive Reply (ρ : Type)
  | resolve (value : ρ)
  | reject
  deriving Repr, DecidableEq

/-- A pool: how many tasks there are, the first one not taken, what each worker is on, the
results so far, and whether a worker has failed. -/
structure WorkerPool (ρ : Type) where
  size : Nat
  cursor : Nat
  workers : List (Option Nat)
  results : Nat → Option ρ
  failed : Bool

/-- How a pool ends: with every slot of its results, or with a failure. -/
inductive Outcome (ρ : Type)
  | fulfilled (values : List (Option ρ))
  | rejected
  deriving Repr, DecidableEq

namespace WorkerPool

/-- The task at the cursor, if one is left. -/
def upcoming (p : WorkerPool ρ) : Option Nat := if p.cursor < p.size then some p.cursor else none

/-- The cursor once that task is taken. -/
def advanced (p : WorkerPool ρ) : Nat := if p.cursor < p.size then p.cursor + 1 else p.cursor

/-- One more worker, up to where it first gives way. -/
def hire (p : WorkerPool ρ) : WorkerPool ρ :=
  { p with cursor := p.advanced, workers := p.workers ++ [p.upcoming] }

/-- A number of workers, one after the other. -/
def staffed : Nat → WorkerPool ρ → WorkerPool ρ
  | 0, p => p
  | n + 1, p => staffed n p.hire

/-- A pool of `n` workers over `size` tasks. -/
def start (size n : Nat) : WorkerPool ρ := staffed n ⟨size, 0, [], fun _ => none, false⟩

/-- The reply to one worker, which goes on to the next task unless it failed. -/
def next (p : WorkerPool ρ) (label : Nat × Reply ρ) : Option (WorkerPool ρ) :=
  match p.workers[label.1]?, label.2 with
  | some (some i), .resolve value => some { p with
      cursor := p.advanced
      workers := p.workers.set label.1 p.upcoming
      results := Function.update p.results i (some value) }
  | some (some _), .reject =>
      some { p with workers := p.workers.set label.1 none, failed := true }
  | _, _ => none

/-- The task a reply is about. -/
def task (p : WorkerPool ρ) (w : Nat) : Option Nat := p.workers[w]?.join

/-- A failure ends the pool; otherwise it ends when every worker has. -/
def outcome (p : WorkerPool ρ) : Option (Outcome ρ) :=
  if p.failed then some .rejected
  else if p.workers.all Option.isNone then
    some (.fulfilled ((List.range p.size).map p.results))
  else none

/-- What every schedule keeps. -/
structure Sound (p : WorkerPool ρ) : Prop where
  bound : p.cursor ≤ p.size
  fresh : ∀ i, p.cursor ≤ i → p.results i = none
  busy : ∀ w i : Nat, p.workers[w]? = some (some i) → i < p.cursor ∧ p.results i = none
  alone : ∀ w w' i : Nat, p.workers[w]? = some (some i) → p.workers[w']? = some (some i) → w = w'
  covered : p.failed = false → ∀ i < p.cursor, p.results i = none →
    ∃ w : Nat, p.workers[w]? = some (some i)
  idle : p.failed = false → ∀ w : Nat, p.workers[w]? = some none → p.cursor = p.size

theorem upcoming_eq_some {p : WorkerPool ρ} {i : Nat} (h : p.upcoming = some i) :
    i = p.cursor ∧ p.cursor < p.size ∧ p.advanced = p.cursor + 1 := by
  unfold upcoming at h
  split at h
  next hlt => exact ⟨(Option.some.inj h).symm, hlt, if_pos hlt⟩
  next => cases h

theorem upcoming_eq_none {p : WorkerPool ρ} (h : p.upcoming = none) :
    p.size ≤ p.cursor ∧ p.advanced = p.cursor := by
  unfold upcoming at h
  split at h
  next => cases h
  next hle => exact ⟨Nat.le_of_not_lt hle, if_neg hle⟩

theorem cursor_le_advanced (p : WorkerPool ρ) : p.cursor ≤ p.advanced := by
  unfold advanced
  split <;> omega

theorem advanced_le {p : WorkerPool ρ} (h : p.cursor ≤ p.size) : p.advanced ≤ p.size := by
  unfold advanced
  split <;> omega

/-- A task below the new cursor was below the old one, or has just been taken. -/
theorem lt_advanced {p : WorkerPool ρ} {i : Nat} (h : i < p.advanced) :
    i < p.cursor ∨ p.upcoming = some i := by
  unfold advanced at h
  unfold upcoming
  split at h
  next hlt =>
    rcases Nat.lt_succ_iff_lt_or_eq.mp h with hi | rfl
    · exact .inl hi
    · exact .inr (if_pos hlt)
  next => exact .inl h

theorem Sound.empty (size : Nat) : Sound (⟨size, 0, [], fun _ => none, false⟩ : WorkerPool ρ) where
  bound := Nat.zero_le _
  fresh _ _ := rfl
  busy w i h := by simp at h
  alone w w' i h := by simp at h
  covered _ i hi := absurd hi (Nat.not_lt_zero i)
  idle _ w h := by simp at h

theorem Sound.hire {p : WorkerPool ρ} (h : Sound p) : Sound p.hire where
  bound := advanced_le h.bound
  fresh i hi := h.fresh i (p.cursor_le_advanced.trans hi)
  busy w i hw := by
    rcases getElem?_concat_cases hw with hw | ⟨-, hx⟩
    -- an old worker keeps its item; the new one takes the next
    · exact ⟨(h.busy w i hw).1.trans_le p.cursor_le_advanced, (h.busy w i hw).2⟩
    · obtain ⟨rfl, -, hadv⟩ := upcoming_eq_some hx
      refine ⟨?_, h.fresh _ le_rfl⟩
      show p.cursor < p.advanced
      omega
  alone w w' i hw hw' := by
    rcases getElem?_concat_cases hw with hw | ⟨rfl, hx⟩ <;>
      rcases getElem?_concat_cases hw' with hw' | ⟨rfl, hx'⟩
    · exact h.alone w w' i hw hw'
    · obtain ⟨rfl, -, -⟩ := upcoming_eq_some hx'
      exact absurd (h.busy w _ hw).1 (lt_irrefl _)
    · obtain ⟨rfl, -, -⟩ := upcoming_eq_some hx
      exact absurd (h.busy w' _ hw').1 (lt_irrefl _)
    · rfl
  covered hf i hi hr := by
    rcases lt_advanced hi with hi | hnew
    -- the item was in hand before, or it is the one the new worker takes
    · obtain ⟨w, hw⟩ := h.covered hf i hi hr
      refine ⟨w, ?_⟩
      show (p.workers ++ [p.upcoming])[w]? = some (some i)
      rw [List.getElem?_append_left (List.getElem?_eq_some_iff.mp hw).1, hw]
    · exact ⟨p.workers.length, by simp [WorkerPool.hire, hnew]⟩
  idle hf w hw := by
    rcases getElem?_concat_cases hw with hw | ⟨-, hx⟩
    · have hall := h.idle hf w hw
      show p.advanced = p.size
      rw [advanced, if_neg (by omega), hall]
    · obtain ⟨hle, hadv⟩ := upcoming_eq_none hx
      exact hadv.trans (le_antisymm h.bound hle)

theorem Sound.staffed {p : WorkerPool ρ} (h : Sound p) (n : Nat) : Sound (staffed n p) := by
  induction n generalizing p with
  | zero => exact h
  | succ n ih => exact ih h.hire

theorem Sound.start (size n : Nat) : Sound (start size n : WorkerPool ρ) :=
  (Sound.empty size).staffed n

/-! ### One reply -/

/-- Taking a reply apart: the worker was on a task, and the pool is as the reply leaves it. -/
theorem next_eq_some {p q : WorkerPool ρ} {w : Nat} {reply : Reply ρ}
    (h : p.next (w, reply) = some q) : ∃ i, p.workers[w]? = some (some i) ∧
      ((∃ value, reply = .resolve value ∧ q = { p with
          cursor := p.advanced
          workers := p.workers.set w p.upcoming
          results := Function.update p.results i (some value) }) ∨
        (reply = .reject ∧ q = { p with workers := p.workers.set w none, failed := true })) := by
  unfold next at h
  split at h
  next i value hw hreply => exact ⟨i, hw, .inl ⟨value, hreply, (Option.some.inj h).symm⟩⟩
  next i hw hreply => exact ⟨i, hw, .inr ⟨hreply, (Option.some.inj h).symm⟩⟩
  next => cases h

/-- **One reply keeps a pool sound.** -/
theorem Sound.next {p q : WorkerPool ρ} {label : Nat × Reply ρ} (h : Sound p)
    (hn : p.next label = some q) : Sound q := by
  obtain ⟨w, reply⟩ := label
  obtain ⟨i, hw, ⟨value, rfl, rfl⟩ | ⟨rfl, rfl⟩⟩ := next_eq_some hn
  · obtain ⟨hi, hnone⟩ := h.busy w i hw
    have hlt : w < p.workers.length := (List.getElem?_eq_some_iff.mp hw).1
    have hother : ∀ v j, v ≠ w → p.workers[v]? = some (some j) → j ≠ i := by
      rintro v j hv hj rfl
      exact hv (h.alone v w j hj hw)
    -- an answer: the worker stores it at `i` and takes the next index, if one is left
    refine ⟨advanced_le h.bound, ?_, ?_, ?_, ?_, ?_⟩
    · intro j hj
      have hcur := p.cursor_le_advanced.trans hj
      show Function.update p.results i (some value) j = none
      rw [Function.update_of_ne (by omega)]
      exact h.fresh j hcur
    · intro v j hv
      show j < p.advanced ∧ Function.update p.results i (some value) j = none
      rcases getElem?_set_cases hv with ⟨hne, hv⟩ | ⟨-, hx⟩
      · obtain ⟨hj, hr⟩ := h.busy v j hv
        rw [Function.update_of_ne (hother v j hne hv)]
        exact ⟨hj.trans_le p.cursor_le_advanced, hr⟩
      · obtain ⟨rfl, -, hadv⟩ := upcoming_eq_some hx
        rw [Function.update_of_ne (by omega)]
        exact ⟨by omega, h.fresh _ le_rfl⟩
    -- no two at one index: the one just taken is past all the others
    · intro v v' j hv hv'
      rcases getElem?_set_cases hv with ⟨-, hold⟩ | ⟨hvw, hx⟩ <;>
        rcases getElem?_set_cases hv' with ⟨-, hold'⟩ | ⟨hvw', hx'⟩
      · exact h.alone v v' j hold hold'
      · obtain ⟨rfl, -, -⟩ := upcoming_eq_some hx'
        exact absurd (h.busy v _ hold).1 (lt_irrefl _)
      · obtain ⟨rfl, -, -⟩ := upcoming_eq_some hx
        exact absurd (h.busy v' _ hold').1 (lt_irrefl _)
      · rw [hvw, hvw']
    -- every index handed out and not answered has its worker
    · intro hf j hj hr
      have hr : Function.update p.results i (some value) j = none := hr
      have hji : j ≠ i := by
        rintro rfl
        simp at hr
      rw [Function.update_of_ne hji] at hr
      rcases lt_advanced hj with hj | hnew
      · obtain ⟨v, hv⟩ := h.covered hf j hj hr
        have hvw : v ≠ w := by
          rintro rfl
          rw [hw] at hv
          exact hji (Option.some.inj (Option.some.inj hv)).symm
        exact ⟨v, by rw [← hv]; exact List.getElem?_set_ne (Ne.symm hvw)⟩
      · exact ⟨w, by
          show (p.workers.set w p.upcoming)[w]? = _
          rw [List.getElem?_set_self hlt, hnew]⟩
    · intro hf v hv
      rcases getElem?_set_cases hv with ⟨-, hv⟩ | ⟨-, hx⟩
      · have hall := h.idle hf v hv
        show p.advanced = p.size
        rw [advanced, if_neg (by omega), hall]
      · obtain ⟨hle, hadv⟩ := upcoming_eq_none hx
        exact hadv.trans (le_antisymm h.bound hle)
  -- a rejection: the worker stops, and the pool has failed
  · refine ⟨h.bound, h.fresh, ?_, ?_, fun hf => absurd hf (by simp), fun hf => absurd hf (by simp)⟩
    · intro v j hv
      rcases getElem?_set_cases hv with ⟨-, hv⟩ | ⟨-, hx⟩
      · exact h.busy v j hv
      · cases hx
    · intro v v' j hv hv'
      rcases getElem?_set_cases hv with ⟨-, hv⟩ | ⟨-, hx⟩
      · rcases getElem?_set_cases hv' with ⟨-, hv'⟩ | ⟨-, hx'⟩
        · exact h.alone v v' j hv hv'
        · cases hx'
      · cases hx

/-! ### Whole runs -/

/-- The task a step answered. -/
def answered (t : Transition (WorkerPool ρ) (Nat × Reply ρ)) : Option Nat := t.pre.task t.label.1

/-- What a run has done to the results, and what it has not touched. -/
structure History (size workers : Nat) (tr : List (Transition (WorkerPool ρ) (Nat × Reply ρ)))
    (p : WorkerPool ρ) : Prop where
  sound : Sound p
  size : p.size = size
  staff : p.workers.length = workers
  failed : p.failed = true ↔ ∃ t ∈ tr, t.label.2 = .reject
  stored : ∀ i value, p.results i = some value ↔
    ∃ t ∈ tr, answered t = some i ∧ t.label.2 = .resolve value
  once : (tr.filterMap answered).Nodup
  past : ∀ i ∈ tr.filterMap answered, i < p.cursor ∧ ∀ w : Nat, p.workers[w]? ≠ some (some i)

theorem staffed_size (n : Nat) (p : WorkerPool ρ) :
    (staffed n p).size = p.size ∧ (staffed n p).workers.length = p.workers.length + n ∧
      (staffed n p).failed = p.failed ∧ (staffed n p).results = p.results := by
  induction n generalizing p with
  | zero => exact ⟨rfl, rfl, rfl, rfl⟩
  | succ n ih =>
      obtain ⟨hsize, hstaff, hfailed, hresults⟩ := ih p.hire
      refine ⟨hsize, ?_, hfailed, hresults⟩
      rw [staffed, hstaff]
      simp [hire, Nat.add_comm, Nat.add_left_comm]

theorem History.start (size n : Nat) : History size n [] (start size n : WorkerPool ρ) := by
  obtain ⟨hsize, hstaff, hfailed, hresults⟩ :=
    staffed_size n (⟨size, 0, [], fun _ => none, false⟩ : WorkerPool ρ)
  refine ⟨.start size n, hsize, ?_, ?_, ?_, List.nodup_nil, by simp⟩
  · exact hstaff.trans (Nat.zero_add n)
  · simp [WorkerPool.start, hfailed]
  · simp [WorkerPool.start, hresults]

/-- **One more reply.** -/
theorem History.next {size workers : Nat} {tr : List (Transition (WorkerPool ρ) (Nat × Reply ρ))}
    {p q : WorkerPool ρ} {label : Nat × Reply ρ} (h : History size workers tr p)
    (hn : p.next label = some q) : History size workers (tr ++ [⟨p, label, q⟩]) q := by
  have hsound := h.sound.next hn
  obtain ⟨w, reply⟩ := label
  obtain ⟨i, hw, hq⟩ := next_eq_some hn
  have hanswered : answered ⟨p, (w, reply), q⟩ = some i := by
    show p.workers[w]?.join = some i
    rw [hw]
    rfl
  have hnew : i ∉ tr.filterMap answered := fun hi => (h.past i hi).2 w hw
  obtain ⟨hi, hnone⟩ := h.sound.busy w i hw
  -- what the worker does next is none of the tasks answered before
  have hpast : ∀ x, (x = none ∨ x = p.upcoming) → ∀ j ∈ tr.filterMap answered ++ [i],
      ∀ v : Nat, (p.workers.set w x)[v]? ≠ some (some j) := by
    intro x hx j hj v hv
    have hlt : j < p.cursor := by
      rcases List.mem_append.mp hj with hj | hj
      · exact (h.past j hj).1
      · exact List.mem_singleton.mp hj ▸ hi
    rcases getElem?_set_cases hv with ⟨hne, hv⟩ | ⟨-, rfl⟩
    · rcases List.mem_append.mp hj with hj | hj
      · exact (h.past j hj).2 v hv
      · obtain rfl := List.mem_singleton.mp hj
        exact hne (h.sound.alone v w _ hv hw)
    · rcases hx with hx | hx
      · cases hx
      · obtain ⟨rfl, -, -⟩ := upcoming_eq_some hx.symm
        exact lt_irrefl _ hlt
  have hlist : (tr ++ [⟨p, (w, reply), q⟩] : List (Transition _ _)).filterMap answered =
      tr.filterMap answered ++ [i] := by
    rw [List.filterMap_append, List.filterMap_cons, hanswered, List.filterMap_nil]
  have honce : (tr.filterMap answered ++ [i]).Nodup :=
    List.nodup_append.mpr ⟨h.once, List.nodup_singleton i, by
      intro a ha b hb hab
      exact hnew (List.mem_singleton.mp hb ▸ hab ▸ ha)⟩
  have hbelow : ∀ j ∈ tr.filterMap answered ++ [i], j < p.cursor := by
    intro j hj
    rcases List.mem_append.mp hj with hj | hj
    · exact (h.past j hj).1
    · exact List.mem_singleton.mp hj ▸ hi
  -- what is stored is what has been resolved; a rejection stores nothing
  rcases hq with ⟨value, rfl, rfl⟩ | ⟨rfl, rfl⟩
  · refine ⟨hsound, h.size, by simpa using h.staff, ?_, ?_, hlist ▸ honce, ?_⟩
    · simpa using h.failed
    · intro j v
      show Function.update p.results i (some value) j = some v ↔ _
      by_cases hj : j = i
      · subst hj
        rw [Function.update_self]
        constructor
        · intro hv
          exact ⟨_, List.mem_append_right _ (List.mem_singleton_self _), hanswered,
            by rw [Option.some.inj hv]⟩
        · rintro ⟨t, ht, htask, hreply⟩
          rcases List.mem_append.mp ht with ht | ht
          · exact absurd (List.mem_filterMap.mpr ⟨t, ht, htask⟩) hnew
          · obtain rfl := List.mem_singleton.mp ht
            exact congrArg some (Reply.resolve.inj hreply)
      · rw [Function.update_of_ne hj, h.stored]
        constructor
        · rintro ⟨t, ht, hrest⟩
          exact ⟨t, List.mem_append_left _ ht, hrest⟩
        · rintro ⟨t, ht, htask, hreply⟩
          rcases List.mem_append.mp ht with ht | ht
          · exact ⟨t, ht, htask, hreply⟩
          · obtain rfl := List.mem_singleton.mp ht
            exact absurd (Option.some.inj (hanswered.symm.trans htask)).symm hj
    · intro j hj
      rw [hlist] at hj
      exact ⟨(hbelow j hj).trans_le p.cursor_le_advanced, hpast _ (.inr rfl) j hj⟩
  · refine ⟨hsound, h.size, by simpa using h.staff, ?_, ?_, hlist ▸ honce, ?_⟩
    · simp
    · intro j v
      show p.results j = some v ↔ _
      rw [h.stored]
      constructor
      · rintro ⟨t, ht, hrest⟩
        exact ⟨t, List.mem_append_left _ ht, hrest⟩
      · rintro ⟨t, ht, htask, hreply⟩
        rcases List.mem_append.mp ht with ht | ht
        · exact ⟨t, ht, htask, hreply⟩
        · obtain rfl := List.mem_singleton.mp ht
          cases hreply
    · intro j hj
      rw [hlist] at hj
      exact ⟨hbelow j hj, hpast _ (.inl rfl) j hj⟩

theorem History.of_run {size n : Nat} {tr : List (Transition (WorkerPool ρ) (Nat × Reply ρ))}
    {p : WorkerPool ρ} (h : Run WorkerPool.next (WorkerPool.start size n) tr p) :
    History size n tr p := by
  refine h.history (P := fun _ => True) (fun _ _ => trivial) (.start size n) ?_
  intro tr p label q _ ih hn
  exact ih.next hn

section consequences

variable {size n : Nat} {tr : List (Transition (WorkerPool ρ) (Nat × Reply ρ))} {p : WorkerPool ρ}

/-- A run answers a task at each step, and no task twice, so it takes as many steps as there
are tasks at most. -/
theorem History.length_le (h : History size n tr p)
    (hrun : Run WorkerPool.next (WorkerPool.start size n) tr p) : tr.length ≤ size := by
  have hall : ∀ t ∈ tr, (answered t).isSome := by
    intro t ht
    obtain ⟨i, hw, -⟩ := next_eq_some (hrun.step_of_mem t ht)
    rw [answered, task, hw]
    rfl
  have hlen : (tr.filterMap answered).length = tr.length :=
    List.filterMap_length_eq_length.mpr hall
  have hsub : tr.filterMap answered ⊆ List.range size := by
    intro i hi
    rw [List.mem_range, ← h.size]
    exact (h.past i hi).1.trans_le h.sound.bound
  rw [← hlen, ← List.length_range (n := size)]
  exact (List.subperm_of_subset h.once hsub).length_le

/-- A pool that has ended without a failure holds a result for every task. -/
theorem History.fulfilled (h : History size n tr p) (hn : 0 < size → 0 < n)
    {values : List (Option ρ)} (hend : p.outcome = some (.fulfilled values)) :
    values = (List.range size).map p.results ∧ ∀ i < size, ∃ value, p.results i = some value := by
  unfold outcome at hend
  split at hend
  next => cases hend
  next hfailed =>
    split at hend
    next hidle =>
      have hvalues := Outcome.fulfilled.inj (Option.some.inj hend)
      refine ⟨by rw [← hvalues, h.size], ?_⟩
      intro i hi
      have hfalse : p.failed = false := by simpa using hfailed
      -- some worker is idle, so the cursor has reached the end
      have hworker : p.workers[0]? = some none := by
        rw [List.all_eq_true] at hidle
        cases hws : p.workers with
        | nil =>
            have hstaff := hn (Nat.zero_lt_of_lt hi)
            simp [← h.staff, hws] at hstaff
        | cons x xs =>
            have hx := hidle x (by simp [hws])
            simp only [Option.isNone_iff_eq_none] at hx
            simp [hx]
      have hcursor := h.sound.idle hfalse 0 hworker
      cases hr : p.results i with
      | some value => exact ⟨value, rfl⟩
      | none =>
          obtain ⟨w, hw⟩ := h.sound.covered hfalse i (by rw [hcursor, h.size]; exact hi) hr
          have hnone := List.all_eq_true.mp hidle _ (List.mem_of_getElem? hw)
          simp at hnone
    next => cases hend

theorem outcome_rejected_iff : p.outcome = some .rejected ↔ p.failed = true := by
  unfold outcome
  split
  next hfailed => exact iff_of_true rfl hfailed
  next hfailed => split <;> simp [hfailed]

/-- While the pool has not ended somebody is at work, and any reply to them is a step. -/
theorem History.progress (hend : p.outcome = none) :
    ∃ w, (p.task w).isSome ∧ ∀ reply, (p.next (w, reply)).isSome := by
  unfold outcome at hend
  split at hend
  next => cases hend
  next =>
    split at hend
    next => cases hend
    next hidle =>
      obtain ⟨x, hx, hbusy⟩ : ∃ x ∈ p.workers, x ≠ none := by
        simpa [List.all_eq_true] using hidle
      obtain ⟨w, hw⟩ := List.getElem?_of_mem hx
      obtain ⟨i, rfl⟩ := Option.ne_none_iff_exists'.mp hbusy
      refine ⟨w, by simp [task, hw], ?_⟩
      intro reply
      cases reply <;> simp [WorkerPool.next, hw]

end consequences

end WorkerPool

end Lib
