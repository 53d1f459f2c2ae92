import LemonMarket.Lib.WorkerPool

/-!
# LemonMarket.Lib.PromiseChain

**Tasks chained on one promise.** A task put to the chain is called once the promise at its end
has settled, and its own promise becomes the end. What a failure leaves there is a promise that
has settled all the same, so the chain goes on.

A chain is a transition system: a task is put to it, the next one is called, a called one comes
back. `Serial` says where it stands, `Serial.next` what each step does to that, and
`PromiseChain.History` what has gone out over a whole run: one call at a time, in the order they
were put, each once.
-/

namespace Lib

/-- A promise, as far as it can be seen from outside. -/
inductive Promise (ρ : Type)
  | pending
  | fulfilled (value : ρ)
  | rejected
  deriving Repr, DecidableEq

/-- What a promise settles with on a reply. -/
def Reply.settled {ρ : Type} : Reply ρ → Promise ρ
  | .resolve value => .fulfilled value
  | .reject => .rejected

/-- `catch(() => undefined)`: what it is fulfilled with is not looked at. -/
def Promise.caught {ρ : Type} : Promise ρ → Promise Unit
  | .pending => .pending
  | .fulfilled _ | .rejected => .fulfilled ()

/-- A task put to the chain, whether it has been called, and its promise. -/
structure Job (α ρ : Type) where
  task : α
  called : Bool
  result : Promise ρ
  deriving Repr, DecidableEq

abbrev PromiseChain (α ρ : Type) := List (Job α ρ)

inductive ChainStep (α ρ : Type)
  | enqueue (task : α)
  | call (k : Nat)
  | settle (k : Nat) (reply : Reply ρ)
  deriving Repr, DecidableEq

namespace PromiseChain

variable {α ρ : Type}

/-- The end of the chain that task `k` was put to. -/
def ahead (jobs : PromiseChain α ρ) : Nat → Promise Unit
  | 0 => .fulfilled ()
  | k + 1 => (jobs[k]?.map fun job => job.result.caught).getD .pending

/-- One step. `then` calls its task when what it waits for is fulfilled, and passes a
rejection on without. -/
def next (jobs : PromiseChain α ρ) : ChainStep α ρ → Option (PromiseChain α ρ)
  | .enqueue task => some (jobs ++ [⟨task, false, .pending⟩])
  | .call k =>
      match jobs[k]?, jobs.ahead k with
      | some ⟨task, false, .pending⟩, .fulfilled () => some (jobs.set k ⟨task, true, .pending⟩)
      | some ⟨task, false, .pending⟩, .rejected => some (jobs.set k ⟨task, false, .rejected⟩)
      | _, _ => none
  | .settle k reply =>
      match jobs[k]? with
      | some ⟨task, true, .pending⟩ => some (jobs.set k ⟨task, true, reply.settled⟩)
      | _ => none

/-- The first `done` tasks are over, the one after is under way if the chain is busy, and the
rest wait. -/
structure Serial (jobs : PromiseChain α ρ) (done : Nat) (busy : Bool) : Prop where
  bound : done + busy.toNat ≤ jobs.length
  ended : ∀ (k : Nat) job, jobs[k]? = some job → k < done →
    job.called = true ∧ job.result ≠ .pending
  current : ∀ job, busy = true → jobs[done]? = some job → job.called = true ∧ job.result = .pending
  waiting : ∀ (k : Nat) job, jobs[k]? = some job → done + busy.toNat ≤ k →
    job.called = false ∧ job.result = .pending

variable {jobs jobs' : PromiseChain α ρ} {done k : Nat} {busy : Bool} {reply : Reply ρ}

theorem Serial.empty : Serial ([] : PromiseChain α ρ) 0 false :=
  ⟨Nat.le_refl 0, by simp, by simp, by simp⟩

theorem settled_ne_pending (reply : Reply ρ) : reply.settled ≠ .pending := by
  cases reply <;> rintro ⟨⟩

theorem caught_ne_rejected (p : Promise ρ) : p.caught ≠ .rejected := by
  cases p <;> rintro ⟨⟩

/-- No failure is passed on. -/
theorem ahead_ne_rejected (jobs : PromiseChain α ρ) (k : Nat) : jobs.ahead k ≠ .rejected := by
  cases k with
  | zero => rintro ⟨⟩
  | succ k =>
      simp only [ahead]
      cases jobs[k]? with
      | none =>
          rintro ⟨⟩
      | some job => exact caught_ne_rejected job.result

theorem call_eq_some (h : jobs.next (.call k) = some jobs') : ∃ task,
    jobs[k]? = some ⟨task, false, .pending⟩ ∧ jobs.ahead k = .fulfilled () ∧
      jobs' = jobs.set k ⟨task, true, .pending⟩ := by
  simp only [next] at h
  split at h
  next task hk hahead => exact ⟨task, hk, hahead, (Option.some.inj h).symm⟩
  next hahead => exact absurd hahead (ahead_ne_rejected jobs k)
  next => cases h

theorem settle_eq_some (h : jobs.next (.settle k reply) = some jobs') : ∃ task,
    jobs[k]? = some ⟨task, true, .pending⟩ ∧ jobs' = jobs.set k ⟨task, true, reply.settled⟩ := by
  simp only [next] at h
  split at h
  next task hk => exact ⟨task, hk, (Option.some.inj h).symm⟩
  next => cases h

/-- A task whose promise is pending and that was not called is one that waits. -/
theorem Serial.of_waiting (h : Serial jobs done busy) {task : α}
    (hk : jobs[k]? = some ⟨task, false, .pending⟩) : done + busy.toNat ≤ k := by
  by_contra hlt
  rcases Nat.lt_or_ge k done with hdone | hdone
  · exact absurd (h.ended k _ hk hdone).1 (by simp)
  · cases busy with
    | false =>
        simp only [Bool.toNat_false] at hlt
        omega
    | true =>
        obtain rfl : k = done := by
          simp only [Bool.toNat_true] at hlt
          omega
        exact absurd (h.current _ rfl hk).1 (by simp)

/-- The task under way is the only one that was called and has not come back. -/
theorem Serial.of_running (h : Serial jobs done busy) {task : α}
    (hk : jobs[k]? = some ⟨task, true, .pending⟩) : k = done ∧ busy = true := by
  rcases Nat.lt_or_ge k done with hdone | hdone
  · exact absurd rfl (h.ended k _ hk hdone).2
  · rcases Nat.lt_or_ge k (done + busy.toNat) with hlt | hle
    · cases busy with
      | false =>
          simp only [Bool.toNat_false] at hlt
          omega
      | true =>
          simp only [Bool.toNat_true] at hlt
          exact ⟨by omega, rfl⟩
    · exact absurd (h.waiting k _ hk hle).1 (by simp)

/-- What a task waits for has settled only if the one before it is over. -/
theorem Serial.ahead_fulfilled (h : Serial jobs done busy) (hahead : jobs.ahead k = .fulfilled ()) :
    k ≤ done := by
  cases k with
  | zero => exact Nat.zero_le _
  | succ k =>
      simp only [ahead] at hahead
      cases hk : jobs[k]? with
      | none =>
          rw [hk] at hahead
          cases hahead
      | some job =>
          rw [hk] at hahead
          by_contra hlt
          -- the one before is running or waiting: no result either way
          have hpending : job.result = .pending := by
            rcases Nat.lt_or_ge k (done + busy.toNat) with hnow | hlater
            · cases busy with
              | false =>
                  simp only [Bool.toNat_false] at hnow
                  omega
              | true =>
                  simp only [Bool.toNat_true] at hnow
                  obtain rfl : k = done := by omega
                  exact (h.current _ rfl hk).2
            · exact (h.waiting k _ hk hlater).2
          simp [hpending, Promise.caught] at hahead

/-! ### One step -/

/-- How far a step takes the chain. -/
inductive Moves : Nat → Bool → ChainStep α ρ → Nat → Bool → Prop
  | enqueue (done : Nat) (busy : Bool) (task : α) : Moves done busy (.enqueue task) done busy
  | call (done : Nat) : Moves done false (.call done) done true
  | settle (done : Nat) (reply : Reply ρ) : Moves done true (.settle done reply) (done + 1) false

/-- **One step of a chain**: it calls the first task that is not over, or that one comes back. -/
theorem Serial.next (h : Serial jobs done busy) {step : ChainStep α ρ}
    (hn : jobs.next step = some jobs') :
    ∃ done' busy', Moves done busy step done' busy' ∧ Serial jobs' done' busy' := by
  cases step with
  | enqueue task =>
      obtain rfl := Option.some.inj hn
      -- the new job is behind all others
      refine ⟨done, busy, .enqueue .., ?_, ?_, ?_, ?_⟩
      · have hbound := h.bound
        rw [List.length_append, List.length_singleton]
        omega
      · intro k job hk hlt
        rcases getElem?_concat_cases hk with hk | ⟨rfl, -⟩
        · exact h.ended k job hk hlt
        · have hbound := h.bound
          omega
      · intro job hbusy hk
        rcases getElem?_concat_cases hk with hk | ⟨hlength, -⟩
        · exact h.current job hbusy hk
        · have hbound := h.bound
          rw [hbusy] at hbound
          simp only [Bool.toNat_true] at hbound
          omega
      · intro k job hk hle
        rcases getElem?_concat_cases hk with hk | ⟨-, rfl⟩
        · exact h.waiting k job hk hle
        · exact ⟨rfl, rfl⟩
  | call k =>
      obtain ⟨task, hk, hahead, rfl⟩ := call_eq_some hn
      have hle := h.of_waiting hk
      have hge := h.ahead_fulfilled hahead
      -- all ahead of it are over and it is not, so it is the first that is not
      obtain rfl : k = done := by omega
      obtain rfl : busy = false := by
        cases busy with
        | false => rfl
        | true =>
            simp only [Bool.toNat_true] at hle
            omega
      have hlt : k < jobs.length := (List.getElem?_eq_some_iff.mp hk).1
      refine ⟨k, true, .call k, ?_, ?_, ?_, ?_⟩
      · rw [List.length_set]
        exact hlt
      · intro j job hj hjk
        rcases getElem?_set_cases hj with ⟨-, hj⟩ | ⟨rfl, -⟩
        · exact h.ended j job hj hjk
        · exact absurd hjk (lt_irrefl _)
      · intro job _ hj
        rcases getElem?_set_cases hj with ⟨hne, -⟩ | ⟨-, rfl⟩
        · exact absurd rfl hne
        · exact ⟨rfl, rfl⟩
      · intro j job hj hjk
        simp only [Bool.toNat_true] at hjk
        rcases getElem?_set_cases hj with ⟨-, hj⟩ | ⟨rfl, -⟩
        · exact h.waiting j job hj (by rw [Bool.toNat_false]; omega)
        · omega
  | settle k reply =>
      obtain ⟨task, hk, rfl⟩ := settle_eq_some hn
      -- only the first that is not over can be running
      obtain ⟨rfl, rfl⟩ := h.of_running hk
      have hlt : k < jobs.length := (List.getElem?_eq_some_iff.mp hk).1
      refine ⟨k + 1, false, .settle k reply, ?_, ?_, ?_, ?_⟩
      · rw [List.length_set]
        exact hlt
      · intro j job hj hjk
        rcases getElem?_set_cases hj with ⟨hne, hj⟩ | ⟨-, rfl⟩
        · exact h.ended j job hj (by omega)
        · exact ⟨rfl, settled_ne_pending reply⟩
      · intro job hbusy
        cases hbusy
      · intro j job hj hjk
        simp only [Bool.toNat_false] at hjk
        rcases getElem?_set_cases hj with ⟨-, hj⟩ | ⟨rfl, -⟩
        · exact h.waiting j job hj (by rw [Bool.toNat_true]; omega)
        · omega

/-- A task that is not over can be called, or can come back with any reply. -/
theorem Serial.progress (h : Serial jobs done busy) (hlt : done < jobs.length) :
    if busy then ∀ reply : Reply ρ, (jobs.next (.settle done reply)).isSome
    else (jobs.next (.call done)).isSome := by
  obtain ⟨job, hjob⟩ : ∃ job, jobs[done]? = some job := ⟨_, List.getElem?_eq_getElem hlt⟩
  obtain ⟨task, called, result⟩ := job
  cases busy with
  | true =>
      obtain ⟨rfl, rfl⟩ := h.current _ rfl hjob
      intro reply
      simp [PromiseChain.next, hjob]
  | false =>
      obtain ⟨rfl, rfl⟩ := h.waiting done _ hjob (Nat.le_refl _)
      have hahead : jobs.ahead done = .fulfilled () := by
        cases done with
        | zero => rfl
        | succ k =>
            have hk : k < jobs.length := by omega
            obtain ⟨-, hended⟩ :=
              h.ended k jobs[k] (List.getElem?_eq_getElem hk) (Nat.lt_succ_self k)
            rw [ahead, List.getElem?_eq_getElem hk, Option.map_some, Option.getD_some]
            -- caught, the one before is fulfilled however it ended
            cases hresult : jobs[k].result with
            | pending => exact absurd hresult hended
            | fulfilled value => rfl
            | rejected => rfl
      simp [PromiseChain.next, hjob, hahead]

/-! ### Whole runs -/

/-- What goes out and comes back. -/
inductive ChainEvent
  | called (k : Nat)
  | settled (k : Nat)
  deriving Repr, DecidableEq

def event (t : Transition (PromiseChain α ρ) (ChainStep α ρ)) : Option ChainEvent :=
  match t.label with
  | .enqueue _ => none
  | .call k => some (.called k)
  | .settle k _ => some (.settled k)

/-- The task a step puts to the chain. -/
def put (t : Transition (PromiseChain α ρ) (ChainStep α ρ)) : Option α :=
  match t.label with
  | .enqueue task => some task
  | _ => none

/-- Tasks called and come back, one after the other. -/
def rounds (done : Nat) : List ChainEvent :=
  (List.range done).flatMap fun k => [.called k, .settled k]

theorem rounds_succ (done : Nat) :
    rounds (done + 1) = rounds done ++ [.called done, .settled done] := by
  rw [rounds, List.range_succ, List.flatMap_append]
  rfl

/-- What a run has done. -/
structure History (tr : List (Transition (PromiseChain α ρ) (ChainStep α ρ)))
    (jobs : PromiseChain α ρ) (done : Nat) (busy : Bool) : Prop where
  serial : Serial jobs done busy
  events : tr.filterMap event = rounds done ++ if busy then [.called done] else []
  tasks : jobs.map Job.task = tr.filterMap put
  replies : ∀ (k : Nat) job, jobs[k]? = some job → k < done →
    ∃ t ∈ tr, ∃ reply, t.label = .settle k reply ∧ job.result = reply.settled

theorem map_task_set {job : Job α ρ} {task : α} {called : Bool} {result : Promise ρ}
    (hk : jobs[k]? = some job) (htask : job.task = task) :
    (jobs.set k ⟨task, called, result⟩).map Job.task = jobs.map Job.task := by
  have hlt := (List.getElem?_eq_some_iff.mp hk).1
  have hget := (List.getElem?_eq_some_iff.mp hk).2
  rw [List.map_set]
  refine List.ext_getElem (by simp) fun j hj hj' => ?_
  rw [List.getElem_set]
  split
  next hjk =>
    subst hjk
    rw [List.getElem_map, hget, htask]
  next => rfl

theorem History.of_run {tr : List (Transition (PromiseChain α ρ) (ChainStep α ρ))}
    (h : Run PromiseChain.next [] tr jobs) : ∃ done busy, History tr jobs done busy := by
  refine h.history (I := fun tr jobs => ∃ done busy, History tr jobs done busy) (P := fun _ => True)
    (fun _ _ => trivial) ⟨0, false, Serial.empty, rfl, rfl, by simp⟩ ?_
  rintro tr jobs step jobs' - ⟨done, busy, hist⟩ hn
  obtain ⟨done', busy', hmoves, hserial⟩ := hist.serial.next hn
  refine ⟨done', busy', hserial, ?_, ?_, ?_⟩
  -- calls and replies alternate
  · rw [List.filterMap_append, hist.events]
    cases hmoves with
    | enqueue task => simp [event]
    | call => simp [event]
    | settle reply => simp [event, rounds_succ]
  -- the tasks are the ones put in
  · rw [List.filterMap_append, ← hist.tasks]
    cases hmoves with
    | enqueue task =>
        obtain rfl := Option.some.inj hn
        simp [put]
    | call =>
        obtain ⟨task, hk, -, rfl⟩ := call_eq_some hn
        rw [map_task_set hk rfl]
        simp [put]
    | settle reply =>
        obtain ⟨task, hk, rfl⟩ := settle_eq_some hn
        rw [map_task_set hk rfl]
        simp [put]
  · intro k job hk hlt
    -- each job that is over has the reply it got
    have hold : ∀ {job}, jobs[k]? = some job → k < done →
        ∃ t ∈ tr ++ [⟨jobs, step, jobs'⟩], ∃ reply, t.label = .settle k reply ∧
          job.result = reply.settled := by
      intro job hk hlt
      obtain ⟨t, ht, hreply⟩ := hist.replies k job hk hlt
      exact ⟨t, List.mem_append_left _ ht, hreply⟩
    cases hmoves with
    | enqueue task =>
        obtain rfl := Option.some.inj hn
        rcases getElem?_concat_cases hk with hk | ⟨rfl, -⟩
        · exact hold hk hlt
        · have hbound := hist.serial.bound
          omega
    | call =>
        obtain ⟨task, -, -, rfl⟩ := call_eq_some hn
        rcases getElem?_set_cases hk with ⟨-, hk⟩ | ⟨rfl, -⟩
        · exact hold hk hlt
        · exact absurd hlt (lt_irrefl _)
    | settle reply =>
        obtain ⟨task, -, rfl⟩ := settle_eq_some hn
        rcases getElem?_set_cases hk with ⟨hne, hk⟩ | ⟨rfl, rfl⟩
        · exact hold hk (by omega)
        · exact ⟨_, List.mem_append_right _ (List.mem_singleton_self _), reply, rfl, rfl⟩

end PromiseChain

end Lib
