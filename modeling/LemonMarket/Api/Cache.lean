import LemonMarket.Lib.Rows
import LemonMarket.Lib.Run

/-!
# LemonMarket.Api.Cache

**The response cache of the API** (`cache.ts`). A `TtlCache` keeps the last value its loader
gave, and lets concurrent misses share one load. What is concurrent are the continuations of
promises: a load settles in two callbacks, the `then` that stores its value and the `finally`
that forgets it is in flight, and each caller waiting for it goes on in a callback of its own.
An `Action` is one of these, or a new call, and a run takes them in any order the promises
allow.

* One load is in flight at a time (`InFlight`): a `get` starts one only when the last has been
  forgotten.
* A stale value is served to the caller that started a failing load and to no other: only the
  starter waits inside the `try`, and a caller that joined is handed the rejection.
* `then` stores what it is given whether or not the cache was invalidated meanwhile, so a load
  that was overtaken by an `invalidate` answers callers that came after it.
-/

namespace LemonMarket

namespace Api

namespace TtlCache

open Lib

/-- How far a load has come; `outcome` is the value it loaded, if it did not fail. -/
inductive Phase (T : Type)
  /-- The loader has been called. -/
  | running
  /-- Its promise has settled and the `then` callback has run. -/
  | landed (outcome : Option T)
  /-- The `finally` callback has run too. -/
  | finished (outcome : Option T)
  deriving Repr, DecidableEq

/-- A call of the loader, and how many invalidations came before it. -/
structure Load (T : Type) where
  epoch : Nat
  phase : Phase T
  deriving Repr, DecidableEq

/-- What has become of a `get`, with the load its answer comes from. -/
inductive Answer (T : Type)
  /-- It started the load, and waits for it inside the `try`. -/
  | started (load : Nat)
  /-- It found the load in flight and returned its promise. -/
  | joined (load : Nat)
  | resolved (value : T) (load : Nat)
  | rejected
  deriving Repr, DecidableEq

/-- A call of `get`, and how many invalidations came before it. -/
structure Get (T : Type) where
  epoch : Nat
  answer : Answer T
  deriving Repr, DecidableEq

/-- The value kept, and the load it came from. -/
structure Entry (T : Type) where
  value : T
  expiresAt : Int
  load : Nat
  deriving Repr, DecidableEq

/-- The cache's two fields, `entry` and `inflight`, and all that was ever asked of it. -/
structure CacheState (T : Type) where
  entry : Option (Entry T)
  inflight : Option Nat
  loads : List (Load T)
  gets : List (Get T)
  epoch : Nat
  deriving Repr, DecidableEq

variable {T : Type}

/-- `new TtlCache(loader, ttlMs)`. -/
def CacheState.new : CacheState T := ⟨none, none, [], [], 0⟩

/-! ### The calls and the callbacks -/

/-- A `get` begins, with this much of its answer known at once. -/
def begun (s : CacheState T) (answer : Answer T) : CacheState T :=
  { s with gets := s.gets ++ [⟨s.epoch, answer⟩] }

/-- The entry, unless the caller insists on a load or it has expired. -/
def live (s : CacheState T) (force : Bool) (now : Int) : Option (Entry T) :=
  s.entry.filter fun entry => !force && now < entry.expiresAt

/-- `get`, up to its first wait. -/
def get (s : CacheState T) (force : Bool) (now : Int) : CacheState T :=
  match live s force now with
  | some entry => begun s (.resolved entry.value entry.load)
  | none =>
      match s.inflight with
      -- concurrent misses collapse into one upstream call
      | some i => begun s (.joined i)
      | none =>
          { begun s (.started s.loads.length) with
            inflight := some s.loads.length
            loads := s.loads ++ [⟨s.epoch, .running⟩] }

def peek (s : CacheState T) : Option T := s.entry.map Entry.value

def invalidate (s : CacheState T) : CacheState T :=
  { s with entry := none, epoch := s.epoch + 1 }

def Load.to (phase : Phase T) (l : Load T) : Load T := { l with phase := phase }

/-- The entry a load leaves behind: its value, or what was there if it failed. -/
def stored (ttlMs : Int) (s : CacheState T) (i : Nat) (outcome : Option T) (now : Int) :
    Option (Entry T) :=
  match outcome with
  | some value => some ⟨value, now + ttlMs, i⟩
  | none => s.entry

/-- The loader's promise settles: the `then` callback, which a failure passes by. -/
def landed (ttlMs : Int) (s : CacheState T) (i : Nat) (outcome : Option T) (now : Int) :
    Option (CacheState T) :=
  match s.loads[i]?.map Load.phase with
  | some .running =>
      some { s with
        entry := stored ttlMs s i outcome now
        loads := s.loads.modify i (Load.to (.landed outcome)) }
  | _ => none

/-- The `finally` callback. -/
def cleared (s : CacheState T) (i : Nat) : Option (CacheState T) :=
  match s.loads[i]?.map Load.phase with
  | some (.landed outcome) =>
      some { s with
        inflight := none
        loads := s.loads.modify i (Load.to (.finished outcome)) }
  | _ => none

/-- What the promise of a load has settled to. -/
def settled (s : CacheState T) (i : Nat) : Option (Option T) :=
  match s.loads[i]?.map Load.phase with
  | some (.finished outcome) => some outcome
  | _ => none

/-- How a waiting `get` goes on once the load it waits for has settled. -/
def answered (s : CacheState T) : Answer T → Option (Answer T)
  | .started i => (settled s i).map fun outcome =>
      match outcome with
      | some value => .resolved value i
      | none =>
          -- the `catch`: a stale value, if there is one
          match s.entry with
          | some entry => .resolved entry.value entry.load
          | none => .rejected
  | .joined i => (settled s i).map fun outcome =>
      match outcome with
      | some value => .resolved value i
      | none => .rejected
  | _ => none

def Get.to (answer : Answer T) (g : Get T) : Get T := { g with answer := answer }

/-- A waiting `get` goes on. -/
def resumed (s : CacheState T) (g : Nat) : Option (CacheState T) := do
  let asked ← s.gets[g]?
  let answer ← answered s asked.answer
  return { s with gets := s.gets.modify g (Get.to answer) }

inductive Action (T : Type)
  | get (force : Bool) (now : Int)
  | invalidate
  | landed (load : Nat) (outcome : Option T) (now : Int)
  | cleared (load : Nat)
  | resumed (get : Nat)
  deriving Repr, DecidableEq

/-- One call or callback; `none` where the promises do not allow it. -/
def next (ttlMs : Int) (s : CacheState T) : Action T → Option (CacheState T)
  | .get force now => some (get s force now)
  | .invalidate => some (invalidate s)
  | .landed i outcome now => landed ttlMs s i outcome now
  | .cleared i => cleared s i
  | .resumed g => resumed s g

variable {ttlMs : Int} {s s' : CacheState T} {i g : Nat} {outcome : Option T} {now : Int}
  {force : Bool} {tr : List (Transition (CacheState T) (Action T))} {a : Action T}

/-! ### What each of them does -/

/-- A `get` is answered from the cache, joins the load in flight or starts one. -/
theorem get_cases (s : CacheState T) (force : Bool) (now : Int) :
    (∃ entry, s.entry = some entry ∧
      get s force now = begun s (.resolved entry.value entry.load)) ∨
    (∃ i, s.inflight = some i ∧ get s force now = begun s (.joined i)) ∨
    (s.inflight = none ∧ get s force now =
      { begun s (.started s.loads.length) with
        inflight := some s.loads.length
        loads := s.loads ++ [⟨s.epoch, .running⟩] }) := by
  rcases hlive : live s force now with _ | entry
  · rcases hin : s.inflight with _ | i
    · exact .inr (.inr ⟨rfl, by simp only [get, hlive, hin]⟩)
    · exact .inr (.inl ⟨i, rfl, by simp only [get, hlive, hin]⟩)
  · have hentry : s.entry = some entry := (Option.filter_eq_some_iff.mp hlive).1
    exact .inl ⟨entry, hentry, by simp only [get, hlive]⟩

/-- A `get` leaves the entry alone. -/
theorem entry_get (s : CacheState T) (force : Bool) (now : Int) :
    (get s force now).entry = s.entry := by
  rcases get_cases s force now with ⟨entry, -, hget⟩ | ⟨i, -, hget⟩ | ⟨-, hget⟩ <;>
    rw [hget] <;> rfl

theorem epoch_get (s : CacheState T) (force : Bool) (now : Int) :
    (get s force now).epoch = s.epoch := by
  rcases get_cases s force now with ⟨entry, -, hget⟩ | ⟨i, -, hget⟩ | ⟨-, hget⟩ <;>
    rw [hget] <;> rfl

theorem landed_cases (h : landed ttlMs s i outcome now = some s') :
    ∃ l, s.loads[i]? = some l ∧ l.phase = .running ∧
      s' = { s with
        entry := stored ttlMs s i outcome now
        loads := s.loads.modify i (Load.to (.landed outcome)) } := by
  rw [landed] at h
  split at h
  · rename_i hphase
    obtain ⟨l, hl, hrunning⟩ := Option.map_eq_some_iff.mp hphase
    exact ⟨l, hl, hrunning, (Option.some.inj h).symm⟩
  · cases h

theorem cleared_cases (h : cleared s i = some s') :
    ∃ l outcome, s.loads[i]? = some l ∧ l.phase = .landed outcome ∧
      s' = { s with
        inflight := none
        loads := s.loads.modify i (Load.to (.finished outcome)) } := by
  rw [cleared] at h
  split at h
  · rename_i outcome hphase
    obtain ⟨l, hl, hlanded⟩ := Option.map_eq_some_iff.mp hphase
    exact ⟨l, outcome, hl, hlanded, (Option.some.inj h).symm⟩
  · cases h

theorem settled_iff : settled s i = some outcome ↔
    ∃ l, s.loads[i]? = some l ∧ l.phase = .finished outcome := by
  rw [← Option.map_eq_some_iff, settled]
  split
  · rename_i o hphase
    rw [hphase, Option.some.injEq, Option.some.injEq, Phase.finished.injEq]
  · rename_i hphase
    simp only [reduceCtorEq, false_iff]
    exact hphase outcome

theorem resumed_cases (h : resumed s g = some s') :
    ∃ asked answer, s.gets[g]? = some asked ∧ answered s asked.answer = some answer ∧
      s' = { s with gets := s.gets.modify g (Get.to answer) } := by
  simp only [resumed, Option.bind_eq_bind, Option.bind_eq_some_iff, Option.pure_def,
    Option.some.injEq] at h
  obtain ⟨asked, hasked, answer, hanswer, rfl⟩ := h
  exact ⟨asked, answer, hasked, hanswer, rfl⟩

/-- The load a `get` waits for. -/
def Answer.waitsFor : Answer T → Option Nat
  | .started i => some i
  | .joined i => some i
  | _ => none

/-- A `get` that goes on resolves with the value of its load; or the load failed, and it
started it and there is an entry; or it rejects. -/
theorem answered_cases {answer answer' : Answer T} (h : answered s answer = some answer') :
    ∃ i outcome, answer.waitsFor = some i ∧ settled s i = some outcome ∧
      ((∃ value, outcome = some value ∧ answer' = .resolved value i) ∨
        (outcome = none ∧ answer = .started i ∧
          ∃ entry, s.entry = some entry ∧ answer' = .resolved entry.value entry.load) ∨
        (outcome = none ∧ answer' = .rejected ∧ (answer = .joined i ∨ s.entry = none))) := by
  cases answer with
  | started i =>
      obtain ⟨outcome, hsettled, hanswer⟩ := Option.map_eq_some_iff.mp h
      refine ⟨i, outcome, rfl, hsettled, ?_⟩
      cases outcome with
      | some value => exact .inl ⟨value, rfl, hanswer.symm⟩
      | none =>
          -- the one that started a load falls back on the entry; one that joined rejects
          rcases hentry : s.entry with _ | entry
          · rw [hentry] at hanswer
            exact .inr (.inr ⟨rfl, hanswer.symm, .inr rfl⟩)
          · rw [hentry] at hanswer
            exact .inr (.inl ⟨rfl, rfl, entry, rfl, hanswer.symm⟩)
  | joined i =>
      obtain ⟨outcome, hsettled, hanswer⟩ := Option.map_eq_some_iff.mp h
      refine ⟨i, outcome, rfl, hsettled, ?_⟩
      cases outcome with
      | some value => exact .inl ⟨value, rfl, hanswer.symm⟩
      | none => exact .inr (.inr ⟨rfl, hanswer.symm, .inl rfl⟩)
  | resolved value i => cases h
  | rejected => cases h

/-- What a `get` is after a step: what it was; or it went on in this step; or it is the one that
begins, and is answered from the cache, joins the load in flight or starts one. -/
theorem gets_cases {r : Get T} (hs : next ttlMs s a = some s') (hr : s'.gets[g]? = some r) :
    s.gets[g]? = some r ∨
    (∃ asked, a = .resumed g ∧ s.gets[g]? = some asked ∧ r.epoch = asked.epoch ∧
      answered s asked.answer = some r.answer) ∨
    (∃ force now, a = .get force now ∧ r.epoch = s.epoch ∧
      ((∃ entry, s.entry = some entry ∧ r.answer = .resolved entry.value entry.load) ∨
        (∃ i, s.inflight = some i ∧ r.answer = .joined i) ∨
        r.answer = .started s.loads.length)) := by
  cases a with
  | get force now =>
      obtain rfl := Option.some.inj hs
      -- a new one, in one of its three ways; the ones before are as they were
      rcases get_cases s force now with ⟨entry, hentry, hget⟩ | ⟨i, hin, hget⟩ | ⟨-, hget⟩
      · rw [hget] at hr
        rcases getElem?_of_insert hr with hr | ⟨-, rfl⟩
        · exact .inl hr
        · exact .inr (.inr ⟨force, now, rfl, rfl, .inl ⟨entry, hentry, rfl⟩⟩)
      · rw [hget] at hr
        rcases getElem?_of_insert hr with hr | ⟨-, rfl⟩
        · exact .inl hr
        · exact .inr (.inr ⟨force, now, rfl, rfl, .inr (.inl ⟨i, hin, rfl⟩)⟩)
      · rw [hget] at hr
        rcases getElem?_of_insert hr with hr | ⟨-, rfl⟩
        · exact .inl hr
        · exact .inr (.inr ⟨force, now, rfl, rfl, .inr (.inr rfl)⟩)
  | invalidate =>
      obtain rfl := Option.some.inj hs
      exact .inl hr
  | landed i outcome now =>
      obtain ⟨l, -, -, rfl⟩ := landed_cases hs
      exact .inl hr
  | cleared i =>
      obtain ⟨l, outcome, -, -, rfl⟩ := cleared_cases hs
      exact .inl hr
  | resumed g' =>
      obtain ⟨asked, answer, hasked, hanswer, rfl⟩ := resumed_cases hs
      obtain ⟨r₀, hr₀, rfl⟩ := getElem?_of_modify hr
      split
      · rename_i hg
        obtain rfl : asked = r₀ := Option.some.inj ((hg ▸ hasked).symm.trans hr₀)
        exact .inr (.inl ⟨asked, by rw [hg], hr₀, rfl, hanswer⟩)
      · exact .inl hr₀

/-- What a load is after a step: what it was; or it begins, lands or is cleared in this step. -/
theorem loads_cases {l : Load T} (hs : next ttlMs s a = some s') (hl : s'.loads[i]? = some l) :
    s.loads[i]? = some l ∨
    (i = s.loads.length ∧ l = ⟨s.epoch, .running⟩) ∨
    (∃ l₀ outcome now, a = .landed i outcome now ∧ s.loads[i]? = some l₀ ∧ l₀.phase = .running ∧
      l = l₀.to (.landed outcome)) ∨
    (∃ l₀ outcome, a = .cleared i ∧ s.loads[i]? = some l₀ ∧ l₀.phase = .landed outcome ∧
      l = l₀.to (.finished outcome)) := by
  cases a with
  | get force now =>
      obtain rfl := Option.some.inj hs
      rcases get_cases s force now with ⟨entry, -, hget⟩ | ⟨i, -, hget⟩ | ⟨-, hget⟩
      · exact .inl (by rwa [hget] at hl)
      · exact .inl (by rwa [hget] at hl)
      · rw [hget] at hl
        rcases getElem?_of_insert hl with hl | hl
        · exact .inl hl
        · exact .inr (.inl hl)
  | invalidate =>
      obtain rfl := Option.some.inj hs
      exact .inl hl
  -- the load itself goes on, and the others are left alone
  | landed j outcome now =>
      obtain ⟨l₀, hl₀, hrunning, rfl⟩ := landed_cases hs
      obtain ⟨l₁, hl₁, rfl⟩ := getElem?_of_modify hl
      split
      · rename_i hij
        obtain rfl : l₀ = l₁ := Option.some.inj ((hij ▸ hl₀).symm.trans hl₁)
        exact .inr (.inr (.inl ⟨l₀, outcome, now, by rw [hij], hl₁, hrunning, rfl⟩))
      · exact .inl hl₁
  | cleared j =>
      obtain ⟨l₀, outcome, hl₀, hlanded, rfl⟩ := cleared_cases hs
      obtain ⟨l₁, hl₁, rfl⟩ := getElem?_of_modify hl
      split
      · rename_i hij
        obtain rfl : l₀ = l₁ := Option.some.inj ((hij ▸ hl₀).symm.trans hl₁)
        exact .inr (.inr (.inr ⟨l₀, outcome, by rw [hij], hl₁, hlanded, rfl⟩))
      · exact .inl hl₁
  | resumed g =>
      obtain ⟨asked, answer, -, -, rfl⟩ := resumed_cases hs
      exact .inl hl

/-- The entry after a step is the one before it, or that of the load that lands. -/
theorem entry_cases {entry : Entry T} (hs : next ttlMs s a = some s')
    (he : s'.entry = some entry) :
    s.entry = some entry ∧ s'.epoch = s.epoch ∨
      ∃ now, a = .landed entry.load (some entry.value) now ∧ s'.epoch = s.epoch := by
  cases a with
  | get force now =>
      obtain rfl := Option.some.inj hs
      rw [entry_get] at he
      exact .inl ⟨he, epoch_get ..⟩
  -- after an invalidation there is none
  | invalidate =>
      obtain rfl := Option.some.inj hs
      cases he
  | landed i outcome now =>
      obtain ⟨l, -, -, rfl⟩ := landed_cases hs
      cases outcome with
      | some value =>
          obtain rfl := Option.some.inj he
          exact .inr ⟨now, rfl, rfl⟩
      | none => exact .inl ⟨he, rfl⟩
  | cleared i =>
      obtain ⟨l, outcome, -, -, rfl⟩ := cleared_cases hs
      exact .inl ⟨he, rfl⟩
  | resumed g =>
      obtain ⟨asked, answer, -, -, rfl⟩ := resumed_cases hs
      exact .inl ⟨he, rfl⟩

/-- Only an `invalidate` begins a new epoch. -/
theorem epoch_cases (hs : next ttlMs s a = some s') :
    s'.epoch = s.epoch ∨ a = .invalidate ∧ s'.epoch = s.epoch + 1 := by
  cases a with
  | get force now =>
      obtain rfl := Option.some.inj hs
      exact .inl (epoch_get ..)
  | invalidate => exact .inr ⟨rfl, by rw [← Option.some.inj hs]; rfl⟩
  | landed i outcome now =>
      obtain ⟨l, -, -, rfl⟩ := landed_cases hs
      exact .inl rfl
  | cleared i =>
      obtain ⟨l, outcome, -, -, rfl⟩ := cleared_cases hs
      exact .inl rfl
  | resumed g =>
      obtain ⟨asked, answer, -, -, rfl⟩ := resumed_cases hs
      exact .inl rfl

/-! ### One load in flight -/

/-- From the call of the loader until it is forgotten. -/
def Load.inFlight (l : Load T) : Bool :=
  match l.phase with
  | .finished _ => false
  | _ => true

/-- `inflight` names the load in flight, and there is none when it names none. -/
structure Tracked (s : CacheState T) : Prop where
  inflight_lt : ∀ i, s.inflight = some i → i < s.loads.length
  inflight_iff : ∀ i l, s.loads[i]? = some l → (s.inflight = some i ↔ l.inFlight = true)

theorem tracked_new : Tracked (CacheState.new : CacheState T) where
  inflight_lt i hi := by cases hi
  inflight_iff i l hl := by simp [CacheState.new] at hl

theorem Tracked.get (h : Tracked s) (force : Bool) (now : Int) : Tracked (get s force now) := by
  rcases get_cases s force now with ⟨entry, -, hget⟩ | ⟨i, -, hget⟩ | ⟨hnone, hget⟩
  · exact hget ▸ ⟨h.inflight_lt, h.inflight_iff⟩
  · exact hget ▸ ⟨h.inflight_lt, h.inflight_iff⟩
  · rw [hget]
    refine ⟨?_, ?_⟩
    · intro i hi
      obtain rfl := Option.some.inj hi
      simp
    · intro i l hl
      rcases getElem?_of_insert hl with hl | ⟨rfl, rfl⟩
      · have hover : ¬ l.inFlight = true := fun hl' => by
          cases hnone.symm.trans ((h.inflight_iff i l hl).mpr hl')
        have hlt : i < s.loads.length := (List.getElem?_eq_some_iff.mp hl).1
        have hne : s.loads.length ≠ i := by omega
        simp [hover, hne]
      · simp [Load.inFlight]

theorem Tracked.landed (h : Tracked s) (hs : landed ttlMs s i outcome now = some s') :
    Tracked s' := by
  obtain ⟨l, hl, hrunning, rfl⟩ := landed_cases hs
  refine ⟨fun j hj => ?_, fun j m hm => ?_⟩
  · rw [List.length_modify]
    exact h.inflight_lt j hj
  · obtain ⟨m₀, hm₀, rfl⟩ := getElem?_of_modify hm
    have hbefore := h.inflight_iff j m₀ hm₀
    split
    · rename_i hij
      obtain rfl : l = m₀ := Option.some.inj ((hij ▸ hl).symm.trans hm₀)
      simpa [Load.inFlight, Load.to, hrunning] using hbefore
    · exact hbefore

theorem Tracked.cleared (h : Tracked s) (hs : cleared s i = some s') : Tracked s' := by
  obtain ⟨l, outcome, hl, hlanded, rfl⟩ := cleared_cases hs
  have hi : s.inflight = some i := (h.inflight_iff i l hl).mpr (by simp [Load.inFlight, hlanded])
  refine ⟨fun j hj => (by cases hj), fun j m hm => ?_⟩
  obtain ⟨m₀, hm₀, rfl⟩ := getElem?_of_modify hm
  have hbefore := h.inflight_iff j m₀ hm₀
  split
  · simp [Load.inFlight, Load.to]
  · rename_i hij
    have hover : ¬ m₀.inFlight = true := fun hm₀ => by
      exact hij (Option.some.inj (hi.symm.trans (hbefore.mpr hm₀)))
    simp [hover]

/-- No call and no callback loses track of the load in flight. -/
theorem Tracked.next (h : Tracked s) (hs : next ttlMs s a = some s') : Tracked s' := by
  cases a with
  | get force now => exact Option.some.inj hs ▸ h.get force now
  | invalidate => exact Option.some.inj hs ▸ ⟨h.inflight_lt, h.inflight_iff⟩
  | landed i outcome now => exact h.landed hs
  | cleared i => exact h.cleared hs
  | resumed g =>
      obtain ⟨asked, answer, -, -, rfl⟩ := resumed_cases hs
      exact ⟨h.inflight_lt, h.inflight_iff⟩

/-- At most one load is in flight. -/
def OneInFlight (s : CacheState T) : Prop :=
  ∀ (i j : Nat) (l m : Load T), s.loads[i]? = some l → s.loads[j]? = some m →
    l.inFlight = true → m.inFlight = true → i = j

theorem Tracked.oneInFlight (h : Tracked s) : OneInFlight s := by
  intro i j l m hl hm hlin hmin
  have hi := (h.inflight_iff i l hl).mpr hlin
  have hj := (h.inflight_iff j m hm).mpr hmin
  exact Option.some.inj (hi.symm.trans hj)

/-! ### Rejections -/

/-- Whether a load has succeeded and no `invalidate` has happened since. -/
def succeeded : List (Action T) → Bool :=
  List.foldl (fun held a =>
    match a with
    | .invalidate => false
    | .landed _ (some _) _ => true
    | _ => held) false

/-- Some `get` rejects in this step. -/
def Rejects (t : Transition (CacheState T) (Action T)) : Prop :=
  ∃ g : Nat, t.post.gets[g]?.map Get.answer = some .rejected ∧
    ¬ t.pre.gets[g]?.map Get.answer = some .rejected

/-- No `get` rejects once a load has succeeded, until the next `invalidate`. -/
def NeverRejects (tr : List (Transition (CacheState T) (Action T))) : Prop :=
  ∀ tr₁ t tr₂, tr = tr₁ ++ t :: tr₂ → succeeded (tr₁.map Transition.label) = true → ¬ Rejects t

/-- A `get` that joined a load which failed goes on while there is an entry. -/
def JoinerFails (t : Transition (CacheState T) (Action T)) : Prop :=
  match t.label with
  | .resumed g => (peek t.pre).isSome = true ∧
      ∃ i, t.pre.gets[g]?.map Get.answer = some (.joined i) ∧ settled t.pre i = some none
  | _ => False

/-- There is an entry exactly when a load has succeeded since the last `invalidate`. -/
theorem succeeded_iff_peek (h : Run (next ttlMs) CacheState.new tr s) :
    succeeded (tr.map Transition.label) = (peek s).isSome := by
  refine h.history (I := fun tr s => succeeded (tr.map Transition.label) = (peek s).isSome)
    (P := fun _ => True) (fun _ _ => trivial) rfl ?_
  intro tr s a s' _ ih hs
  rw [peek, Option.isSome_map] at ih ⊢
  rw [succeeded, List.map_append, List.foldl_append, ← succeeded]
  simp only [List.map_cons, List.map_nil, List.foldl_cons, List.foldl_nil, ih]
  cases a with
  | get force now => rw [← Option.some.inj hs, entry_get]
  | invalidate => rw [← Option.some.inj hs]; rfl
  | landed i outcome now =>
      obtain ⟨l, -, -, rfl⟩ := landed_cases hs
      cases outcome <;> rfl
  | cleared i =>
      obtain ⟨l, outcome, -, -, rfl⟩ := cleared_cases hs
      rfl
  | resumed g =>
      obtain ⟨asked, answer, -, -, rfl⟩ := resumed_cases hs
      rfl

/-- Only a `get` that goes on rejects. -/
theorem rejects_cases (hs : next ttlMs s a = some s') (h : Rejects ⟨s, a, s'⟩) :
    ∃ g asked, a = .resumed g ∧ s.gets[g]? = some asked ∧
      answered s asked.answer = some .rejected := by
  obtain ⟨g, hpost, hpre⟩ := h
  obtain ⟨r, hr, hrejected⟩ := Option.map_eq_some_iff.mp hpost
  rcases gets_cases hs hr with hr | ⟨asked, ha, hasked, -, hanswer⟩ | ⟨-, -, -, -, hbegan⟩
  · exact absurd (Option.map_eq_some_iff.mpr ⟨r, hr, hrejected⟩) hpre
  · exact ⟨g, asked, ha, hasked, hrejected ▸ hanswer⟩
  · rw [hrejected] at hbegan
    rcases hbegan with ⟨entry, -, h⟩ | ⟨i, -, h⟩ | h <;> cases h

/-- While there is an entry, the steps that reject are those in which a joiner fails. -/
theorem rejects_iff (hs : next ttlMs s a = some s') (hheld : (peek s).isSome = true) :
    Rejects ⟨s, a, s'⟩ ↔ JoinerFails ⟨s, a, s'⟩ := by
  constructor
  · intro h
    obtain ⟨g, asked, rfl, hasked, hanswer⟩ := rejects_cases hs h
    obtain ⟨i, outcome, -, hsettled, hcases⟩ := answered_cases hanswer
    -- of the three answers only the last rejects: the joined load failed, or nothing is held
    rcases hcases with ⟨value, -, hvalue⟩ | ⟨-, -, entry, -, hvalue⟩ | ⟨rfl, -, hjoined | hnone⟩
    · cases hvalue
    · cases hvalue
    · exact ⟨hheld, i, Option.map_eq_some_iff.mpr ⟨asked, hasked, hjoined⟩, hsettled⟩
    · rw [peek, hnone] at hheld
      cases hheld
  · intro h
    cases a with
    | resumed g =>
        obtain ⟨-, i, hjoined, hsettled⟩ := h
        obtain ⟨asked, answer, hasked, hanswer, rfl⟩ := resumed_cases hs
        obtain ⟨r, hr, hr'⟩ := Option.map_eq_some_iff.mp hjoined
        obtain rfl : asked = r := Option.some.inj (hasked.symm.trans hr)
        rw [hr', answered, hsettled, Option.map_some, Option.some.injEq] at hanswer
        refine ⟨g, ?_, ?_⟩
        · simp [hasked, Get.to, ← hanswer]
        · rw [hjoined]
          simp
    | get force now => exact h.elim
    | invalidate => exact h.elim
    | landed i outcome now => exact h.elim
    | cleared i => exact h.elim

/-- No `get` rejects after a success unless a joiner fails. -/
theorem neverRejects_iff (h : Run (next ttlMs) CacheState.new tr s) :
    NeverRejects tr ↔ ∀ t ∈ tr, ¬ JoinerFails t := by
  constructor
  · intro hnever t ht hfails
    obtain ⟨tr₁, tr₂, hsplit⟩ := List.append_of_mem ht
    obtain ⟨hrun, hs⟩ := h.split hsplit
    -- a joiner only fails where there is an entry
    have hheld : (peek t.pre).isSome = true := by
      rcases t with ⟨pre, label, post⟩
      cases label with
      | resumed g => exact hfails.1
      | get force now => exact hfails.elim
      | invalidate => exact hfails.elim
      | landed i outcome now => exact hfails.elim
      | cleared i => exact hfails.elim
    have hsucceeded := (succeeded_iff_peek hrun).trans hheld
    exact hnever tr₁ t tr₂ hsplit hsucceeded ((rejects_iff hs hheld).mpr hfails)
  · intro hnone tr₁ t tr₂ hsplit hsucceeded hrejects
    obtain ⟨hrun, hs⟩ := h.split hsplit
    have hheld := (succeeded_iff_peek hrun).symm.trans hsucceeded
    have ht : t ∈ tr := by
      rw [hsplit]
      exact List.mem_append_right _ (List.mem_cons_self ..)
    exact hnone t ht ((rejects_iff hs hheld).mp hrejects)

/-! ### Stale answers -/

/-- The value a load has loaded, once it has landed. -/
def Load.value (l : Load T) : Option T :=
  match l.phase with
  | .running => none
  | .landed outcome => outcome
  | .finished outcome => outcome

/-- Landed with a value, and not forgotten yet. -/
def Load.flying (l : Load T) : Bool := l.inFlight && l.value.isSome

theorem Load.landed_of_value (l : Load T) {value : T} (hin : l.inFlight = true)
    (hvalue : l.value = some value) : l.phase = .landed (some value) := by
  rcases l with ⟨epoch, phase⟩
  cases phase with
  | running => cases hvalue
  | landed outcome => exact congrArg Phase.landed hvalue
  | finished outcome => cases hin

/-- Load `i` has loaded this value, and began after this many invalidations or more. -/
def LoadedSince (s : CacheState T) (i : Nat) (value : T) (epoch : Nat) : Prop :=
  ∃ l, s.loads[i]? = some l ∧ l.value = some value ∧ epoch ≤ l.epoch

/-- Every answer is the value of a load that did not begin before an `invalidate` the `get` came
after. -/
def Fresh (s : CacheState T) : Prop :=
  ∀ (g i : Nat) (r : Get T) (value : T), s.gets[g]? = some r → r.answer = .resolved value i →
    LoadedSince s i value r.epoch

/-- A value lands after an `invalidate` that its load began before, or is still in flight when
the `invalidate` comes. -/
def Overtaken (t : Transition (CacheState T) (Action T)) : Prop :=
  match t.label with
  | .landed i (some _) _ => ∃ l ∈ t.pre.loads[i]?, l.epoch < t.pre.epoch
  | .invalidate => ∃ l ∈ t.pre.loads, l.flying = true
  | _ => False

instance : (t : Transition (CacheState T) (Action T)) → Decidable (Overtaken t)
  | ⟨pre, .landed i (some _) _, _⟩ =>
      inferInstanceAs (Decidable (∃ l ∈ pre.loads[i]?, l.epoch < pre.epoch))
  | ⟨pre, .invalidate, _⟩ => inferInstanceAs (Decidable (∃ l ∈ pre.loads, l.flying = true))
  | ⟨_, .landed _ none _, _⟩ => inferInstanceAs (Decidable False)
  | ⟨_, .get _ _, _⟩ => inferInstanceAs (Decidable False)
  | ⟨_, .cleared _, _⟩ => inferInstanceAs (Decidable False)
  | ⟨_, .resumed _, _⟩ => inferInstanceAs (Decidable False)

/-- What keeps the answers fresh: the entry and the value in flight come from loads begun since
the last `invalidate`, and whoever waits for a value did not come after an `invalidate` its load
began before. -/
structure Timely (s : CacheState T) : Prop where
  tracked : Tracked s
  epoch_le : ∀ (g : Nat) (r : Get T), s.gets[g]? = some r → r.epoch ≤ s.epoch
  entry_since : ∀ entry, s.entry = some entry → LoadedSince s entry.load entry.value s.epoch
  flying_le : ∀ (i : Nat) (l : Load T) (value : T), s.loads[i]? = some l →
    l.phase = .landed (some value) → s.epoch ≤ l.epoch
  waiting_le : ∀ (g i : Nat) (r : Get T) (l : Load T) (value : T), s.gets[g]? = some r →
    r.answer.waitsFor = some i → s.loads[i]? = some l → l.value = some value → r.epoch ≤ l.epoch
  fresh : Fresh s

theorem timely_new : Timely (CacheState.new : CacheState T) where
  tracked := tracked_new
  epoch_le g r hr := by simp [CacheState.new] at hr
  entry_since entry he := by cases he
  flying_le i l value hl := by simp [CacheState.new] at hl
  waiting_le g i r l value hr := by simp [CacheState.new] at hr
  fresh g i r value hr := by simp [CacheState.new] at hr

theorem LoadedSince.mono {value : T} {epoch epoch' : Nat} (h : LoadedSince s i value epoch)
    (hle : epoch' ≤ epoch) : LoadedSince s i value epoch' := by
  obtain ⟨l, hl, hvalue, hepoch⟩ := h
  exact ⟨l, hl, hvalue, hle.trans hepoch⟩

/-- A load that has loaded a value keeps it. -/
theorem LoadedSince.next {value : T} {epoch : Nat} (h : LoadedSince s i value epoch)
    (hs : next ttlMs s a = some s') : LoadedSince s' i value epoch := by
  obtain ⟨l, hl, hvalue, hepoch⟩ := h
  cases a with
  | get force now =>
      obtain rfl := Option.some.inj hs
      rcases get_cases s force now with ⟨e, -, hget⟩ | ⟨j, -, hget⟩ | ⟨-, hget⟩
      · exact ⟨l, by rw [hget]; exact hl, hvalue, hepoch⟩
      · exact ⟨l, by rw [hget]; exact hl, hvalue, hepoch⟩
      · refine ⟨l, ?_, hvalue, hepoch⟩
        rw [hget]
        exact (List.getElem?_append_left (List.getElem?_eq_some_iff.mp hl).1).trans hl
  | invalidate =>
      obtain rfl := Option.some.inj hs
      exact ⟨l, hl, hvalue, hepoch⟩
  | landed j outcome now =>
      obtain ⟨l₀, hl₀, hrunning, rfl⟩ := landed_cases hs
      -- a load that has its value is running no more
      have hne : j ≠ i := by
        rintro rfl
        obtain rfl : l₀ = l := Option.some.inj (hl₀.symm.trans hl)
        simp [Load.value, hrunning] at hvalue
      exact ⟨l, by simpa [hne] using hl, hvalue, hepoch⟩
  | cleared j =>
      obtain ⟨l₀, outcome, hl₀, hlanded, rfl⟩ := cleared_cases hs
      by_cases hij : j = i
      · subst hij
        obtain rfl : l₀ = l := Option.some.inj (hl₀.symm.trans hl)
        refine ⟨l₀.to (.finished outcome), by simp [hl], ?_, hepoch⟩
        simpa [Load.value, Load.to, hlanded] using hvalue
      · exact ⟨l, by simpa [hij] using hl, hvalue, hepoch⟩
  | resumed g =>
      obtain ⟨asked, answer, -, -, rfl⟩ := resumed_cases hs
      exact ⟨l, hl, hvalue, hepoch⟩

section Step

variable (h : Timely s) (hs : next ttlMs s a = some s') (ht : ¬ Overtaken ⟨s, a, s'⟩)

include h hs

theorem Timely.epoch_le_next (r : Get T) (hr : s'.gets[g]? = some r) : r.epoch ≤ s'.epoch := by
  have hepoch : s.epoch ≤ s'.epoch := by
    rcases epoch_cases hs with heq | ⟨-, heq⟩ <;> omega
  refine le_trans ?_ hepoch
  rcases gets_cases hs hr with hr | ⟨asked, -, hasked, heq, -⟩ | ⟨-, -, -, heq, -⟩
  · exact h.epoch_le g r hr
  · exact heq ▸ h.epoch_le g asked hasked
  · exact heq.le

include ht

theorem Timely.entry_since_next (entry : Entry T) (he : s'.entry = some entry) :
    LoadedSince s' entry.load entry.value s'.epoch := by
  rcases entry_cases hs he with ⟨he, hepoch⟩ | ⟨now, rfl, hepoch⟩
  · exact hepoch ▸ (h.entry_since entry he).next hs
  · obtain ⟨l, hl, -, rfl⟩ := landed_cases hs
    have hle : s.epoch ≤ l.epoch := not_lt.mp fun hlt => ht ⟨l, hl, hlt⟩
    exact ⟨l.to (.landed (some entry.value)), by simp [hl], rfl, hle⟩

theorem Timely.flying_le_next (l : Load T) (value : T) (hl : s'.loads[i]? = some l)
    (hphase : l.phase = .landed (some value)) : s'.epoch ≤ l.epoch := by
  rcases epoch_cases hs with hepoch | ⟨rfl, -⟩
  · rw [hepoch]
    rcases loads_cases hs hl with hl | ⟨-, rfl⟩ | ⟨l₀, outcome, now, rfl, hl₀, -, rfl⟩ |
        ⟨l₀, outcome, rfl, hl₀, -, rfl⟩
    · exact h.flying_le i l value hl hphase
    · cases hphase
    · obtain rfl := Phase.landed.inj hphase
      exact not_lt.mp fun hlt => ht ⟨l₀, hl₀, hlt⟩
    · cases hphase
  · obtain rfl := Option.some.inj hs
    have hflying : l.flying = true := by simp [Load.flying, Load.inFlight, Load.value, hphase]
    exact (ht ⟨l, List.mem_of_getElem? hl, hflying⟩).elim

theorem Timely.waiting_le_next (r : Get T) (l : Load T) (value : T) (hr : s'.gets[g]? = some r)
    (hwaits : r.answer.waitsFor = some i) (hl : s'.loads[i]? = some l)
    (hvalue : l.value = some value) : r.epoch ≤ l.epoch := by
  rcases gets_cases hs hr with hr | ⟨asked, -, -, -, hgoes⟩ | ⟨force, now, rfl, heq, hbegan⟩
  · -- it waited before: what is new is at most the value
    rcases loads_cases hs hl with hl | ⟨-, rfl⟩ | ⟨l₀, outcome, now, rfl, hl₀, -, rfl⟩ |
        ⟨l₀, outcome, rfl, hl₀, hlanded, rfl⟩
    · exact h.waiting_le g i r l value hr hwaits hl hvalue
    · cases hvalue
    · obtain rfl : outcome = some value := hvalue
      exact (h.epoch_le g r hr).trans (not_lt.mp fun hlt => ht ⟨l₀, hl₀, hlt⟩)
    · obtain rfl : outcome = some value := hvalue
      exact h.waiting_le g i r l₀ value hr hwaits hl₀ (by rw [Load.value, hlanded])
  -- a call that goes on has its answer and waits no more
  · obtain ⟨j, outcome, -, -, ⟨v, -, hv⟩ | ⟨-, -, entry, -, hv⟩ | ⟨-, hv, -⟩⟩ :=
      answered_cases hgoes <;> rw [hv] at hwaits <;> cases hwaits
  · -- it begins to wait: the load it joins is in flight, and the one it starts has no value yet
    rw [heq]
    rcases loads_cases hs hl with hl | ⟨-, rfl⟩ | ⟨l₀, outcome, now, ha, -⟩ | ⟨l₀, outcome, ha, -⟩
    · rcases hbegan with ⟨entry, -, hv⟩ | ⟨j, hin, hv⟩ | hv
      · rw [hv] at hwaits
        cases hwaits
      · obtain rfl : j = i := by simpa [hv, Answer.waitsFor] using hwaits
        have hflying := (h.tracked.inflight_iff j l hl).mp hin
        exact h.flying_le j l value hl (l.landed_of_value hflying hvalue)
      · obtain rfl : s.loads.length = i := by simpa [hv, Answer.waitsFor] using hwaits
        simp at hl
    · exact le_rfl
    · cases ha
    · cases ha

omit ht in
theorem Timely.fresh_next : Fresh s' := by
  intro g i r value hr hanswer
  rcases gets_cases hs hr with hr | ⟨asked, -, hasked, heq, hgoes⟩ | ⟨-, -, -, heq, hbegan⟩
  · exact (h.fresh g i r value hr hanswer).next hs
  -- an answer is of the load waited for, or of the entry there was
  · rw [heq]
    have hle := h.epoch_le g asked hasked
    rw [hanswer] at hgoes
    obtain ⟨j, outcome, hwaits, hsettled, hcases⟩ := answered_cases hgoes
    rcases hcases with ⟨v, rfl, hv⟩ | ⟨-, -, entry, he, hv⟩ | ⟨-, hv, -⟩
    · obtain ⟨rfl, rfl⟩ := Answer.resolved.inj hv
      obtain ⟨l, hl, hover⟩ := settled_iff.mp hsettled
      have hvalue : l.value = some value := by rw [Load.value, hover]
      exact LoadedSince.next
        ⟨l, hl, hvalue, h.waiting_le g i asked l value hasked hwaits hl hvalue⟩ hs
    · obtain ⟨rfl, rfl⟩ := Answer.resolved.inj hv
      exact ((h.entry_since entry he).mono hle).next hs
    · cases hv
  · rw [heq]
    rw [hanswer] at hbegan
    rcases hbegan with ⟨entry, he, hv⟩ | ⟨j, -, hv⟩ | hv
    · obtain ⟨rfl, rfl⟩ := Answer.resolved.inj hv
      exact (h.entry_since entry he).next hs
    · cases hv
    · cases hv

end Step

/-- A step that overtakes no load keeps every answer fresh. -/
theorem Timely.next (h : Timely s) (hs : next ttlMs s a = some s')
    (ht : ¬ Overtaken ⟨s, a, s'⟩) : Timely s' where
  tracked := h.tracked.next hs
  epoch_le _ := h.epoch_le_next hs
  entry_since := h.entry_since_next hs ht
  flying_le _ := h.flying_le_next hs ht
  waiting_le _ _ := h.waiting_le_next hs ht
  fresh := h.fresh_next hs

/-- No load began after more invalidations than there have been. -/
def Dated (s : CacheState T) : Prop :=
  ∀ (i : Nat) (l : Load T), s.loads[i]? = some l → l.epoch ≤ s.epoch

theorem Dated.next (h : Dated s) (hs : next ttlMs s a = some s') : Dated s' := by
  intro i l hl
  have hepoch : s.epoch ≤ s'.epoch := by
    rcases epoch_cases hs with heq | ⟨-, heq⟩ <;> omega
  refine le_trans ?_ hepoch
  rcases loads_cases hs hl with hl | ⟨-, rfl⟩ | ⟨l₀, -, -, -, hl₀, -, rfl⟩ | ⟨l₀, -, -, hl₀, -, rfl⟩
  · exact h i l hl
  · exact le_rfl
  · exact h i l₀ hl₀
  · exact h i l₀ hl₀

theorem get_of_inflight (hin : s.inflight = some i) : get s true now = begun s (.joined i) := by
  have hlive : live s true now = none := by simp [live]
  simp only [get, hlive, hin]

theorem cleared_of_landed {l : Load T} (hl : s.loads[i]? = some l)
    (hphase : l.phase = .landed outcome) : cleared s i = some { s with
      inflight := none
      loads := s.loads.modify i (Load.to (.finished outcome)) } := by
  have hlanded : s.loads[i]?.map Load.phase = some (.landed outcome) := by
    rw [hl, Option.map_some, hphase]
  simp only [cleared, hlanded]

/-- A caller that joined a load from before an `invalidate` it came after resolves with that
load's value. -/
theorem stale_of_joined (ttlMs : Int) {r : Get T} {l : Load T} {value : T}
    (hr : s.gets[g]? = some r) (hjoined : r.answer = .joined i) (hl : s.loads[i]? = some l)
    (hphase : l.phase = .finished (some value)) (hlt : l.epoch < r.epoch) :
    ∃ s', next ttlMs s (.resumed g) = some s' ∧ ¬ Fresh s' := by
  have hsettled : settled s i = some (some value) := settled_iff.mpr ⟨l, hl, hphase⟩
  have hanswer : answered s r.answer = some (.resolved value i) := by
    rw [hjoined, answered, hsettled]
    rfl
  refine ⟨{ s with gets := s.gets.modify g (Get.to (.resolved value i)) }, ?_, fun hfresh => ?_⟩
  · simp only [next, resumed, hr, hanswer, Option.bind_eq_bind, Option.bind_some, Option.pure_def]
  · obtain ⟨l', hl', -, hle⟩ := hfresh g i (r.to (.resolved value i)) value (by simp [hr]) rfl
    obtain rfl : l = l' := Option.some.inj (hl.symm.trans hl')
    exact absurd hlt (not_lt.mpr hle)

/-- A `get` that joins a value in flight from before the last `invalidate` is answered with
it. -/
theorem stale_of_flying (ttlMs : Int) {l : Load T} {value : T} (hin : s.inflight = some i)
    (hl : s.loads[i]? = some l) (hphase : l.phase = .landed (some value))
    (hlt : l.epoch < s.epoch) : ∃ tr s', Run (next ttlMs) s tr s' ∧ ¬ Fresh s' := by
  have hjoin : next ttlMs s (.get true 0) = some (begun s (.joined i)) :=
    congrArg some (get_of_inflight hin)
  obtain ⟨s₁, hclear, hgets, hloads⟩ : ∃ s₁,
      next ttlMs (begun s (.joined i)) (.cleared i) = some s₁ ∧
      s₁.gets = s.gets ++ [⟨s.epoch, .joined i⟩] ∧
      s₁.loads = s.loads.modify i (Load.to (.finished (some value))) :=
    ⟨_, cleared_of_landed (s := begun s (.joined i)) hl hphase, rfl, rfl⟩
  obtain ⟨s₂, hresume, hstale⟩ := stale_of_joined ttlMs (s := s₁) (g := s.gets.length)
    (r := ⟨s.epoch, .joined i⟩) (l := l.to (.finished (some value))) (by simp [hgets]) rfl
    (by simp [hloads, hl]) rfl hlt
  exact ⟨_, s₂, .snoc (.snoc (.snoc .nil hjoin) hclear) hresume, hstale⟩

/-- After a load has been overtaken, one more `get` is answered with its value. -/
theorem stale_of_overtaken (h : Tracked s) (hdated : Dated s) (hs : next ttlMs s a = some s')
    (ht : Overtaken ⟨s, a, s'⟩) : ∃ tr s'', Run (next ttlMs) s' tr s'' ∧ ¬ Fresh s'' := by
  cases a with
  -- a load that lands late still answers who waits for it
  | landed i outcome now =>
      cases outcome with
      | none => exact ht.elim
      | some value =>
          obtain ⟨l, hl, hlt⟩ := ht
          obtain ⟨l₀, hl₀, hrunning, rfl⟩ := landed_cases hs
          obtain rfl : l₀ = l := Option.some.inj (hl₀.symm.trans hl)
          have hin := (h.inflight_iff i l₀ hl).mpr (by rw [Load.inFlight, hrunning])
          exact stale_of_flying (l := l₀.to (.landed (some value))) ttlMs hin (by simp [hl₀]) rfl
            hlt
  -- and so does one in flight when the cache is invalidated
  | invalidate =>
      obtain ⟨l, hmem, hflying⟩ := ht
      obtain rfl := Option.some.inj hs
      obtain ⟨i, hl⟩ := List.mem_iff_getElem?.mp hmem
      obtain ⟨hin, hvalue⟩ := Bool.and_eq_true_iff.mp hflying
      obtain ⟨value, hvalue⟩ := Option.isSome_iff_exists.mp hvalue
      exact stale_of_flying ttlMs ((h.inflight_iff i l hl).mpr hin) hl
        (l.landed_of_value hin hvalue) (Nat.lt_succ_of_le (hdated i l hl))
  | get force now => exact ht.elim
  | cleared i => exact ht.elim
  | resumed g => exact ht.elim

/-! ### The whole history -/

/-- The cache over any interleaving of calls and callbacks. One load is in flight at a time.
After a success no `get` rejects exactly when no joiner of a failed load goes on while there is
an entry. No answer is stale as long as no load is overtaken by an `invalidate`, and once one
is, a stale answer can follow. -/
theorem serves_stale (h : Run (next ttlMs) (CacheState.new : CacheState T) tr s) :
    (∀ m ∈ reached CacheState.new tr, OneInFlight m) ∧
      (NeverRejects tr ↔ ∀ t ∈ tr, ¬ JoinerFails t) ∧
      ((∀ t ∈ tr, ¬ Overtaken t) → ∀ m ∈ reached CacheState.new tr, Fresh m) ∧
      ∀ t ∈ tr, Overtaken t → ∃ tr' s', Run (next ttlMs) t.post tr' s' ∧ ¬ Fresh s' := by
  have htracked := h.invariant (I := fun m => Tracked m ∧ Dated m)
    ⟨tracked_new, fun i l hl => by simp [CacheState.new] at hl⟩
    fun m a m' hm hs => ⟨hm.1.next hs, hm.2.next hs⟩
  refine ⟨?_, neverRejects_iff h, ?_, ?_⟩
  · intro m hm
    rcases mem_reached.mp hm with rfl | ⟨t, ht, rfl⟩
    · exact tracked_new.oneInFlight
    · exact (htracked.2 t ht).2.1.oneInFlight
  · intro hmeets m hm
    have htimely := h.invariant_of (I := Timely) hmeets timely_new
      fun s a s' ht hm hs => hm.next hs ht
    rcases mem_reached.mp hm with rfl | ⟨t, ht, rfl⟩
    · exact timely_new.fresh
    · exact (htimely.2 t ht).2.fresh
  · intro t ht hover
    obtain ⟨⟨hpre, hdated⟩, -⟩ := htracked.2 t ht
    exact stale_of_overtaken hpre hdated (h.step_of_mem t ht) hover

/-- An expired entry, a load that fails, and a caller that joined it. -/
def joinedLate : List (Action Nat) :=
  [.get false 0, .landed 0 (some 7) 0, .cleared 0, .resumed 0, .get false 20, .get false 20,
    .landed 1 none 30, .cleared 1, .resumed 1, .resumed 2]

theorem joinedLate_isSome : (trace (next 10) CacheState.new joinedLate).isSome := by decide

/-- An `invalidate` while a load runs, and a caller that comes after it. -/
def invalidatedLate : List (Action Nat) :=
  [.get false 0, .invalidate, .get false 0, .landed 0 (some 7) 0, .cleared 0, .resumed 1]

theorem invalidatedLate_isSome :
    (trace (next 10) CacheState.new invalidatedLate).isSome := by decide

/-- The joiner is handed the rejection though there is an entry; the caller that came after the
`invalidate` is answered with the value of the load that began before it. -/
theorem stale_not_served :
    (¬ ∀ tr s, Run (next 10) (CacheState.new : CacheState Nat) tr s → NeverRejects tr) ∧
      ¬ ∀ tr s, Run (next 10) (CacheState.new : CacheState Nat) tr s → Fresh s := by
  refine ⟨fun h => ?_, fun h => ?_⟩
  · have hrun := trace_run (Option.some_get joinedLate_isSome).symm
    refine (neverRejects_iff hrun).mp (h _ _ hrun) _ (List.getElem_mem (n := 9) (by decide)) ?_
    exact ⟨by decide, 1, by decide, by decide⟩
  · have hrun := trace_run (Option.some_get invalidatedLate_isSome).symm
    obtain ⟨l, hl, -, hle⟩ := h _ _ hrun 1 0 ⟨1, .resolved 7 0⟩ 7 (by decide) rfl
    obtain rfl : ⟨0, .finished (some 7)⟩ = l := Option.some.inj (hl ▸ by decide)
    exact absurd hle (by decide)

theorem serves_stale_joinedLate :
    (∀ m ∈ reached CacheState.new (Option.get _ joinedLate_isSome).1, OneInFlight m) ∧
      ∀ m ∈ reached CacheState.new (Option.get _ joinedLate_isSome).1, Fresh m := by
  have hmain := serves_stale (trace_run (Option.some_get joinedLate_isSome).symm)
  exact ⟨hmain.1, hmain.2.2.1 (by decide)⟩

end TtlCache

end Api

end LemonMarket
