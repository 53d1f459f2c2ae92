import LemonMarket.Lib.Backoff
import LemonMarket.Lib.Run
import LemonMarket.Lib.Table

/-!
# LemonMarket.Agent.Cooldown

**Leaving an action alone after it has failed** (`cooldown.ts`). A cooldown holds an entry for
each key that has failed since it last succeeded: how often, and until when it is not tried
again. A run of calls is over a clock that does not go back, and its keys interleave as they
like; the system's state is the entries and the clock.

What a run did to one key is read off its trace as a `Streak`: the failures since the last
success, each with the time `blockedFor` last answered zero before it. The entries of a state
are what the streaks come to (`Watched`), one step at a time, so the wait is exactly the
backoff after the last failure, and the tries of an action that is only tried when it is
clear are spaced by their backoffs.

Seconds are exact. The clock is in whole seconds and so are the intervals unless the environment
sets others, and doubles double, cap and add those exactly.
-/

namespace LemonMarket

namespace Agent

open Lib

/-- The two intervals, in seconds. -/
structure CooldownSettings where
  baseSeconds : ℚ
  maxSeconds : ℚ
  base_pos : 0 < baseSeconds
  base_le : baseSeconds ≤ maxSeconds

/-- What the environment leaves them at. -/
def CooldownSettings.default : CooldownSettings :=
  ⟨120, 1800, by decide, by decide⟩

structure CooldownEntry where
  failures : Nat
  /-- Seconds before which the action is not attempted. -/
  blockedUntil : ℚ
  deriving Repr, DecidableEq

namespace Cooldown

variable {κ : Type} [DecidableEq κ]

abbrev Entries (κ : Type) := Table κ CooldownEntry

/-- Seconds until an action may be attempted again; zero when it is clear. -/
def blockedFor (entries : Entries κ) (now : ℚ) (key : κ) : ℚ :=
  match entries.lookup key with
  | none => 0
  | some entry =>
      let remaining := entry.blockedUntil - now
      if remaining > 0 then remaining else 0

/-- Record a failure: the wait doubles from the base, capped. -/
def failed (cfg : CooldownSettings) (entries : Entries κ) (now : ℚ) (key : κ) : Entries κ :=
  let entry := (entries.lookup key).getD ⟨0, 0⟩
  let failures := entry.failures + 1
  let backoff := min cfg.maxSeconds (cfg.baseSeconds * 2 ^ (failures - 1))
  entries.insert key ⟨failures, now + backoff⟩

/-- Record a success: the entry goes. -/
def succeeded (entries : Entries κ) (key : κ) : Entries κ := entries.erase key

/-- How many failures in a row stand against a key. -/
def failures (entries : Entries κ) (key : κ) : Nat :=
  ((entries.lookup key).map CooldownEntry.failures).getD 0

/-! ### Runs -/

inductive Op
  | blockedFor
  | failed
  | succeeded
  deriving Repr, DecidableEq

/-- A call, at the time it reads off the clock. -/
structure Call (κ : Type) where
  op : Op
  key : κ
  now : ℚ

structure CooldownState (κ : Type) where
  entries : Entries κ
  clock : ℚ

/-- What a call leaves of the entries. -/
def Call.apply (cfg : CooldownSettings) (c : Call κ) (entries : Entries κ) : Entries κ :=
  match c.op with
  | .blockedFor => entries
  | .failed => failed cfg entries c.now c.key
  | .succeeded => succeeded entries c.key

/-- One call. The clock does not go back. -/
def step (cfg : CooldownSettings) (s : CooldownState κ) (c : Call κ) : Option (CooldownState κ) :=
  if c.now < s.clock then none else some ⟨c.apply cfg s.entries, c.now⟩

/-- A new cooldown. -/
def start (clock : ℚ) : CooldownState κ := ⟨∅, clock⟩

/-- A failure, and when `blockedFor` last answered zero before it, if it did since the
failure before. -/
structure Try where
  clearedAt : Option ℚ
  failedAt : ℚ
  deriving Repr, DecidableEq

/-- One key's failures since its last success, and an answer of zero since the last of them. -/
structure Streak where
  tries : List Try := []
  clearedAt : Option ℚ := none
  deriving Repr, DecidableEq

/-- What a call means for the streak of a key. -/
def Streak.next (w : Streak) (key : κ) (t : Transition (CooldownState κ) (Call κ)) : Streak :=
  if t.label.key = key then
    match t.label.op with
    | .blockedFor =>
        if blockedFor t.pre.entries t.label.now key = 0 then
          { w with clearedAt := some t.label.now }
        else w
    | .failed => { tries := w.tries ++ [⟨w.clearedAt, t.label.now⟩] }
    | .succeeded => {}
  else w

def streak (key : κ) (tr : List (Transition (CooldownState κ) (Call κ))) : Streak :=
  tr.foldl (fun w t => w.next key t) {}

/-- The action is attempted only when `blockedFor` is zero: of the streak's failures none is
without such an answer. -/
def Patient (w : Streak) : Prop := ∀ try_ ∈ w.tries, try_.clearedAt.isSome

variable {cfg : CooldownSettings} {key other : κ} {entries : Entries κ} {now clock : ℚ}
  {s s' : CooldownState κ} {c : Call κ} {w : Streak}
  {tr : List (Transition (CooldownState κ) (Call κ))}

/-! ### One call -/

theorem blockedFor_of_lookup {entry : CooldownEntry} (h : entries.lookup key = some entry) :
    blockedFor entries now key = max 0 (entry.blockedUntil - now) := by
  simp only [blockedFor, h]
  split
  next hpos => exact (max_eq_right (le_of_lt hpos)).symm
  next hpos => exact (max_eq_left (not_lt.mp hpos)).symm

theorem blockedFor_of_lookup_none (h : entries.lookup key = none) :
    blockedFor entries now key = 0 := by
  simp only [blockedFor, h]

theorem blockedFor_congr {entries' : Entries κ} (h : entries'.lookup key = entries.lookup key) :
    blockedFor entries' now key = blockedFor entries now key := by
  rw [blockedFor, blockedFor, h]

theorem lookup_failed (cfg : CooldownSettings) (entries : Entries κ) (now : ℚ) (key : κ) :
    (failed cfg entries now key).lookup key = some ⟨failures entries key + 1,
      now + Backoff.wait cfg.baseSeconds cfg.maxSeconds (failures entries key + 1)⟩ := by
  rw [failed, AList.lookup_insert, failures]
  cases entries.lookup key <;> rfl

theorem step_some (h : step cfg s c = some s') :
    s.clock ≤ c.now ∧ s' = ⟨c.apply cfg s.entries, c.now⟩ := by
  simp only [step] at h
  split at h
  next => cases h
  next hclock => exact ⟨not_lt.mp hclock, (Option.some.inj h).symm⟩

/-- A call on one key leaves the others alone. -/
theorem lookup_apply_of_ne (h : c.key ≠ key) :
    (c.apply cfg entries).lookup key = entries.lookup key := by
  rw [Call.apply]
  split
  next => rfl
  next => exact AList.lookup_insert_ne h.symm
  next => exact AList.lookup_erase_ne h.symm

/-! ### The entries are what the streaks come to -/

/-- The entry a streak leaves its key with. -/
def Streak.entry (cfg : CooldownSettings) (w : Streak) : Option CooldownEntry :=
  w.tries.getLast?.map fun last => ⟨w.tries.length,
    last.failedAt + Backoff.wait cfg.baseSeconds cfg.maxSeconds w.tries.length⟩

/-- When a try began: it was cleared then. -/
def Try.begunAt (t : Try) : ℚ := t.clearedAt.getD t.failedAt

/-- What a streak of a key has to do with the entries, and how its tries are spaced. -/
structure Watched (cfg : CooldownSettings) (key : κ) (w : Streak) (s : CooldownState κ) : Prop where
  entry : s.entries.lookup key = w.entry cfg
  past : ∀ c ∈ w.clearedAt, c ≤ s.clock
  clear : ∀ c ∈ w.clearedAt, ∀ entry ∈ w.entry cfg, entry.blockedUntil ≤ c
  begun : ∀ try_ ∈ w.tries, try_.begunAt ≤ try_.failedAt
  spaced : Patient w →
    Backoff.Spaced cfg.baseSeconds cfg.maxSeconds 0 (w.tries.map Try.begunAt) ∧
      Backoff.Spaced cfg.baseSeconds cfg.maxSeconds 0 (w.tries.map Try.failedAt)

theorem watched_start : Watched cfg key {} (start clock) where
  entry := AList.lookup_empty key
  past := by simp
  clear := by simp
  begun := by simp
  spaced _ := ⟨trivial, trivial⟩

theorem failures_eq (h : entries.lookup key = w.entry cfg) :
    failures entries key = w.tries.length := by
  rw [failures, h, Streak.entry]
  cases hlast : w.tries.getLast? with
  | none => rw [List.getLast?_eq_none_iff.mp hlast]; rfl
  | some last => rfl

/-- One more try is spaced if it was cleared. -/
theorem Watched.spaced_snoc (h : Watched cfg key w s) {t : Try}
    (hcleared : t.clearedAt = w.clearedAt) (hbegun : t.begunAt ≤ t.failedAt)
    (hpatient : Patient { w with tries := w.tries ++ [t] }) :
    Backoff.Spaced cfg.baseSeconds cfg.maxSeconds 0 ((w.tries ++ [t]).map Try.begunAt) ∧
      Backoff.Spaced cfg.baseSeconds cfg.maxSeconds 0 ((w.tries ++ [t]).map Try.failedAt) := by
  have hbefore : Patient w := fun u hu => hpatient u (List.mem_append_left _ hu)
  obtain ⟨c, hc⟩ := Option.isSome_iff_exists.mp
    (hpatient t (List.mem_append_right _ (List.mem_singleton_self t)))
  have hat : t.begunAt = c := by rw [Try.begunAt, hc, Option.getD_some]
  -- the last one's wait is over when the new one begins
  have hover : ∀ last ∈ w.tries.getLast?, last.failedAt +
      Backoff.wait cfg.baseSeconds cfg.maxSeconds w.tries.length ≤ t.begunAt := by
    intro last hlast
    rw [hat]
    refine h.clear c (hcleared ▸ hc) ⟨w.tries.length, _⟩ ?_
    rw [Streak.entry, Option.mem_def.mp hlast]
    rfl
  obtain ⟨hbeguns, hfaileds⟩ := h.spaced hbefore
  rw [List.map_append, List.map_append, List.map_singleton, List.map_singleton,
    Backoff.spaced_snoc, Backoff.spaced_snoc]
  simp only [List.getLast?_map, Option.mem_map, List.length_map, Nat.zero_add]
  refine ⟨⟨hbeguns, ?_⟩, hfaileds, ?_⟩
  · rintro _ ⟨last, hlast, rfl⟩
    have hbegan := h.begun last (List.mem_of_getLast? hlast)
    linarith [hover last hlast]
  · rintro _ ⟨last, hlast, rfl⟩
    exact (hover last hlast).trans hbegun

/-- A call on another key. -/
theorem Watched.of_ne (h : Watched cfg key w s) (hclock : s.clock ≤ c.now) (hne : c.key ≠ key) :
    Watched cfg key w ⟨c.apply cfg s.entries, c.now⟩ where
  entry := (lookup_apply_of_ne hne).trans h.entry
  past t ht := (h.past t ht).trans hclock
  clear := h.clear
  begun := h.begun
  spaced := h.spaced

/-- A failure. -/
theorem Watched.fail (h : Watched cfg key w s) (hclock : s.clock ≤ now) :
    Watched cfg key { tries := w.tries ++ [⟨w.clearedAt, now⟩] }
      ⟨failed cfg s.entries now key, now⟩ := by
  have hbegun : Try.begunAt ⟨w.clearedAt, now⟩ ≤ now := by
    simp only [Try.begunAt]
    cases hc : w.clearedAt with
    | none => exact le_rfl
    | some t => exact (h.past t hc).trans hclock
  refine ⟨?_, by simp, by simp, ?_, fun hpatient => h.spaced_snoc rfl hbegun hpatient⟩
  · rw [lookup_failed, failures_eq h.entry, Streak.entry]
    simp
  · intro t ht
    rcases List.mem_append.mp ht with ht | ht
    · exact h.begun t ht
    · rw [List.mem_singleton.mp ht]
      exact hbegun

/-- An answer of zero: what wait there was is over. -/
theorem Watched.answer (h : Watched cfg key w s) (hclock : s.clock ≤ now) :
    Watched cfg key
      (if blockedFor s.entries now key = 0 then { w with clearedAt := some now } else w)
      ⟨s.entries, now⟩ := by
  split
  next hzero =>
    refine ⟨h.entry, ?_, ?_, h.begun, h.spaced⟩
    · intro t ht
      rw [← Option.some.inj ht]
    · intro t ht entry hentry
      rw [← Option.some.inj ht]
      rw [blockedFor_of_lookup (h.entry.trans hentry)] at hzero
      have hover : entry.blockedUntil - now ≤ 0 := hzero ▸ le_max_right _ _
      linarith
  next => exact ⟨h.entry, fun t ht => (h.past t ht).trans hclock, h.clear, h.begun, h.spaced⟩

theorem Watched.next (h : Watched cfg key w s) (hstep : step cfg s c = some s') :
    Watched cfg key (w.next key ⟨s, c, s'⟩) s' := by
  obtain ⟨hclock, rfl⟩ := step_some hstep
  simp only [Streak.next]
  by_cases hkey : c.key = key
  · subst hkey
    rw [if_pos rfl, Call.apply]
    cases c.op with
    | blockedFor => exact h.answer hclock
    | failed => exact h.fail hclock
    | succeeded =>
        refine ⟨?_, by simp, by simp, by simp, fun _ => ⟨trivial, trivial⟩⟩
        exact AList.lookup_erase _ _
  · rw [if_neg hkey]
    exact h.of_ne hclock hkey

theorem streak_snoc (t : Transition (CooldownState κ) (Call κ)) :
    streak key (tr ++ [t]) = (streak key tr).next key t := by
  rw [streak, List.foldl_append]
  rfl

theorem watched_run (hrun : Run (step cfg) (start clock) tr s) :
    Watched cfg key (streak key tr) s := by
  refine hrun.history (I := fun tr s => Watched cfg key (streak key tr) s) (P := fun _ => True)
    (fun _ _ => trivial) watched_start ?_
  intro tr s c s' _ hwatched hstep
  rw [streak_snoc]
  exact hwatched.next hstep

/-! ### The bound -/

/-- **Backoff bounds the attempts.** In every run, whatever happened to other keys: after some
failures in a row a key is blocked for the doubled base, or the maximum, from the last, and
without any it is clear. An action that fails every time and is tried only when it is clear
begins, and fails, no more often in a window than the logarithm, two, and one for each
maximum in it. A success clears its key, and a call leaves every other key as it was. -/
theorem backoff_bounds_attempts (cfg : CooldownSettings) (key : κ)
    (hrun : Run (step cfg) (start clock) tr s) :
    (∀ last ∈ (streak key tr).tries.getLast?, ∀ now, blockedFor s.entries now key =
        max 0 (last.failedAt + min cfg.maxSeconds
          (cfg.baseSeconds * 2 ^ ((streak key tr).tries.length - 1)) - now)) ∧
      ((streak key tr).tries = [] → ∀ now, blockedFor s.entries now key = 0) ∧
      (Patient (streak key tr) → ∀ from_ seconds : ℚ, 0 ≤ seconds →
        (Backoff.within ((streak key tr).tries.map Try.begunAt) from_ (from_ + seconds) : ℝ) ≤
            Real.logb 2 ((cfg.maxSeconds : ℝ) / cfg.baseSeconds) + 2 + seconds / cfg.maxSeconds ∧
          (Backoff.within ((streak key tr).tries.map Try.failedAt) from_ (from_ + seconds) : ℝ) ≤
            Real.logb 2 ((cfg.maxSeconds : ℝ) / cfg.baseSeconds) + 2 + seconds / cfg.maxSeconds) ∧
      ∀ t ∈ tr,
        (t.label.key = key → t.label.op = .succeeded → ∀ now,
          blockedFor t.post.entries now key = 0) ∧
        (t.label.key ≠ key → ∀ now,
          blockedFor t.post.entries now key = blockedFor t.pre.entries now key) := by
  have hwatched : Watched cfg key (streak key tr) s := watched_run hrun
  refine ⟨?_, ?_, ?_, ?_⟩
  -- the entry of a key is what its tries in a row come to
  · intro last hlast now
    have hentry : (streak key tr).entry cfg = some ⟨(streak key tr).tries.length, last.failedAt +
        Backoff.wait cfg.baseSeconds cfg.maxSeconds (streak key tr).tries.length⟩ := by
      rw [Streak.entry, Option.mem_def.mp hlast]
      rfl
    exact blockedFor_of_lookup (hwatched.entry.trans hentry)
  · intro hnone now
    refine blockedFor_of_lookup_none (hwatched.entry.trans ?_)
    rw [Streak.entry, hnone]
    rfl
  -- patient tries are spaced by the waits, which double up to the maximum
  · intro hpatient from_ seconds hseconds
    obtain ⟨hbegun, hfailed⟩ := hwatched.spaced hpatient
    have hwindow : from_ ≤ from_ + seconds := le_add_of_nonneg_right hseconds
    have hlen : ((from_ + seconds : ℚ) : ℝ) - from_ = seconds := by
      push_cast
      ring
    have hbound := Backoff.within_le_logb cfg.base_pos cfg.base_le hbegun hwindow
    have hbound' := Backoff.within_le_logb cfg.base_pos cfg.base_le hfailed hwindow
    rw [hlen] at hbound hbound'
    exact ⟨hbound, hbound'⟩
  · intro t ht
    obtain ⟨-, hpost⟩ := step_some (hrun.step_of_mem t ht)
    rw [hpost]
    refine ⟨?_, fun hne now => blockedFor_congr (lookup_apply_of_ne hne)⟩
    intro hkey hop now
    refine blockedFor_of_lookup_none ?_
    rw [Call.apply, hop, hkey]
    exact AList.lookup_erase _ _

/-- A rebalance that fails at once, fails again when its two minutes are over, and a
deployment that goes through in between. -/
def rebalancing : List (Call String) :=
  [⟨.blockedFor, "REBALANCE:NVDA", 0⟩, ⟨.failed, "REBALANCE:NVDA", 0⟩,
   ⟨.succeeded, "DEPLOY:NVDA", 60⟩, ⟨.blockedFor, "REBALANCE:NVDA", 120⟩,
   ⟨.failed, "REBALANCE:NVDA", 130⟩]

theorem backoff_bounds_attempts_rebalancing :
    ∃ tr s, trace (step .default) (start 0) rebalancing = some (tr, s) ∧
      (streak "REBALANCE:NVDA" tr).tries = [⟨some 0, 0⟩, ⟨some 120, 130⟩] ∧
      blockedFor s.entries 130 "REBALANCE:NVDA" = 240 := by
  have htries : (trace (step .default) (start 0) rebalancing).map
      (fun run => (streak "REBALANCE:NVDA" run.1).tries) = some [⟨some 0, 0⟩, ⟨some 120, 130⟩] := by
    decide +kernel
  cases htrace : trace (step .default) (start 0) rebalancing with
  | none => rw [htrace] at htries; cases htries
  | some run =>
      obtain ⟨tr, s⟩ := run
      rw [htrace, Option.map_some, Option.some.injEq] at htries
      refine ⟨tr, s, rfl, htries, ?_⟩
      have hblocked := (backoff_bounds_attempts .default "REBALANCE:NVDA" (trace_run htrace)).1
        ⟨some 120, 130⟩ (by rw [htries]; rfl) 130
      rw [hblocked, htries]
      decide +kernel

end Cooldown

end Agent

end LemonMarket
