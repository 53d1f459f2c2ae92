import LemonMarket.Agent.Act
import LemonMarket.Agent.IdleReturn
import LemonMarket.Lib.NumberText
import LemonMarket.Lib.Since

/-!
# LemonMarket.Agent.Process

**The agent process, and the orders it works under** (`main` and `runVault` of `index.ts`, and
`setCloseOrder`). A cycle lists the vaults and runs them one after another; a vault's tick is
the stages of `worker.ts`, of which `act` is the one with a memory, and a throw ends that tick
and no other. The process keeps one cooldown for each vault for as long as it lives, and its
database has the operator's close orders, which are written while it works.

What a vault's cooldown goes through is a run of calls of its own (`ownCalls`), whatever the
ticks of other vaults do in between. The operator's clock and the agent's are not compared.
-/

namespace LemonMarket

namespace Agent

namespace Process

open Lib Cooldown

/-! ### Rows -/

structure IndexedVault where
  address : Address
  agentPath : Option String
  agentEnabled : Option Bool
  deriving DecidableEq, Repr

/-- The columns of a `VaultConfig` that a close order is kept in. -/
structure CloseOrder where
  closeRequestedAt : Option Nat := none
  closeRequestedBy : Option Address := none
  closeReason : Option String := none
  closeCompletedAt : Option Nat := none
  deriving DecidableEq, Repr

/-- Why a tick has an error: a text, or where its action stopped. -/
inductive Fault
  | message (text : String)
  | stop (stop : Stop)
  deriving DecidableEq, Repr

/-- What `tick` answers. -/
structure Outcome where
  action : String
  market : Option String := none
  rationale : String
  advised : Bool := false
  navReported : Bool := false
  activityReported : Nat := 0
  fulfilled : Nat := 0
  closeSatisfied : Bool
  error : Option Fault := none
  deriving DecidableEq, Repr

structure AgentRun where
  vaultAddress : Address
  outcome : Outcome
  deriving DecidableEq, Repr

/-! ### One tick -/

/-- What the act stage meets: the venue, its clock, the snapshot and the decision on it. -/
structure ActRun where
  venue : Venue
  decidedAt : ℚ
  actedAt : ℚ
  snapshot : VaultSnapshot
  decision : Decision

/-- How a tick goes: the one of an empty vault, one that cannot price its position or has its
report rejected, one that acts, and one that throws, which may have acted. -/
inductive TickRun
  | dormant (navReported : Bool) (error : Option String)
  | stopped (error : String)
  | acted (a : ActRun) (rationale : String) (advised navReported : Bool) (fulfilled : Nat)
  | threw (a : Option ActRun)

structure Env where
  settings : Settings
  backoff : CooldownSettings

variable (env : Env)

/-- The snapshot of a tick carries the order the tick was given. -/
def ActRun.ordered (a : ActRun) (closeRequested : Bool) : VaultSnapshot :=
  { a.snapshot with closeRequested := closeRequested }

/-- The act stage of a vault with a cooldown. -/
def actOn (closeRequested : Bool) (entries : Entries String) (a : ActRun) :
    TickResult × Entries String :=
  let ended := act env.settings env.backoff a.venue (some entries) a.decidedAt a.actedAt
    (a.ordered closeRequested) a.decision
  (ended.1, ended.2.getD entries)

def dormantRationale : String :=
  "No shares outstanding and nothing deployed, so there is nothing to price, " ++
    "trade or report."

/-- A tick: what it answers, if it does not throw, and the cooldown it leaves. An action that
fails is answered, and nothing is settled after it. -/
def tick (closeRequested : Bool) (entries : Entries String) :
    TickRun → Option (Option Outcome × Entries String)
  | .dormant navReported error =>
      some (some
        { action := "IDLE"
          rationale := dormantRationale
          navReported := navReported
          closeSatisfied := closeRequested
          error := error.map .message }, entries)
  | .stopped error =>
      some (some
        { action := "NONE"
          rationale := error
          closeSatisfied := false
          error := some (.message error) }, entries)
  | .acted a rationale advised navReported fulfilled =>
      let (result, entries) := actOn env closeRequested entries a
      some (some
        { action := result.action.name
          market := result.market
          rationale := rationale
          advised := advised
          navReported := navReported
          activityReported := result.activityReported
          fulfilled := if result.error.isSome then 0 else fulfilled
          closeSatisfied := result.closeSatisfied
          error := result.error.map .stop }, entries)
  | .threw none => some (none, entries)
  | .threw (some a) =>
      let (result, entries) := actOn env closeRequested entries a
      if result.error.isSome then none else some (none, entries)

/-- The agent's clock over a tick: it reads it in order, and it does not go back. -/
def TickRun.endsAt (clock : ℚ) : TickRun → Option ℚ
  | .acted a _ _ _ _ | .threw (some a) =>
      if clock ≤ a.decidedAt ∧ a.decidedAt ≤ a.actedAt then some a.actedAt else none
  | _ => some clock

/-! ### The process -/

/-- Where the process stands: between cycles, between two vaults of one, in a vault's tick
with the order it read, before recording what a tick answered, and before stamping it. -/
inductive Phase
  | asleep
  | between (rest : List IndexedVault)
  | ticking (vault : Address) (closeRequested : Bool) (rest : List IndexedVault)
  | recording (vault : Address) (outcome : Outcome) (rest : List IndexedVault)
  | stamping (vault : Address) (outcome : Outcome) (rest : List IndexedVault)

structure State where
  clock : ℚ
  cooldowns : Table Address (Entries String)
  configs : Table Address CloseOrder
  runs : List AgentRun
  phase : Phase

inductive Label
  | wait (now : ℚ)
  | list (vaults : Option (List IndexedVault))
  | resolve (ready : Bool)
  | tick (run : TickRun)
  | record (stored : Bool)
  | stamp (now : Nat) (stored : Bool)
  | sleep
  | configure (vault : Address)
  | order (vault : Address) (now : Nat) (by_ : Address) (reason : Option String)
  | lift (vault : Address)

/-- `cooldownFor`. -/
def State.cooldownFor (s : State) (vault : Address) : Entries String :=
  (s.cooldowns.lookup vault).getD ∅

/-- Whether a run is worth a row: a vault nobody has deposited into has none. -/
def Outcome.recorded (outcome : Outcome) : Bool :=
  outcome.action != "IDLE" ||
    match outcome.error with
    | none => false
    | some (.message text) => text != ""
    | some (.stop _) => true

/-- `recordCloseSatisfied`: the time is written where there is none. -/
def stampRow (now : Nat) (row : CloseOrder) : CloseOrder :=
  match row.closeCompletedAt with
  | none => { row with closeCompletedAt := some now }
  | some _ => row

/-- A text without the blanks around it, and nothing for one that has no more. -/
def trimmed (text : String) : Option String :=
  let inner := NumberText.trimChars text.toList
  if inner = [] then none else some (String.ofList inner)

/-- One step of the process, or of the operator. -/
def next (s : State) : Label → Option State
  | .wait now => if s.clock ≤ now then some { s with clock := now } else none
  | .list vaults =>
      match s.phase with
      | .asleep => some { s with phase := .between (vaults.getD []) }
      | _ => none
  | .resolve ready =>
      match s.phase with
      | .between (vault :: rest) =>
          if vault.agentEnabled = some false ∨ vault.agentPath.getD "" = "" then
            some { s with phase := .between rest }
          else
            match s.configs.lookup vault.address with
            | none => some { s with phase := .between rest }
            | some record =>
                if ready then
                  some { s with
                    phase := .ticking vault.address record.closeRequestedAt.isSome rest }
                else some { s with phase := .between rest }
      | _ => none
  | .tick run =>
      match s.phase with
      | .ticking vault closeRequested rest =>
          match tick env closeRequested (s.cooldownFor vault) run, run.endsAt s.clock with
          | some (outcome, entries), some clock =>
              some { s with
                clock := clock
                cooldowns := s.cooldowns.insert vault entries
                phase := match outcome with
                  | some outcome => .recording vault outcome rest
                  | none => .between rest }
          | _, _ => none
      | _ => none
  | .record stored =>
      match s.phase with
      | .recording vault outcome rest =>
          some { s with
            runs := if outcome.recorded && stored then s.runs ++ [⟨vault, outcome⟩] else s.runs
            phase := .stamping vault outcome rest }
      | _ => none
  | .stamp now stored =>
      match s.phase with
      | .stamping vault outcome rest =>
          some { s with
            configs := if outcome.closeSatisfied && stored then
              s.configs.tryUpdate vault (stampRow now) else s.configs
            phase := .between rest }
      | _ => none
  | .sleep =>
      match s.phase with
      | .between [] => some { s with phase := .asleep }
      | _ => none
  | .configure vault => some { s with configs := s.configs.upsert vault {} id }
  | .order vault now by_ reason =>
      (s.configs.update vault fun _ =>
        { closeRequestedAt := some now
          closeRequestedBy := some by_
          closeReason := reason.bind trimmed }).map fun configs => { s with configs := configs }
  | .lift vault =>
      (s.configs.update vault fun existing => { closeReason := existing.closeReason }).map
        fun configs => { s with configs := configs }

/-- A process that has just started, with no vault configured. -/
def start (clock : ℚ) : State := ⟨clock, ∅, ∅, [], .asleep⟩

/-! ### What a vault's cooldown is asked -/

/-- The calls of one act stage: an action is asked about unless it is to hold, and one that is
clear is carried out, and failed or succeeded. -/
def actCalls (closeRequested : Bool) (entries : Entries String) (a : ActRun) :
    List (Cooldown.Call String) :=
  let key := cooldownKey a.decision.kind a.decision.market
  let asked : List (Cooldown.Call String) :=
    if a.decision.kind = .hold then [] else [⟨.blockedFor, key, a.decidedAt⟩]
  if heldOff (some entries) a.decidedAt a.decision > 0 then asked
  else
    let result := (actOn env closeRequested entries a).1
    asked ++ [⟨if result.error.isSome then .failed else .succeeded, key, a.actedAt⟩]

def tickCalls (closeRequested : Bool) (entries : Entries String) :
    TickRun → List (Cooldown.Call String)
  | .acted a _ _ _ _ | .threw (some a) => actCalls env closeRequested entries a
  | _ => []

/-- Calls, one after another, on the entries they find. -/
def callsFrom (backoff : CooldownSettings) :
    CooldownState String → List (Cooldown.Call String) →
      List (Transition (CooldownState String) (Cooldown.Call String))
  | _, [] => []
  | s, c :: rest =>
      let s' : CooldownState String := ⟨c.apply backoff s.entries, c.now⟩
      ⟨s, c, s'⟩ :: callsFrom backoff s' rest

/-- What a step of the process asks of a vault's cooldown. -/
def ownCalls (vault : Address) (t : Transition State Label) :
    List (Transition (CooldownState String) (Cooldown.Call String)) :=
  match t.label, t.pre.phase with
  | .tick run, .ticking ticked closeRequested _ =>
      if ticked = vault then
        callsFrom env.backoff ⟨t.pre.cooldownFor vault, t.pre.clock⟩
          (tickCalls env closeRequested (t.pre.cooldownFor vault) run)
      else []
  | _, _ => []

/-- The failures in a row of an action on a vault. -/
def streakOf (vault : Address) (key : String) (tr : List (Transition State Label)) : Streak :=
  streak key (tr.flatMap (ownCalls env vault))

variable {env : Env} {s s' : State} {l : Label} {tr : List (Transition State Label)}
  {vault : Address} {key : String} {entries : Entries String} {clock : ℚ} {w : Streak}
  {closeRequested : Bool}

/-- A cooldown that is watched stays so while time passes. -/
theorem watched_wait {cfg : CooldownSettings} {now : ℚ}
    (h : Watched cfg key w ⟨entries, clock⟩) (hclock : clock ≤ now) :
    Watched cfg key w ⟨entries, now⟩ :=
  ⟨h.entry, fun t ht => (h.past t ht).trans hclock, h.clear, h.begun, h.spaced⟩

theorem blockedFor_nonneg (entries : Entries String) (now : ℚ) (key : String) :
    0 ≤ blockedFor entries now key := by
  cases hentry : entries.lookup key with
  | none => rw [blockedFor_of_lookup_none hentry]
  | some entry =>
      rw [blockedFor_of_lookup hentry]
      exact le_max_left _ _

theorem watched_call {cfg : CooldownSettings} {c : Cooldown.Call String}
    (h : Watched cfg key w ⟨entries, clock⟩) (hclock : clock ≤ c.now) :
    Watched cfg key (w.next key ⟨⟨entries, clock⟩, c, ⟨c.apply cfg entries, c.now⟩⟩)
      ⟨c.apply cfg entries, c.now⟩ :=
  h.next (by simp [Cooldown.step, not_lt.mpr hclock])

/-- A streak stays patient where a failure comes after an answer of zero. -/
theorem patient_call (key : String)
    (t : Transition (CooldownState String) (Cooldown.Call String)) (h : Patient w)
    (hcleared : t.label.op = .failed → t.label.key = key → w.clearedAt.isSome) :
    Patient (w.next key t) := by
  simp only [Streak.next]
  split
  next hkey =>
    split
    next => split <;> exact h
    next hop =>
      intro try_ htry
      rcases List.mem_append.mp htry with htry | htry
      · exact h try_ htry
      · obtain rfl := List.mem_singleton.mp htry
        exact hcleared hop hkey
    next =>
      intro try_ htry
      cases htry
  next => exact h

theorem heldOff_of_ne {a : ActRun} (h : a.decision.kind ≠ .hold) :
    heldOff (some entries) a.decidedAt a.decision =
      blockedFor entries a.decidedAt (cooldownKey a.decision.kind a.decision.market) := by
  rw [heldOff, if_neg h]
  rfl

/-- An action that is held off leaves the cooldown alone, and one that is carried out is
recorded in it as it ends. -/
theorem actOn_entries (a : ActRun) : (actOn env closeRequested entries a).2 =
    if heldOff (some entries) a.decidedAt a.decision > 0 then entries
    else (⟨if (actOn env closeRequested entries a).1.error.isSome then .failed else .succeeded,
      cooldownKey a.decision.kind a.decision.market, a.actedAt⟩ : Cooldown.Call String).apply
        env.backoff entries := by
  simp only [actOn, act]
  split
  next => rfl
  next =>
    split <;> rfl

/-- What an act stage makes of a vault's cooldown: a streak that was patient is patient still,
and the entries are what it comes to. -/
theorem actCalls_watched {a : ActRun} (h : Watched env.backoff key w ⟨entries, clock⟩)
    (hpatient : Patient w) (hbegan : clock ≤ a.decidedAt) (hended : a.decidedAt ≤ a.actedAt) :
    Watched env.backoff key
        ((callsFrom env.backoff ⟨entries, clock⟩ (actCalls env closeRequested entries a)).foldl
          (fun w t => w.next key t) w)
        ⟨(actOn env closeRequested entries a).2, a.actedAt⟩ ∧
      Patient ((callsFrom env.backoff ⟨entries, clock⟩
        (actCalls env closeRequested entries a)).foldl (fun w t => w.next key t) w) := by
  rw [actOn_entries]
  by_cases hhold : a.decision.kind = .hold
  · -- doing nothing is not asked about, and does not fail
    have hheld : ¬ heldOff (some entries) a.decidedAt a.decision > 0 := by simp [heldOff, hhold]
    have hok : ¬ (actOn env closeRequested entries a).1.error.isSome := by
      simp [actOn, act, hheld, execute, hhold]
      rfl
    simp only [actCalls, if_pos hhold, if_neg hheld, if_neg hok, List.nil_append, callsFrom,
      List.foldl_cons, List.foldl_nil]
    exact ⟨watched_call h (hbegan.trans hended), patient_call _ _ hpatient (by simp)⟩
  -- what is asked about is put off, or tried: only then can it fail
  · have hasked := watched_call (c := ⟨.blockedFor,
      cooldownKey a.decision.kind a.decision.market, a.decidedAt⟩) h hbegan
    have hpatient' := patient_call key ⟨⟨entries, clock⟩, ⟨.blockedFor,
      cooldownKey a.decision.kind a.decision.market, a.decidedAt⟩, ⟨entries, a.decidedAt⟩⟩
      hpatient (by simp)
    by_cases hheld : heldOff (some entries) a.decidedAt a.decision > 0
    · simp only [actCalls, if_neg hhold, if_pos hheld, callsFrom, List.foldl_cons, List.foldl_nil]
      exact ⟨watched_wait hasked hended, hpatient'⟩
    · simp only [actCalls, if_neg hhold, if_neg hheld, callsFrom, List.cons_append,
        List.nil_append, List.foldl_cons, List.foldl_nil]
      refine ⟨watched_call hasked hended, patient_call _ _ hpatient' ?_⟩
      -- it was tried, so the key was clear
      intro _ hkey
      have hkey : cooldownKey a.decision.kind a.decision.market = key := hkey
      have hclear : blockedFor entries a.decidedAt key = 0 := by
        rw [heldOff_of_ne hhold, hkey] at hheld
        exact le_antisymm (not_lt.mp hheld) (blockedFor_nonneg entries a.decidedAt key)
      simp [Streak.next, hkey, hclear]

/-- A tick of a vault, on its own cooldown. -/
theorem tickCalls_watched {run : TickRun} {outcome : Option Outcome} {after : Entries String}
    {ended : ℚ} (h : Watched env.backoff key w ⟨entries, clock⟩) (hpatient : Patient w)
    (htick : tick env closeRequested entries run = some (outcome, after))
    (hends : run.endsAt clock = some ended) :
    Watched env.backoff key ((callsFrom env.backoff ⟨entries, clock⟩
        (tickCalls env closeRequested entries run)).foldl (fun w t => w.next key t) w)
        ⟨after, ended⟩ ∧
      Patient ((callsFrom env.backoff ⟨entries, clock⟩
        (tickCalls env closeRequested entries run)).foldl (fun w t => w.next key t) w) := by
  -- a tick that comes to act makes the calls of that; any other makes none
  have hacted : ∀ a : ActRun, after = (actOn env closeRequested entries a).2 →
      (if clock ≤ a.decidedAt ∧ a.decidedAt ≤ a.actedAt then some a.actedAt else none) =
        some ended →
      Watched env.backoff key ((callsFrom env.backoff ⟨entries, clock⟩
          (actCalls env closeRequested entries a)).foldl (fun w t => w.next key t) w)
          ⟨after, ended⟩ ∧
        Patient ((callsFrom env.backoff ⟨entries, clock⟩
          (actCalls env closeRequested entries a)).foldl (fun w t => w.next key t) w) := by
    intro a hafter hends
    split at hends
    next hclock =>
      obtain rfl := Option.some.inj hends
      rw [hafter]
      exact actCalls_watched h hpatient hclock.1 hclock.2
    next => cases hends
  have hidle : after = entries → ended = clock →
      Watched env.backoff key w ⟨after, ended⟩ ∧ Patient w := by
    rintro rfl rfl
    exact ⟨h, hpatient⟩
  cases run with
  | dormant navReported error =>
      exact hidle (Prod.mk.inj (Option.some.inj htick)).2.symm (Option.some.inj hends).symm
  | stopped error =>
      exact hidle (Prod.mk.inj (Option.some.inj htick)).2.symm (Option.some.inj hends).symm
  | acted a rationale advised navReported fulfilled =>
      exact hacted a (Prod.mk.inj (Option.some.inj htick)).2.symm hends
  | threw a =>
      cases a with
      | none =>
          exact hidle (Prod.mk.inj (Option.some.inj htick)).2.symm (Option.some.inj hends).symm
      | some a =>
          simp only [tick] at htick
          split at htick
          next => cases htick
          next => exact hacted a (Prod.mk.inj (Option.some.inj htick)).2.symm hends

theorem endsAt_le {run : TickRun} {ended : ℚ} (h : run.endsAt clock = some ended) :
    clock ≤ ended := by
  have hacted : ∀ a : ActRun, (if clock ≤ a.decidedAt ∧ a.decidedAt ≤ a.actedAt then
      some a.actedAt else none) = some ended → clock ≤ ended := by
    intro a h
    split at h
    next hclock => exact Option.some.inj h ▸ hclock.1.trans hclock.2
    next => cases h
  cases run with
  | dormant | stopped => exact (Option.some.inj h).le
  | acted a => exact hacted a h
  | threw a =>
      cases a with
      | none => exact (Option.some.inj h).le
      | some a => exact hacted a h

theorem tick_some {run : TickRun} (hs : next env s (.tick run) = some s') :
    ∃ vault closeRequested rest outcome entries, s.phase = .ticking vault closeRequested rest ∧
      tick env closeRequested (s.cooldownFor vault) run = some (outcome, entries) ∧
      run.endsAt s.clock = some s'.clock ∧ s' =
        { s with
          clock := s'.clock
          cooldowns := s.cooldowns.insert vault entries
          phase := match outcome with
            | some outcome => .recording vault outcome rest
            | none => .between rest } := by
  simp only [next] at hs
  split at hs
  next vault closeRequested rest hphase =>
    split at hs
    next outcome entries clock htick hends =>
      obtain rfl := Option.some.inj hs
      exact ⟨vault, closeRequested, rest, outcome, entries, hphase, htick, hends, rfl⟩
    next => cases hs
  next => cases hs

theorem resolve_some {ready : Bool} (hs : next env s (.resolve ready) = some s') :
    ∃ vault rest, s.phase = .between (vault :: rest) ∧
      (s' = { s with phase := .between rest } ∨
        ∃ record, s.configs.lookup vault.address = some record ∧ s' = { s with
          phase := .ticking vault.address record.closeRequestedAt.isSome rest }) := by
  simp only [next] at hs
  split at hs
  next vault rest hphase =>
    refine ⟨vault, rest, hphase, ?_⟩
    split at hs
    next => exact .inl (Option.some.inj hs).symm
    next =>
      split at hs
      next => exact .inl (Option.some.inj hs).symm
      next record hrecord =>
        split at hs
        next => exact .inr ⟨record, hrecord, (Option.some.inj hs).symm⟩
        next => exact .inl (Option.some.inj hs).symm
  next => cases hs

/-- Only a tick changes a cooldown, and the clock does not go back. -/
theorem next_frame (hs : next env s l = some s') :
    (∃ run, l = .tick run) ∨
      (∀ run, l ≠ .tick run) ∧ s'.cooldowns = s.cooldowns ∧ s.clock ≤ s'.clock := by
  cases l with
  | tick run => exact .inl ⟨run, rfl⟩
  -- of the steps that are no tick this one alone moves the clock, and forward
  | wait now =>
      simp only [next] at hs
      split at hs
      next hnow =>
        obtain rfl := Option.some.inj hs
        exact .inr ⟨by simp, rfl, hnow⟩
      next => cases hs
  | resolve ready =>
      obtain ⟨vault, rest, -, rfl | ⟨record, -, rfl⟩⟩ := resolve_some hs <;>
        exact .inr ⟨by simp, rfl, le_rfl⟩
  | list | record | stamp | sleep =>
      right
      simp only [next] at hs
      split at hs
      · obtain rfl := Option.some.inj hs
        exact ⟨by simp, rfl, le_rfl⟩
      · cases hs
  | configure vault =>
      obtain rfl := Option.some.inj hs
      exact .inr ⟨by simp, rfl, le_rfl⟩
  | order vault now by_ reason =>
      obtain ⟨configs, -, rfl⟩ := Option.map_eq_some_iff.mp hs
      exact .inr ⟨by simp, rfl, le_rfl⟩
  | lift vault =>
      obtain ⟨configs, -, rfl⟩ := Option.map_eq_some_iff.mp hs
      exact .inr ⟨by simp, rfl, le_rfl⟩

/-- What a step makes of a vault's cooldown: it is the tick of that vault, and the cooldown is
what it leaves, or it asks nothing of it and leaves it alone. -/
theorem next_cooldown (hs : next env s l = some s') (vault : Address) :
    (∃ run closeRequested rest outcome, l = .tick run ∧
        s.phase = .ticking vault closeRequested rest ∧
        tick env closeRequested (s.cooldownFor vault) run =
          some (outcome, s'.cooldownFor vault) ∧
        run.endsAt s.clock = some s'.clock) ∨
      ownCalls env vault ⟨s, l, s'⟩ = [] ∧ s'.cooldownFor vault = s.cooldownFor vault ∧
        s.clock ≤ s'.clock := by
  rcases next_frame hs with ⟨run, rfl⟩ | ⟨hother, hcooldowns, hclock⟩
  · obtain ⟨ticked, closeRequested, rest, outcome, entries, hphase, htick, hends, hs'⟩ :=
      tick_some hs
    have hclock : s.clock ≤ s'.clock := endsAt_le hends
    by_cases hvault : ticked = vault
    · subst hvault
      refine .inl ⟨run, closeRequested, rest, outcome, rfl, hphase, ?_, hends⟩
      rw [htick, hs', State.cooldownFor, AList.lookup_insert]
      rfl
    · refine .inr ⟨?_, ?_, hclock⟩
      · simp only [ownCalls, hphase, if_neg hvault]
      · rw [hs', State.cooldownFor, AList.lookup_insert_ne (Ne.symm hvault)]
        rfl
  · refine .inr ⟨?_, by rw [State.cooldownFor, hcooldowns]; rfl, hclock⟩
    cases l with
    | tick run => exact absurd rfl (hother run)
    | wait | list | resolve | record | stamp | sleep | configure | order | lift => rfl

/-- What a history says of one action on one vault: its streak is what the cooldown holds, and
no failure is in it that was not clear. -/
theorem watched_run {t₀ : ℚ} (h : Run (next env) (start t₀) tr s) (vault : Address)
    (key : String) :
    Watched env.backoff key (streakOf env vault key tr) ⟨s.cooldownFor vault, s.clock⟩ ∧
      Patient (streakOf env vault key tr) := by
  refine h.history (I := fun tr s => Watched env.backoff key (streakOf env vault key tr)
    ⟨s.cooldownFor vault, s.clock⟩ ∧ Patient (streakOf env vault key tr)) (P := fun _ => True)
    (fun _ _ => trivial) ⟨watched_start, by simp [Patient, streakOf, streak]⟩ ?_
  rintro tr s l s' - ⟨hwatched, hpatient⟩ hs
  have hstreak : streakOf env vault key (tr ++ [⟨s, l, s'⟩]) =
      (ownCalls env vault ⟨s, l, s'⟩).foldl (fun w t => w.next key t)
        (streakOf env vault key tr) := by
    simp only [streakOf, streak, List.flatMap_append, List.flatMap_singleton, List.foldl_append]
  rw [hstreak]
  rcases next_cooldown hs vault with
    ⟨run, closeRequested, rest, outcome, rfl, hphase, htick, hends⟩ | ⟨hnone, hsame, hclock⟩
  · simp only [ownCalls, hphase, if_true]
    exact tickCalls_watched hwatched hpatient htick hends
  · rw [hnone, hsame]
    exact ⟨watched_wait hwatched hclock, hpatient⟩

/-- **The process leaves a failing action alone, vault by vault.** Over its whole life, however
many vaults it runs and whichever of their ticks throw: an action that has failed on a vault is
blocked there for the doubled base, or the maximum, from its last failure; the attempts of an
action that fails every time begin, and fail, no more often in a window than the logarithm,
two, and one for each maximum in it; and no step but a tick of the vault touches its cooldown. -/
theorem attempts_bounded {t₀ : ℚ} (h : Run (next env) (start t₀) tr s) (vault : Address)
    (key : String) :
    (∀ last ∈ (streakOf env vault key tr).tries.getLast?, ∀ now,
        blockedFor (s.cooldownFor vault) now key = max 0 (last.failedAt +
          min env.backoff.maxSeconds (env.backoff.baseSeconds *
            2 ^ ((streakOf env vault key tr).tries.length - 1)) - now)) ∧
      (∀ from_ seconds : ℚ, 0 ≤ seconds →
        (Backoff.within ((streakOf env vault key tr).tries.map Try.begunAt) from_
            (from_ + seconds) : ℝ) ≤
          Real.logb 2 ((env.backoff.maxSeconds : ℝ) / env.backoff.baseSeconds) + 2 +
            seconds / env.backoff.maxSeconds ∧
        (Backoff.within ((streakOf env vault key tr).tries.map Try.failedAt) from_
            (from_ + seconds) : ℝ) ≤
          Real.logb 2 ((env.backoff.maxSeconds : ℝ) / env.backoff.baseSeconds) + 2 +
            seconds / env.backoff.maxSeconds) ∧
      ∀ t ∈ tr, (∀ run closeRequested rest, t.label = .tick run →
          t.pre.phase ≠ .ticking vault closeRequested rest) →
        t.post.cooldownFor vault = t.pre.cooldownFor vault := by
  obtain ⟨hwatched, hpatient⟩ := watched_run h vault key
  refine ⟨?_, ?_, ?_⟩
  -- the entry of the key is what its tries in a row come to
  · intro last hlast now
    have hentry : (streakOf env vault key tr).entry env.backoff =
        some ⟨(streakOf env vault key tr).tries.length, last.failedAt +
          Backoff.wait env.backoff.baseSeconds env.backoff.maxSeconds
            (streakOf env vault key tr).tries.length⟩ := by
      rw [Streak.entry, Option.mem_def.mp hlast]
      rfl
    exact blockedFor_of_lookup (hwatched.entry.trans hentry)
  · intro from_ seconds hseconds
    -- tries are spaced by the waits, which double up to the maximum
    obtain ⟨hbegun, hfailed⟩ := hwatched.spaced hpatient
    have hwindow : from_ ≤ from_ + seconds := le_add_of_nonneg_right hseconds
    have hlen : ((from_ + seconds : ℚ) : ℝ) - from_ = seconds := by
      push_cast
      ring
    have hbound := Backoff.within_le_logb env.backoff.base_pos env.backoff.base_le hbegun hwindow
    have hbound' :=
      Backoff.within_le_logb env.backoff.base_pos env.backoff.base_le hfailed hwindow
    rw [hlen] at hbound hbound'
    exact ⟨hbound, hbound'⟩
  · intro t ht hother
    rcases next_cooldown (h.step_of_mem t ht) vault with
      ⟨run, closeRequested, rest, _, hlabel, hphase, -⟩ | ⟨-, hsame, -⟩
    · exact absurd hphase (hother run closeRequested rest hlabel)
    · exact hsame

namespace Test

def defaults : Env := ⟨.default, .default⟩

def nvdaVault : IndexedVault :=
  ⟨LemonMarket.Test.vault.val, some "lemon/NVDA/conservative/v1", none⟩

/-- A tick with a decision on a vault with nothing left outside it. -/
def decided (decidedAt actedAt : ℚ) (decision : Decision) : TickRun :=
  .acted ⟨openVenue 0 0, decidedAt, actedAt, oneUnitLeft 0, decision⟩ "" false true 0

/-- A rebalance of no market, which stops, in two cycles. -/
def rebalancing : List Label :=
  [.configure nvdaVault.address,
   .list (some [nvdaVault]), .resolve true, .tick (decided 0 0 { kind := .rebalance }),
   .record true, .stamp 0 true, .sleep, .wait 100,
   .list (some [nvdaVault]), .resolve true, .tick (decided 120 130 { kind := .rebalance })]

theorem attempts_bounded_rebalancing :
    ∃ tr s, trace (next defaults) (start 0) rebalancing = some (tr, s) ∧
      (streakOf defaults nvdaVault.address "REBALANCE:-" tr).tries =
        [⟨some 0, 0⟩, ⟨some 120, 130⟩] ∧
      blockedFor (s.cooldownFor nvdaVault.address) 130 "REBALANCE:-" = 240 := by
  have htries : (trace (next defaults) (start 0) rebalancing).map (fun run =>
      (streakOf defaults nvdaVault.address "REBALANCE:-" run.1).tries) =
        some [⟨some 0, 0⟩, ⟨some 120, 130⟩] := by
    decide +kernel
  cases htrace : trace (next defaults) (start 0) rebalancing with
  | none => rw [htrace] at htries; cases htries
  | some run =>
      obtain ⟨tr, s⟩ := run
      rw [htrace, Option.map_some, Option.some.injEq] at htries
      refine ⟨tr, s, rfl, htries, ?_⟩
      have hblocked := (attempts_bounded (trace_run htrace) nvdaVault.address "REBALANCE:-").1
        ⟨some 120, 130⟩ (by rw [htries]; rfl) 130
      rw [hblocked, htries]
      decide +kernel

end Test

/-! ### When an order is satisfied -/

/-- The operator writes the order of a vault, or lifts it. -/
def Writes (t : Transition State Label) (vault : Address) : Prop :=
  t.label = .lift vault ∨ ∃ now by_ reason, t.label = .order vault now by_ reason

/-- A tick that answers the order is satisfied has its time written. -/
def Stamps (t : Transition State Label) (vault : Address) (time : Nat) : Prop :=
  ∃ outcome rest, t.label = .stamp time true ∧ t.pre.phase = .stamping vault outcome rest ∧
    outcome.closeSatisfied = true

/-- A tick under an order finds the vault empty, or flat. -/
def FindsFlat (t : Transition State Label) (vault : Address) : Prop :=
  ∃ run rest, t.label = .tick run ∧ t.pre.phase = .ticking vault true rest ∧
    ((∃ navReported error, run = .dormant navReported error) ∨
      ∃ a rationale advised navReported fulfilled,
        run = .acted a rationale advised navReported fulfilled ∧ isFlat (a.ordered true) = true)

/-- The tick of a vault found its order satisfied, and has not been stamped yet. -/
def Phase.Satisfied (vault : Address) : Phase → Prop
  | .recording ticked outcome _ | .stamping ticked outcome _ =>
      ticked = vault ∧ outcome.closeSatisfied = true
  | _ => False

/-- A tick of the vault is under way that read an order, or found one satisfied. -/
def Phase.Closing (vault : Address) (p : Phase) : Prop :=
  (∃ rest, p = .ticking vault true rest) ∨ p.Satisfied vault

/-- The row of a vault has an order. -/
def Standing (configs : Table Address CloseOrder) (vault : Address) : Prop :=
  ∃ row, configs.lookup vault = some row ∧ row.closeRequestedAt.isSome

theorem tick_satisfied {run : TickRun} {outcome : Outcome} {after : Entries String}
    (h : tick env closeRequested entries run = some (some outcome, after))
    (hsatisfied : outcome.closeSatisfied = true) : closeRequested = true ∧
      ((∃ navReported error, run = .dormant navReported error) ∨
        ∃ a rationale advised navReported fulfilled,
          run = .acted a rationale advised navReported fulfilled ∧
            isFlat (a.ordered true) = true) := by
  cases run with
  | dormant navReported error =>
      obtain ⟨houtcome, -⟩ := Prod.mk.inj (Option.some.inj h)
      obtain rfl := Option.some.inj houtcome
      exact ⟨hsatisfied, .inl ⟨_, _, rfl⟩⟩
  | stopped error =>
      obtain ⟨houtcome, -⟩ := Prod.mk.inj (Option.some.inj h)
      obtain rfl := Option.some.inj houtcome
      cases hsatisfied
  | acted a rationale advised navReported fulfilled =>
      obtain ⟨houtcome, -⟩ := Prod.mk.inj (Option.some.inj h)
      obtain rfl := Option.some.inj houtcome
      -- the outcome of an act says so only of an order whose markets are flat
      have hboth : (closeRequested && isFlat (a.ordered closeRequested)) = true := by
        simp only [act] at hsatisfied
        split at hsatisfied
        next => cases hsatisfied
        next =>
          split at hsatisfied
          next => cases hsatisfied
          next => exact hsatisfied
      obtain ⟨rfl, hflat⟩ := Bool.and_eq_true_iff.mp hboth
      exact ⟨rfl, .inr ⟨a, _, _, _, _, rfl, hflat⟩⟩
  | threw a =>
      cases a with
      | none =>
          obtain ⟨houtcome, -⟩ := Prod.mk.inj (Option.some.inj h)
          cases houtcome
      | some a =>
          simp only [tick] at h
          split at h
          next => cases h
          next =>
            obtain ⟨houtcome, -⟩ := Prod.mk.inj (Option.some.inj h)
            cases houtcome

/-- Where a satisfied order comes from: it was one before, or the tick is what found it so. -/
theorem next_satisfied (hs : next env s l = some s') (h : s'.phase.Satisfied vault) :
    s.phase.Satisfied vault ∨ FindsFlat ⟨s, l, s'⟩ vault := by
  cases l with
  | tick run =>
      obtain ⟨ticked, closeRequested, rest, outcome, entries, hphase, htick, -, hs'⟩ :=
        tick_some hs
      rw [hs'] at h
      cases outcome with
      | none => cases h
      | some outcome =>
          obtain ⟨rfl, hsatisfied⟩ := h
          obtain ⟨rfl, hrun⟩ := tick_satisfied htick hsatisfied
          exact .inr ⟨run, rest, rfl, hphase, hrun⟩
  | resolve ready =>
      obtain ⟨resolved, rest, -, rfl | ⟨record, -, rfl⟩⟩ := resolve_some hs <;> cases h
  -- what is recorded is carried on; any other step of the process ends the tick
  | record stored =>
      simp only [next] at hs
      split at hs
      next recorded outcome rest hphase =>
        obtain rfl := Option.some.inj hs
        left
        rw [hphase]
        exact h
      next => cases hs
  | list | stamp | sleep =>
      simp only [next] at hs
      split at hs
      · obtain rfl := Option.some.inj hs
        cases h
      · cases hs
  -- and what is outside of it leaves its phase alone
  | wait now =>
      simp only [next, Option.ite_none_right_eq_some, Option.some.injEq] at hs
      obtain ⟨-, rfl⟩ := hs
      exact .inl h
  | configure configured =>
      obtain rfl := Option.some.inj hs
      exact .inl h
  | order ordered now by_ reason =>
      obtain ⟨configs, -, rfl⟩ := Option.map_eq_some_iff.mp hs
      exact .inl h
  | lift lifted =>
      obtain ⟨configs, -, rfl⟩ := Option.map_eq_some_iff.mp hs
      exact .inl h

/-- A tick that reads an order reads the one that is standing. -/
theorem next_closing (hs : next env s l = some s') (h : s'.phase.Closing vault) :
    s.phase.Closing vault ∨ Standing s.configs vault ∧ s'.configs = s.configs := by
  rcases h with ⟨rest, hticking⟩ | hsatisfied
  -- a tick that is about to run: reading the configuration is what begins it
  · cases l with
    | resolve ready =>
        obtain ⟨resolved, rest', -, rfl | ⟨record, hrecord, rfl⟩⟩ := resolve_some hs
        · cases hticking
        · obtain ⟨rfl, hrequested, -⟩ := Phase.ticking.inj hticking
          exact .inr ⟨⟨record, hrecord, hrequested⟩, rfl⟩
    | tick run =>
        obtain ⟨ticked, closeRequested, rest', outcome, entries, -, -, -, hs'⟩ := tick_some hs
        rw [hs'] at hticking
        cases outcome <;> cases hticking
    | list | record | stamp | sleep =>
        simp only [next] at hs
        split at hs
        · obtain rfl := Option.some.inj hs
          cases hticking
        · cases hs
    | wait now =>
        simp only [next, Option.ite_none_right_eq_some, Option.some.injEq] at hs
        obtain ⟨-, rfl⟩ := hs
        exact .inl (.inl ⟨rest, hticking⟩)
    | configure configured =>
        obtain rfl := Option.some.inj hs
        exact .inl (.inl ⟨rest, hticking⟩)
    | order ordered now by_ reason =>
        obtain ⟨configs, -, rfl⟩ := Option.map_eq_some_iff.mp hs
        exact .inl (.inl ⟨rest, hticking⟩)
    | lift lifted =>
        obtain ⟨configs, -, rfl⟩ := Option.map_eq_some_iff.mp hs
        exact .inl (.inl ⟨rest, hticking⟩)
  -- a tick that has found the order satisfied
  · rcases next_satisfied hs hsatisfied with hbefore | ⟨run, rest, -, hphase, -⟩
    · exact .inl (.inr hbefore)
    · exact .inl (.inl ⟨rest, hphase⟩)

/-- What a step makes of a vault's row: the operator writes it, without a completion; or it is
as before, or the first one, or stamped. -/
inductive RowStep (t : Transition State Label) (vault : Address) : Prop
  | written (writes : Writes t vault) (row : CloseOrder)
      (post : t.post.configs.lookup vault = some row) (open_ : row.closeCompletedAt = none)
  | same (unwritten : ¬ Writes t vault)
      (post : t.post.configs.lookup vault = t.pre.configs.lookup vault)
  | first (unwritten : ¬ Writes t vault) (pre : t.pre.configs.lookup vault = none)
      (post : t.post.configs.lookup vault = some {})
  | stamped (unwritten : ¬ Writes t vault) (now : Nat) (row : CloseOrder)
      (stamps : Stamps t vault now) (pre : t.pre.configs.lookup vault = some row)
      (post : t.post.configs.lookup vault = some (stampRow now row))

theorem next_row (hs : next env s l = some s') (vault : Address) :
    RowStep ⟨s, l, s'⟩ vault := by
  have hsame : s'.configs = s.configs → ¬ Writes ⟨s, l, s'⟩ vault → RowStep ⟨s, l, s'⟩ vault :=
    fun hconfigs hwrites => .same hwrites (congrArg (AList.lookup vault) hconfigs)
  cases l with
  | tick run =>
      obtain ⟨_, _, _, _, _, -, -, -, hs'⟩ := tick_some hs
      exact hsame (by rw [hs']) (by simp [Writes])
  | resolve ready =>
      obtain ⟨_, _, -, rfl | ⟨_, -, rfl⟩⟩ := resolve_some hs <;> exact hsame rfl (by simp [Writes])
  | list | record | sleep =>
      simp only [next] at hs
      split at hs
      · obtain rfl := Option.some.inj hs
        exact hsame rfl (by simp [Writes])
      · cases hs
  | wait now =>
      simp only [next, Option.ite_none_right_eq_some, Option.some.injEq] at hs
      obtain ⟨-, rfl⟩ := hs
      exact hsame rfl (by simp [Writes])
  -- the only step of a tick that writes: it answers the order of the vault it was on
  | stamp now stored =>
      simp only [next] at hs
      split at hs
      next answered outcome rest hphase =>
        obtain rfl := Option.some.inj hs
        by_cases hstamps : (outcome.closeSatisfied && stored) = true
        · simp only [if_pos hstamps]
          obtain ⟨hsatisfied, rfl⟩ := Bool.and_eq_true_iff.mp hstamps
          by_cases hvault : answered = vault
          · subst hvault
            cases hrow : s.configs.lookup answered with
            | none =>
                refine .same (by simp [Writes]) ?_
                simp only [Table.tryUpdate, Table.update, hrow]
                exact hrow
            | some row =>
                refine .stamped (by simp [Writes]) now row
                  ⟨outcome, rest, rfl, hphase, hsatisfied⟩ hrow ?_
                simp only [Table.tryUpdate, Table.update, hrow]
                exact AList.lookup_insert _
          · exact .same (by simp [Writes]) (Table.lookup_tryUpdate_of_ne (Ne.symm hvault))
        · exact hsame (if_neg hstamps) (by simp [Writes])
      next => cases hs
  -- the first row of a vault, or the one it has
  | configure configured =>
      obtain rfl := Option.some.inj hs
      by_cases hvault : configured = vault
      · subst hvault
        cases hrow : s.configs.lookup configured with
        | none =>
            refine .first (by simp [Writes]) hrow ?_
            simp only [Table.lookup_upsert_self, hrow]
            rfl
        | some row =>
            refine .same (by simp [Writes]) ?_
            simp only [Table.lookup_upsert_self, hrow]
            rfl
      · exact .same (by simp [Writes]) (Table.lookup_upsert_of_ne (Ne.symm hvault))
  -- the operators: an order is written or lifted, on this vault or another
  | order ordered now by_ reason =>
      obtain ⟨configs, hconfigs, rfl⟩ := Option.map_eq_some_iff.mp hs
      by_cases hvault : ordered = vault
      · subst hvault
        obtain ⟨row, hrow, -⟩ := Table.update_eq_some.mp hconfigs
        exact .written (.inr ⟨now, by_, reason, rfl⟩) _ (Table.lookup_update_self hrow hconfigs) rfl
      · exact .same (by simp [Writes, hvault])
          (Table.lookup_update_of_ne (Ne.symm hvault) hconfigs)
  | lift lifted =>
      obtain ⟨configs, hconfigs, rfl⟩ := Option.map_eq_some_iff.mp hs
      by_cases hvault : lifted = vault
      · subst hvault
        obtain ⟨row, hrow, -⟩ := Table.update_eq_some.mp hconfigs
        exact .written (.inl rfl) _ (Table.lookup_update_self hrow hconfigs) rfl
      · exact .same (by simp [Writes, hvault])
          (Table.lookup_update_of_ne (Ne.symm hvault) hconfigs)

theorem stampRow_time {now time : Nat} {row : CloseOrder}
    (h : (stampRow now row).closeCompletedAt = some time) :
    row.closeCompletedAt = some time ∨ time = now := by
  rw [stampRow] at h
  split at h
  next => exact .inr (Option.some.inj h).symm
  next => exact .inl h

theorem stampRow_requested {now : Nat} {row : CloseOrder} :
    (stampRow now row).closeRequestedAt = row.closeRequestedAt := by
  rw [stampRow]
  split <;> rfl

theorem Stamps.satisfied {t : Transition State Label} {time : Nat} (h : Stamps t vault time) :
    t.pre.phase.Satisfied vault := by
  obtain ⟨outcome, rest, -, hphase, hsatisfied⟩ := h
  rw [hphase]
  exact ⟨rfl, hsatisfied⟩

/-- What a history says of a vault's order, whatever the operator did meanwhile. -/
structure Kept (vault : Address) (tr : List (Transition State Label)) (s : State) : Prop where
  flat : s.phase.Satisfied vault → ∃ t ∈ tr, FindsFlat t vault
  stamped : ∀ row time, s.configs.lookup vault = some row → row.closeCompletedAt = some time →
    (∃ t ∈ tr, FindsFlat t vault) ∧
      Since (fun t => Stamps t vault time) (fun t => Writes t vault) tr

theorem Kept.next (h : Kept vault tr s) (hs : next env s l = some s') :
    Kept vault (tr ++ [⟨s, l, s'⟩]) s' where
  flat := by
    intro hsatisfied
    rcases next_satisfied hs hsatisfied with hbefore | hfinds
    · obtain ⟨t, ht, hfinds⟩ := h.flat hbefore
      exact ⟨t, List.mem_append_left _ ht, hfinds⟩
    · exact ⟨_, by simp, hfinds⟩
  stamped := by
    intro row time hrow htime
    -- a row the step does not write was stamped in the run before
    have hold : ¬ Writes ⟨s, l, s'⟩ vault → ∀ old, s.configs.lookup vault = some old →
        old.closeCompletedAt = some time →
        (∃ t ∈ tr ++ [⟨s, l, s'⟩], FindsFlat t vault) ∧
          Since (fun t => Stamps t vault time) (fun t => Writes t vault) (tr ++ [⟨s, l, s'⟩]) := by
      intro hwrites old hlookup htime
      obtain ⟨⟨t, ht, hfinds⟩, hsince⟩ := h.stamped old time hlookup htime
      exact ⟨⟨t, List.mem_append_left _ ht, hfinds⟩, hsince.snoc hwrites⟩
    cases next_row hs vault with
    -- a row just written has no stamp
    | written _ written hpost hopen =>
        obtain rfl := Option.some.inj (hrow.symm.trans hpost)
        rw [hopen] at htime
        cases htime
    | same hwrites hpost => exact hold hwrites row (hpost ▸ hrow) htime
    | first _ _ hpost =>
        obtain rfl := Option.some.inj (hrow.symm.trans hpost)
        cases htime
    -- the stamp is older, or set now: after a tick that found the vault flat
    | stamped hwrites now old hstamps hpre hpost =>
        obtain rfl := Option.some.inj (hrow.symm.trans hpost)
        rcases stampRow_time htime with htime | rfl
        · exact hold hwrites old hpre htime
        · obtain ⟨t, ht, hfinds⟩ := h.flat hstamps.satisfied
          exact ⟨⟨t, List.mem_append_left _ ht, hfinds⟩, Since.last hstamps⟩

/-- What it says where the operator leaves the order alone while a tick that read it is
under way. -/
structure Undisturbed (vault : Address) (tr : List (Transition State Label)) (s : State) :
    Prop where
  standing : s.phase.Closing vault → Standing s.configs vault
  flat : s.phase.Satisfied vault → Since (fun t => FindsFlat t vault) (fun t => Writes t vault) tr
  completed : ∀ row, s.configs.lookup vault = some row → row.closeCompletedAt.isSome →
    row.closeRequestedAt.isSome ∧
      Since (fun t => FindsFlat t vault) (fun t => Writes t vault) tr

theorem Undisturbed.next (h : Undisturbed vault tr s) (hs : next env s l = some s')
    (hquiet : s.phase.Closing vault → ¬ Writes ⟨s, l, s'⟩ vault) :
    Undisturbed vault (tr ++ [⟨s, l, s'⟩]) s' where
  standing := by
    intro hclosing
    rcases next_closing hs hclosing with hbefore | ⟨hstanding, hconfigs⟩
    · obtain ⟨row, hrow, hrequested⟩ := h.standing hbefore
      cases next_row hs vault with
      | written hwrites => exact absurd hwrites (hquiet hbefore)
      -- nothing but the operators takes the order back, and they are quiet
      | same _ hpost => exact ⟨row, hpost.trans hrow, hrequested⟩
      | first _ hpre => cases hpre.symm.trans hrow
      | stamped _ now old _ hpre hpost =>
          obtain rfl := Option.some.inj (hrow.symm.trans hpre)
          exact ⟨_, hpost, by rwa [stampRow_requested]⟩
    · rwa [hconfigs]
  flat := by
    intro hsatisfied
    rcases next_satisfied hs hsatisfied with hbefore | hfinds
    · exact (h.flat hbefore).snoc (hquiet (.inr hbefore))
    · exact Since.last hfinds
  completed := by
    intro row hrow hcompleted
    cases next_row hs vault with
    | written _ written hpost hopen =>
        obtain rfl := Option.some.inj (hrow.symm.trans hpost)
        rw [hopen] at hcompleted
        cases hcompleted
    | same hwrites hpost =>
        obtain ⟨hrequested, hsince⟩ := h.completed row (hpost ▸ hrow) hcompleted
        exact ⟨hrequested, hsince.snoc hwrites⟩
    | first _ _ hpost =>
        obtain rfl := Option.some.inj (hrow.symm.trans hpost)
        cases hcompleted
    -- the stamp is set after the tick that found the vault flat
    | stamped hwrites now old hstamps hpre hpost =>
        obtain rfl := Option.some.inj (hrow.symm.trans hpost)
        obtain ⟨row, hrow', hrequested⟩ := h.standing (.inr hstamps.satisfied)
        obtain rfl := Option.some.inj (hpre.symm.trans hrow')
        exact ⟨by rwa [stampRow_requested], (h.flat hstamps.satisfied).snoc hwrites⟩

/-- **A close order is completed by a tick that finds the vault flat.** Whatever the order of
cycles, of what is under way and of the operator's writes: a row's completion time was written
by the agent after the last time the operator wrote the order, and some tick under an order of
that vault found it empty or flat. Where the operator does not write the order while a tick
that read it is under way, the order completed is the one standing: it is still there, and
the tick that found the vault flat came after it was given. -/
theorem close_order_completed {t₀ : ℚ} (h : Run (next env) (start t₀) tr s) (vault : Address)
    {row : CloseOrder} {time : Nat} (hrow : s.configs.lookup vault = some row)
    (htime : row.closeCompletedAt = some time) :
    Since (fun t => Stamps t vault time) (fun t => Writes t vault) tr ∧
      (∃ t ∈ tr, FindsFlat t vault) ∧
      ((∀ t ∈ tr, t.pre.phase.Closing vault → ¬ Writes t vault) →
        row.closeRequestedAt.isSome ∧
          Since (fun t => FindsFlat t vault) (fun t => Writes t vault) tr) := by
  have hnotRow : ∀ row : CloseOrder, (start t₀).configs.lookup vault ≠ some row := by simp [start]
  have hkept : Kept vault tr s :=
    h.history (I := Kept vault) (P := fun _ => True) (fun _ _ => trivial)
      ⟨nofun, fun row _ hrow => absurd hrow (hnotRow row)⟩ fun _ _ _ _ _ hkept hs => hkept.next hs
  obtain ⟨hflat, hsince⟩ := hkept.stamped row time hrow htime
  refine ⟨hsince, hflat, fun hquiet => ?_⟩
  have hasleep : (start t₀).phase.Closing vault → Standing (start t₀).configs vault := by
    rintro (⟨_, h⟩ | h) <;> cases h
  have hundisturbed : Undisturbed vault tr s :=
    h.history (I := Undisturbed vault)
      (P := fun t => t.pre.phase.Closing vault → ¬ Writes t vault) hquiet
      ⟨hasleep, nofun, fun row hrow => absurd hrow (hnotRow row)⟩
      fun _ _ _ _ hquiet hundisturbed hs => hundisturbed.next hs hquiet
  exact hundisturbed.completed row hrow (by simp [htime])

namespace Test

/-- An order for a vault that is home already. -/
def closing : List Label :=
  [.configure nvdaVault.address,
   .order nvdaVault.address 5 LemonMarket.Test.admin.val (some " wound up "),
   .list (some [nvdaVault]), .resolve true, .tick (decided 0 0 { kind := .hold }), .record true,
   .stamp 9 true]

theorem closing_isSome : (trace (next defaults) (start 0) closing).isSome := by rfl

def closed : State := (Option.get _ closing_isSome).2

theorem closing_run : Run (next defaults) (start 0) (Option.get _ closing_isSome).1 closed :=
  trace_run (Option.some_get closing_isSome).symm

theorem closed_row : closed.configs.lookup nvdaVault.address =
    some ⟨some 5, some LemonMarket.Test.admin.val, some "wound up", some 9⟩ := by
  decide +kernel

theorem close_order_completed_home :
    Since (fun t => Stamps t nvdaVault.address 9) (fun t => Writes t nvdaVault.address)
        (Option.get _ closing_isSome).1 ∧
      ∃ t ∈ (Option.get _ closing_isSome).1, FindsFlat t nvdaVault.address := by
  obtain ⟨hsince, hflat, -⟩ := close_order_completed closing_run nvdaVault.address closed_row rfl
  exact ⟨hsince, hflat⟩

end Test

end Process

end Agent

end LemonMarket
