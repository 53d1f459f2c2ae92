import LemonMarket.Agent.Cooldown
import LemonMarket.Agent.Decide
import LemonMarket.Agent.Venue
import LemonMarket.Agent.Worker
import LemonMarket.Contracts.Deployment

/-!
# LemonMarket.Agent.Act

**The act stage of a tick, and when it reports a close order satisfied** (`worker.ts`). A
decision that is cooling off is not carried out; one that is carried out and fails extends
its wait, and one that goes through clears it. A tick that gets to its end reports a standing
close order satisfied when the vault is flat.

Flat is no unit of spot or perp in any market, and capital outside the vault below the dust
threshold. So the threshold covers what is out as dollars, and nothing of what is left as
units: an order ends exactly on a vault with none (`close_order_ends_iff`).
-/

namespace LemonMarket

namespace Agent

open Lib Cooldown

/-! ### Carrying a decision out -/

def ActionKind.name : ActionKind → String
  | .deploy => "DEPLOY"
  | .unwind => "UNWIND"
  | .rebalance => "REBALANCE"
  | .topUpMargin => "TOP_UP_MARGIN"
  | .closeAll => "CLOSE_ALL"
  | .hold => "HOLD"

/-- How an action is named for the purposes of backing off. -/
def cooldownKey (kind : ActionKind) (market : Option String) : String :=
  kind.name ++ ":" ++ market.getD "-"

/-- What a tick answers of its act stage. -/
structure TickResult where
  action : ActionKind
  market : Option String
  activityReported : Nat
  closeSatisfied : Bool
  error : Option Stop
  deriving Repr, DecidableEq

/-- Seconds a decision is held off for. Doing nothing is never held off. -/
def heldOff (cooldown : Option (Entries String)) (now : ℚ) (decision : Decision) : ℚ :=
  if decision.kind = .hold then 0
  else (cooldown.map fun entries =>
    blockedFor entries now (cooldownKey decision.kind decision.market)).getD 0

/-- The act stage from the decision on, and the cooldown it leaves, if the tick has one. The
snapshot carries the order the tick was given. -/
def act (cfg : Settings) (backoff : CooldownSettings) (venue : Venue)
    (cooldown : Option (Entries String)) (decidedAt actedAt : ℚ) (s : VaultSnapshot)
    (decision : Decision) : TickResult × Option (Entries String) :=
  let key := cooldownKey decision.kind decision.market
  if heldOff cooldown decidedAt decision > 0 then
    (⟨decision.kind, decision.market, 0, false, none⟩, cooldown)
  else
    match execute cfg venue s decision {} with
    | (.error failure, _) =>
        (⟨decision.kind, decision.market, (failure.activity.getD []).length, false,
          some failure.stop⟩, cooldown.map fun entries => failed backoff entries actedAt key)
    | (.ok _, trip) =>
        (⟨decision.kind, decision.market, trip.activity.length, s.closeRequested && isFlat s,
          none⟩, cooldown.map fun entries => succeeded entries key)

variable {cfg : Settings} {backoff : CooldownSettings} {venue : Venue}
  {cooldown : Option (Entries String)} {decidedAt actedAt : ℚ} {s : VaultSnapshot}
  {decision : Decision} {now : Nat}

/-- A tick records a failure only of an action it found clear. -/
theorem clear_of_failed
    (h : (act cfg backoff venue cooldown decidedAt actedAt s decision).1.error.isSome) :
    ∀ entries ∈ cooldown,
      blockedFor entries decidedAt (cooldownKey decision.kind decision.market) ≤ 0 := by
  intro entries hentries
  by_cases hhold : decision.kind = .hold
  · -- doing nothing does not fail
    simp [act, heldOff, execute, hhold] at h
    cases h
  · have hheld : heldOff cooldown decidedAt decision =
        blockedFor entries decidedAt (cooldownKey decision.kind decision.market) := by
      rw [heldOff, if_neg hhold, Option.mem_def.mp hentries]
      rfl
    rw [← hheld]
    by_contra hpos
    simp [act, not_le.mp hpos] at h

/-! ### A standing close order -/

/-- What is left outside the vault is dust, in dollars. -/
structure Dust (s : VaultSnapshot) : Prop where
  deployed : s.deployedAssets ≤ closeDustUsdc
  open_ : (s.markets.map (·.spotValueUsdc)).sum + s.perpNotionalUsdc ≤ closeDustUsdc

/-- Not a unit of either leg is left in any market. -/
def NoUnits (s : VaultSnapshot) : Prop := ∀ m ∈ s.markets, m.spotUnits = 0 ∧ m.perpUnits = 0

/-- The policy's answer is of a kind, whatever an advisor says. -/
def Answers (cfg : Settings) (s : VaultSnapshot) (now : Nat) (kind : ActionKind) : Prop :=
  ∀ toUpperCase advisor, ∃ decided,
    Policy.decide toUpperCase cfg s now advisor = some decided ∧ decided.decision.kind = kind

/-- Every tick that acts on the snapshot reports the order satisfied. -/
def Satisfied (cfg : Settings) (s : VaultSnapshot) (now : Nat) : Prop :=
  ∀ toUpperCase advisor decided, Policy.decide toUpperCase cfg s now advisor = some decided →
    ∀ backoff venue cooldown decidedAt actedAt,
      (act cfg backoff venue cooldown decidedAt actedAt s decided.decision).1.closeSatisfied = true

theorem isFlat_iff : isFlat s = true ↔ NoUnits s ∧ s.deployedAssets ≤ closeDustUsdc := by
  simp only [isFlat, NoUnits, Bool.and_eq_true, Bool.not_eq_true', List.any_eq_false,
    Bool.or_eq_true, decide_eq_true_eq, not_or, Nat.not_lt, Nat.le_zero]

/-- Under an order there is one option, and it is taken. -/
theorem decide_of_closeRequested (hclose : s.closeRequested = true)
    (toUpperCase : String → String) (advisor : Option Advisor) :
    Policy.decide toUpperCase cfg s now advisor =
      some ⟨{ kind := if isFlat s then .hold else .closeAll, forced := true }, .reason, false⟩ := by
  have hoptions : permittedActions cfg s now =
      [{ kind := if isFlat s then .hold else .closeAll, forced := true }] := by
    rw [permittedActions, if_pos hclose]
    split <;> rfl
  unfold Policy.decide
  simp only [hoptions, List.head?_cons]
  cases advisor with
  | none => rfl
  | some advisor => rfl

theorem answers_iff (hclose : s.closeRequested = true) {kind : ActionKind} :
    Answers cfg s now kind ↔ (if isFlat s then .hold else .closeAll) = kind := by
  constructor
  · intro h
    obtain ⟨decided, hdecided, hkind⟩ := h id none
    rw [decide_of_closeRequested hclose] at hdecided
    rw [← hkind, ← Option.some.inj hdecided]
  · intro h toUpperCase advisor
    exact ⟨_, decide_of_closeRequested hclose toUpperCase advisor, h⟩

theorem satisfied_of_flat (hclose : s.closeRequested = true) (hflat : isFlat s = true) :
    Satisfied cfg s now := by
  intro toUpperCase advisor decided hdecided backoff venue cooldown decidedAt actedAt
  rw [decide_of_closeRequested hclose] at hdecided
  rw [← Option.some.inj hdecided]
  simp only [act, heldOff, execute, hflat, hclose, if_true]
  rfl

/-- Closing does not take a short below the venue's lot: no order is placed for it, and that
is no failure. -/
theorem closeMarket_of_belowLot {leg : Leg} {lot : ℚ} (hbalance : leg.balance = 0)
    (hlot : leg.lotSize = some lot) (hpos : 0 < lot)
    (hbelow : fromUnits (perpPosition leg) leg.spotTokenDecimals <
      (round (lot * 10 ^ leg.spotTokenDecimals)).toNat) (t : Trip) :
    closeMarket leg t = (.ok (0, 0), t) := by
  have hunits : lotUnits leg leg.spotTokenDecimals =
      pure (round (lot * 10 ^ leg.spotTokenDecimals)).toNat := by
    simp only [lotUnits, hlot, if_neg (not_le.mpr hpos)]
  -- cut to the lot, the short is nothing
  have hsnap : snapToLot (fromUnits (perpPosition leg) leg.spotTokenDecimals)
      (round (lot * 10 ^ leg.spotTokenDecimals)).toNat = 0 := by
    rw [snapToLot, if_neg (by omega), Nat.div_eq_of_lt hbelow, Nat.zero_mul]
  have hclose : closeLeg leg (fromUnits (perpPosition leg) leg.spotTokenDecimals) 0 t =
      (.ok 0, t) := by
    rw [closeLeg, hunits]
    show (Effect.onlyIf (snapToLot _ _ ≠ 0) _ >>= fun _ => sellSpot leg (min _ leg.balance)) t = _
    rw [hsnap, hbalance, Nat.min_zero]
    rfl
  rw [closeMarket]
  split
  next => rfl
  next =>
    rw [hbalance, Nat.zero_max]
    simp only [Effect.attempt, Effect.bind_of_ok hclose]
    rfl

/-- **When a close order ends.** On dust, the policy holds and the tick reports the order
satisfied if and only if not a unit is left in any market; with a unit left in one it
answers to close everything, however little that is worth. -/
theorem close_order_ends_iff (cfg : Settings) (now : Nat) (hclose : s.closeRequested = true)
    (hdust : Dust s) :
    (Answers cfg s now .hold ∧ Satisfied cfg s now ↔ NoUnits s) ∧
      (Answers cfg s now .closeAll ↔ ¬ NoUnits s) := by
  have hflat : isFlat s = true ↔ NoUnits s := by
    rw [isFlat_iff]
    exact and_iff_left hdust.deployed
  rw [answers_iff hclose, answers_iff hclose, ← hflat]
  constructor
  · constructor
    · rintro ⟨hhold, -⟩
      by_contra hopen
      rw [if_neg hopen] at hhold
      cases hhold
    · intro h
      exact ⟨if_pos h, satisfied_of_flat hclose h⟩
  · constructor
    · intro hclosing h
      rw [if_pos h] at hclosing
      cases hclosing
    · intro h
      exact if_neg h

/-- Under an order, with everything home but one unit of a token, worth nothing. -/
def oneUnitLeft (spotUnits : Nat) : VaultSnapshot where
  risk := Test.conservativeRisk
  freeAssets := 1000000000
  totalAssets := 1000000000
  deployedAssets := 0
  maxDeployedBps := 9000
  withdrawWindowRemaining := 0
  idleOnBase := 0
  unallocatedMargin := 0
  perpNotionalUsdc := 0
  perpEquityUsdc := 0
  ripeRedeemAssets := 0
  pendingRedeemAssets := 0
  earliestDeadline := none
  markets := [{ Test.nvda with spotUnits }]
  closeRequested := true
  rebalanceDriftBps := 0
  venueWithdrawalFeeUsdc := 0

theorem oneUnitLeft_closes : ¬ ∀ s : VaultSnapshot, s.closeRequested = true → Dust s →
    Answers .default s 0 .hold ∧ Satisfied .default s 0 := by
  intro h
  have hhold := (h (oneUnitLeft 1) rfl ⟨by decide, by decide⟩).1
  exact absurd ((answers_iff rfl).mp hhold) (by decide)

theorem close_order_ends_iff_home :
    (Answers .default (oneUnitLeft 0) 0 .hold ∧ Satisfied .default (oneUnitLeft 0) 0 ↔
        NoUnits (oneUnitLeft 0)) ∧
      (Answers .default (oneUnitLeft 0) 0 .closeAll ↔ ¬ NoUnits (oneUnitLeft 0)) :=
  close_order_ends_iff .default 0 rfl ⟨by decide, by decide⟩

end Agent

end LemonMarket
