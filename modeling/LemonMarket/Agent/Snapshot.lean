import Mathlib.Data.List.Sort
import LemonMarket.Agent.Economics

/-!
# LemonMarket.Agent.Snapshot

**What the policy sees, and the sizes it derives from it.** The snapshot of one
vault and its markets, the decision the policy answers with, and the arithmetic
that sizes a hedge: the leverage it is opened at, the margin it needs, how a
deployment splits between its two legs.

A snapshot holds the vault's risk profile as the contract validated it, so the
leverage a hedge is sized at is never zero and no division here is by zero.
Balances are natural numbers; the account's equity, which a loss can take below
zero, is an integer. Texts and the auto-deleveraging score, which decide nothing,
are left out.
-/

namespace LemonMarket

namespace Agent

open LemonVault (bps)

/-! ### Data -/

inductive ActionKind
  | deploy
  | unwind
  | rebalance
  | topUpMargin
  | closeAll
  | hold
  deriving Repr, DecidableEq

/-- One market the vault runs. -/
structure MarketSnapshot where
  ticker : String
  targetWeightBps : Nat
  spotValueUsdc : Nat
  spotUnits : Nat
  perpUnits : Nat
  fundingShortPercentPerHour : ℚ
  spotBuyable : Bool
  spotSellable : Bool
  markPriceUsd : ℚ
  lotSize : ℚ
  minOrderUsd : ℚ
  spotGasUsd : ℚ
  spotImpactPercent : ℚ

structure VaultSnapshot where
  risk : ValidRiskProfile
  freeAssets : Nat
  totalAssets : Nat
  deployedAssets : Nat
  maxDeployedBps : Nat
  withdrawWindowRemaining : Nat
  idleOnBase : Nat
  unallocatedMargin : Nat
  perpNotionalUsdc : Nat
  perpEquityUsdc : Int
  ripeRedeemAssets : Nat
  pendingRedeemAssets : Nat
  earliestDeadline : Option Nat
  markets : List MarketSnapshot
  closeRequested : Bool
  rebalanceDriftBps : Nat
  venueWithdrawalFeeUsdc : Nat

/-- A deployment's two halves, as the amounts each venue is given. -/
structure DeploymentLegs where
  spotNotional : Nat
  perpMargin : Nat
  deriving Repr, DecidableEq

/-- Whose capital an action spends. -/
inductive Funding
  | vault
  | agent
  deriving Repr, DecidableEq

structure Decision where
  kind : ActionKind
  amount : Nat := 0
  market : Option String := none
  forced : Bool := false
  fundedFrom : Option Funding := none
  legs : Option DeploymentLegs := none
  deriving Repr, DecidableEq

/-! ### Constants -/

def defaultRebalanceDriftBps : Nat := 500
def minUnwindUsdc : Nat := 1
def unwindBufferBps : Nat := 50
def deadlineUrgencySeconds : Nat := 24 * 3600
def closeDustUsdc : Nat := 1000000

/-- `Number.MAX_SAFE_INTEGER`. -/
def maxSafeInteger : Nat := 2 ^ 53 - 1

/-! ### Leverage and margin -/

/-- How the source subtracts one amount from another that may be larger. -/
theorem ite_gt_sub (a b : Nat) : (if a > b then a - b else 0) = a - b := by
  split <;> omega

/-- Total notional over the margin backing it. -/
def leverageBps (notionalUsdc : Nat) (equityUsdc : Int) : Nat :=
  if notionalUsdc = 0 then bps
  else if equityUsdc ≤ 0 then maxSafeInteger
  else notionalUsdc * bps / equityUsdc.toNat

/-- The leverage a deployment sizes its hedge at. -/
def sizingLeverageBps (cfg : Settings) (risk : RiskProfile) : Nat :=
  let buffered := risk.maxLeverageBps * (bps - cfg.marginBufferBps) / bps
  min risk.targetLeverageBps buffered

variable (cfg : Settings) (s : VaultSnapshot)

/-- The margin the open notional needs at the sizing leverage. -/
def requiredMargin : Nat :=
  if s.perpNotionalUsdc = 0 then 0
  else s.perpNotionalUsdc * bps / sizingLeverageBps cfg s.risk

/-- The part of it the venue does not reserve for itself. -/
def bufferMargin : Nat :=
  let required := requiredMargin cfg s
  if required > s.perpNotionalUsdc then required - s.perpNotionalUsdc else 0

/-- Margin at the venue that is free to carry more hedge. -/
def spareMargin : Nat :=
  let buffer := bufferMargin cfg s
  if s.unallocatedMargin > buffer then s.unallocatedMargin - buffer else 0

/-- Units are compared, not dollars. -/
def driftBps (spotUnits perpUnits : Nat) : Int :=
  if spotUnits = 0 then if perpUnits = 0 then 0 else bps
  else (((spotUnits : Int) - perpUnits) * bps).tdiv spotUnits

/-! ### Splitting a deployment -/

/-- `spot = total * L / (L + 1)`, and margin for the rest. -/
def splitDeployment (total leverageBps : Nat) : DeploymentLegs :=
  let spotNotional := total * leverageBps / (leverageBps + bps)
  ⟨spotNotional, total - spotNotional⟩

/-- The deployment that buys a given spot notional, rounded up. The source refuses a
leverage that is not positive, which `sizingLeverageBps` never is. -/
def deploymentFor (spotNotional leverageBps : Nat) : Nat :=
  let numerator := spotNotional * (leverageBps + bps)
  (numerator + leverageBps - 1) / leverageBps

section

variable {cfg}

theorem sizing_pos (risk : ValidRiskProfile) : 0 < sizingLeverageBps cfg risk.val := by
  obtain ⟨htarget, -, htier⟩ := risk.property
  have hone : LemonVault.noLeverageBps ≤ risk.val.targetLeverageBps := by
    split at htier
    next => exact htier.1.ge
    next => exact Nat.le_of_lt htier
  have hb := cfg.marginBuffer_lt
  simp only [LemonVault.noLeverageBps, bps] at hone hb
  refine lt_min (by omega) (Nat.div_pos ?_ (by decide))
  calc bps ≤ risk.val.maxLeverageBps * 1 := by simp only [bps]; omega
    _ ≤ risk.val.maxLeverageBps * (bps - cfg.marginBufferBps) :=
        Nat.mul_le_mul_left _ (by simp only [bps]; omega)

/-- The hedge is never sized above the ceiling it is reported against. -/
theorem sizing_le_max (risk : RiskProfile) : sizingLeverageBps cfg risk ≤ risk.maxLeverageBps := by
  refine (min_le_right _ _).trans ?_
  refine Nat.div_le_of_le_mul ?_
  rw [Nat.mul_comm bps]
  exact Nat.mul_le_mul_left _ (Nat.sub_le _ _)

end

@[simp] theorem splitDeployment_sum (total l : Nat) :
    (splitDeployment total l).spotNotional + (splitDeployment total l).perpMargin = total := by
  refine Nat.add_sub_cancel' (Nat.div_le_of_le_mul ?_)
  rw [Nat.mul_comm]
  exact Nat.mul_le_mul_right _ (Nat.le_add_right _ _)

/-- Rounding up to a deployment, cleared of the division. -/
theorem deploymentFor_le_iff_mul {l : Nat} (hl : 0 < l) {spot total : Nat} :
    deploymentFor spot l ≤ total ↔ spot * (l + bps) ≤ total * l := by
  rw [deploymentFor, Nat.le_iff_lt_add_one, Nat.div_lt_iff_lt_mul hl, Nat.succ_mul]
  omega

/-- The two are adjoint: a deployment affords a spot leg exactly when it splits into
one at least as large. -/
theorem deploymentFor_le_iff {l : Nat} (hl : 0 < l) {spot total : Nat} :
    deploymentFor spot l ≤ total ↔ spot ≤ (splitDeployment total l).spotNotional := by
  rw [deploymentFor_le_iff_mul hl, splitDeployment]
  exact (Nat.le_div_iff_mul_le (by omega)).symm

/-- Two spot legs are no dearer bought together. -/
theorem deploymentFor_add_le {l : Nat} (hl : 0 < l) (a b : Nat) :
    deploymentFor (a + b) l ≤ deploymentFor a l + deploymentFor b l := by
  have ha := (deploymentFor_le_iff_mul hl).mp (le_refl (deploymentFor a l))
  have hb := (deploymentFor_le_iff_mul hl).mp (le_refl (deploymentFor b l))
  rw [deploymentFor_le_iff_mul hl, Nat.add_mul, Nat.add_mul]
  exact Nat.add_le_add ha hb

theorem le_deploymentFor {l : Nat} (hl : 0 < l) (spot : Nat) : spot ≤ deploymentFor spot l :=
  calc spot ≤ (splitDeployment (deploymentFor spot l) l).spotNotional :=
        (deploymentFor_le_iff hl).mp le_rfl
    _ ≤ deploymentFor spot l := (Nat.le_add_right _ _).trans (splitDeployment_sum _ l).le

end Agent

end LemonMarket
