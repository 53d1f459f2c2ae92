import LemonMarket.Contracts.Erc20
import LemonMarket.Lib.Division

/-!
# LemonMarket.Contracts.State

**What `LemonVault` stores.** The immutables fixed by the constructor
(`LemonVault`), the storage (`State`), the configuration with the checks every
accepted configuration has passed (`Limits`), and the events and reverts under
the contract's own names.

Points where the types say more than the Solidity ones do:

* `ValidLimits` and `ValidRiskProfile` carry the proof that the validator
  accepted them, so no reachable state holds a configuration it refuses.
* The agent wallet and the insurance fund are `NonzeroAddress`es: the constructor
  and `setInsuranceFund` are the only writers and both refuse the zero address.
* Timestamps and amounts are natural numbers. Block time never runs back, so the
  contract's checked subtractions of a stored timestamp never revert.

The market id and the token names are read by nothing modelled here and are left
out.
-/

namespace LemonMarket

open Lib

/-- An account: 160 bits, `0` being `address(0)`. -/
abbrev Address := Fin (2 ^ 160)

instance addressSpace : NeZero (2 ^ 160) := ⟨by decide⟩

/-- `address(0)`, the token's null account. -/
instance addressZero : Zero Address := ⟨0⟩

abbrev NonzeroAddress := { a : Address // a ≠ 0 }

/-! ### Constants -/

namespace LemonVault

def bps : Nat := 10000
def year : Nat := 365 * 86400
def requestId : Nat := 0
def maxManagementFeeBps : Nat := 500
def maxPerformanceFeeBps : Nat := 3000
def maxRedeemDelay : Nat := 30 * 86400
def maxNavDeviationBps : Nat := 2000
def maxNavEpochDeviationBps : Nat := 5000
def minNavEpochDuration : Nat := 3600
def minRedeemDelay : Nat := 86400
def maxDeployedBps : Nat := 9500
def noLeverageBps : Nat := 10000
def maxLeverageCeilingBps : Nat := 30000

/-- USDC has six decimals. -/
def assetDecimals : Nat := 6

/-- `_decimalsOffset()`. -/
def decimalsOffset : Nat := 12

/-- `10 ** _decimalsOffset()`: the virtual shares of every conversion. -/
def virtualShares : Nat := 10 ^ decimalsOffset

/-- One whole share. -/
def priceUnit : Nat := 10 ^ (assetDecimals + decimalsOffset)

/-- One whole USDC, the price a share starts at. -/
def assetUnit : Nat := 10 ^ assetDecimals

theorem virtualShares_pos : 0 < virtualShares := by decide

theorem priceUnit_eq : priceUnit = assetUnit * virtualShares := by decide

end LemonVault

/-! ### The mandate -/

inductive RiskTier
  | conservative
  | leveraged
  deriving Repr, DecidableEq

structure RiskProfile where
  tier : RiskTier
  targetLeverageBps : Nat
  maxLeverageBps : Nat
  deriving Repr, DecidableEq

/-- What `_validateRiskProfile` requires, in its order. -/
def RiskProfile.Valid (r : RiskProfile) : Prop :=
  r.targetLeverageBps ≤ r.maxLeverageBps ∧
  r.maxLeverageBps ≤ LemonVault.maxLeverageCeilingBps ∧
  if r.tier = .conservative then
    r.targetLeverageBps = LemonVault.noLeverageBps ∧
    r.maxLeverageBps = LemonVault.noLeverageBps
  else LemonVault.noLeverageBps < r.targetLeverageBps

instance (r : RiskProfile) : Decidable r.Valid :=
  inferInstanceAs (Decidable (r.targetLeverageBps ≤ r.maxLeverageBps ∧
    r.maxLeverageBps ≤ LemonVault.maxLeverageCeilingBps ∧
    if r.tier = .conservative then
      r.targetLeverageBps = LemonVault.noLeverageBps ∧
      r.maxLeverageBps = LemonVault.noLeverageBps
    else LemonVault.noLeverageBps < r.targetLeverageBps))

abbrev ValidRiskProfile := { r : RiskProfile // r.Valid }

/-! ### Configuration -/

structure Limits where
  managementFeeBps : Nat
  performanceFeeBps : Nat
  minRedeemDelay : Nat
  maxRedeemDelay : Nat
  maxDeployedBps : Nat
  maxNavDeviationBps : Nat
  maxNavEpochDeviationBps : Nat
  navEpochDuration : Nat
  minNavReportInterval : Nat
  maxNavStaleness : Nat
  agentWithdrawWindowCap : Nat
  agentWithdrawWindow : Nat
  deriving Repr, DecidableEq

/-- What `_validateLimits` requires: one field for each of its reverts, in its
order. -/
structure Limits.Valid (l : Limits) : Prop where
  managementFee : l.managementFeeBps ≤ LemonVault.maxManagementFeeBps
  performanceFee : l.performanceFeeBps ≤ LemonVault.maxPerformanceFeeBps
  redeemDelayFloor : LemonVault.minRedeemDelay ≤ l.minRedeemDelay
  redeemDelays : l.minRedeemDelay ≤ l.maxRedeemDelay
  redeemDelayCeiling : l.maxRedeemDelay ≤ LemonVault.maxRedeemDelay
  deployed : l.maxDeployedBps ≤ LemonVault.maxDeployedBps
  navDeviation : l.maxNavDeviationBps ≤ LemonVault.maxNavDeviationBps
  navEpochDeviation : l.maxNavEpochDeviationBps ≤ LemonVault.maxNavEpochDeviationBps
  epochCoversReport : l.maxNavDeviationBps ≤ l.maxNavEpochDeviationBps
  epochDuration : LemonVault.minNavEpochDuration ≤ l.navEpochDuration
  stalenessPos : 0 < l.maxNavStaleness
  stalenessOutlasts : l.minNavReportInterval < l.maxNavStaleness
  windowPos : 0 < l.agentWithdrawWindow

theorem Limits.valid_iff (l : Limits) : l.Valid ↔
    l.managementFeeBps ≤ LemonVault.maxManagementFeeBps ∧
    l.performanceFeeBps ≤ LemonVault.maxPerformanceFeeBps ∧
    LemonVault.minRedeemDelay ≤ l.minRedeemDelay ∧
    l.minRedeemDelay ≤ l.maxRedeemDelay ∧
    l.maxRedeemDelay ≤ LemonVault.maxRedeemDelay ∧
    l.maxDeployedBps ≤ LemonVault.maxDeployedBps ∧
    l.maxNavDeviationBps ≤ LemonVault.maxNavDeviationBps ∧
    l.maxNavEpochDeviationBps ≤ LemonVault.maxNavEpochDeviationBps ∧
    l.maxNavDeviationBps ≤ l.maxNavEpochDeviationBps ∧
    LemonVault.minNavEpochDuration ≤ l.navEpochDuration ∧
    0 < l.maxNavStaleness ∧
    l.minNavReportInterval < l.maxNavStaleness ∧
    0 < l.agentWithdrawWindow :=
  ⟨fun ⟨h₁, h₂, h₃, h₄, h₅, h₆, h₇, h₈, h₉, h₁₀, h₁₁, h₁₂, h₁₃⟩ =>
    ⟨h₁, h₂, h₃, h₄, h₅, h₆, h₇, h₈, h₉, h₁₀, h₁₁, h₁₂, h₁₃⟩,
   fun ⟨h₁, h₂, h₃, h₄, h₅, h₆, h₇, h₈, h₉, h₁₀, h₁₁, h₁₂, h₁₃⟩ =>
    ⟨h₁, h₂, h₃, h₄, h₅, h₆, h₇, h₈, h₉, h₁₀, h₁₁, h₁₂, h₁₃⟩⟩

instance (l : Limits) : Decidable l.Valid := decidable_of_iff _ l.valid_iff.symm

abbrev ValidLimits := { l : Limits // l.Valid }

/-! ### Roles, activity, events and reverts -/

inductive Role
  | defaultAdmin
  | agent
  | guardian
  deriving Repr, DecidableEq

inductive ActivityKind
  | spotBuy | spotSell
  | perpOpen | perpClose | perpRebalance
  | bridgeOut | bridgeIn
  | venueDeposit | venueWithdraw
  | fundingSettled
  deriving Repr, DecidableEq

inductive Chain
  | base | solana | near
  deriving Repr, DecidableEq

structure ActivityReport where
  kind : ActivityKind
  chain : Chain
  symbol : Nat
  baseAmount : Nat
  notionalAssets : Nat
  pnlAssets : Int
  feeAssets : Nat
  txRef : List UInt8
  occurredAt : Nat
  deriving DecidableEq

/-- Everything the vault emits: its own events, then those of the contracts it
derives from. -/
inductive Event
  | navReported (deployedAssets totalAssets pricePerShare leverageBps observedAt : Nat)
  | agentWithdrew (amount deployedAssets : Nat)
  | agentReturned (amount deployedAssets : Nat)
  | donated (sender : Address) (amount totalAssets : Nat)
  | activityReported (sequence : Nat) (report : ActivityReport)
  | redeemQueued (controller : Address) (shares eligibleAt fulfillBy : Nat)
  | redeemFulfilled (controller : Address) (shares assets : Nat)
  | redeemClaimed (controller receiver : Address) (shares assets : Nat)
  | feesAccrued (managementShares performanceShares newHighWaterMark : Nat)
  | limitsUpdated (limits : Limits)
  | insuranceFundUpdated (insuranceFund : Address)
  | emergencyExitSet (enabled : Bool)
  | redeemRequest (controller owner : Address) (requestId : Nat) (sender : Address)
      (shares : Nat)
  | operatorSet (controller operator : Address) (approved : Bool)
  | deposit (sender owner : Address) (assets shares : Nat)
  | withdraw (sender receiver owner : Address) (assets shares : Nat)
  | transfer (sender receiver : Address) (value : Nat)
  | approval (owner spender : Address) (value : Nat)
  | paused (account : Address)
  | unpaused (account : Address)
  | roleGranted (role : Role) (account sender : Address)
  | roleRevoked (role : Role) (account sender : Address)
  deriving DecidableEq

inductive VaultError
  | notAuthorized
  | zeroAddress
  | zeroAmount
  | invalidLimits
  | invalidRiskProfile
  | navStale
  | navReportTooSoon
  | navDeviationTooLarge (proposed bound : Nat)
  | navEpochDeviationTooLarge (proposed bound : Nat)
  | cannotReportNavWithNothingDeployed
  | insufficientFreeAssets (requested available : Nat)
  | deployedCeilingExceeded (proposed ceiling : Nat)
  | agentWindowCapExceeded (requested remaining : Nat)
  | agentWithdrawalsDisabled
  | redeemDelayNotElapsed (eligibleAt : Nat)
  | exceedsPendingRequest (requested pending : Nat)
  | exceedsClaimableRequest (requested claimable : Nat)
  | leverageExceedsMandate (observed ceiling : Nat)
  | exceededMaxDeposit (receiver : Address) (assets max : Nat)
  | exceededMaxMint (receiver : Address) (shares max : Nat)
  | unauthorizedAccount (account : Address) (neededRole : Role)
  | badConfirmation
  | enforcedPause
  | expectedPause
  /-- A revert of the share token itself. -/
  | share (e : Erc20Error Address)
  /-- A revert of USDC, bubbled up by `SafeERC20`. -/
  | usdc (e : Erc20Error Address)
  deriving DecidableEq

/-! ### Storage -/

structure RedeemState where
  pendingShares : Nat
  claimableShares : Nat
  claimableAssets : Nat
  requestedAt : Nat
  deriving Repr, DecidableEq

/-- The contract's immutables, and its address. -/
structure LemonVault where
  self : NonzeroAddress
  agentWallet : NonzeroAddress
  risk : ValidRiskProfile

/-- Storage, the ledger of the USDC contract it calls, and the events so far. -/
structure State where
  usdc : Erc20 Address
  shares : Erc20 Address
  deployedAssets : Nat
  claimableAssets : Nat
  lastNavReportAt : Nat
  lastFeeAccrualAt : Nat
  navEpochStartedAt : Nat
  navEpochAnchor : Nat
  highWaterMarkPps : Nat
  insuranceFund : NonzeroAddress
  redeem : Address → RedeemState
  isOperator : Address → Address → Bool
  totalPendingRedeemShares : Nat
  limits : ValidLimits
  emergencyExit : Bool
  agentWindowStartedAt : Nat
  agentWithdrawnInWindow : Nat
  lastObservedLeverageBps : Nat
  activityCount : Nat
  cumulativeNotional : Nat
  cumulativeVenueFees : Nat
  paused : Bool
  hasRole : Role → Address → Bool
  log : List Event

namespace State

def emit (s : State) (e : Event) : State := { s with log := s.log ++ [e] }

/-- Replace one controller's entry of `_redeem`. -/
def setRedeem (s : State) (controller : Address) (r : RedeemState) : State :=
  { s with redeem := Function.update s.redeem controller r }

def setMark (s : State) (pps : Nat) : State := { s with highWaterMarkPps := pps }

def setAccrualClock (s : State) (now : Nat) : State := { s with lastFeeAccrualAt := now }

/-- Issue shares to an account known not to be zero: `_mint` and its event. -/
def issueShares (s : State) (account : NonzeroAddress) (amount : Nat) : State :=
  { s with
    shares := s.shares.issue account amount
    log := s.log ++ [.transfer 0 account amount] }

@[simp] theorem setMark_highWaterMarkPps (s : State) (pps : Nat) :
    (s.setMark pps).highWaterMarkPps = pps := rfl

@[simp] theorem setMark_shares (s : State) (pps : Nat) : (s.setMark pps).shares = s.shares := rfl

@[simp] theorem setAccrualClock_shares (s : State) (now : Nat) :
    (s.setAccrualClock now).shares = s.shares := rfl

@[simp] theorem emit_highWaterMarkPps (s : State) (e : Event) :
    (s.emit e).highWaterMarkPps = s.highWaterMarkPps := rfl

@[simp] theorem emit_shares (s : State) (e : Event) : (s.emit e).shares = s.shares := rfl

end State

end LemonMarket
