import LemonMarket.Contracts.Fees

/-!
# LemonMarket.Contracts.Vault

**The entry points of `LemonVault`.** Each is a function of the message, the
storage and its arguments, and either reverts with the contract's error or gives
the new storage (with the returned amount, where the function returns one). The
checks stand in the order the contract makes them in.

Checked subtractions that the contract's own bookkeeping keeps from underflowing
(a counter of claims against one of its parts) are written as plain subtraction;
`Contracts.Solvency` proves the bookkeeping.
-/

namespace LemonMarket

open Lib

/-- `msg.sender` and `block.timestamp`. -/
structure Msg where
  sender : Address
  timestamp : Nat
  deriving Repr, DecidableEq

/-! ### Modifiers and token movements -/

def onlyRole (s : State) (role : Role) (msg : Msg) : Except VaultError Unit :=
  revertIf (s.hasRole role msg.sender = false) (.unauthorizedAccount msg.sender role)

def whenNotPaused (s : State) : Except VaultError Unit :=
  revertIf (s.paused = true) .enforcedPause

namespace State

/-- `_mint` of the share token, with its event. -/
def mintShares (s : State) (account : Address) (amount : Nat) : Except VaultError State := do
  let shares ← (s.shares.mint account amount).mapError .share
  return { s with shares := shares, log := s.log ++ [.transfer 0 account amount] }

/-- `_burn` of the share token, with its event. -/
def burnShares (s : State) (account : Address) (amount : Nat) : Except VaultError State := do
  let shares ← (s.shares.burn account amount).mapError .share
  return { s with shares := shares, log := s.log ++ [.transfer account 0 amount] }

/-- `_transfer` of the share token, with its event. -/
def transferShares (s : State) (sender receiver : Address) (amount : Nat) :
    Except VaultError State := do
  let shares ← (s.shares.transferBetween sender receiver amount).mapError .share
  return { s with shares := shares, log := s.log ++ [.transfer sender receiver amount] }

end State

namespace LemonVault

variable (v : LemonVault)

/-- `IERC20(asset()).safeTransferFrom(msg.sender, address(this), amount)`. -/
def pullAssets (msg : Msg) (s : State) (amount : Nat) : Except VaultError State := do
  let usdc ← (s.usdc.transferFrom v.self msg.sender v.self amount).mapError .usdc
  return { s with usdc := usdc }

/-- `IERC20(asset()).safeTransfer(receiver, amount)`. -/
def pushAssets (s : State) (receiver : Address) (amount : Nat) : Except VaultError State := do
  let usdc ← (s.usdc.transferBetween v.self receiver amount).mapError .usdc
  return { s with usdc := usdc }

/-! ### Deposits -/

/-- ERC4626 `_deposit`. -/
def depositAssets (msg : Msg) (s : State) (receiver : Address) (assets shares : Nat) :
    Except VaultError State := do
  let s ← v.pullAssets msg s assets
  let s ← s.mintShares receiver shares
  return s.emit (.deposit msg.sender receiver assets shares)

def deposit (msg : Msg) (s : State) (assets : Nat) (receiver : Address) :
    Except VaultError (Nat × State) := do
  let s := v.accrueFees msg.timestamp s
  let maxAssets := maxDeposit s msg.timestamp
  revertIf (assets > maxAssets) (.exceededMaxDeposit receiver assets maxAssets)
  let shares := v.convertToShares s assets .floor
  let s ← v.depositAssets msg s receiver assets shares
  return (shares, s)

def mint (msg : Msg) (s : State) (shares : Nat) (receiver : Address) :
    Except VaultError (Nat × State) := do
  let s := v.accrueFees msg.timestamp s
  let maxShares := maxDeposit s msg.timestamp
  revertIf (shares > maxShares) (.exceededMaxMint receiver shares maxShares)
  let assets := v.convertToAssets s shares .ceil
  let s ← v.depositAssets msg s receiver assets shares
  return (assets, s)

/-! ### Redemptions -/

def setOperator (msg : Msg) (s : State) (operator : Address) (approved : Bool) :
    Except VaultError State := do
  revertIf (operator = 0) .zeroAddress
  let s := { s with
    isOperator := Function.update s.isOperator msg.sender
      (Function.update (s.isOperator msg.sender) operator approved) }
  return s.emit (.operatorSet msg.sender operator approved)

def requestRedeem (msg : Msg) (s : State) (shares : Nat) (controller owner : Address) :
    Except VaultError State := do
  revertIf (shares = 0) .zeroAmount
  revertIf (owner ≠ msg.sender ∧ ¬ s.isOperator owner msg.sender) .notAuthorized
  -- A foreign controller's bucket may only be topped up with its authorisation.
  revertIf (controller ≠ owner ∧ ¬ s.isOperator controller msg.sender) .notAuthorized
  let s := v.accrueFees msg.timestamp s
  let s ← s.transferShares owner v.self shares
  let r := s.redeem controller
  let s := s.setRedeem controller
    { r with pendingShares := r.pendingShares + shares, requestedAt := msg.timestamp }
  let s := { s with totalPendingRedeemShares := s.totalPendingRedeemShares + shares }
  let s := s.emit (.redeemRequest controller owner requestId msg.sender shares)
  return s.emit (.redeemQueued controller shares
    (msg.timestamp + s.limits.val.minRedeemDelay)
    (msg.timestamp + s.limits.val.maxRedeemDelay))

def fulfillRedeem (msg : Msg) (s : State) (controller : Address) (shares : Nat) :
    Except VaultError (Nat × State) := do
  let isAgent := s.hasRole .agent msg.sender
  let isGuardian := s.hasRole .guardian msg.sender
  revertIf (¬ isAgent ∧ ¬ isGuardian) .notAuthorized
  -- A guardian working an emergency exit may use a stale price.
  revertIf (navIsStale s msg.timestamp ∧ ¬ (isGuardian ∧ s.emergencyExit)) .navStale
  let s := v.accrueFees msg.timestamp s
  let r := s.redeem controller
  revertIf (shares = 0) .zeroAmount
  revertIf (shares > r.pendingShares) (.exceedsPendingRequest shares r.pendingShares)
  let eligibleAt := r.requestedAt + s.limits.val.minRedeemDelay
  revertIf (msg.timestamp < eligibleAt) (.redeemDelayNotElapsed eligibleAt)
  let assets := v.convertToAssets s shares .floor
  let available := v.freeAssets s
  revertIf (assets > available) (.insufficientFreeAssets assets available)
  let s := s.setRedeem controller
    { r with
      pendingShares := r.pendingShares - shares
      claimableShares := r.claimableShares + shares
      claimableAssets := r.claimableAssets + assets }
  let s := { s with
    totalPendingRedeemShares := s.totalPendingRedeemShares - shares
    claimableAssets := s.claimableAssets + assets }
  let s ← s.burnShares v.self shares
  return (assets, s.emit (.redeemFulfilled controller shares assets))

def maxRedeem (s : State) (controller : Address) : Nat := (s.redeem controller).claimableShares

def maxWithdraw (s : State) (controller : Address) : Nat := (s.redeem controller).claimableAssets

/-- `_assertCanClaim`. -/
def assertCanClaim (msg : Msg) (s : State) (controller : Address) : Except VaultError Unit :=
  revertIf (msg.sender ≠ controller ∧ ¬ s.isOperator controller msg.sender) .notAuthorized

/-- `_claim`. -/
def claim (msg : Msg) (s : State) (controller receiver : Address) (shares assets : Nat) :
    Except VaultError State := do
  revertIf (receiver = 0) .zeroAddress
  let r := s.redeem controller
  let s := s.setRedeem controller
    { r with
      claimableShares := r.claimableShares - shares
      claimableAssets := r.claimableAssets - assets }
  let s := { s with claimableAssets := s.claimableAssets - assets }
  let s ← v.pushAssets s receiver assets
  let s := s.emit (.redeemClaimed controller receiver shares assets)
  return s.emit (.withdraw msg.sender receiver controller assets shares)

def redeem (msg : Msg) (s : State) (shares : Nat) (receiver controller : Address) :
    Except VaultError (Nat × State) := do
  assertCanClaim msg s controller
  let r := s.redeem controller
  revertIf (shares = 0) .zeroAmount
  revertIf (shares > r.claimableShares) (.exceedsClaimableRequest shares r.claimableShares)
  let assets := mulDiv shares r.claimableAssets r.claimableShares .floor
  let s ← v.claim msg s controller receiver shares assets
  return (assets, s)

def withdraw (msg : Msg) (s : State) (assets : Nat) (receiver controller : Address) :
    Except VaultError (Nat × State) := do
  assertCanClaim msg s controller
  let r := s.redeem controller
  revertIf (assets = 0) .zeroAmount
  revertIf (assets > r.claimableAssets) (.exceedsClaimableRequest assets r.claimableAssets)
  let quoted := mulDiv assets r.claimableShares r.claimableAssets .ceil
  -- Rounding up may quote one share more than the bucket holds.
  let shares := if quoted > r.claimableShares then r.claimableShares else quoted
  let s ← v.claim msg s controller receiver shares assets
  return (shares, s)

/-! ### Capital movement -/

/-- What the leaky bucket still holds of earlier withdrawals at `now`. -/
def drawnInWindow (s : State) (now : Nat) : Nat :=
  let window := s.limits.val.agentWithdrawWindow
  let elapsed := now - s.agentWindowStartedAt
  let drawn := s.agentWithdrawnInWindow
  if elapsed ≥ window then 0
  else if elapsed > 0 then drawn - mulDiv drawn elapsed window .floor
  else drawn

/-- What the window cap still lets out at `now`. -/
def windowRemaining (s : State) (now : Nat) : Nat :=
  let drawn := drawnInWindow s now
  if s.limits.val.agentWithdrawWindowCap > drawn then
    s.limits.val.agentWithdrawWindowCap - drawn
  else 0

/-- The most `deployedAssets` may come to. -/
def deployedCeiling (s : State) : Nat :=
  mulDiv (v.totalAssets s) s.limits.val.maxDeployedBps bps .floor

def agentWithdraw (msg : Msg) (s : State) (amount : Nat) : Except VaultError State := do
  onlyRole s .agent msg
  whenNotPaused s
  revertIf (amount = 0) .zeroAmount
  revertIf (s.emergencyExit = true) .agentWithdrawalsDisabled
  revertIf (navIsStale s msg.timestamp = true) .navStale
  let available := v.freeAssets s
  revertIf (amount > available) (.insufficientFreeAssets amount available)
  let ceiling := v.deployedCeiling s
  revertIf (s.deployedAssets + amount > ceiling)
    (.deployedCeilingExceeded (s.deployedAssets + amount) ceiling)
  let drawn := drawnInWindow s msg.timestamp
  let remaining := windowRemaining s msg.timestamp
  let s := { s with agentWindowStartedAt := msg.timestamp }
  revertIf (amount > remaining) (.agentWindowCapExceeded amount remaining)
  let s := { s with
    agentWithdrawnInWindow := drawn + amount
    deployedAssets := s.deployedAssets + amount
    navEpochAnchor := s.navEpochAnchor + amount }
  let s ← v.pushAssets s v.agentWallet amount
  return s.emit (.agentWithdrew amount s.deployedAssets)

def agentReturn (msg : Msg) (s : State) (amount : Nat) : Except VaultError State := do
  revertIf (amount = 0) .zeroAmount
  let s ← v.pullAssets msg s amount
  -- What comes back beyond what is deployed stays in the vault, uncredited.
  let credited := if amount < s.deployedAssets then amount else s.deployedAssets
  let s := { s with
    deployedAssets := s.deployedAssets - credited
    navEpochAnchor := if s.navEpochAnchor > credited then s.navEpochAnchor - credited else 0 }
  return s.emit (.agentReturned amount s.deployedAssets)

def donate (msg : Msg) (s : State) (amount : Nat) : Except VaultError State := do
  revertIf (amount = 0) .zeroAmount
  let s := v.accrueFees msg.timestamp s
  let s ← v.pullAssets msg s amount
  -- The mark is carried over the gift, which is not performance.
  let pps := v.pricePerShare s
  let s := if pps > s.highWaterMarkPps then s.setMark pps else s
  return s.emit (.donated msg.sender amount (v.totalAssets s))

/-! ### Reporting -/

/-- The distance between two valuations, as the contract computes it. -/
def deviation (a b : Nat) : Nat := if a > b then a - b else b - a

/-- The per-report bound on a new valuation. -/
def checkNavDeviation (s : State) (newDeployedAssets : Nat) : Except VaultError Unit :=
  let current := s.deployedAssets
  if current = 0 then
    revertIf (newDeployedAssets ≠ 0) .cannotReportNavWithNothingDeployed
  else
    let bound := mulDiv current s.limits.val.maxNavDeviationBps bps .floor
    let delta := deviation newDeployedAssets current
    revertIf (delta > bound) (.navDeviationTooLarge delta bound)

/-- Start a new epoch when the last one has run out. -/
def rollNavEpoch (now : Nat) (s : State) : State :=
  if now ≥ s.navEpochStartedAt + s.limits.val.navEpochDuration then
    { s with navEpochStartedAt := now, navEpochAnchor := s.deployedAssets }
  else s

/-- The per-epoch bound. An anchor of zero is no bound at all. -/
def checkNavEpoch (s : State) (newDeployedAssets : Nat) : Except VaultError Unit :=
  let anchor := s.navEpochAnchor
  if anchor ≠ 0 then
    let epochBound := mulDiv anchor s.limits.val.maxNavEpochDeviationBps bps .floor
    let epochDelta := deviation newDeployedAssets anchor
    revertIf (epochDelta > epochBound) (.navEpochDeviationTooLarge epochDelta epochBound)
  else .ok ()

/-- What an accepted report writes, between its two accruals. -/
def restateNav (now : Nat) (s : State) (newDeployedAssets observedLeverageBps : Nat) : State :=
  { s with
    deployedAssets := newDeployedAssets
    lastObservedLeverageBps := observedLeverageBps
    lastNavReportAt := now }

def reportNav (msg : Msg) (s : State) (newDeployedAssets observedLeverageBps observedAt : Nat) :
    Except VaultError State := do
  onlyRole s .agent msg
  revertIf (msg.timestamp < s.lastNavReportAt + s.limits.val.minNavReportInterval)
    .navReportTooSoon
  revertIf (observedLeverageBps > v.risk.val.maxLeverageBps)
    (.leverageExceedsMandate observedLeverageBps v.risk.val.maxLeverageBps)
  checkNavDeviation s newDeployedAssets
  let s := rollNavEpoch msg.timestamp s
  checkNavEpoch s newDeployedAssets
  -- Once on the old valuation, for the time elapsed; once on the new, for the gain.
  let s := v.accrueFees msg.timestamp s
  let s := restateNav msg.timestamp s newDeployedAssets observedLeverageBps
  let s := v.accrueFees msg.timestamp s
  return s.emit (.navReported newDeployedAssets (v.totalAssets s) (v.pricePerShare s)
    observedLeverageBps observedAt)

/-- `_recordActivity`. -/
def recordActivity (s : State) (r : ActivityReport) : State :=
  { s with
    activityCount := s.activityCount + 1
    cumulativeNotional := s.cumulativeNotional + r.notionalAssets
    cumulativeVenueFees := s.cumulativeVenueFees + r.feeAssets
    log := s.log ++ [.activityReported (s.activityCount + 1) r] }

def reportActivity (msg : Msg) (s : State) (report : ActivityReport) :
    Except VaultError State := do
  onlyRole s .agent msg
  return recordActivity s report

def reportActivityBatch (msg : Msg) (s : State) (reports : List ActivityReport) :
    Except VaultError State := do
  onlyRole s .agent msg
  return reports.foldl recordActivity s

/-! ### Administration -/

/-- `_validateLimits`: every one of its reverts is `InvalidLimits`. -/
def validateLimits (l : Limits) : Except VaultError ValidLimits :=
  if h : l.Valid then .ok ⟨l, h⟩ else .error .invalidLimits

/-- `_validateRiskProfile`. -/
def validateRiskProfile (r : RiskProfile) : Except VaultError ValidRiskProfile :=
  if h : r.Valid then .ok ⟨r, h⟩ else .error .invalidRiskProfile

def nonzeroAddress (a : Address) : Except VaultError NonzeroAddress :=
  if h : a ≠ 0 then .ok ⟨a, h⟩ else .error .zeroAddress

def setLimits (msg : Msg) (s : State) (next : Limits) : Except VaultError State := do
  onlyRole s .defaultAdmin msg
  let s := v.accrueFees msg.timestamp s
  let next ← validateLimits next
  let s := { s with limits := next }
  return s.emit (.limitsUpdated next)

def setInsuranceFund (msg : Msg) (s : State) (next : Address) : Except VaultError State := do
  onlyRole s .defaultAdmin msg
  let next ← nonzeroAddress next
  let s := v.accrueFees msg.timestamp s
  let s := { s with insuranceFund := next }
  return s.emit (.insuranceFundUpdated next)

def setEmergencyExit (msg : Msg) (s : State) (enabled : Bool) : Except VaultError State := do
  onlyRole s .guardian msg
  let s := { s with emergencyExit := enabled }
  return s.emit (.emergencyExitSet enabled)

def pause (msg : Msg) (s : State) : Except VaultError State := do
  onlyRole s .guardian msg
  whenNotPaused s
  let s := { s with paused := true }
  return s.emit (.paused msg.sender)

def unpause (msg : Msg) (s : State) : Except VaultError State := do
  onlyRole s .defaultAdmin msg
  revertIf (s.paused = false) .expectedPause
  let s := { s with paused := false }
  return s.emit (.unpaused msg.sender)

/-- Write one entry of the role table. -/
def setRole (s : State) (role : Role) (account : Address) (granted : Bool) : State :=
  { s with
    hasRole := Function.update s.hasRole role
      (Function.update (s.hasRole role) account granted) }

/-- AccessControl `_grantRole`: silent when the role is already held. -/
def grantRoleUnchecked (msg : Msg) (s : State) (role : Role) (account : Address) : State :=
  if s.hasRole role account then s
  else (setRole s role account true).emit (.roleGranted role account msg.sender)

/-- AccessControl `_revokeRole`. -/
def revokeRoleUnchecked (msg : Msg) (s : State) (role : Role) (account : Address) : State :=
  if s.hasRole role account then
    (setRole s role account false).emit (.roleRevoked role account msg.sender)
  else s

/-- Every role's admin role is the default one. -/
def grantRole (msg : Msg) (s : State) (role : Role) (account : Address) :
    Except VaultError State := do
  onlyRole s .defaultAdmin msg
  return grantRoleUnchecked msg s role account

def revokeRole (msg : Msg) (s : State) (role : Role) (account : Address) :
    Except VaultError State := do
  onlyRole s .defaultAdmin msg
  return revokeRoleUnchecked msg s role account

def renounceRole (msg : Msg) (s : State) (role : Role) (callerConfirmation : Address) :
    Except VaultError State := do
  revertIf (callerConfirmation ≠ msg.sender) .badConfirmation
  return revokeRoleUnchecked msg s role callerConfirmation

end LemonVault

end LemonMarket
