import LemonMarket.Contracts.Vault
import LemonMarket.Lib.Run

/-!
# LemonMarket.Contracts.Runs

**The vault as a transition system.** A `Tx` is a call by some account at some
time: to the vault, to its share token, or to USDC. `next` is the state after a
transaction that does not revert; a reverted one changes nothing and is no step.
`Reachable` states are those some run leads to from a construction, over any
callers and any order.

Two things bound the callers. Block time does not run back, and the vault is not a
caller: no path in it makes an external call but to move USDC. For the same reason
nothing can have set a USDC allowance in its name before it was deployed.
-/

namespace LemonMarket

open Lib

/-- The ERC-20 entry points, the same for the share token and for USDC. -/
inductive TokenCall
  | transfer (receiver : Address) (amount : Nat)
  | transferFrom (sender receiver : Address) (amount : Nat)
  | approve (spender : Address) (amount : Nat)
  deriving Repr, DecidableEq

inductive Call
  | usdc (call : TokenCall)
  | shares (call : TokenCall)
  | deposit (assets : Nat) (receiver : Address)
  | mint (shares : Nat) (receiver : Address)
  | setOperator (operator : Address) (approved : Bool)
  | requestRedeem (shares : Nat) (controller owner : Address)
  | fulfillRedeem (controller : Address) (shares : Nat)
  | redeem (shares : Nat) (receiver controller : Address)
  | withdraw (assets : Nat) (receiver controller : Address)
  | agentWithdraw (amount : Nat)
  | agentReturn (amount : Nat)
  | donate (amount : Nat)
  | reportNav (newDeployedAssets observedLeverageBps observedAt : Nat)
  | reportActivity (report : ActivityReport)
  | reportActivityBatch (reports : List ActivityReport)
  | accrueFees
  | setLimits (next : Limits)
  | setInsuranceFund (next : Address)
  | setEmergencyExit (enabled : Bool)
  | pause
  | unpause
  | grantRole (role : Role) (account : Address)
  | revokeRole (role : Role) (account : Address)
  | renounceRole (role : Role) (callerConfirmation : Address)
  deriving DecidableEq

/-- The amount an `agentWithdraw` takes out. -/
def Call.withdrawal : Call → Option Nat
  | .agentWithdraw amount => some amount
  | _ => none

/-- The amount an `agentReturn` brings in. -/
def Call.returned : Call → Option Nat
  | .agentReturn amount => some amount
  | _ => none

/-- A call on a token, by `sender`. -/
def TokenCall.exec (t : Erc20 Address) (sender : Address) :
    TokenCall → Except (Erc20Error Address) (Erc20 Address)
  | .transfer receiver amount => t.transferBetween sender receiver amount
  | .transferFrom owner receiver amount => t.transferFrom sender owner receiver amount
  | .approve spender amount => t.approve sender spender amount

/-- The event a successful token call emits. -/
def TokenCall.event (sender : Address) : TokenCall → Event
  | .transfer receiver amount => .transfer sender receiver amount
  | .transferFrom owner receiver amount => .transfer owner receiver amount
  | .approve spender amount => .approval sender spender amount

namespace LemonVault

variable (v : LemonVault)

/-- One external call. -/
def exec (msg : Msg) (s : State) : Call → Except VaultError State
  | .usdc call => do
      let usdc ← (call.exec s.usdc msg.sender).mapError .usdc
      return { s with usdc := usdc }
  | .shares call => do
      let shares ← (call.exec s.shares msg.sender).mapError .share
      return { s with shares := shares, log := s.log ++ [call.event msg.sender] }
  | .deposit assets receiver => Prod.snd <$> v.deposit msg s assets receiver
  | .mint shares receiver => Prod.snd <$> v.mint msg s shares receiver
  | .setOperator operator approved => setOperator msg s operator approved
  | .requestRedeem shares controller owner => v.requestRedeem msg s shares controller owner
  | .fulfillRedeem controller shares => Prod.snd <$> v.fulfillRedeem msg s controller shares
  | .redeem shares receiver controller => Prod.snd <$> v.redeem msg s shares receiver controller
  | .withdraw assets receiver controller =>
      Prod.snd <$> v.withdraw msg s assets receiver controller
  | .agentWithdraw amount => v.agentWithdraw msg s amount
  | .agentReturn amount => v.agentReturn msg s amount
  | .donate amount => v.donate msg s amount
  | .reportNav newDeployedAssets observedLeverageBps observedAt =>
      v.reportNav msg s newDeployedAssets observedLeverageBps observedAt
  | .reportActivity report => reportActivity msg s report
  | .reportActivityBatch reports => reportActivityBatch msg s reports
  | .accrueFees => .ok (v.accrueFees msg.timestamp s)
  | .setLimits next => v.setLimits msg s next
  | .setInsuranceFund next => v.setInsuranceFund msg s next
  | .setEmergencyExit enabled => setEmergencyExit msg s enabled
  | .pause => pause msg s
  | .unpause => unpause msg s
  | .grantRole role account => grantRole msg s role account
  | .revokeRole role account => revokeRole msg s role account
  | .renounceRole role callerConfirmation => renounceRole msg s role callerConfirmation

end LemonVault

/-! ### Runs -/

/-- The vault's storage and the time of the last block. -/
structure World where
  now : Nat
  state : State

/-- A transaction: who calls what, when. -/
structure Tx where
  msg : Msg
  call : Call
  deriving DecidableEq

/-- The step of one successful transaction. -/
def LemonVault.next (v : LemonVault) (w : World) (tx : Tx) : Option World :=
  if w.now ≤ tx.msg.timestamp ∧ tx.msg.sender ≠ v.self then
    (v.exec tx.msg w.state tx.call).toOption.map fun s => ⟨tx.msg.timestamp, s⟩
  else none

/-- The constructor's arguments, with who deploys, the address and time it runs at,
and the USDC ledger it finds. -/
structure InitParams where
  deployer : Address
  self : NonzeroAddress
  deployedAt : Nat
  asset : Erc20 Address
  admin : Address
  agentWallet : Address
  guardian : Address
  insuranceFund : Address
  risk : RiskProfile
  limits : Limits

/-- A share token nobody holds. -/
def emptyErc20 : Erc20 Address :=
  ⟨⟨fun _ => 0, 0, Finset.sum_const_zero⟩, fun _ _ => 0⟩

/-- The storage the constructor leaves: everything at its start, the four roles
granted. -/
def initialState (p : InitParams) (insuranceFund : NonzeroAddress) (risk : ValidRiskProfile)
    (limits : ValidLimits) : State :=
  let deployer : Msg := ⟨p.deployer, p.deployedAt⟩
  let s : State :=
    { usdc := p.asset
      shares := emptyErc20
      deployedAssets := 0
      claimableAssets := 0
      lastNavReportAt := p.deployedAt
      lastFeeAccrualAt := p.deployedAt
      navEpochStartedAt := p.deployedAt
      navEpochAnchor := 0
      highWaterMarkPps := LemonVault.assetUnit
      insuranceFund := insuranceFund
      redeem := fun _ => ⟨0, 0, 0, 0⟩
      isOperator := fun _ _ => false
      totalPendingRedeemShares := 0
      limits := limits
      emergencyExit := false
      agentWindowStartedAt := p.deployedAt
      agentWithdrawnInWindow := 0
      lastObservedLeverageBps := risk.val.targetLeverageBps
      activityCount := 0
      cumulativeNotional := 0
      cumulativeVenueFees := 0
      paused := false
      hasRole := fun _ _ => false
      log := [] }
  let s := LemonVault.grantRoleUnchecked deployer s .defaultAdmin p.admin
  let s := LemonVault.grantRoleUnchecked deployer s .agent p.agentWallet
  let s := LemonVault.grantRoleUnchecked deployer s .guardian p.guardian
  LemonVault.grantRoleUnchecked deployer s .guardian p.admin

/-- The constructor. -/
def construct (p : InitParams) : Except VaultError (LemonVault × State) := do
  revertIf (p.admin = 0) .zeroAddress
  let agentWallet ← LemonVault.nonzeroAddress p.agentWallet
  revertIf (p.guardian = 0) .zeroAddress
  let insuranceFund ← LemonVault.nonzeroAddress p.insuranceFund
  let risk ← LemonVault.validateRiskProfile p.risk
  let limits ← LemonVault.validateLimits p.limits
  return (⟨p.self, agentWallet, risk⟩, initialState p insuranceFund risk limits)

/-- A construction that went through, at an address with no USDC allowances out. -/
structure Genesis (v : LemonVault) (w : World) : Prop where
  built : ∃ p : InitParams, construct p = .ok (v, w.state) ∧ w.now = p.deployedAt
  unapproved : ∀ a, w.state.usdc.allowance v.self a = 0

/-- What some run from a construction leads to. -/
def Reachable (v : LemonVault) (w : World) : Prop :=
  ∃ w₀ tr, Genesis v w₀ ∧ Run v.next w₀ tr w

end LemonMarket
