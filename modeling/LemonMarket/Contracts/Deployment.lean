import LemonMarket.Contracts.Effects

/-!
# LemonMarket.Contracts.Deployment

**The deployment the contract's own tests run on** (`VaultTest.sol`): the actors,
the default limits, the two risk profiles, and three accounts funded with a
million USDC each that have approved the vault without limit. Any configuration
the validator accepts can be deployed this way (`testGenesis`), so a concrete run
starts from here and is then checked by evaluation (`Lib.trace_run`).
-/

namespace LemonMarket

open Lib

namespace Test

def vault : NonzeroAddress := ⟨1, by decide⟩
def admin : NonzeroAddress := ⟨2, by decide⟩
def agent : NonzeroAddress := ⟨3, by decide⟩
def guardian : NonzeroAddress := ⟨4, by decide⟩
def insurance : NonzeroAddress := ⟨5, by decide⟩
def alice : NonzeroAddress := ⟨6, by decide⟩
def bob : NonzeroAddress := ⟨7, by decide⟩

def oneUsdc : Nat := 10 ^ 6

def conservativeRisk : ValidRiskProfile := ⟨⟨.conservative, 10000, 10000⟩, by decide⟩

/-- The limits every suite starts from. They pass their own validation. -/
def defaultLimits : ValidLimits :=
  ⟨{ managementFeeBps := 200
     performanceFeeBps := 2000
     minRedeemDelay := 3 * 86400
     maxRedeemDelay := 7 * 86400
     maxDeployedBps := 9000
     maxNavDeviationBps := 1000
     maxNavEpochDeviationBps := 5000
     navEpochDuration := 86400
     minNavReportInterval := 300
     maxNavStaleness := 6 * 3600
     agentWithdrawWindowCap := 10000000 * oneUsdc
     agentWithdrawWindow := 86400 }, by decide⟩

/-- The same with both fees at zero. -/
def noFeeLimits : ValidLimits :=
  ⟨{ defaultLimits.val with managementFeeBps := 0, performanceFeeBps := 0 }, by decide⟩

/-- The same with the performance fee alone. -/
def onlyPerformance : ValidLimits :=
  ⟨{ defaultLimits.val with managementFeeBps := 0 }, by decide⟩

/-- The limits of the contract's own window test: a hundred USDC an hour. -/
def hourlyCap : ValidLimits :=
  ⟨{ noFeeLimits.val with
     agentWithdrawWindowCap := 100 * oneUsdc
     agentWithdrawWindow := 3600 }, by decide⟩

/-- `MockUSDC` after `setUp`: minted to three accounts, each of which has approved
the vault. -/
def usdc : Erc20 Address :=
  { ((emptyErc20.issue alice (1000000 * oneUsdc)).issue bob (1000000 * oneUsdc)).issue agent
      (1000000 * oneUsdc) with
    allowance := fun owner spender =>
      if spender = vault ∧ (owner = alice ∨ owner = bob ∨ owner = agent) then uint256Max
      else 0 }

/-- `_deployVault(limits, risk)` at the time `setUp` warps to. -/
def params (limits : ValidLimits) (risk : ValidRiskProfile) : InitParams where
  deployer := admin
  self := vault
  deployedAt := LemonVault.year
  asset := usdc
  admin := admin
  agentWallet := agent
  guardian := guardian
  insuranceFund := insurance
  risk := risk
  limits := limits

def lemonVault (risk : ValidRiskProfile) : LemonVault := ⟨vault, agent, risk⟩

def world (limits : ValidLimits) (risk : ValidRiskProfile) : World :=
  ⟨LemonVault.year, initialState (params limits risk) insurance risk limits⟩

theorem construct_params (limits : ValidLimits) (risk : ValidRiskProfile) :
    construct (params limits risk) =
      .ok (lemonVault risk, initialState (params limits risk) insurance risk limits) :=
  construct_of_valid (p := params limits risk) admin.property agent.property guardian.property
    insurance.property risk.property limits.property

/-- Nobody approved anything in the vault's name. -/
theorem usdc_unapproved (a : Address) : usdc.allowance vault a = 0 := by
  simp only [usdc]
  rw [if_neg]
  rintro ⟨-, h | h | h⟩ <;> exact absurd h (by decide)

/-- Whatever valid configuration is chosen, the test deployment goes through. -/
theorem testGenesis (limits : ValidLimits) (risk : ValidRiskProfile) :
    Genesis (lemonVault risk) (world limits risk) where
  built := ⟨params limits risk, construct_params limits risk, rfl⟩
  unapproved a := by
    have hfresh := initialState_fresh (params limits risk) insurance risk limits
    exact hfresh.usdc ▸ usdc_unapproved a

/-- A call by one of the actors, `after` seconds from the deployment. -/
def tx (sender : NonzeroAddress) (after : Nat) (call : Call) : Tx :=
  ⟨⟨sender, LemonVault.year + after⟩, call⟩

section runs

variable {limits : ValidLimits} {risk : ValidRiskProfile} {txs : List Tx}

/-- Where a run of transactions from the test deployment ends. -/
def after (limits : ValidLimits) (risk : ValidRiskProfile) (txs : List Tx)
    (h : (trace (lemonVault risk).next (world limits risk) txs).isSome) : World :=
  (Option.get _ h).2

/-- The transitions of that run. -/
def transitions (limits : ValidLimits) (risk : ValidRiskProfile) (txs : List Tx)
    (h : (trace (lemonVault risk).next (world limits risk) txs).isSome) :
    List (Transition World Tx) :=
  (Option.get _ h).1

theorem run_after (h : (trace (lemonVault risk).next (world limits risk) txs).isSome) :
    Run (lemonVault risk).next (world limits risk) (transitions limits risk txs h)
      (after limits risk txs h) :=
  trace_run (Option.some_get h).symm

theorem reachable_after (h : (trace (lemonVault risk).next (world limits risk) txs).isSome) :
    Reachable (lemonVault risk) (after limits risk txs h) :=
  ⟨_, _, testGenesis limits risk, run_after h⟩

end runs

end Test

end LemonMarket
