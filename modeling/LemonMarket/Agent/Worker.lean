import LemonMarket.Agent.Policy
import LemonMarket.Contracts.Vault

/-!
# LemonMarket.Agent.Worker

**From the chain to the snapshot, and back to the queue.** What `VaultClient`
reads of the contract (`vault.ts`), the queue the indexer serves with the value
`toQueueEntry` puts on each row (`index.ts`), the snapshot one tick builds from
them, and `settleQueue`, which pays ripe requests (`worker.ts`).

An `Observation` is what the venue adapter reports; the markets in it are as the
worker finds them, before it withdraws `spotBuyable` from a paused or exiting
vault.
-/

namespace LemonMarket

namespace Agent

open LemonVault (bps)

/-! ### Reading the vault -/

/-- `VaultClient.read`. -/
structure VaultState where
  totalAssets : Nat
  freeAssets : Nat
  deployedAssets : Nat
  claimableAssets : Nat
  totalSupply : Nat
  pricePerShare : Nat
  risk : ValidRiskProfile
  maxDeployedBps : Nat
  minNavReportInterval : Nat
  maxNavStaleness : Nat
  lastNavReportAt : Nat
  paused : Bool
  emergencyExit : Bool
  navIsStale : Bool

def VaultState.read (v : LemonVault) (s : State) (now : Nat) : VaultState where
  totalAssets := v.totalAssets s
  freeAssets := v.freeAssets s
  deployedAssets := s.deployedAssets
  claimableAssets := s.claimableAssets
  totalSupply := s.shares.totalSupply
  pricePerShare := v.pricePerShare s
  risk := v.risk
  maxDeployedBps := s.limits.val.maxDeployedBps
  minNavReportInterval := s.limits.val.minNavReportInterval
  maxNavStaleness := s.limits.val.maxNavStaleness
  lastNavReportAt := s.lastNavReportAt
  paused := s.paused
  emergencyExit := s.emergencyExit
  navIsStale := LemonVault.navIsStale s now

/-- `VaultClient.withdrawWindowRemaining`, from a reading of the vault. -/
def VaultState.withdrawWindowRemaining (state : VaultState) : Nat :=
  let ceiling := state.totalAssets * state.maxDeployedBps / bps
  if ceiling > state.deployedAssets then ceiling - state.deployedAssets else 0

theorem withdrawWindowRemaining_eq (state : VaultState) : state.withdrawWindowRemaining =
    state.totalAssets * state.maxDeployedBps / bps - state.deployedAssets := by
  simp only [VaultState.withdrawWindowRemaining, ite_gt_sub]

/-! ### The queue -/

/-- A row of the indexer's queue. -/
structure RawQueueRow where
  controller : Address
  pendingShares : Nat
  eligibleAt : Nat
  fulfillBy : Nat
  deriving Repr, DecidableEq

structure QueueEntry where
  controller : Address
  pendingShares : Nat
  pendingAssets : Nat
  eligibleAt : Nat
  fulfillBy : Nat
  deriving Repr, DecidableEq

/-- The value of a request in USDC at a share price, six decimals over eighteen. -/
def toQueueEntry (row : RawQueueRow) (pricePerShare : Nat) : QueueEntry where
  controller := row.controller
  pendingShares := row.pendingShares
  pendingAssets := row.pendingShares * pricePerShare / 10 ^ 18
  eligibleAt := row.eligibleAt
  fulfillBy := row.fulfillBy

/-- The queue as the worker gets it: `toQueueEntry` at its default price. -/
def loadQueue (rows : List RawQueueRow) : List QueueEntry :=
  rows.map (toQueueEntry · 1000000)

/-! ### The snapshot -/

/-- What the venue adapter's `observe` answers. -/
structure Observation where
  markets : List MarketSnapshot
  markets_ne : markets ≠ []
  perpNotionalUsdc : Nat
  perpEquityUsdc : Int
  idleOnBase : Nat
  unallocatedMargin : Nat
  venueWithdrawalFeeUsdc : Nat

/-- What the operator has set for a vault. -/
structure Orders where
  closeRequested : Bool
  rebalanceDriftBps : Nat
  deriving Repr, DecidableEq

def ripe (queue : List QueueEntry) (now : Nat) : List QueueEntry :=
  queue.filter (·.eligibleAt ≤ now)

/-- The snapshot a tick decides on. -/
def snapshot (fresh : VaultState) (queue : List QueueEntry) (observation : Observation)
    (orders : Orders) (now : Nat) : VaultSnapshot where
  risk := fresh.risk
  freeAssets := fresh.freeAssets
  totalAssets := fresh.totalAssets
  deployedAssets := fresh.deployedAssets
  maxDeployedBps := fresh.maxDeployedBps
  withdrawWindowRemaining := fresh.withdrawWindowRemaining
  idleOnBase := observation.idleOnBase
  unallocatedMargin := observation.unallocatedMargin
  perpNotionalUsdc := observation.perpNotionalUsdc
  perpEquityUsdc := observation.perpEquityUsdc
  ripeRedeemAssets := ((ripe queue now).map (·.pendingAssets)).sum
  pendingRedeemAssets := ((queue.filter (·.eligibleAt > now)).map (·.pendingAssets)).sum
  earliestDeadline := ((ripe queue now).map (·.fulfillBy)).min?
  markets := observation.markets.map fun market =>
    { market with spotBuyable := market.spotBuyable && !fresh.paused && !fresh.emergencyExit }
  closeRequested := orders.closeRequested
  rebalanceDriftBps := orders.rebalanceDriftBps
  venueWithdrawalFeeUsdc := observation.venueWithdrawalFeeUsdc

/-! ### Settling the queue -/

/-- The shares of a request the vault can pay for now. -/
def payable (entry : QueueEntry) (freeAssets : Nat) : Nat :=
  if entry.pendingAssets ≤ freeAssets then entry.pendingShares
  else entry.pendingShares * freeAssets / entry.pendingAssets

variable (v : LemonVault) (msg : Msg)

/-- One pass of the loop of `settleQueue`: what is sent for an entry in the state read
for it, if anything is. -/
def settleOne (s : State) (entry : QueueEntry) : Option (Except VaultError (Nat × State)) :=
  if payable entry (v.freeAssets s) = 0 then none
  else some (v.fulfillRedeem msg s entry.controller (payable entry (v.freeAssets s)))

/-- The loop: oldest first, stopping when nothing is free, and carrying on past a
fulfilment that fails. Answers how many were paid, and the state after. -/
def settleEntries (s : State) : List QueueEntry → Nat × State
  | [] => (0, s)
  | entry :: rest =>
      if v.freeAssets s = 0 then (0, s)
      else
        match settleOne v msg s entry with
        | some (.ok (_, s')) => ((settleEntries s' rest).1 + 1, (settleEntries s' rest).2)
        | _ => settleEntries s rest

def settleQueue (s : State) (ripe : List QueueEntry) : Nat × State :=
  settleEntries v msg s (ripe.insertionSort fun a b => a.eligibleAt ≤ b.eligibleAt)

end Agent

/-! ### Fixtures -/

namespace Test

open Agent

/-- A market the vault has not opened a position in yet, at the venues' usual figures. -/
def nvda : MarketSnapshot where
  ticker := "NVDA"
  targetWeightBps := 10000
  spotValueUsdc := 0
  spotUnits := 0
  perpUnits := 0
  fundingShortPercentPerHour := 1 / 100
  spotBuyable := true
  spotSellable := true
  markPriceUsd := 180
  lotSize := 1 / 1000
  minOrderUsd := 10
  spotGasUsd := 1 / 100
  spotImpactPercent := 1 / 10

/-- Nothing at the venues. -/
def flat : Observation where
  markets := [nvda]
  markets_ne := List.cons_ne_nil _ _
  perpNotionalUsdc := 0
  perpEquityUsdc := 0
  idleOnBase := 0
  unallocatedMargin := 0
  venueWithdrawalFeeUsdc := 0

end Test

end LemonMarket
