import LemonMarket.Contracts.Runs
import LemonMarket.Lib.Blocks
import LemonMarket.Lib.Table

/-!
# LemonMarket.Indexer.Handlers

**What the indexer keeps of a vault.** Its event handlers fold the vault's log into three
tables: the vault's own row, a position for each holder and a redemption request for each
controller. Every row is keyed by the vault's address, so the events of one vault are a
fold of their own, and `Db` is the part of the tables that vault owns.

A handler that syncs reads the vault back from the chain. The reads are pinned to the block
of the event, so they give the vault as the block left it, whichever of its events they are
made for: `Views` is an argument of the fold, the same for a whole block.

The history tables (flows, NAV points, agent transfers, activity, fee accruals) are only
ever appended to and no handler reads one; they are left out, with the columns of the vault
row that are written once, when it is created, from the factory's event.
-/

namespace LemonMarket.Indexer

open Lib

/-! ### The tables -/

/-- The three numbers of `limits()` that `readLimits` returns. -/
structure Terms where
  managementFeeBps : Nat
  performanceFeeBps : Nat
  maxDeployedBps : Nat
  deriving Repr, DecidableEq

/-- `vault`. -/
structure VaultRow where
  managementFeeBps : Option Nat
  performanceFeeBps : Option Nat
  maxDeployedBps : Option Nat
  totalAssets : Nat := 0
  totalSupply : Nat := 0
  idleAssets : Int := 0
  deployedAssets : Nat := 0
  claimableAssets : Nat := 0
  pricePerShare : Nat := 1000000
  highWaterMarkPps : Nat := 1000000
  lastObservedLeverageBps : Nat := 10000
  lastNavReportAt : Option Nat := none
  totalPendingRedeemShares : Nat := 0
  pendingRequestCount : Nat := 0
  lifetimeDeposited : Nat := 0
  lifetimeWithdrawn : Nat := 0
  lifetimeFeeShares : Nat := 0
  cumulativeNotional : Nat := 0
  cumulativeVenueFees : Nat := 0
  activityCount : Nat := 0
  depositorCount : Nat := 0
  paused : Bool := false
  emergencyExit : Bool := false
  updatedAt : Nat
  deriving Repr, DecidableEq

/-- `position`. -/
structure PositionRow where
  shares : Int := 0
  netDeposited : Int := 0
  depositedTotal : Int := 0
  withdrawnTotal : Int := 0
  firstSeenAt : Nat
  updatedAt : Nat
  deriving Repr, DecidableEq

/-- `redeem_request`. -/
structure RedeemRequestRow where
  pendingShares : Int := 0
  claimableShares : Int := 0
  claimableAssets : Int := 0
  claimedShares : Int := 0
  claimedAssets : Int := 0
  requestedAt : Nat
  eligibleAt : Nat
  fulfillBy : Nat
  fulfilledAt : Option Nat := none
  updatedAt : Nat
  deriving Repr, DecidableEq

/-- One vault's rows. -/
structure Db where
  vault : VaultRow
  position : Table Address PositionRow
  redeemRequest : Table Address RedeemRequestRow

/-- `VaultCreated`: the row starts at the schema's defaults, and at the terms as far as
they could be read. -/
def onVaultCreated (limits : Option Terms) (timestamp : Nat) : Db where
  vault :=
    { managementFeeBps := limits.map (·.managementFeeBps)
      performanceFeeBps := limits.map (·.performanceFeeBps)
      maxDeployedBps := limits.map (·.maxDeployedBps)
      updatedAt := timestamp }
  position := ∅
  redeemRequest := ∅

/-! ### Reading the vault back -/

/-- The nine reads of `syncVault`. -/
structure Views where
  totalAssets : Nat
  totalSupply : Nat
  deployedAssets : Nat
  claimableAssets : Nat
  pricePerShare : Nat
  highWaterMarkPps : Nat
  totalPendingRedeemShares : Nat
  lastObservedLeverageBps : Nat
  lastNavReportAt : Nat
  deriving Repr, DecidableEq

/-- What the contract answers them in a state. -/
def views (v : LemonVault) (s : State) : Views where
  totalAssets := v.totalAssets s
  totalSupply := s.shares.totalSupply
  deployedAssets := s.deployedAssets
  claimableAssets := s.claimableAssets
  pricePerShare := v.pricePerShare s
  highWaterMarkPps := s.highWaterMarkPps
  totalPendingRedeemShares := s.totalPendingRedeemShares
  lastObservedLeverageBps := s.lastObservedLeverageBps
  lastNavReportAt := s.lastNavReportAt

def syncVault (read : Views) (timestamp : Nat) (db : Db) : Db :=
  { db with vault := { db.vault with
      totalAssets := read.totalAssets
      totalSupply := read.totalSupply
      deployedAssets := read.deployedAssets
      claimableAssets := read.claimableAssets
      idleAssets := (read.totalAssets + read.claimableAssets : Int) - read.deployedAssets
      pricePerShare := read.pricePerShare
      highWaterMarkPps := read.highWaterMarkPps
      totalPendingRedeemShares := read.totalPendingRedeemShares
      lastObservedLeverageBps := read.lastObservedLeverageBps
      lastNavReportAt := some read.lastNavReportAt
      updatedAt := timestamp } }

/-! ### The handlers -/

section handlers

variable (vaultAddress : Address) (read : Views) (now : Nat) (db : Db)

def onDeposit (owner : Address) (assets shares : Nat) : Db :=
  let existing := (db.position.lookup owner).isSome
  let position := db.position.upsert owner
    { shares := shares
      netDeposited := assets
      depositedTotal := assets
      firstSeenAt := now
      updatedAt := now }
    fun row => { row with
      shares := row.shares + shares
      netDeposited := row.netDeposited + assets
      depositedTotal := row.depositedTotal + assets
      updatedAt := now }
  let vault := { db.vault with
    lifetimeDeposited := db.vault.lifetimeDeposited + assets
    depositorCount := if existing then db.vault.depositorCount else db.vault.depositorCount + 1 }
  syncVault read now { db with position := position, vault := vault }

def onRedeemQueued (controller : Address) (shares eligibleAt fulfillBy : Nat) : Db :=
  let redeemRequest := db.redeemRequest.upsert controller
    { pendingShares := shares
      requestedAt := now
      eligibleAt := eligibleAt
      fulfillBy := fulfillBy
      updatedAt := now }
    fun row => { row with
      pendingShares := row.pendingShares + shares
      requestedAt := now
      eligibleAt := eligibleAt
      fulfillBy := fulfillBy
      updatedAt := now }
  -- A failed update of the position is swallowed.
  let position := db.position.tryUpdate controller fun row => { row with
    shares := row.shares - shares
    updatedAt := now }
  let vault := { db.vault with pendingRequestCount := db.vault.pendingRequestCount + 1 }
  syncVault read now { vault := vault, position := position, redeemRequest := redeemRequest }

/-- Without a request to update the handler throws, and indexing stops. -/
def onRedeemFulfilled (controller : Address) (shares assets : Nat) : Option Db := do
  let redeemRequest ← db.redeemRequest.update controller fun row => { row with
    pendingShares := row.pendingShares - shares
    claimableShares := row.claimableShares + shares
    claimableAssets := row.claimableAssets + assets
    fulfilledAt := some now
    updatedAt := now }
  return syncVault read now { db with redeemRequest := redeemRequest }

def onRedeemClaimed (controller : Address) (shares assets : Nat) : Option Db := do
  let redeemRequest ← db.redeemRequest.update controller fun row => { row with
    claimableShares := row.claimableShares - shares
    claimableAssets := row.claimableAssets - assets
    claimedShares := row.claimedShares + shares
    claimedAssets := row.claimedAssets + assets
    updatedAt := now }
  let position := db.position.tryUpdate controller fun row => { row with
    netDeposited := if row.netDeposited > assets then row.netDeposited - assets else 0
    withdrawnTotal := row.withdrawnTotal + assets
    updatedAt := now }
  let vault := { db.vault with lifetimeWithdrawn := db.vault.lifetimeWithdrawn + assets }
  return syncVault read now
    { vault := vault, position := position, redeemRequest := redeemRequest }

def onActivityReported (report : ActivityReport) : Db :=
  { db with vault := { db.vault with
      activityCount := db.vault.activityCount + 1
      cumulativeNotional := db.vault.cumulativeNotional + report.notionalAssets
      cumulativeVenueFees := db.vault.cumulativeVenueFees + report.feeAssets } }

def onFeesAccrued (managementShares performanceShares : Nat) : Db :=
  { db with vault := { db.vault with
      lifetimeFeeShares := db.vault.lifetimeFeeShares + managementShares + performanceShares } }

/-- Shares moving between wallets. Mints, burns and what goes to or from the vault are
skipped. -/
def onTransfer (sender receiver : Address) (value : Nat) : Db :=
  if sender = 0 ∨ receiver = 0 then db
  else if sender = vaultAddress ∨ receiver = vaultAddress then db
  else if value = 0 then db
  else
    let position := db.position.tryUpdate sender fun row => { row with
      shares := row.shares - value
      updatedAt := now }
    let position := position.upsert receiver
      { shares := value, firstSeenAt := now, updatedAt := now }
      fun row => { row with
        shares := row.shares + value
        updatedAt := now }
    { db with position := position }

def onPaused (paused : Bool) : Db :=
  { db with vault := { db.vault with paused := paused, updatedAt := now } }

def onEmergencyExitSet (enabled : Bool) : Db :=
  { db with vault := { db.vault with emergencyExit := enabled, updatedAt := now } }

def onLimitsUpdated (limits : Limits) : Db :=
  { db with vault := { db.vault with
      managementFeeBps := some limits.managementFeeBps
      performanceFeeBps := some limits.performanceFeeBps
      maxDeployedBps := some limits.maxDeployedBps
      updatedAt := now } }

/-- One event, by its handler. The events without one are not indexed. -/
def handle : Event → Option Db
  | .deposit _ owner assets shares => some (onDeposit read now db owner assets shares)
  | .redeemQueued controller shares eligibleAt fulfillBy =>
      some (onRedeemQueued read now db controller shares eligibleAt fulfillBy)
  | .redeemFulfilled controller shares assets =>
      onRedeemFulfilled read now db controller shares assets
  | .redeemClaimed controller _ shares assets =>
      onRedeemClaimed read now db controller shares assets
  | .navReported _ _ _ _ _ | .agentWithdrew _ _ | .agentReturned _ _ =>
      some (syncVault read now db)
  | .activityReported _ report => some (onActivityReported db report)
  | .feesAccrued managementShares performanceShares _ =>
      some (onFeesAccrued db managementShares performanceShares)
  | .transfer sender receiver value =>
      some (onTransfer vaultAddress now db sender receiver value)
  | .paused _ => some (onPaused now db true)
  | .unpaused _ => some (onPaused now db false)
  | .emergencyExitSet enabled => some (onEmergencyExitSet now db enabled)
  | .limitsUpdated limits => some (onLimitsUpdated now db limits)
  | .donated _ _ _ | .insuranceFundUpdated _ | .redeemRequest _ _ _ _ _ | .operatorSet _ _ _
  | .withdraw _ _ _ _ _ | .approval _ _ _ | .roleGranted _ _ _ | .roleRevoked _ _ _ => some db

/-- Events in order. -/
def fold (events : List Event) : Option Db := events.foldlM (handle vaultAddress read now) db

/-! ### What the handlers leave alone -/

/-- The columns of the vault's row that are re-read as a set, and that the app shows as the
vault's figures. -/
structure Figures where
  totalAssets : Nat
  totalSupply : Nat
  deployedAssets : Nat
  claimableAssets : Nat
  pricePerShare : Nat
  highWaterMarkPps : Nat
  totalPendingRedeemShares : Nat
  deriving Repr, DecidableEq

def VaultRow.figures (row : VaultRow) : Figures :=
  ⟨row.totalAssets, row.totalSupply, row.deployedAssets, row.claimableAssets, row.pricePerShare,
    row.highWaterMarkPps, row.totalPendingRedeemShares⟩

def Views.figures (read : Views) : Figures :=
  ⟨read.totalAssets, read.totalSupply, read.deployedAssets, read.claimableAssets,
    read.pricePerShare, read.highWaterMarkPps, read.totalPendingRedeemShares⟩

/-- The events whose handlers sync. -/
def syncs : Event → Bool
  | .deposit _ _ _ _ | .redeemQueued _ _ _ _ | .redeemFulfilled _ _ _ | .redeemClaimed _ _ _ _
  | .navReported _ _ _ _ _ | .agentWithdrew _ _ | .agentReturned _ _ => true
  | _ => false

/-- The events whose handlers write no position and no request. -/
def plain (vaultAddress : Address) : Event → Bool
  | .deposit _ _ _ _ | .redeemQueued _ _ _ _ | .redeemFulfilled _ _ _
  | .redeemClaimed _ _ _ _ => false
  | .transfer sender receiver _ =>
      (sender = 0 ∨ receiver = 0) ∨ sender = vaultAddress ∨ receiver = vaultAddress
  | _ => true

/-- The same positions and the same requests. -/
structure SameRows (db db' : Db) : Prop where
  position : db'.position = db.position
  redeemRequest : db'.redeemRequest = db.redeemRequest

theorem SameRows.refl (db : Db) : SameRows db db := ⟨rfl, rfl⟩

theorem SameRows.trans {db₁ db₂ db₃ : Db} (h₁ : SameRows db₁ db₂) (h₂ : SameRows db₂ db₃) :
    SameRows db₁ db₃ :=
  ⟨h₂.position.trans h₁.position, h₂.redeemRequest.trans h₁.redeemRequest⟩

variable {vaultAddress read now db} {db' : Db} {e : Event} {events : List Event}

theorem onTransfer_skipped {sender receiver : Address} {value : Nat}
    (h : (sender = 0 ∨ receiver = 0) ∨ sender = vaultAddress ∨ receiver = vaultAddress) :
    onTransfer vaultAddress now db sender receiver value = db := by
  simp only [onTransfer]
  split
  next => rfl
  next hzero => rw [if_pos (h.resolve_left hzero)]

/-- No transfer writes a request, or the vault's row. -/
theorem onTransfer_rest (sender receiver : Address) (value : Nat) :
    onTransfer vaultAddress now db sender receiver value =
      { db with position := (onTransfer vaultAddress now db sender receiver value).position } := by
  simp only [onTransfer]
  repeat' split
  all_goals rfl

theorem handle_plain (h : plain vaultAddress e = true) :
    ∃ db', handle vaultAddress read now db e = some db' ∧ SameRows db db' := by
  cases e with
  | deposit | redeemQueued | redeemFulfilled | redeemClaimed => cases h
  | transfer sender receiver value =>
      refine ⟨_, rfl, ?_⟩
      rw [onTransfer_skipped (by simpa [plain] using h)]
      exact .refl db
  | _ => exact ⟨_, rfl, rfl, rfl⟩

theorem fold_append (before after : List Event) :
    fold vaultAddress read now db (before ++ after) =
      (fold vaultAddress read now db before).bind (fold vaultAddress read now · after) :=
  List.foldlM_append

theorem fold_cons : fold vaultAddress read now db (e :: events) =
    (handle vaultAddress read now db e).bind (fold vaultAddress read now · events) :=
  List.foldlM_cons

/-- Plain events fold without failing, and leave the rows alone. -/
theorem fold_plain (h : ∀ e ∈ events, plain vaultAddress e = true) :
    ∃ db', fold vaultAddress read now db events = some db' ∧ SameRows db db' := by
  induction events generalizing db with
  | nil => exact ⟨db, rfl, .refl db⟩
  | cons e events ih =>
      obtain ⟨db₁, hhandle, hfirst⟩ : ∃ db', handle vaultAddress read now db e = some db' ∧
          SameRows db db' := handle_plain (h e List.mem_cons_self)
      obtain ⟨db₂, hfold, hrest⟩ : ∃ db', fold vaultAddress read now db₁ events = some db' ∧
          SameRows db₁ db' := ih fun e' he' => h e' (List.mem_cons_of_mem e he')
      refine ⟨db₂, ?_, hfirst.trans hrest⟩
      rw [fold_cons, hhandle]
      exact hfold

/-- A handler syncs the figures or leaves them. -/
theorem handle_figures (h : handle vaultAddress read now db e = some db') :
    db'.vault.figures = if syncs e then read.figures else db.vault.figures := by
  cases e with
  | redeemFulfilled | redeemClaimed =>
      simp only [handle, onRedeemFulfilled, onRedeemClaimed, Option.bind_eq_bind,
        Option.bind_eq_some_iff, Option.pure_def, Option.some.injEq] at h
      obtain ⟨t, -, rfl⟩ := h
      rfl
  | transfer sender receiver value =>
      obtain rfl := Option.some.inj h
      rw [onTransfer_rest]
      rfl
  | _ =>
      obtain rfl := Option.some.inj h
      rfl

/-- So a fold leaves them as read, if any of its events syncs. -/
theorem fold_figures (h : fold vaultAddress read now db events = some db') :
    db'.vault.figures = if events.any syncs then read.figures else db.vault.figures :=
  foldlM_any (g := fun db => db.vault.figures) (fun _ _ _ => handle_figures) h

end handlers

end LemonMarket.Indexer
