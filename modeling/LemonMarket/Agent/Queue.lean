import LemonMarket.Agent.Worker
import LemonMarket.Contracts.Deployment

/-!
# LemonMarket.Agent.Queue

**The price the queue is valued at.** `loadQueue` values every request at the default
argument of `toQueueEntry`, one USDC a share, whatever the vault's price is. The
policy's shortfall and the share of a request that `settleQueue` asks for are built on
that value, and the contract pays at its own price.

The two prices are one exactly when the supply is worth par: then a row's value is the
contract's for every request, and what is asked for always fits. At any other price
some row is valued wrongly.
-/

namespace LemonMarket

open Lib Agent

namespace LemonVault

/-- Every row of every queue carries the contract's own value of its shares. -/
def RowsPriced (v : LemonVault) (s : State) : Prop :=
  ∀ rows : List RawQueueRow, ∀ entry ∈ loadQueue rows,
    entry.pendingAssets = v.convertToAssets s entry.pendingShares .floor

/-- What `settleQueue` sends for an entry does not ask for more than is free. -/
def Fits (v : LemonVault) (msg : Msg) (s : State) (entry : QueueEntry) : Prop :=
  ∀ result, settleOne v msg s entry = some result →
    ∀ requested available, result ≠ .error (.insufficientFreeAssets requested available)

/-- With a fresh valuation, what is sent for a ripe request fits, or the snapshot shows
the vault short and an unwind is offered whenever there is something to sell. -/
def QueueServed (v : LemonVault) (msg : Msg) (s : State) : Prop :=
  navIsStale s msg.timestamp = false →
    ∀ (cfg : Settings) (rows : List RawQueueRow) (observation : Observation) (orders : Orders),
      ∀ S, S = snapshot (VaultState.read v s msg.timestamp) (loadQueue rows) observation orders
          msg.timestamp →
      ∀ entry ∈ ripe (loadQueue rows) msg.timestamp, v.Fits msg s entry ∨
        S.freeAssets < S.ripeRedeemAssets ∧
          (0 < sellableValue S → ∃ d ∈ permittedActions cfg S msg.timestamp, d.kind = .unwind)

/-- A share is worth one USDC: the supply is the assets in the shares' own decimals. -/
def AtPar (v : LemonVault) (s : State) : Prop :=
  s.shares.totalSupply = v.totalAssets s * virtualShares

instance (v : LemonVault) (s : State) : Decidable (v.AtPar s) :=
  inferInstanceAs (Decidable (s.shares.totalSupply = v.totalAssets s * virtualShares))

variable {v : LemonVault} {s : State} {msg : Msg}

/-! ### Values -/

theorem loadQueue_assets {rows : List RawQueueRow} {entry : QueueEntry}
    (h : entry ∈ loadQueue rows) : entry.pendingAssets = entry.pendingShares / virtualShares := by
  obtain ⟨row, -, rfl⟩ := List.mem_map.mp h
  show row.pendingShares * assetUnit / priceUnit = row.pendingShares / virtualShares
  rw [priceUnit_eq, Nat.mul_comm row.pendingShares]
  exact Nat.mul_div_mul_left _ _ (by decide)

theorem convertToAssets_par (h : v.AtPar s) (shares : Nat) :
    v.convertToAssets s shares .floor = shares / virtualShares := by
  have hden : s.shares.totalSupply + virtualShares = (v.totalAssets s + 1) * virtualShares := by
    rw [h, Nat.succ_mul]
  rw [convertToAssets, mulDiv, hden, Nat.mul_comm shares]
  exact Nat.mul_div_mul_left _ _ (Nat.succ_pos _)

/-- A large enough row tells any other price from par. -/
theorem par_of_rowsPriced (h : v.RowsPriced s) : v.AtPar s := by
  let row : RawQueueRow := ⟨0, virtualShares * (s.shares.totalSupply + virtualShares), 0, 0⟩
  have hmem : toQueueEntry row 1000000 ∈ loadQueue [row] := List.mem_singleton_self _
  have hrow := (loadQueue_assets hmem).symm.trans (h [row] _ hmem)
  have hden := supply_pos s
  simp only [toQueueEntry, row, convertToAssets, mulDiv] at hrow
  rw [Nat.mul_div_cancel_left _ virtualShares_pos, Nat.mul_right_comm,
    Nat.mul_div_cancel _ hden] at hrow
  have hexpand : virtualShares * (v.totalAssets s + 1) =
      v.totalAssets s * virtualShares + virtualShares := by ring
  rw [AtPar]
  omega

theorem rowsPriced_of_par (h : v.AtPar s) : v.RowsPriced s := fun _ _ hentry => by
  rw [loadQueue_assets hentry, convertToAssets_par h]

/-! ### What is sent -/

/-- Scaled down to what is free, a request is worth no more than that at the price it was
valued at: the floor in the value makes the share count the larger, by less than a unit. -/
theorem payable_worth_le {entry : QueueEntry} {free x d : Nat} (hd : 0 < d)
    (h : entry.pendingAssets = mulDiv entry.pendingShares x d .floor) :
    mulDiv (payable entry free) x d .floor ≤ free := by
  simp only [payable]
  split
  next hle => exact h ▸ hle
  next hlt =>
    have hvalued : entry.pendingShares * x < (entry.pendingAssets + 1) * d :=
      (mulDiv_floor_lt_iff hd).mp (h ▸ Nat.lt_succ_self _)
    have hscaled := Nat.div_mul_le_self (entry.pendingShares * free) entry.pendingAssets
    generalize entry.pendingShares * free / entry.pendingAssets = shares at hscaled
    rw [Nat.le_iff_lt_add_one, mulDiv_floor_lt_iff hd]
    refine Nat.lt_of_mul_lt_mul_right (a := entry.pendingAssets) ?_
    calc shares * x * entry.pendingAssets = shares * entry.pendingAssets * x := by ring
      _ ≤ entry.pendingShares * free * x := Nat.mul_le_mul_right _ hscaled
      _ = entry.pendingShares * x * free := by ring
      _ ≤ (entry.pendingAssets + 1) * d * free := Nat.mul_le_mul_right _ hvalued.le
      _ = (entry.pendingAssets * free + free) * d := by ring
      _ < (entry.pendingAssets * free + entry.pendingAssets) * d :=
          Nat.mul_lt_mul_of_pos_right (by omega) hd
      _ = (free + 1) * d * entry.pendingAssets := by ring

theorem payable_le_pending (entry : QueueEntry) (free : Nat) :
    payable entry free ≤ entry.pendingShares := by
  rw [payable]
  split
  · exact le_rfl
  · refine Nat.div_le_of_le_mul ?_
    rw [Nat.mul_comm entry.pendingAssets]
    exact Nat.mul_le_mul_left _ (by omega)

/-- A request at par. -/
theorem payable_le_free {entry : QueueEntry} {free : Nat}
    (h : entry.pendingAssets = entry.pendingShares / virtualShares) :
    payable entry free / virtualShares ≤ free := by
  have hworth : mulDiv (payable entry free) 1 virtualShares .floor ≤ free :=
    payable_worth_le virtualShares_pos (by rw [h, mulDiv, Nat.mul_one])
  rwa [mulDiv, Nat.mul_one] at hworth

/-- The contract prices a fulfilment after its own accrual, which only lowers the price,
so one that is refused for want of free assets is worth more than is free before it. -/
theorem free_lt_of_insufficient {shares requested available : Nat} {c : Address}
    (h : v.fulfillRedeem msg s c shares = .error (.insufficientFreeAssets requested available)) :
    v.freeAssets s < v.convertToAssets s shares .floor := by
  have hframe := accrueFees_frame (v := v) msg.timestamp s
  simp only [fulfillRedeem, bind_eq_error, revertIf_eq_error, reduceCtorEq, and_false, false_or,
    or_false, State.burnShares, mapError_eq_error, exists_false, pure_eq_error] at h
  obtain ⟨_, -, _, -, _, -, _, -, _, -, hgt, -⟩ := h
  calc v.freeAssets s = v.freeAssets (v.accrueFees msg.timestamp s) := hframe.freeAssets_eq.symm
    _ < v.convertToAssets (v.accrueFees msg.timestamp s) shares .floor := hgt
    _ ≤ v.convertToAssets s shares .floor := hframe.convertToAssets_le shares

theorem pending_lt_of_exceeds {shares requested pending : Nat} {c : Address}
    (h : v.fulfillRedeem msg s c shares = .error (.exceedsPendingRequest requested pending)) :
    (s.redeem c).pendingShares < shares := by
  simp only [fulfillRedeem, bind_eq_error, revertIf_eq_error, reduceCtorEq, and_false, false_or,
    or_false, State.burnShares, mapError_eq_error, exists_false, pure_eq_error] at h
  obtain ⟨_, -, _, -, _, -, hgt, -⟩ := h
  rwa [accrueFees_redeem] at hgt

/-- At par what is asked for fits. -/
theorem fits_of_par (h : v.AtPar s) {rows : List RawQueueRow} {entry : QueueEntry}
    (hentry : entry ∈ loadQueue rows) : v.Fits msg s entry := by
  rintro result hsent requested available rfl
  simp only [settleOne] at hsent
  split at hsent
  next => exact absurd hsent (by simp)
  next =>
    have hlt := free_lt_of_insufficient (Option.some.inj hsent)
    rw [convertToAssets_par h] at hlt
    exact absurd (payable_le_free (loadQueue_assets hentry)) (Nat.not_le.mpr hlt)

/-- **The queue's price.** In a state, every row of every queue is valued as the contract
values it and every ripe request is either payable as sent or covered by an unwind, if
and only if the share price is par. -/
theorem queue_priced_and_served_iff_par :
    v.RowsPriced s ∧ v.QueueServed msg s ↔ v.AtPar s :=
  ⟨fun h => par_of_rowsPriced h.1, fun h => ⟨rowsPriced_of_par h,
    fun _ _ _ _ _ _ _ _ hentry => .inl (fits_of_par h (List.mem_of_mem_filter hentry))⟩⟩

/-- A tenth of the vault queued at par, and the other nine tenths up ten percent by the
time its delay is over. -/
def profitWhileQueued : List Tx :=
  [Test.tx Test.alice 0 (.deposit (1000 * Test.oneUsdc) Test.alice),
   Test.tx Test.alice 0 (.requestRedeem (100 * priceUnit) Test.alice Test.alice),
   Test.tx Test.agent 0 (.agentWithdraw (900 * Test.oneUsdc)),
   Test.tx Test.agent 300 (.reportNav (990 * Test.oneUsdc) 10000 (year + 300)),
   Test.tx Test.agent (3 * 86400)
     (.reportNav (990 * Test.oneUsdc) 10000 (year + 3 * 86400))]

theorem profitWhileQueued_isSome : (trace (Test.lemonVault Test.conservativeRisk).next
    (Test.world Test.noFeeLimits Test.conservativeRisk) profitWhileQueued).isSome := by rfl

/-- The request as the indexer serves it. -/
def queuedRow : RawQueueRow where
  controller := Test.alice
  pendingShares := 100 * priceUnit
  eligibleAt := year + 3 * 86400
  fulfillBy := year + 7 * 86400

/-- Whether a fulfilment was refused for want of free assets. -/
def insufficient : Option (Except VaultError (Nat × State)) → Bool
  | some (.error (.insufficientFreeAssets _ _)) => true
  | _ => false

theorem fits_insufficient {entry : QueueEntry} (h : v.Fits msg s entry) :
    insufficient (settleOne v msg s entry) = false := by
  cases hsent : settleOne v msg s entry with
  | none => rfl
  | some result =>
    have hfit := h result hsent
    cases result with
    | ok _ => rfl
    | error e =>
      cases e with
      | insufficientFreeAssets requested available => exact absurd rfl (hfit requested available)
      | _ => rfl

/-- The whole request is sent for a hundred USDC, which are there, and refused because the
shares have come to be worth more. No shortfall is seen, so nothing is unwound. -/
theorem profitable_request_never_paid :
    ¬ ∀ (v : LemonVault) (w : World) (msg : Msg), Reachable v w → w.now ≤ msg.timestamp →
      w.state.hasRole .agent msg.sender = true →
      v.RowsPriced w.state ∧ v.QueueServed msg w.state := by
  intro h
  have hserved := (h _ _ ⟨Test.agent, year + 3 * 86400⟩
    (Test.reachable_after profitWhileQueued_isSome) (by decide) (by rfl)).2
  rcases hserved (by decide) Settings.default [queuedRow] Test.flat ⟨false, 0⟩ _ rfl
    (toQueueEntry queuedRow 1000000) (by decide) with hfits | ⟨hshort, -⟩
  · exact absurd (fits_insufficient hfits) (by decide)
  · exact absurd hshort (by decide)

/-! ### A request valued at the price -/

/-- Fees accrued at some times, one after the other. -/
def accrueAll (v : LemonVault) (times : List Nat) (s : State) : State :=
  times.foldl (fun s now => v.accrueFees now s) s

theorem accrueAll_frame (times : List Nat) (s : State) : FeeFrame s (v.accrueAll times s) := by
  induction times generalizing s with
  | nil => exact .refl s
  | cons now rest ih => exact (accrueFees_frame now s).trans (ih (v.accrueFees now s))

theorem FeeFrame.redeem {s' : State} (h : FeeFrame s s') : s'.redeem = s.redeem := by rw [h.rest]

/-- **Partial fulfilment never over-asks.** An entry valued at the price of some state, with
nothing but accruals until the free assets are read and until the fulfilment is sent: what
is sent is part of the entry, and worth no more than is free. -/
theorem payable_never_overasks {entry : QueueEntry} (read sent : List Nat)
    (hvalued : entry.pendingAssets = v.convertToAssets s entry.pendingShares .floor) :
    ∀ free later, free = v.freeAssets (v.accrueAll read s) →
      later = v.accrueAll sent (v.accrueAll read s) →
      payable entry free ≤ entry.pendingShares ∧
      v.convertToAssets (v.accrueFees msg.timestamp later) (payable entry free) .floor ≤
        v.freeAssets (v.accrueFees msg.timestamp later) ∧
      (∀ requested available, v.fulfillRedeem msg later entry.controller (payable entry free) ≠
        .error (.insufficientFreeAssets requested available)) ∧
      (entry.pendingShares ≤ (s.redeem entry.controller).pendingShares →
        ∀ requested pending, v.fulfillRedeem msg later entry.controller (payable entry free) ≠
          .error (.exceedsPendingRequest requested pending)) := by
  intro free later hfree hlater
  -- accruals change neither the queue nor what is free, and only dilute a share
  have hread : FeeFrame s (v.accrueAll read s) := accrueAll_frame read s
  have hlate : FeeFrame s later := hlater ▸ hread.trans (accrueAll_frame sent _)
  have hlast : FeeFrame s (v.accrueFees msg.timestamp later) :=
    hlate.trans (accrueFees_frame msg.timestamp later)
  rw [hread.freeAssets_eq] at hfree
  have hworth : v.convertToAssets s (payable entry free) .floor ≤ v.freeAssets s :=
    hfree ▸ payable_worth_le (supply_pos s) hvalued
  refine ⟨payable_le_pending entry free, ?_, fun requested available h => ?_,
    fun hpending requested pending h => ?_⟩
  · rw [hlast.freeAssets_eq]
    exact (hlast.convertToAssets_le _).trans hworth
  · have hlt := free_lt_of_insufficient h
    rw [hlate.freeAssets_eq] at hlt
    have := hlate.convertToAssets_le (v := v) (payable entry free)
    omega
  · have hlt := pending_lt_of_exceeds h
    rw [hlate.redeem] at hlt
    have := payable_le_pending entry free
    omega

/-- The request of that run, valued at the price it has come to. -/
theorem payable_never_overasks_profit :
    ∃ free, free = (Test.lemonVault Test.conservativeRisk).freeAssets
        (Option.get _ profitWhileQueued_isSome).2.state ∧
      (Test.lemonVault Test.conservativeRisk).convertToAssets
          ((Test.lemonVault Test.conservativeRisk).accrueFees (year + 4 * 86400)
            (Option.get _ profitWhileQueued_isSome).2.state)
          (payable { toQueueEntry queuedRow 1000000 with
            pendingAssets := (Test.lemonVault Test.conservativeRisk).convertToAssets
              (Option.get _ profitWhileQueued_isSome).2.state (100 * priceUnit) .floor } free)
          .floor ≤
        (Test.lemonVault Test.conservativeRisk).freeAssets
          ((Test.lemonVault Test.conservativeRisk).accrueFees (year + 4 * 86400)
            (Option.get _ profitWhileQueued_isSome).2.state) :=
  ⟨_, rfl, (@payable_never_overasks _ _ ⟨Test.agent, year + 4 * 86400⟩ _ [] [] rfl _
    (Option.get _ profitWhileQueued_isSome).2.state rfl rfl).2.1⟩

end LemonVault

end LemonMarket
