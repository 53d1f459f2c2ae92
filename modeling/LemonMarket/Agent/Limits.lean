import LemonMarket.Agent.Offers
import LemonMarket.Agent.Worker
import LemonMarket.Contracts.Deployment

/-!
# LemonMarket.Agent.Limits

**Whether the contract takes what the policy offers.** The agent recomputes the
contract's limits before it draws on the vault (`deployableAmount`), from a reading
of the same state. Two of the limits agree: free assets and the deployed ceiling.
The rest the recomputation does not see. `withdrawWindowRemaining` is the ceiling
once more and not the window, a pause or an exit only takes the markets off the list
that a deployment needs and a top-up does not, and a stale valuation is not looked at.

So the offers are accepted in a state exactly when there is nothing to deploy in it
or the four checks the agent leaves out all pass for the whole amount.
-/

namespace LemonMarket

open Lib Agent

namespace LemonVault

/-- The capital both sides agree can be deployed: free, and under the ceiling. -/
def deployable (v : LemonVault) (s : State) : Nat :=
  min (v.freeAssets s) (v.deployedCeiling s - s.deployedAssets)

/-- Every vault-funded deployment or top-up the agent may choose, whatever its settings,
its queue, its venues and its orders, is one `agentWithdraw` accepts in the state and at
the time it was read. -/
def OffersAccepted (v : LemonVault) (s : State) (msg : Msg) : Prop :=
  ∀ (cfg : Settings) (queue : List QueueEntry) (observation : Observation) (orders : Orders),
    ∀ d ∈ permittedActions cfg
        (snapshot (VaultState.read v s msg.timestamp) queue observation orders msg.timestamp)
        msg.timestamp,
      d.kind = .deploy ∨ d.kind = .topUpMargin → d.fundedFrom = some .vault →
        ∃ s', v.agentWithdraw msg s d.amount = .ok s'

/-- The contract's checks that no reading of the agent repeats. -/
def Admits (v : LemonVault) (s : State) (now : Nat) : Prop :=
  s.paused = false ∧ s.emergencyExit = false ∧ navIsStale s now = false ∧
    v.deployable s ≤ windowRemaining s now

variable {v : LemonVault} {s : State} {msg : Msg}

/-! ### The contract's side -/

theorem freeAssets_le_balance : v.freeAssets s ≤ s.usdc.balanceOf v.self := by
  rw [freeAssets_eq]
  exact Nat.sub_le _ _

/-- A withdrawal that passes every check goes through: the transfer cannot fail. -/
theorem agentWithdraw_of_admitted {n : Nat} (hrole : s.hasRole .agent msg.sender = true)
    (hn : 0 < n) (hle : n ≤ v.deployable s) (h : v.Admits s msg.timestamp) :
    ∃ s', v.agentWithdraw msg s n = .ok s' := by
  obtain ⟨hpaused, hexit, hstale, hwindow⟩ := h
  have hfree : n ≤ v.freeAssets s := hle.trans (min_le_left _ _)
  have hroom : n ≤ v.deployedCeiling s - s.deployedAssets := hle.trans (min_le_right _ _)
  have hrole' : onlyRole s .agent msg = .ok () := revertIf_of_not (by simp [hrole])
  have hpaused' : whenNotPaused s = .ok () := revertIf_of_not (by simp [hpaused])
  obtain ⟨t, ht⟩ : ∃ t, s.usdc.transferBetween v.self v.agentWallet n = .ok t :=
    ⟨_, Erc20.transferBetween_of_le v.self.property v.agentWallet.property
      (hfree.trans freeAssets_le_balance)⟩
  rw [agentWithdraw, bind_of_ok hrole', bind_of_ok hpaused',
    bind_of_ok (revertIf_of_not (Nat.ne_of_gt hn)),
    bind_of_ok (revertIf_of_not (by simp [hexit])),
    bind_of_ok (revertIf_of_not (by simp [hstale])),
    bind_of_ok (revertIf_of_not (Nat.not_lt.mpr hfree)),
    bind_of_ok (revertIf_of_not (by omega)),
    bind_of_ok (revertIf_of_not (Nat.not_lt.mpr (hle.trans hwindow)))]
  exact ⟨_, bind_of_ok (pushAssets_of_ok ht)⟩

/-! ### The agent's side -/

section snapshot

variable {queue : List QueueEntry} {observation : Observation} {orders : Orders} {now : Nat}

/-- The agent never deploys more than the two limits it does repeat. -/
theorem deployableAmount_le :
    deployableAmount (snapshot (VaultState.read v s now) queue observation orders now) ≤
      v.deployable s := by
  rw [deployableAmount_eq]
  refine le_min ?_ ?_
  · exact (min_le_left _ _).trans ((min_le_right _ _).trans (Nat.sub_le _ _))
  · exact (min_le_right _ _).trans (withdrawWindowRemaining_eq _).le

/-- With nobody queued it deploys all of it. -/
theorem deployableAmount_of_no_queue :
    deployableAmount (snapshot (VaultState.read v s now) [] observation orders now) =
      v.deployable s := by
  rw [deployableAmount_eq]
  simp only [snapshot, withdrawWindowRemaining_eq, VaultState.read, ripe, List.filter_nil,
    List.map_nil, List.sum_nil, Nat.add_zero, Nat.sub_zero, deployable, deployedCeiling, mulDiv]
  omega

end snapshot

/-! ### The two together -/

/-- An account with one unit of notional, and equity so far gone that restoring its
margin takes exactly `short`. -/
def underwater (cfg : Settings) (risk : RiskProfile) (markets : List MarketSnapshot)
    (hne : markets ≠ []) (short : Nat) : Observation where
  markets := markets
  markets_ne := hne
  perpNotionalUsdc := 1
  perpEquityUsdc := (bps / sizingLeverageBps cfg risk : Nat) - short
  idleOnBase := 0
  unallocatedMargin := 0
  venueWithdrawalFeeUsdc := 0

/-- A default sizing leverage is well above a half, so one unit takes at most one of
margin. -/
theorem margin_of_one_le (risk : ValidRiskProfile) :
    bps / sizingLeverageBps Settings.default risk.val ≤ 1 := by
  have hsized : 5000 < sizingLeverageBps Settings.default risk.val := by
    obtain ⟨htarget, -, htier⟩ := risk.property
    have hone : 10000 ≤ risk.val.targetLeverageBps := by
      split at htier
      next => exact htier.1.ge
      next => exact Nat.le_of_lt htier
    have hb : Settings.default.marginBufferBps = 300 := rfl
    simp only [sizingLeverageBps, hb, bps]
    omega
  refine Nat.le_of_lt_succ (Nat.div_lt_of_lt_mul ?_)
  simp only [bps]
  omega

/-- It is answered with a top-up of that much from the vault, on its own. -/
theorem permittedActions_of_underwater {markets : List MarketSnapshot} (hne : markets ≠ [])
    (orders : Orders) (now : Nat) (hclose : orders.closeRequested = false)
    (hpos : 0 < v.deployable s) :
    permittedActions Settings.default (snapshot (VaultState.read v s now) []
        (underwater Settings.default v.risk.val markets hne (v.deployable s)) orders now) now =
      [{ kind := .topUpMargin, amount := v.deployable s, forced := true,
         fundedFrom := some .vault }] := by
  generalize hS : snapshot (VaultState.read v s now) []
    (underwater Settings.default v.risk.val markets hne (v.deployable s)) orders now = S
  -- nothing is queued, so all that is deployable is there for the margin
  have hdeployable : deployableAmount S = v.deployable s :=
    hS ▸ deployableAmount_of_no_queue
  have howed : redemptionUnwind S now = none := by
    rw [redemptionUnwind_eq, if_neg]
    rintro hshort
    exact absurd (owedUnwind_pos.mp hshort).1 (hS ▸ Nat.not_lt_zero _)
  have hrequired := margin_of_one_le v.risk
  have hequity : S.perpEquityUsdc ≤ 0 := by
    subst hS
    simp only [snapshot, underwater]
    omega
  have hnotional : S.perpNotionalUsdc = 1 := hS ▸ rfl
  have hshort : (requiredMargin Settings.default S : Int) - S.perpEquityUsdc =
      v.deployable s := by
    subst hS
    simp only [requiredMargin, snapshot, underwater, VaultState.read]
    simp
  -- with no equity left the leverage is over any maximum
  have hbreach : S.risk.val.maxLeverageBps < leverageBps S.perpNotionalUsdc S.perpEquityUsdc := by
    have hmax := S.risk.property.2.1
    simp only [leverageBps, hnotional, hequity, if_true, if_neg Nat.one_ne_zero]
    exact hmax.trans_lt (by decide)
  have htopUp := marginTopUp_of_vault hpos hshort (hS ▸ hpos) hdeployable.ge
  rw [permittedActions_of_forced (hS ▸ hclose) howed
    (mandateCorrection_of_breach (by omega) hbreach htopUp) rfl (by simp), hdeployable]
  congr 2
  split <;> omega

/-- **Offers and acceptances.** In a state, with an agent that holds its role, every
vault-funded action the policy may offer is one the contract accepts if and only if
nothing is deployable, or the vault is running, not exiting, not stale, and has the whole
deployable amount left in its window. -/
theorem offers_accepted_iff_admits (hrole : s.hasRole .agent msg.sender = true) :
    v.OffersAccepted s msg ↔ v.deployable s = 0 ∨ v.Admits s msg.timestamp := by
  constructor
  · intro h
    refine (Nat.eq_zero_or_pos _).imp_right fun hpos => ?_
    have htopUp := permittedActions_of_underwater Test.flat.markets_ne ⟨false, 0⟩ msg.timestamp
      rfl hpos
    obtain ⟨s', hs'⟩ := h Settings.default [] _ ⟨false, 0⟩ _
      (htopUp ▸ List.mem_singleton_self _) (.inr rfl) rfl
    obtain ⟨-, hpaused, -, hexit, hstale, -, -, hwindow, -⟩ := agentWithdraw_ok hs'
    exact ⟨hpaused, hexit, hstale, hwindow⟩
  · intro h cfg queue observation orders d hd _ hv
    obtain ⟨hpos, hle⟩ := vaultFunded_le_deployable hd hv
    have hle := hle.trans deployableAmount_le
    have hadmits : v.Admits s msg.timestamp := h.resolve_left (by omega)
    exact agentWithdraw_of_admitted hrole hpos hle hadmits

/-- A thousand USDC deposited in a vault that lets a hundred an hour out. -/
def firstDeposit : List Tx := [Test.tx Test.alice 0 (.deposit (1000 * Test.oneUsdc) Test.alice)]

theorem firstDeposit_isSome : (trace (Test.lemonVault Test.conservativeRisk).next
    (Test.world Test.hourlyCap Test.conservativeRisk) firstDeposit).isSome := by rfl

/-- The agent decides to deploy nine hundred of it, and the contract refuses. -/
theorem first_deployment_past_window_cap :
    ¬ ∀ (v : LemonVault) (w : World) (msg : Msg), Reachable v w → w.now ≤ msg.timestamp →
      w.state.hasRole .agent msg.sender = true → v.OffersAccepted w.state msg := by
  intro h
  have haccepted := h _ _ ⟨Test.agent, year + 1⟩ (Test.reachable_after firstDeposit_isSome)
    (by decide) (by rfl)
  obtain ⟨s', hs'⟩ := haccepted Settings.default [] Test.flat ⟨false, 0⟩
    { kind := .deploy, amount := 900000000, market := some "NVDA", fundedFrom := some .vault,
      legs := some ⟨443147208, 456852792⟩ } (by decide +kernel) (.inl rfl) rfl
  obtain ⟨-, -, -, -, -, -, -, hwindow, -⟩ := agentWithdraw_ok hs'
  exact absurd hwindow (by decide)

/-- With the suite's ordinary cap the same deposit can be deployed. -/
theorem offers_accepted_iff_admits_default :
    (Test.lemonVault Test.conservativeRisk).OffersAccepted
      (Test.after Test.defaultLimits Test.conservativeRisk firstDeposit (by rfl)).state
      ⟨Test.agent, year + 1⟩ :=
  (offers_accepted_iff_admits (by rfl)).mpr (.inr ⟨by rfl, by rfl, by decide, by decide⟩)

end LemonVault

end LemonMarket
