import LemonMarket.Contracts.Solvency

/-!
# LemonMarket.Contracts.Reach

**How far the agent key reaches.** The contract promises that the agent never moves out
more than `maxDeployedBps` of the vault. `agentWithdraw` checks `deployedAssets` against a
share of `totalAssets`, and the same key restates `deployedAssets` by its reports: a loss
reported on what is out makes room under the ceiling, and withdrawing into that room takes
out more than the vault it started from allows.

A reported gain makes no such room. So the promise holds for the runs whose withdrawals
all find `totalAssets` at least what it was at the start.
-/

namespace LemonMarket

open Lib

namespace LemonVault

variable {v : LemonVault} {s s' : State} {msg : Msg} {w w' w₀ : World} {tx : Tx}
  {tr : List (Transition World Tx)}

/-- The calls the agent key is for, but for returning capital. -/
def agentKeyCall : Call → Bool
  | .agentWithdraw _ | .reportNav _ _ _ | .reportActivity _ | .reportActivityBatch _ => true
  | _ => false

/-- The USDC that left the vault along a history. -/
def sentOut (v : LemonVault) (tr : List (Transition World Tx)) : Nat :=
  (tr.map fun t => v.idleAssets t.pre.state - v.idleAssets t.post.state).sum

theorem sentOut_snoc (t : Transition World Tx) : v.sentOut (tr ++ [t]) =
    v.sentOut tr + (v.idleAssets t.pre.state - v.idleAssets t.post.state) := by
  simp [sentOut]

/-- A withdrawal finds no net loss reported since the vault was worth `start`. -/
def WithdrawsAbove (v : LemonVault) (start : Nat) (t : Transition World Tx) : Prop :=
  t.label.call.withdrawal.isSome → start ≤ v.totalAssets t.pre.state

instance (start : Nat) (t : Transition World Tx) : Decidable (v.WithdrawsAbove start t) :=
  inferInstanceAs (Decidable (_ → _))

/-! ### One call -/

/-- What no call of the agent's changes. -/
structure SameTerms (s s' : State) : Prop where
  limits : s'.limits = s.limits
  claimableAssets : s'.claimableAssets = s.claimableAssets

theorem reportNav_terms {d l o : Nat} (h : v.reportNav msg s d l o = .ok s') :
    SameTerms s s' ∧ s'.usdc = s.usdc := by
  obtain ⟨-, -, -, -, rolled, hrolled, -, restated, hrestated, hs'⟩ := reportNav_ok h
  have hroll : rolled.limits = s.limits ∧ rolled.claimableAssets = s.claimableAssets ∧
      rolled.usdc = s.usdc := by
    rw [hrolled, rollNavEpoch]
    split <;> exact ⟨rfl, rfl, rfl⟩
  have hfirst := accrueFees_frame (v := v) msg.timestamp rolled
  have hlast := accrueFees_frame (v := v) msg.timestamp restated
  rw [hs', State.emit, hlast.rest, hrestated, restateNav, hfirst.rest]
  exact ⟨⟨hroll.1, hroll.2.1⟩, hroll.2.2⟩

/-- Only a withdrawal takes USDC from the vault, and not more than its amount. -/
theorem agentKeyCall_effect {call : Call} (hcall : agentKeyCall call)
    (h : v.exec msg s call = .ok s') : SameTerms s s' ∧ v.idleAssets s' ≤ v.idleAssets s ∧
      v.idleAssets s ≤ v.idleAssets s' + call.withdrawal.getD 0 := by
  cases call with
  | agentWithdraw n =>
      obtain ⟨-, -, -, -, -, -, -, -, t, ht, rfl⟩ := agentWithdraw_ok h
      obtain ⟨hn, -, hbal⟩ := pushed ht
      refine ⟨⟨rfl, rfl⟩, ?_⟩
      simp only [idleAssets, hbal, Call.withdrawal, Option.getD_some]
      split <;> omega
  -- a report moves no USDC, and neither does a record of activity
  | reportNav d l o =>
      obtain ⟨hsame, husdc⟩ := reportNav_terms h
      refine ⟨hsame, ?_⟩
      simp [idleAssets, husdc]
  | reportActivity r =>
      obtain ⟨-, rfl⟩ := reportActivity_ok h
      exact ⟨⟨rfl, rfl⟩, Nat.le_refl _, Nat.le_add_right _ _⟩
  | reportActivityBatch rs =>
      obtain ⟨-, rfl⟩ := reportActivityBatch_ok h
      rw [foldl_recordActivity_rest]
      exact ⟨⟨rfl, rfl⟩, Nat.le_refl _, Nat.le_add_right _ _⟩
  | _ => cases hcall

/-- A ceiling on a part of the vault grows by no more than the vault does. -/
theorem mulDiv_bps_add_le {x y k : Nat} (hk : k ≤ bps) :
    mulDiv (x + y) k bps .floor ≤ mulDiv x k bps .floor + y := by
  have hy : y * k ≤ y * bps := Nat.mul_le_mul_left _ hk
  calc mulDiv (x + y) k bps .floor = (x * k + y * k) / bps := by rw [mulDiv, Nat.add_mul]
    _ ≤ (x * k + y * bps) / bps := Nat.div_le_div_right (Nat.add_le_add_left hy _)
    _ = mulDiv x k bps .floor + y := Nat.add_mul_div_right _ _ (by decide)

/-! ### Runs -/

/-- What has left, and that it is within the ceiling the vault started with. -/
structure WithinReach (v : LemonVault) (w₀ : World) (tr : List (Transition World Tx))
    (w : World) : Prop where
  same : SameTerms w₀.state w.state
  left : v.idleAssets w₀.state = v.idleAssets w.state + v.sentOut tr
  capped : v.sentOut tr ≤ v.deployedCeiling w₀.state

theorem WithinReach.start : WithinReach v w₀ [] w₀ :=
  ⟨⟨rfl, rfl⟩, rfl, Nat.zero_le _⟩

/-- A withdrawal at no less than the starting worth stays under the starting ceiling: what
is deployed is what left and the gain reported on it, and the ceiling grew by no more. -/
theorem WithinReach.withdrawal {n : Nat} (h : WithinReach v w₀ tr w)
    (hbacked : w₀.state.claimableAssets ≤ v.idleAssets w₀.state)
    (hzero : w₀.state.deployedAssets = 0)
    (hworth : v.totalAssets w₀.state ≤ v.totalAssets w.state)
    (he : v.agentWithdraw msg w.state n = .ok s') :
    v.sentOut tr + n ≤ v.deployedCeiling w₀.state := by
  obtain ⟨hterms, hleft, -⟩ := h
  obtain ⟨-, -, hn, -, -, hfree, hceil, -⟩ := agentWithdraw_ok he
  rw [freeAssets_eq, hterms.claimableAssets] at hfree
  have hstart : v.totalAssets w₀.state = v.idleAssets w₀.state - w₀.state.claimableAssets := by
    rw [totalAssets_eq, hzero, Nat.add_zero]
  have hnow : v.totalAssets w.state =
      v.idleAssets w.state + w.state.deployedAssets - w₀.state.claimableAssets := by
    rw [totalAssets_eq, hterms.claimableAssets]
  obtain ⟨gain, hgain⟩ := Nat.exists_eq_add_of_le hworth
  have hdeployed : w.state.deployedAssets = v.sentOut tr + gain := by omega
  have hroom : w.state.deployedAssets + n ≤ v.deployedCeiling w₀.state + gain := by
    refine hceil.trans ?_
    rw [deployedCeiling, deployedCeiling, hgain, hterms.limits]
    exact mulDiv_bps_add_le (w₀.state.limits.property.deployed.trans (by decide))
  omega

/-- **One call keeps the agent within reach.** -/
theorem WithinReach.step (h : WithinReach v w₀ tr w)
    (hbacked : w₀.state.claimableAssets ≤ v.idleAssets w₀.state)
    (hcall : agentKeyCall tx.call)
    (habove : v.WithdrawsAbove (v.totalAssets w₀.state) ⟨w, tx, w'⟩)
    (hzero : w₀.state.deployedAssets = 0) (hs : v.next w tx = some w') :
    WithinReach v w₀ (tr ++ [⟨w, tx, w'⟩]) w' := by
  obtain ⟨-, -, -, he⟩ := next_eq_some hs
  obtain ⟨hsame, hdown, hby⟩ := agentKeyCall_effect hcall he
  refine ⟨⟨hsame.limits.trans h.same.limits,
    hsame.claimableAssets.trans h.same.claimableAssets⟩, ?_, ?_⟩
  -- what the vault no longer has was sent out
  · rw [sentOut_snoc, h.left]
    simp only
    omega
  · rw [sentOut_snoc]
    simp only
    -- a withdrawal is capped by what is there; other calls of the agent send nothing out
    cases hamount : tx.call.withdrawal with
    | none =>
        have hcapped := h.capped
        rw [hamount, Option.getD_none] at hby
        omega
    | some n =>
        rw [hamount, Option.getD_some] at hby
        have hcallEq : tx.call = .agentWithdraw n := by
          cases hc : tx.call <;> rw [hc] at hamount <;> cases hamount
          rfl
        rw [hcallEq] at he
        have hroom := h.withdrawal hbacked hzero (habove (by simp [hamount])) he
        omega

/-- **The agent key's reach.** A run of the agent's calls from a state with nothing
deployed, none of whose withdrawals comes after a net loss was reported, takes out of the
vault at most `maxDeployedBps` of what it was worth at the start. -/
theorem reach_bounded_without_reported_loss (hw₀ : Reachable v w₀)
    (hzero : w₀.state.deployedAssets = 0) (hrun : Run v.next w₀ tr w)
    (hcalls : ∀ t ∈ tr, agentKeyCall t.label.call)
    (habove : ∀ t ∈ tr, v.WithdrawsAbove (v.totalAssets w₀.state) t) :
    v.sentOut tr ≤
      mulDiv (v.totalAssets w₀.state) w₀.state.limits.val.maxDeployedBps bps .floor := by
  have hbacked : w₀.state.claimableAssets ≤ v.idleAssets w₀.state :=
    (Books.reachable hw₀).solvent.held
  refine (hrun.history (I := WithinReach v w₀)
    (P := fun t => agentKeyCall t.label.call ∧ v.WithdrawsAbove (v.totalAssets w₀.state) t)
    (fun t ht => ⟨hcalls t ht, habove t ht⟩) .start ?_).capped
  intro tr w tx w' hmeets ih hs
  exact ih.step hbacked hmeets.1 hmeets.2 hzero hs

/-- A thousand USDC in the vault, and nothing else. -/
def deposited : World :=
  Test.after Test.noFeeLimits Test.conservativeRisk
    [Test.tx Test.alice 0 (.deposit (1000 * 10 ^ 6) Test.alice)] (by rfl)

/-- The whole ceiling out, a tenth of it reported lost, and out again up to the ceiling. -/
def lossThenMore : List Tx :=
  [Test.tx Test.agent 0 (.agentWithdraw (900 * 10 ^ 6)),
   Test.tx Test.agent 300 (.reportNav (810 * 10 ^ 6) 10000 0),
   Test.tx Test.agent 300 (.agentWithdraw (9 * 10 ^ 6))]

theorem lossThenMore_isSome :
    (trace (Test.lemonVault Test.conservativeRisk).next deposited lossThenMore).isSome := by rfl

/-- Nine hundred and nine leave a vault of a thousand at a ceiling of nine tenths. -/
theorem reach_exceeded_after_reported_loss :
    ¬ ∀ (v : LemonVault) (w₀ w : World) (tr : List (Transition World Tx)), Reachable v w₀ →
      w₀.state.deployedAssets = 0 → Run v.next w₀ tr w →
      (∀ t ∈ tr, agentKeyCall t.label.call) →
      v.sentOut tr ≤
        mulDiv (v.totalAssets w₀.state) w₀.state.limits.val.maxDeployedBps bps .floor := by
  intro h
  have hrun := trace_run (Option.some_get lossThenMore_isSome).symm
  exact absurd (h _ _ _ _ (Test.reachable_after _) (by rfl) hrun (by decide)) (by decide)

/-- The same with the gain a tenth up instead. -/
def gainThenMore : List Tx :=
  [Test.tx Test.agent 0 (.agentWithdraw (500 * 10 ^ 6)),
   Test.tx Test.agent 300 (.reportNav (550 * 10 ^ 6) 10000 0),
   Test.tx Test.agent 300 (.agentWithdraw (395 * 10 ^ 6))]

theorem gainThenMore_isSome :
    (trace (Test.lemonVault Test.conservativeRisk).next deposited gainThenMore).isSome := by rfl

theorem reach_bounded_without_reported_loss_gain :
    (Test.lemonVault Test.conservativeRisk).sentOut (Option.get _ gainThenMore_isSome).1 ≤
      900 * 10 ^ 6 := by
  have hreach : Reachable (Test.lemonVault Test.conservativeRisk) deposited :=
    Test.reachable_after _
  exact reach_bounded_without_reported_loss hreach (by rfl)
    (trace_run (Option.some_get gainThenMore_isSome).symm) (by decide) (by decide)

end LemonVault

end LemonMarket
