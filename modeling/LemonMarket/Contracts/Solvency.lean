import LemonMarket.Contracts.Refinement
import LemonMarket.Contracts.Deployment

/-!
# LemonMarket.Contracts.Solvency

**Fulfilled exits are funded and final.** `Books` is the invariant of every
reachable state: the pool is solvent (the promises to controllers add up to
`claimableAssets`, and that much USDC is in the vault), and no USDC allowance
leads out of the vault. It is kept because every call refines allowed pool moves
(`exec_refines`) and every allowed move keeps a pool solvent.

From it: a controller's claim is touched by nobody else's call, and claiming all
of it always pays exactly what was set aside, under any flag and at any time.
-/

namespace LemonMarket

open Lib

namespace LemonVault

variable {v : LemonVault} {s s' : State} {msg : Msg} {w w' : World}

/-- The bookkeeping every reachable state has. -/
structure Books (v : LemonVault) (s : State) : Prop where
  solvent : (v.pool s).Solvent
  unapproved : ∀ a, s.usdc.allowance v.self a = 0

/-! ### One step -/

/-- Taking a successful transaction apart. -/
theorem next_eq_some {tx : Tx} (h : v.next w tx = some w') :
    w.now ≤ tx.msg.timestamp ∧ tx.msg.sender ≠ v.self ∧ w'.now = tx.msg.timestamp ∧
      v.exec tx.msg w.state tx.call = .ok w'.state := by
  simp only [next] at h
  split at h
  next hguard =>
    simp only [Option.map_eq_some_iff, toOption_eq_some] at h
    obtain ⟨s, hs, rfl⟩ := h
    exact ⟨hguard.1, hguard.2, rfl, hs⟩
  next => cases h

/-- The accrual at the head of a call keeps the pool solvent. -/
theorem Books.lead_solvent (h : Books v s) (call : Call) :
    (v.pool (v.lead msg s call)).Solvent := by
  rcases lead_pool v s msg call with hp | ⟨n, hp⟩
  · rw [hp]; exact h.solvent
  · rw [hp]; exact h.solvent.apply (V := virtualShares) trivial

theorem Books.exec {call : Call} (h : Books v s) (hsender : msg.sender ≠ v.self)
    (he : v.exec msg s call = .ok s') : Books v s' := by
  obtain ⟨⟨ms, hsteps, -⟩, hnone⟩ := exec_refines hsender h.unapproved he
  exact ⟨(h.lead_solvent call).steps hsteps, hnone⟩

theorem Books.genesis (h : Genesis v w) : Books v w.state := by
  obtain ⟨p, -, -, hfresh⟩ := h.fresh
  refine ⟨⟨?_, ?_⟩, h.unapproved⟩
  · simp [pool, hfresh.redeem, hfresh.claimableAssets]
  · simp [pool, hfresh.claimableAssets]

/-- **The bookkeeping holds along every run.** -/
theorem Books.run {tr : List (Transition World Tx)} {w₀ : World} (hw₀ : Books v w₀.state)
    (h : Run v.next w₀ tr w) : Books v w.state := by
  refine (h.invariant (I := fun w => Books v w.state) hw₀ ?_).1
  intro w tx w' hb hn
  obtain ⟨-, hsender, -, he⟩ := next_eq_some hn
  exact hb.exec hsender he

theorem Books.reachable (h : Reachable v w) : Books v w.state := by
  obtain ⟨w₀, tr, hgen, hrun⟩ := h
  exact (Books.genesis hgen).run hrun

/-! ### The frame of a claim -/

/-- An accrual touches no claim. -/
theorem lead_redeem (call : Call) : (v.lead msg s call).redeem = s.redeem := by
  have haccrue : ∀ s : State, (v.accrueFees msg.timestamp s).redeem = s.redeem := fun s => by
    rw [(accrueFees_frame msg.timestamp s).rest]
  cases call with
  | reportNav d l o =>
      simp only [lead, haccrue, rollNavEpoch]
      split <;> rfl
  | deposit | mint | requestRedeem | fulfillRedeem | donate | accrueFees | setLimits
  | setInsuranceFund => exact haccrue s
  | _ => rfl

/-- Nobody's claim changes but the one the call names. -/
theorem claim_frame {call : Call} {c : Address} (h : Books v s)
    (hsender : msg.sender ≠ v.self) (he : v.exec msg s call = .ok s')
    (hc : call.claimant ≠ some c) :
    (s'.redeem c).claimableShares = (s.redeem c).claimableShares ∧
      (s'.redeem c).claimableAssets = (s.redeem c).claimableAssets := by
  obtain ⟨⟨ms, hsteps, hperm⟩, -⟩ := exec_refines hsender h.unapproved he
  have hclaims := Pool.claims_steps (c := c) hsteps fun m hm hcl => hc ((hperm m hm).claimant hcl)
  simpa [pool, lead_redeem] using hclaims

/-! ### Claiming everything -/

/-- `receiver` was paid all that was set aside for `c`, and nothing is left of it. -/
structure PaidInFull (v : LemonVault) (c receiver : Address) (s s' : State) : Prop where
  received : receiver ≠ v.self →
    s'.usdc.balanceOf receiver = s.usdc.balanceOf receiver + (s.redeem c).claimableAssets
  paid : receiver ≠ v.self →
    s'.usdc.balanceOf v.self + (s.redeem c).claimableAssets = s.usdc.balanceOf v.self
  closed : (s'.redeem c).claimableShares = 0 ∧ (s'.redeem c).claimableAssets = 0

/-- What is set aside for one controller is in the vault. -/
theorem Books.claim_held (h : Books v s) (c : Address) :
    (s.redeem c).claimableAssets ≤ s.usdc.balanceOf v.self :=
  (h.solvent.claim_le c).trans h.solvent.held

theorem claim_all_ok (msg : Msg) (c : Address) {receiver : Address} (h : Books v s)
    (hr : receiver ≠ 0) :
    ∃ s', v.claim msg s c receiver (s.redeem c).claimableShares (s.redeem c).claimableAssets
      = .ok s' ∧ PaidInFull v c receiver s s' := by
  have hheld := h.claim_held c
  obtain ⟨s', hclaim⟩ : ∃ s', v.claim msg s c receiver (s.redeem c).claimableShares
      (s.redeem c).claimableAssets = .ok s' :=
    claim_of_ok hr (Erc20.transferBetween_of_le v.self.property hr hheld)
  refine ⟨s', hclaim, ?_⟩
  obtain ⟨-, t, ht, rfl⟩ := claim_ok hclaim
  obtain ⟨hn, rfl⟩ := Erc20.transferBetween_ok ht
  refine ⟨?_, ?_, by simp⟩
  · intro hne
    exact Ledger.move_to hn hne.symm
  · intro hne
    rw [Erc20.balanceOf, Ledger.move_from hn hne.symm]
    exact Nat.sub_add_cancel hn

theorem redeem_all_ok {c receiver : Address} (h : Books v s) (hr : receiver ≠ 0)
    (hcan : msg.sender = c ∨ s.isOperator c msg.sender)
    (hn : 0 < (s.redeem c).claimableShares) :
    ∃ s', v.redeem msg s (maxRedeem s c) receiver c = .ok ((s.redeem c).claimableAssets, s') ∧
      PaidInFull v c receiver s s' := by
  obtain ⟨s', hclaim, hpaid⟩ := claim_all_ok msg c h hr
  have hall : mulDiv (s.redeem c).claimableShares (s.redeem c).claimableAssets
      (s.redeem c).claimableShares .floor = (s.redeem c).claimableAssets := mulDiv_floor_self hn
  refine ⟨s', ?_, hpaid⟩
  have hredeem := redeem_of_ok hcan hn (Nat.le_refl _) (hall.symm ▸ hclaim)
  rwa [hall] at hredeem

/-- Assets left with no shares against them are claimed by `withdraw`. -/
theorem withdraw_all_ok {c receiver : Address} (h : Books v s) (hr : receiver ≠ 0)
    (hcan : msg.sender = c ∨ s.isOperator c msg.sender)
    (hn : (s.redeem c).claimableShares = 0) (ha : 0 < (s.redeem c).claimableAssets) :
    ∃ s', v.withdraw msg s (maxWithdraw s c) receiver c = .ok (0, s') ∧
      PaidInFull v c receiver s s' := by
  obtain ⟨s', hclaim, hpaid⟩ := claim_all_ok msg c h hr
  exact ⟨s', withdraw_of_ok hcan ha (Nat.le_refl _) (by simp [hn]) (hn ▸ hclaim), hpaid⟩

/-- **Solvency and finality.** In every reachable state what controllers are owed
adds up to `claimableAssets` and is in the vault; only a call about a controller
changes that controller's claim; and claiming all of it succeeds at any time, under
any flag, and pays exactly what was set aside. -/
theorem fulfilled_exits_funded_and_final (hw : Reachable v w) :
    (w.state.claimableAssets = ∑ c, (w.state.redeem c).claimableAssets ∧
      w.state.claimableAssets ≤ w.state.usdc.balanceOf v.self) ∧
    (∀ tx w', v.next w tx = some w' → ∀ c, tx.call.claimant ≠ some c →
      (w'.state.redeem c).claimableShares = (w.state.redeem c).claimableShares ∧
      (w'.state.redeem c).claimableAssets = (w.state.redeem c).claimableAssets) ∧
    (∀ c receiver msg, receiver ≠ 0 → (msg.sender = c ∨ w.state.isOperator c msg.sender) →
      (0 < (w.state.redeem c).claimableShares →
        ∃ s', v.redeem msg w.state (maxRedeem w.state c) receiver c =
          .ok ((w.state.redeem c).claimableAssets, s') ∧ PaidInFull v c receiver w.state s') ∧
      ((w.state.redeem c).claimableShares = 0 → 0 < (w.state.redeem c).claimableAssets →
        ∃ s', v.withdraw msg w.state (maxWithdraw w.state c) receiver c = .ok (0, s') ∧
          PaidInFull v c receiver w.state s')) := by
  have hb := Books.reachable hw
  refine ⟨⟨hb.solvent.reconciled.symm, hb.solvent.held⟩, ?_, ?_⟩
  · intro tx w' hn c hc
    obtain ⟨-, hsender, -, he⟩ := next_eq_some hn
    exact claim_frame hb hsender he hc
  · intro c receiver msg hr hcan
    exact ⟨redeem_all_ok hb hr hcan, withdraw_all_ok hb hr hcan⟩

/-- A thousand USDC deposited, all of it queued, and half of it fulfilled three days
later. -/
def halfFulfilled : World :=
  Test.after Test.noFeeLimits Test.conservativeRisk
    [Test.tx Test.alice 0 (.deposit (1000 * 10 ^ 6) Test.alice),
     Test.tx Test.alice 0 (.requestRedeem (10 ^ 21) Test.alice Test.alice),
     Test.tx Test.agent 259200 (.reportNav 0 10000 0),
     Test.tx Test.agent 259200 (.fulfillRedeem Test.alice (5 * 10 ^ 20))] (by rfl)

theorem fulfilled_exits_funded_and_final_half :
    halfFulfilled.state.claimableAssets = 500 * 10 ^ 6 ∧
      500 * 10 ^ 6 ≤ halfFulfilled.state.usdc.balanceOf Test.vault ∧
      ∃ s', (Test.lemonVault Test.conservativeRisk).redeem ⟨Test.alice, 0⟩ halfFulfilled.state
        (5 * 10 ^ 20) Test.bob Test.alice = .ok (500 * 10 ^ 6, s') := by
  obtain ⟨⟨-, hheld⟩, -, hclaims⟩ := fulfilled_exits_funded_and_final
    (v := Test.lemonVault Test.conservativeRisk) (w := halfFulfilled) (Test.reachable_after _)
  refine ⟨by rfl, hheld, ?_⟩
  obtain ⟨s', hs', -⟩ :=
    (hclaims Test.alice Test.bob ⟨Test.alice, 0⟩ Test.bob.property (.inl rfl)).1 (by decide)
  exact ⟨s', hs'⟩

end LemonVault

end LemonMarket
