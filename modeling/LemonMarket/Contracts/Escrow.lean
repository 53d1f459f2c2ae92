import LemonMarket.Contracts.Custody

/-!
# LemonMarket.Contracts.Escrow

**The queue matches the shares behind it.** `Escrowed` is the invariant of every
reachable state: the pending shares of all controllers add up to
`totalPendingRedeemShares`, the vault holds at least that many of its own shares, and
nobody can move those (no share allowance leads out of the vault, and it has no
operator). Shares sent or minted to the vault only add to what it holds.

So a fulfilment of what is pending always finds the shares to burn, and
`fulfillRedeem` succeeds exactly when its own checks pass.
-/

namespace LemonMarket

open Lib

namespace Custody

variable {vault : Address} {msg : Msg} {call : Call} {k k' : Custody}

/-- The queue adds up, and is covered by shares nobody but the vault can move. -/
structure Escrowed (vault : Address) (k : Custody) : Prop where
  reconciled : ∑ c, (k.redeem c).pendingShares = k.totalPendingRedeemShares
  held : k.totalPendingRedeemShares ≤ k.shares.balanceOf vault
  unapproved : ∀ a, k.shares.allowance vault a = 0
  unappointed : ∀ a, k.isOperator vault a = false

theorem Escrowed.grow (h : Escrowed vault k) (hg : k.Grows k') : Escrowed vault k' where
  reconciled := by rw [hg.rest]; exact h.reconciled
  held := by
    have hsame : k'.totalPendingRedeemShares = k.totalPendingRedeemShares := by rw [hg.rest]
    exact hsame ▸ h.held.trans (hg.balance vault)
  unapproved := by rw [hg.allowance]; exact h.unapproved
  unappointed := by rw [hg.rest]; exact h.unappointed

/-- One controller's pending shares, of all of them. -/
theorem Escrowed.pending_le (h : Escrowed vault k) (c : Address) :
    (k.redeem c).pendingShares ≤ k.totalPendingRedeemShares :=
  h.reconciled ▸ le_sum (fun c => (k.redeem c).pendingShares) c

/-- The pending shares of a table with one entry replaced. -/
theorem pending_update (redeem : Address → RedeemState) (c : Address) (r : RedeemState) :
    (fun x => (Function.update redeem c r x).pendingShares) =
      Function.update (fun x => (redeem x).pendingShares) c r.pendingShares := by
  funext x
  by_cases hx : x = c
  · subst hx; simp
  · simp [hx]

/-- **One step keeps the escrow.** -/
theorem Escrowed.step (h : Escrowed vault k) (hvault : vault ≠ msg.sender)
    (hs : k.Step vault msg call k') : Escrowed vault k' := by
  cases hs with
  | stay => exact h
  | token moved =>
      obtain ⟨hbal, hallow⟩ := TokenCall.exec_spares hvault (h.unapproved _) moved
      refine ⟨h.reconciled, h.held.trans hbal, ?_, h.unappointed⟩
      intro a
      exact Nat.le_zero.mp (h.unapproved a ▸ hallow a)
  | appoint =>
      refine ⟨h.reconciled, h.held, h.unapproved, ?_⟩
      intro a
      simp only [Function.update_of_ne hvault]
      exact h.unappointed a
  | @enqueue n c o k t owner controller escrowed =>
      -- The vault makes no calls and has no operator, so it queues nothing of its own.
      have hout : o ≠ vault := by
        rintro rfl
        rcases owner with hsender | hop
        · exact hvault hsender
        · simp [h.unappointed] at hop
      obtain ⟨hn, rfl⟩ := Erc20.transferBetween_ok escrowed
      refine ⟨?_, ?_, h.unapproved, h.unappointed⟩
      · simp only [pending_update]
        rw [sum_update_add (fun x => (k.redeem x).pendingShares) c n, h.reconciled]
      · simp only [Erc20.balanceOf, Ledger.move_to hn hout]
        exact Nat.add_le_add_right h.held n
  | @settle c n a k t pending burnt =>
      obtain ⟨hn, rfl⟩ := Erc20.burn_ok burnt
      have htotal := h.pending_le c
      refine ⟨?_, ?_, h.unapproved, h.unappointed⟩
      · have hsum := sum_update_sub (fun x => (k.redeem x).pendingShares) c n pending
        rw [h.reconciled] at hsum
        rw [pending_update]
        exact Nat.eq_sub_of_add_eq hsum
      · simp only [Erc20.balanceOf, Ledger.debit_self]
        exact Nat.sub_le_sub_right h.held n
  | @claim call c n a k claimant authority =>
      refine ⟨?_, h.held, h.unapproved, h.unappointed⟩
      simp only [pending_update, Function.update_eq_self]
      exact h.reconciled

end Custody

namespace LemonVault

open Custody (Escrowed)

variable {v : LemonVault} {s s' : State} {msg : Msg} {w : World}

theorem escrowed_exec {call : Call} (h : Escrowed v.self s.custody) (hsender : msg.sender ≠ v.self)
    (he : v.exec msg s call = .ok s') : Escrowed v.self s'.custody := by
  obtain ⟨k, hgrow, hstep⟩ := (exec_custody he).step
  exact (h.grow hgrow).step (Ne.symm hsender) hstep

theorem escrowed_genesis (h : Genesis v w) : Escrowed v.self w.state.custody := by
  obtain ⟨p, -, -, hfresh⟩ := h.fresh
  refine ⟨?_, ?_, ?_, ?_⟩
  · simp [State.custody, hfresh.redeem, hfresh.totalPendingRedeemShares]
  · simp [State.custody, hfresh.totalPendingRedeemShares]
  · simp [State.custody, hfresh.shares, emptyErc20]
  · simp [State.custody, hfresh.isOperator]

/-- **The escrow holds along every run.** -/
theorem escrowed_run {tr : List (Transition World Tx)} {w₀ : World}
    (h₀ : Escrowed v.self w₀.state.custody) (h : Run v.next w₀ tr w) :
    Escrowed v.self w.state.custody := by
  refine (h.invariant (I := fun w => Escrowed v.self w.state.custody) h₀ ?_).1
  intro w tx w' hw hn
  obtain ⟨-, hsender, -, he⟩ := next_eq_some hn
  exact escrowed_exec hw hsender he

theorem escrowed_reachable (h : Reachable v w) : Escrowed v.self w.state.custody := by
  obtain ⟨w₀, tr, hgen, hrun⟩ := h
  exact escrowed_run (escrowed_genesis hgen) hrun

/-! ### Fulfilment -/

/-- What `fulfillRedeem` checks, in the state it is called in. -/
structure Fulfillable (v : LemonVault) (msg : Msg) (s : State) (c : Address) (n : Nat) : Prop where
  caller : s.hasRole .agent msg.sender ∨ s.hasRole .guardian msg.sender
  fresh : navIsStale s msg.timestamp = false ∨ s.hasRole .guardian msg.sender ∧ s.emergencyExit
  positive : 0 < n
  pending : n ≤ (s.redeem c).pendingShares
  ripe : (s.redeem c).requestedAt + s.limits.val.minRedeemDelay ≤ msg.timestamp
  payable : v.convertToAssets (v.accrueFees msg.timestamp s) n .floor ≤ v.freeAssets s

theorem fulfillable_of_ok {c : Address} {n a : Nat}
    (h : v.fulfillRedeem msg s c n = .ok (a, s')) : Fulfillable v msg s c n := by
  have hframe := accrueFees_frame (v := v) msg.timestamp s
  obtain ⟨hcaller, hstale, lead, rfl, hn, hpending, hripe, ha, hfree, -⟩ := fulfillRedeem_ok h
  rw [accrueFees_redeem] at hpending hripe
  rw [accrueFees_limits] at hripe
  rw [ha, hframe.freeAssets_eq] at hfree
  refine ⟨hcaller, ?_, hn, hpending, hripe, hfree⟩
  by_cases hs : navIsStale s msg.timestamp
  · exact .inr (hstale hs)
  · exact .inl (by simpa using hs)

/-- Where the shares to burn are there, the checks are all there is. -/
theorem fulfillRedeem_of_fulfillable {c : Address} {n : Nat} (h : Fulfillable v msg s c n)
    (hheld : (s.redeem c).pendingShares ≤ s.shares.balanceOf v.self) :
    ∃ a s', v.fulfillRedeem msg s c n = .ok (a, s') := by
  have hframe := accrueFees_frame (v := v) msg.timestamp s
  have hfree := hframe.freeAssets_eq (v := v)
  -- the accrual takes shares from nobody, so the escrow is still there
  have hburn : n ≤ (v.accrueFees msg.timestamp s).shares.ledger.balance v.self :=
    h.pending.trans (hheld.trans (hframe.balance v.self))
  have hshares : (v.accrueFees msg.timestamp s).shares.burn v.self n = .ok
      { (v.accrueFees msg.timestamp s).shares with
        ledger := (v.accrueFees msg.timestamp s).shares.ledger.debit v.self n hburn } := by
    rw [Erc20.burn, bind_of_ok (revertIf_of_not v.self.property), dif_pos hburn]
    rfl
  obtain ⟨hcaller, hfresh, hn, hpending, hripe, hpay⟩ := h
  have hrole : ¬ (¬ s.hasRole .agent msg.sender ∧ ¬ s.hasRole .guardian msg.sender) := by tauto
  have hstale : ¬ (navIsStale s msg.timestamp ∧
      ¬ (s.hasRole .guardian msg.sender ∧ s.emergencyExit)) := by
    rintro ⟨hs, hno⟩
    rcases hfresh with hf | hg
    · simp [hf] at hs
    · exact hno hg
  simp only [fulfillRedeem, bind_eq_ok, revertIf_eq_ok, pure_eq_ok, accrueFees_redeem,
    accrueFees_limits, hfree]
  exact ⟨_, _, (), hrole, (), hstale, (), Nat.ne_of_gt hn, (), Nat.not_lt.mpr hpending, (),
    Nat.not_lt.mpr hripe, (), Nat.not_lt.mpr hpay, _, State.burnShares_of_ok hshares, rfl⟩

/-- **Queue bookkeeping.** In every reachable state the pending shares add up to
`totalPendingRedeemShares` and the vault holds them, and a fulfilment succeeds exactly
when its checks pass: there is always enough to burn and enough to subtract from. -/
theorem queue_escrowed_and_fulfillable (hw : Reachable v w) :
    (w.state.totalPendingRedeemShares ≤ w.state.shares.balanceOf v.self ∧
      w.state.totalPendingRedeemShares = ∑ c, (w.state.redeem c).pendingShares) ∧
    (∀ msg c n, (∃ a s', v.fulfillRedeem msg w.state c n = .ok (a, s')) ↔
      Fulfillable v msg w.state c n) ∧
    (∀ c n, n ≤ (w.state.redeem c).pendingShares →
      n ≤ w.state.totalPendingRedeemShares ∧ n ≤ w.state.shares.balanceOf v.self) := by
  have he := escrowed_reachable hw
  have hcovered : ∀ c, (w.state.redeem c).pendingShares ≤ w.state.shares.balanceOf v.self :=
    fun c => (he.pending_le c).trans he.held
  refine ⟨⟨he.held, he.reconciled.symm⟩, ?_, ?_⟩
  · intro msg c n
    constructor
    · rintro ⟨a, s', h⟩
      exact fulfillable_of_ok h
    · intro h
      exact fulfillRedeem_of_fulfillable h (hcovered c)
  · intro c n hn
    exact ⟨hn.trans (he.pending_le c), hn.trans (hcovered c)⟩

/-- A thousand USDC deposited, a share sent straight to the vault, nine hundred shares
queued, and a fresh report three days later. -/
def queuedOverGift : World :=
  Test.after Test.noFeeLimits Test.conservativeRisk
    [Test.tx Test.alice 0 (.deposit (1000 * 10 ^ 6) Test.alice),
     Test.tx Test.alice 0 (.shares (.transfer Test.vault (10 ^ 18))),
     Test.tx Test.alice 0 (.requestRedeem (900 * 10 ^ 18) Test.alice Test.alice),
     Test.tx Test.agent 259200 (.reportNav 0 10000 0)] (by rfl)

theorem queue_escrowed_and_fulfillable_gift :
    queuedOverGift.state.totalPendingRedeemShares = 900 * 10 ^ 18 ∧
      queuedOverGift.state.shares.balanceOf Test.vault = 901 * 10 ^ 18 ∧
      ∃ a s', (Test.lemonVault Test.conservativeRisk).fulfillRedeem ⟨Test.agent, year + 259200⟩
        queuedOverGift.state Test.alice (900 * 10 ^ 18) = .ok (a, s') := by
  obtain ⟨-, hfulfil, -⟩ := queue_escrowed_and_fulfillable
    (v := Test.lemonVault Test.conservativeRisk) (w := queuedOverGift) (Test.reachable_after _)
  exact ⟨by rfl, by rfl, (hfulfil _ _ _).mpr
    ⟨.inl (by rfl), .inl (by rfl), by decide, by decide, by decide, by decide⟩⟩

end LemonVault

end LemonMarket
