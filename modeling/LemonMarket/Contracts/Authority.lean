import LemonMarket.Contracts.Escrow

/-!
# LemonMarket.Contracts.Authority

**What a call may do to somebody else.** For a controller `c` and a caller that is
neither `c` nor an operator of `c`: without an allowance from `c` no call takes shares
from `c`, and no call changes `c`'s entry of the redemption table, except that the agent
and the guardians may settle part of it at the contract's price. So nobody else restarts
a delay, and nobody else claims.
-/

namespace LemonMarket

open Lib

namespace Custody

variable {vault c : Address} {msg : Msg} {call : Call} {k k' : Custody}

/-- Shares leave `c` only by its own hand, its operators', or those it has approved. -/
theorem Step.spares (hs : k.Step vault msg call k') (hvault : c ≠ vault) (hc : c ≠ msg.sender)
    (hop : k.isOperator c msg.sender = false) (hnone : k.shares.allowance c msg.sender = 0) :
    k.shares.balanceOf c ≤ k'.shares.balanceOf c := by
  cases hs with
  | stay | appoint | claim => exact Nat.le_refl _
  | token moved => exact (TokenCall.exec_spares hc hnone moved).1
  | @enqueue n d o k t owner controller escrowed =>
      obtain ⟨hn, rfl⟩ := Erc20.transferBetween_ok escrowed
      refine Ledger.le_move hn ?_
      rintro rfl
      rcases owner with hsender | howner
      · exact hc hsender
      · simp [hop] at howner
  | @settle d n a k t pending burnt =>
      obtain ⟨hn, rfl⟩ := Erc20.burn_ok burnt
      exact (Ledger.debit_of_ne hn hvault).ge

/-- The entry of `c` is written by its own hand, its operators', or a fulfilment. -/
theorem Step.entry (hs : k.Step vault msg call k') (hc : c ≠ msg.sender)
    (hop : k.isOperator c msg.sender = false) (hcall : ∀ n, call ≠ .fulfillRedeem c n) :
    k'.redeem c = k.redeem c := by
  cases hs with
  | stay | appoint | token => rfl
  | @enqueue n d o k t owner controller escrowed =>
      refine Function.update_of_ne ?_ ..
      rintro rfl
      -- a request into one's own bucket needs the owner's authority, and the owner is `c`
      rcases controller with rfl | hd
      · rcases owner with hsender | howner
        · exact hc hsender
        · simp [hop] at howner
      · simp [hop] at hd
  | @settle d n a k t pending burnt =>
      refine Function.update_of_ne ?_ ..
      rintro rfl
      exact hcall n rfl
  | @claim call d n a k claimant authority =>
      refine Function.update_of_ne ?_ ..
      rintro rfl
      rcases authority with hsender | hd
      · exact hc hsender
      · simp [hop] at hd

end Custody

namespace LemonVault

variable {v : LemonVault} {s s' : State} {msg : Msg} {call : Call} {c : Address}

/-- `n` of the pending shares of `c` became claimable at the share price, and nothing
else of the entry changed. -/
def SettledAtPrice (v : LemonVault) (msg : Msg) (c : Address) (n : Nat) (s s' : State) : Prop :=
  n ≤ (s.redeem c).pendingShares ∧
  s'.redeem c = { s.redeem c with
    pendingShares := (s.redeem c).pendingShares - n
    claimableShares := (s.redeem c).claimableShares + n
    claimableAssets := (s.redeem c).claimableAssets +
      v.convertToAssets (v.accrueFees msg.timestamp s) n .floor }

/-- A fulfilment is the agent's or a guardian's, and settles at the share price. -/
theorem fulfillRedeem_settles {n a : Nat} (h : v.fulfillRedeem msg s c n = .ok (a, s')) :
    (s.hasRole .agent msg.sender ∨ s.hasRole .guardian msg.sender) ∧
      SettledAtPrice v msg c n s s' := by
  have hredeem : (v.accrueFees msg.timestamp s).redeem = s.redeem := by
    rw [(accrueFees_frame (v := v) msg.timestamp s).rest]
  obtain ⟨hcaller, -, lead, rfl, -, hpending, -, rfl, -, t, -, rfl⟩ := fulfillRedeem_ok h
  rw [hredeem] at hpending
  refine ⟨hcaller, hpending, ?_⟩
  simp only [Function.update_self, hredeem]

/-- **The authorization frame.** A call by somebody who is neither `c` nor an operator of
`c` takes no shares from `c` without an allowance; it leaves the entry of `c` alone unless
the caller is the agent or a guardian; and these change it only by settling pending shares
at the contract's price. -/
theorem others_entry_untouched (hvault : c ≠ v.self) (hc : msg.sender ≠ c)
    (hop : s.isOperator c msg.sender = false) (h : v.exec msg s call = .ok s') :
    (s.shares.allowance c msg.sender = 0 → s.shares.balanceOf c ≤ s'.shares.balanceOf c) ∧
    (s.hasRole .agent msg.sender = false → s.hasRole .guardian msg.sender = false →
      s'.redeem c = s.redeem c) ∧
    (s'.redeem c = s.redeem c ∨ ∃ n, call = .fulfillRedeem c n ∧
      (s.hasRole .agent msg.sender ∨ s.hasRole .guardian msg.sender) ∧
      SettledAtPrice v msg c n s s') := by
  obtain ⟨k, hgrow, hstep⟩ := (exec_custody h).step
  have hops : k.isOperator c msg.sender = false := by rw [hgrow.rest]; exact hop
  have hentry : k.redeem c = s.redeem c := by rw [hgrow.rest]; rfl
  refine ⟨?_, ?_, ?_⟩
  · intro hnone
    have hallow : k.shares.allowance c msg.sender = 0 := by rw [hgrow.allowance]; exact hnone
    exact (hgrow.balance c).trans (hstep.spares hvault (Ne.symm hc) hops hallow)
  · intro hagent hguardian
    refine (hstep.entry (Ne.symm hc) hops ?_).trans hentry
    rintro n rfl
    obtain ⟨a, hful⟩ := exec_fulfillRedeem_ok h
    simpa [hagent, hguardian] using (fulfillRedeem_settles hful).1
  · by_cases hcall : ∃ n, call = .fulfillRedeem c n
    · obtain ⟨n, rfl⟩ := hcall
      obtain ⟨a, hful⟩ := exec_fulfillRedeem_ok h
      exact .inr ⟨n, rfl, fulfillRedeem_settles hful⟩
    · exact .inl ((hstep.entry (Ne.symm hc) hops fun n hn => hcall ⟨n, hn⟩).trans hentry)

/-- A deposit of Bob's leaves Alice's entry as it was. -/
theorem others_entry_untouched_bob :
    ∃ s', (Test.lemonVault Test.conservativeRisk).exec ⟨Test.bob, year + 259200⟩
        queuedOverGift.state (.deposit (10 ^ 6) Test.bob) = .ok s' ∧
      s'.redeem Test.alice = queuedOverGift.state.redeem Test.alice := by
  have hok : ∃ s', (Test.lemonVault Test.conservativeRisk).exec ⟨Test.bob, year + 259200⟩
      queuedOverGift.state (.deposit (10 ^ 6) Test.bob) = .ok s' := ⟨_, by rfl⟩
  obtain ⟨s', hs'⟩ := hok
  obtain ⟨-, hentry, -⟩ := others_entry_untouched (c := Test.alice) (by decide) (by decide)
    (by decide) hs'
  exact ⟨s', hs', hentry (by decide) (by decide)⟩

end LemonVault

end LemonMarket
