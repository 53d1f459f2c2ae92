import LemonMarket.Contracts.Solvency

/-!
# LemonMarket.Contracts.Rate

**The exchange rate.** One share is worth `(totalAssets + 1) / (totalSupply + 10^12)`.
Two things alone lower it: the shares minted inside an accrual, and a report that
writes the deployed capital down. So the rate is compared from the state a call
leads with (fees accrued) to the one it leaves.

The pool's rate rule does the work; what is added here is that the two readings of
the storage agree, which needs solvency: only in a solvent state is `totalAssets`
the plain difference it looks like.
-/

namespace LemonMarket

open Lib

namespace LemonVault

variable {v : LemonVault} {s s' : State} {msg : Msg} {w w' : World}

/-- The exchange rate of `s` is at most that of `s'`, cross-multiplied. -/
def RateLe (v : LemonVault) (s s' : State) : Prop :=
  (v.totalAssets s + 1) * (s'.shares.totalSupply + virtualShares) ≤
    (v.totalAssets s' + 1) * (s.shares.totalSupply + virtualShares)

theorem rateLe_iff : RateLe v s s' ↔ Pool.RateLe virtualShares (v.pool s) (v.pool s') := by
  simp only [RateLe, Pool.RateLe, pool_worth, pool_supply]

/-- The saturating branch is never taken. -/
theorem Books.totalAssets_add (h : Books v s) :
    v.totalAssets s + s.claimableAssets = s.usdc.balanceOf v.self + s.deployedAssets := by
  have hworth := h.solvent.worth_add
  rwa [pool_worth] at hworth

/-- A deposit brings its assets in and issues its shares. -/
theorem depositAssets_effect {r : Address} {a n : Nat} (hb : Books v s)
    (hsender : msg.sender ≠ v.self) (h : v.depositAssets msg s r a n = .ok s') :
    v.totalAssets s' = v.totalAssets s + a ∧
      s'.shares.totalSupply = s.shares.totalSupply + n := by
  obtain ⟨t, ht, -, rfl⟩ := depositAssets_ok h
  obtain ⟨hbal, -⟩ := pulled hsender ht
  have hworth := hb.totalAssets_add
  refine ⟨?_, rfl⟩
  simp only [totalAssets_eq, idleAssets, hbal] at hworth ⊢
  omega

/-- An accrual dilutes and does nothing else to the value. -/
theorem accrueFees_totalAssets (now : Nat) :
    v.totalAssets (v.accrueFees now s) = v.totalAssets s := by
  have hrest := (accrueFees_frame (v := v) now s).rest
  rw [hrest]
  rfl

/-- The accrual at the head of a call leaves the value where it was. -/
theorem lead_totalAssets (call : Call) : v.totalAssets (v.lead msg s call) = v.totalAssets s := by
  rcases lead_pool v s msg call with hp | ⟨n, hp⟩
  · rw [← pool_worth, hp, pool_worth]
  · rw [← pool_worth, hp, ← pool_worth]
    rfl

/-- No call but a report lowers the rate it led with. -/
theorem Books.rate_exec {call : Call} (h : Books v s) (hsender : msg.sender ≠ v.self)
    (hcall : call.isReport = false) (he : v.exec msg s call = .ok s') :
    RateLe v (v.lead msg s call) s' := by
  obtain ⟨⟨ms, hsteps, hperm⟩, -⟩ := exec_refines hsender h.unapproved he
  exact rateLe_iff.mpr (Pool.rate_steps virtualShares_pos (h.lead_solvent call) hsteps
    fun m hm => (hperm m hm).plain hcall)

/-- A report that writes nothing down does not lower it either, up to its second
accrual. -/
theorem rate_restate {now d l : Nat} (h : s.deployedAssets ≤ d) :
    RateLe v s (restateNav now s d l) := by
  refine Nat.mul_le_mul_right _ ?_
  simp only [totalAssets_eq, restateNav, idleAssets]
  omega

/-- A report is its leading accrual, the restatement, and a second accrual. -/
theorem reportNav_lead {d l o : Nat} (h : v.reportNav msg s d l o = .ok s') :
    s' = (v.accrueFees msg.timestamp
        (restateNav msg.timestamp (v.lead msg s (.reportNav d l o)) d l)).emit
      (.navReported d (v.totalAssets s') (v.pricePerShare s') l o) := by
  obtain ⟨-, -, -, -, rolled, rfl, -, restated, rfl, hs'⟩ := reportNav_ok h
  rw [hs', totalAssets_emit, pricePerShare_emit]
  rfl

theorem lead_deployedAssets (call : Call) :
    (v.lead msg s call).deployedAssets = s.deployedAssets := by
  rcases lead_pool v s msg call with hp | ⟨n, hp⟩
  · exact congrArg Pool.deployed hp
  · exact congrArg Pool.deployed hp

/-- Moving capital out to a wallet that is not the vault moves no value. -/
theorem agentWithdraw_level {n : Nat} (hwallet : v.agentWallet ≠ v.self)
    (h : v.agentWithdraw msg s n = .ok s') :
    v.totalAssets s' = v.totalAssets s ∧ s'.shares.totalSupply = s.shares.totalSupply := by
  obtain ⟨-, -, -, -, -, hfree, -, -, t, ht, rfl⟩ := agentWithdraw_ok h
  obtain ⟨-, -, hbal⟩ := pushed ht
  rw [if_neg (fun h => hwallet (Subtype.ext h))] at hbal
  rw [freeAssets_eq] at hfree
  refine ⟨?_, rfl⟩
  simp only [totalAssets_eq, idleAssets, hbal] at hfree ⊢
  omega

/-- Bringing back no more than is deployed moves no value. -/
theorem agentReturn_level {n : Nat} (hsender : msg.sender ≠ v.self) (hn : n ≤ s.deployedAssets)
    (h : v.agentReturn msg s n = .ok s') :
    v.totalAssets s' = v.totalAssets s ∧ s'.shares.totalSupply = s.shares.totalSupply := by
  obtain ⟨-, t, ht, rfl⟩ := agentReturn_ok h
  obtain ⟨hbal, -⟩ := pulled hsender ht
  refine ⟨?_, rfl⟩
  simp only [totalAssets_eq, idleAssets, hbal]
  omega

/-- **The exchange rate falls through fees and reported losses only.** In every
reachable state: the accrual a call starts with leaves `totalAssets` alone; after it,
no call but a report lowers the rate, and a report that writes nothing down lowers it
only through its second accrual; `totalAssets` is exactly the balance and the deployed
capital less what is promised; and moving capital out, or at most the deployed capital
back, changes neither value nor supply. -/
theorem rate_falls_only_through_fees_and_losses (hw : Reachable v w)
    (hwallet : v.agentWallet ≠ v.self) :
    (∀ tx w', v.next w tx = some w' →
      v.totalAssets (v.lead tx.msg w.state tx.call) = v.totalAssets w.state ∧
      (tx.call.isReport = false → RateLe v (v.lead tx.msg w.state tx.call) w'.state) ∧
      (∀ d l o, tx.call = .reportNav d l o → w.state.deployedAssets ≤ d →
        RateLe v (v.lead tx.msg w.state tx.call)
          (restateNav tx.msg.timestamp (v.lead tx.msg w.state tx.call) d l) ∧
        w'.state = (v.accrueFees tx.msg.timestamp
            (restateNav tx.msg.timestamp (v.lead tx.msg w.state tx.call) d l)).emit
          (.navReported d (v.totalAssets w'.state) (v.pricePerShare w'.state) l o)) ∧
      (∀ n, tx.call = .agentWithdraw n ∨ tx.call = .agentReturn n ∧ n ≤ w.state.deployedAssets →
        v.totalAssets w'.state = v.totalAssets w.state ∧
        w'.state.shares.totalSupply = w.state.shares.totalSupply)) ∧
    v.totalAssets w.state + w.state.claimableAssets =
      w.state.usdc.balanceOf v.self + w.state.deployedAssets := by
  have hb := Books.reachable hw
  refine ⟨?_, hb.totalAssets_add⟩
  rintro ⟨msg, call⟩ w' hn
  obtain ⟨-, hsender, -, he⟩ := next_eq_some hn
  refine ⟨lead_totalAssets call, fun hcall => hb.rate_exec hsender hcall he, ?_, ?_⟩
  · intro d l o hcall hd
    cases hcall
    exact ⟨rate_restate ((lead_deployedAssets _).trans_le hd), reportNav_lead he⟩
  · rintro n (rfl | ⟨rfl, hle⟩)
    · exact agentWithdraw_level hwallet he
    · exact agentReturn_level hsender hle he

/-- In the half-fulfilled run five hundred USDC of the thousand are promised, and the others
are what the shares are worth. -/
theorem rate_falls_only_through_fees_and_losses_half :
    (Test.lemonVault Test.conservativeRisk).totalAssets halfFulfilled.state + 500 * 10 ^ 6 =
      1000 * 10 ^ 6 :=
  (rate_falls_only_through_fees_and_losses (v := Test.lemonVault Test.conservativeRisk)
    (w := halfFulfilled) (Test.reachable_after _) (by decide)).2

end LemonVault

end LemonMarket
