import LemonMarket.Contracts.Solvency

/-!
# LemonMarket.Contracts.Custody

**Who holds shares, and who has queued them.** `State.custody` reads the share token,
the redemption table, its running total and the operators off the storage, and
`exec_custody` says what every successful call does to them: shares are issued (fees,
deposits) and then at most one `CustodyStep` is taken. There are six, and each names the
account whose authority it needed.

Everything about escrow, delays and authority is a case analysis over `CustodyStep`;
none of it looks at the entry points again.
-/

namespace LemonMarket

open Lib

/-- The storage about shares and their redemption. -/
structure Custody where
  shares : Erc20 Address
  redeem : Address → RedeemState
  totalPendingRedeemShares : Nat
  isOperator : Address → Address → Bool

def State.custody (s : State) : Custody :=
  ⟨s.shares, s.redeem, s.totalPendingRedeemShares, s.isOperator⟩

namespace Custody

/-- Shares were issued, and nothing else happened. -/
structure Grows (k k' : Custody) : Prop where
  rest : k' = { k with shares := k'.shares }
  allowance : k'.shares.allowance = k.shares.allowance
  balance : ∀ a, k.shares.balanceOf a ≤ k'.shares.balanceOf a

theorem Grows.refl (k : Custody) : Grows k k := ⟨rfl, rfl, fun _ => Nat.le_refl _⟩

theorem Grows.trans {k₁ k₂ k₃ : Custody} (h₁ : Grows k₁ k₂) (h₂ : Grows k₂ k₃) :
    Grows k₁ k₃ where
  rest := by rw [h₂.rest, h₁.rest]
  allowance := h₂.allowance.trans h₁.allowance
  balance a := (h₁.balance a).trans (h₂.balance a)

theorem Grows.issue (k : Custody) (a : Address) (n : Nat) :
    Grows k { k with shares := k.shares.issue a n } :=
  ⟨rfl, rfl, fun _ => Ledger.le_credit⟩

/-- What one call may do to the shares and the queue, by the vault's address. -/
inductive Step (vault : Address) (msg : Msg) : Call → Custody → Custody → Prop
  | stay {call : Call} {k : Custody} : Step vault msg call k k
  | token {call : TokenCall} {k : Custody} {t : Erc20 Address}
      (moved : call.exec k.shares msg.sender = .ok t) :
      Step vault msg (.shares call) k { k with shares := t }
  | appoint {operator : Address} {approved : Bool} {k : Custody} :
      Step vault msg (.setOperator operator approved) k { k with
        isOperator := Function.update k.isOperator msg.sender
          (Function.update (k.isOperator msg.sender) operator approved) }
  | enqueue {n : Nat} {c o : Address} {k : Custody} {t : Erc20 Address}
      (owner : o = msg.sender ∨ k.isOperator o msg.sender)
      (controller : c = o ∨ k.isOperator c msg.sender)
      (escrowed : k.shares.transferBetween o vault n = .ok t) :
      Step vault msg (.requestRedeem n c o) k { k with
        shares := t
        redeem := Function.update k.redeem c { k.redeem c with
          pendingShares := (k.redeem c).pendingShares + n
          requestedAt := msg.timestamp }
        totalPendingRedeemShares := k.totalPendingRedeemShares + n }
  | settle {c : Address} {n a : Nat} {k : Custody} {t : Erc20 Address}
      (pending : n ≤ (k.redeem c).pendingShares)
      (burnt : k.shares.burn vault n = .ok t) :
      Step vault msg (.fulfillRedeem c n) k { k with
        shares := t
        redeem := Function.update k.redeem c { k.redeem c with
          pendingShares := (k.redeem c).pendingShares - n
          claimableShares := (k.redeem c).claimableShares + n
          claimableAssets := (k.redeem c).claimableAssets + a }
        totalPendingRedeemShares := k.totalPendingRedeemShares - n }
  | claim {call : Call} {c : Address} {n a : Nat} {k : Custody}
      (claimant : call.claimant = some c)
      (authority : c = msg.sender ∨ k.isOperator c msg.sender) :
      Step vault msg call k { k with
        redeem := Function.update k.redeem c { k.redeem c with
          claimableShares := (k.redeem c).claimableShares - n
          claimableAssets := (k.redeem c).claimableAssets - a } }

end Custody

namespace LemonVault

variable {v : LemonVault} {s s' : State} {msg : Msg} {call : Call}

/-! ### Calls as steps -/

theorem FeeFrame.custody (h : FeeFrame s s') : s.custody.Grows s'.custody where
  rest := by simp only [State.custody]; rw [h.rest]
  allowance := h.allowance
  balance := h.balance

/-- A successful call issued shares, to a custody `k`, and took one step from it. -/
structure Moves (v : LemonVault) (msg : Msg) (call : Call) (s s' : State) : Prop where
  step : ∃ k, s.custody.Grows k ∧ k.Step v.self msg call s'.custody

theorem Moves.grow (h : s.custody.Grows s'.custody) : Moves v msg call s s' :=
  ⟨⟨_, h, .stay⟩⟩

theorem Moves.still (h : s'.custody = s.custody) : Moves v msg call s s' :=
  .grow (h ▸ .refl _)

theorem depositAssets_moves {lead : State} {r : Address} {a n : Nat}
    (hlead : s.custody.Grows lead.custody) (h : v.depositAssets msg lead r a n = .ok s') :
    Moves v msg call s s' := by
  obtain ⟨t, -, -, rfl⟩ := depositAssets_ok h
  exact .grow (hlead.trans (Custody.Grows.issue lead.custody r n))

theorem claim_moves {c r : Address} {n a : Nat} (hcall : call.claimant = some c)
    (hcan : msg.sender = c ∨ s.isOperator c msg.sender) (h : v.claim msg s c r n a = .ok s') :
    Moves v msg call s s' := by
  obtain ⟨-, t, -, rfl⟩ := claim_ok h
  exact ⟨⟨s.custody, .refl _, .claim hcall (hcan.imp_left Eq.symm)⟩⟩

theorem reportNav_custody {d l o : Nat} (h : v.reportNav msg s d l o = .ok s') :
    s.custody.Grows s'.custody := by
  obtain ⟨-, -, -, -, rolled, hrolled, -, restated, hrestated, rfl⟩ := reportNav_ok h
  have hroll : rolled.custody = s.custody := by
    rw [hrolled, rollNavEpoch]; split <;> rfl
  have hfirst := (accrueFees_frame (v := v) msg.timestamp rolled).custody
  have hlast := (accrueFees_frame (v := v) msg.timestamp restated).custody
  have hrestate : restated.custody = (v.accrueFees msg.timestamp rolled).custody := by
    rw [hrestated]; rfl
  rw [hroll] at hfirst
  rw [hrestate] at hlast
  exact hfirst.trans hlast

/-- **Every call is a custody step.** -/
theorem exec_custody (h : v.exec msg s call = .ok s') : Moves v msg call s s' := by
  have hlead := (accrueFees_frame (v := v) msg.timestamp s).custody
  cases hadmin : administers call with
  | true =>
      obtain ⟨hfees, hs'⟩ := exec_administers hadmin h
      rw [hs']
      exact .grow hfees.custody
  | false =>
      cases call with
      | usdc call =>
          obtain ⟨t, -, rfl⟩ := exec_usdc_ok h
          exact .still rfl
      -- the holder moves the shares, or someone the holder allowed
      | shares call =>
          obtain ⟨t, ht, rfl⟩ := exec_shares_ok h
          exact ⟨⟨s.custody, .refl _, .token ht⟩⟩
      | deposit a r =>
          obtain ⟨n, hdep⟩ := exec_deposit_ok h
          exact depositAssets_moves hlead (deposit_ok hdep).2.2
      | mint n r =>
          obtain ⟨a, hmint⟩ := exec_mint_ok h
          exact depositAssets_moves hlead (mint_ok hmint).2.2
      -- appointing, queueing, settling and claiming
      | setOperator op b =>
          obtain ⟨-, rfl⟩ := setOperator_ok h
          exact ⟨⟨s.custody, .refl _, .appoint⟩⟩
      | requestRedeem n c o =>
          obtain ⟨-, howner, hcontroller, lead, rfl, t, ht, rfl⟩ := requestRedeem_ok h
          have hops : (v.accrueFees msg.timestamp s).custody.isOperator = s.isOperator := by
            rw [hlead.rest]; rfl
          exact ⟨⟨_, hlead, .enqueue (hops ▸ howner) (hops ▸ hcontroller) ht⟩⟩
      | fulfillRedeem c n =>
          obtain ⟨a, hful⟩ := exec_fulfillRedeem_ok h
          obtain ⟨-, -, lead, rfl, -, hpending, -, -, -, t, ht, rfl⟩ := fulfillRedeem_ok hful
          exact ⟨⟨_, hlead, .settle hpending ht⟩⟩
      | redeem n r c =>
          obtain ⟨a, hred⟩ := exec_redeem_ok h
          obtain ⟨hcan, -, -, -, hclaim⟩ := redeem_ok hred
          exact claim_moves rfl hcan hclaim
      | withdraw a r c =>
          obtain ⟨n, hwd⟩ := exec_withdraw_ok h
          obtain ⟨hcan, -, -, -, hclaim⟩ := withdraw_ok hwd
          exact claim_moves rfl hcan hclaim
      -- the rest moves USDC or mints to the fund
      | agentWithdraw n =>
          obtain ⟨-, -, -, -, -, -, -, -, t, -, rfl⟩ := agentWithdraw_ok h
          exact .still rfl
      | agentReturn n =>
          obtain ⟨-, t, -, rfl⟩ := agentReturn_ok h
          exact .still rfl
      | donate n =>
          obtain ⟨-, lead, rfl, t, -, rfl⟩ := donate_ok h
          exact .grow hlead
      | reportNav d l o => exact .grow (reportNav_custody h)
      | _ => cases hadmin

end LemonVault

end LemonMarket
