import LemonMarket.Contracts.Runs

/-!
# LemonMarket.Contracts.Effects

**What a successful call did.** One inversion lemma for each entry point: the
guards that held and the state it left, as an update of the state after the fees
were accrued. Everything proved about runs reads these off, not the definitions.

The state after the leading accrual is `lead`; operations that accrue nothing
lead with the state they were given.
-/

namespace LemonMarket

open Lib

variable {s s' : State} {msg : Msg}

/-! ### Guards and token movements -/

/-- A token call takes nothing from an account that did not make it and has not
approved its maker, and raises no allowance of that account's. -/
theorem TokenCall.exec_spares {t u : Erc20 Address} {sender a : Address} {call : TokenCall}
    (ha : a ≠ sender) (hnone : t.allowance a sender = 0) (h : call.exec t sender = .ok u) :
    t.balanceOf a ≤ u.balanceOf a ∧ ∀ b, u.allowance a b ≤ t.allowance a b := by
  cases call with
  | transfer r n =>
      obtain ⟨hn, rfl⟩ := Erc20.transferBetween_ok h
      exact ⟨Ledger.le_move hn ha, fun _ => Nat.le_refl _⟩
  | approve spender n =>
      obtain rfl := Erc20.approve_ok h
      refine ⟨Nat.le_refl _, ?_⟩
      intro b
      simp only [Function.update_of_ne ha]
      exact Nat.le_refl _
  | transferFrom o r n =>
      obtain ⟨hn, hl, hspent, hallow⟩ := Erc20.transferFrom_ok h
      refine ⟨?_, hallow a⟩
      rw [Erc20.balanceOf, Erc20.balanceOf, hl]
      -- it is the account taken from, or it can only receive
      by_cases ho : a = o
      · -- With no allowance for the caller only nothing can be moved.
        subst ho
        rw [hnone] at hspent
        obtain rfl := Nat.le_zero.mp (hspent (by decide))
        by_cases hr : a = r
        · rw [← hr, Ledger.move_self]
        · rw [Ledger.move_from _ hr, Nat.sub_zero]
      · exact Ledger.le_move hn ho

theorem onlyRole_ok {role : Role} {u : Unit} (h : onlyRole s role msg = .ok u) :
    s.hasRole role msg.sender = true := by
  simpa [onlyRole] using h

theorem whenNotPaused_ok {u : Unit} (h : whenNotPaused s = .ok u) : s.paused = false := by
  simpa [whenNotPaused] using h

namespace State

theorem mintShares_ok {a : Address} {n : Nat} (h : s.mintShares a n = .ok s') :
    a ≠ 0 ∧ s' = { s with
      shares := s.shares.issue a n
      log := s.log ++ [.transfer 0 a n] } := by
  simp only [mintShares, bind_eq_ok, mapError_eq_ok, pure_eq_ok] at h
  obtain ⟨t, hmint, rfl⟩ := h
  obtain ⟨ha, rfl⟩ := Erc20.mint_ok hmint
  exact ⟨ha, rfl⟩

theorem burnShares_ok {a : Address} {n : Nat} (h : s.burnShares a n = .ok s') :
    ∃ t, s.shares.burn a n = .ok t ∧ s' = { s with
      shares := t
      log := s.log ++ [.transfer a 0 n] } := by
  simp only [burnShares, bind_eq_ok, mapError_eq_ok, pure_eq_ok] at h
  obtain ⟨t, hburn, rfl⟩ := h
  exact ⟨t, hburn, rfl⟩

theorem burnShares_of_ok {a : Address} {n : Nat} {t : Erc20 Address}
    (h : s.shares.burn a n = .ok t) : s.burnShares a n = .ok { s with
      shares := t
      log := s.log ++ [.transfer a 0 n] } := by
  rw [burnShares, h]; rfl

theorem transferShares_ok {a b : Address} {n : Nat} (h : s.transferShares a b n = .ok s') :
    ∃ t, s.shares.transferBetween a b n = .ok t ∧ s' = { s with
      shares := t
      log := s.log ++ [.transfer a b n] } := by
  simp only [transferShares, bind_eq_ok, mapError_eq_ok, pure_eq_ok] at h
  obtain ⟨t, hmove, rfl⟩ := h
  exact ⟨t, hmove, rfl⟩

end State

namespace LemonVault

variable {v : LemonVault}

theorem pullAssets_ok {n : Nat} (h : v.pullAssets msg s n = .ok s') :
    ∃ t, s.usdc.transferFrom v.self msg.sender v.self n = .ok t ∧ s' = { s with usdc := t } := by
  simp only [pullAssets, bind_eq_ok, mapError_eq_ok, pure_eq_ok] at h
  obtain ⟨t, hpull, rfl⟩ := h
  exact ⟨t, hpull, rfl⟩

theorem pushAssets_ok {n : Nat} {r : Address} (h : v.pushAssets s r n = .ok s') :
    ∃ t, s.usdc.transferBetween v.self r n = .ok t ∧ s' = { s with usdc := t } := by
  simp only [pushAssets, bind_eq_ok, mapError_eq_ok, pure_eq_ok] at h
  obtain ⟨t, hpush, rfl⟩ := h
  exact ⟨t, hpush, rfl⟩

theorem pushAssets_of_ok {n : Nat} {r : Address} {t : Erc20 Address}
    (h : s.usdc.transferBetween v.self r n = .ok t) :
    v.pushAssets s r n = .ok { s with usdc := t } := by
  rw [pushAssets, h]; rfl

/-! ### The entry points -/

theorem depositAssets_ok {r : Address} {a n : Nat}
    (h : v.depositAssets msg s r a n = .ok s') :
    ∃ t, s.usdc.transferFrom v.self msg.sender v.self a = .ok t ∧ r ≠ 0 ∧ s' = { s with
      usdc := t
      shares := s.shares.issue r n
      log := s.log ++ [.transfer 0 r n] ++ [.deposit msg.sender r a n] } := by
  simp only [depositAssets, bind_eq_ok, pure_eq_ok] at h
  obtain ⟨s₁, hpull, s₂, hmint, rfl⟩ := h
  obtain ⟨t, ht, rfl⟩ := pullAssets_ok hpull
  obtain ⟨hr, rfl⟩ := State.mintShares_ok hmint
  exact ⟨t, ht, hr, rfl⟩

theorem deposit_ok {a n : Nat} {r : Address} (h : v.deposit msg s a r = .ok (n, s')) :
    a ≤ maxDeposit (v.accrueFees msg.timestamp s) msg.timestamp ∧
      n = v.convertToShares (v.accrueFees msg.timestamp s) a .floor ∧
      v.depositAssets msg (v.accrueFees msg.timestamp s) r a n = .ok s' := by
  simp only [deposit, bind_eq_ok, revertIf_eq_ok, pure_eq_ok, Prod.mk.injEq] at h
  obtain ⟨-, hmax, s₁, hdep, rfl, rfl⟩ := h
  exact ⟨Nat.le_of_not_lt hmax, rfl, hdep⟩

theorem mint_ok {a n : Nat} {r : Address} (h : v.mint msg s n r = .ok (a, s')) :
    n ≤ maxDeposit (v.accrueFees msg.timestamp s) msg.timestamp ∧
      a = v.convertToAssets (v.accrueFees msg.timestamp s) n .ceil ∧
      v.depositAssets msg (v.accrueFees msg.timestamp s) r a n = .ok s' := by
  simp only [mint, bind_eq_ok, revertIf_eq_ok, pure_eq_ok, Prod.mk.injEq] at h
  obtain ⟨-, hmax, s₁, hdep, rfl, rfl⟩ := h
  exact ⟨Nat.le_of_not_lt hmax, rfl, hdep⟩

theorem setOperator_ok {op : Address} {b : Bool} (h : setOperator msg s op b = .ok s') :
    op ≠ 0 ∧ s' = { s with
      isOperator := Function.update s.isOperator msg.sender
        (Function.update (s.isOperator msg.sender) op b)
      log := s.log ++ [.operatorSet msg.sender op b] } := by
  simp only [setOperator, bind_eq_ok, revertIf_eq_ok, pure_eq_ok] at h
  obtain ⟨-, hop, rfl⟩ := h
  exact ⟨hop, rfl⟩

theorem requestRedeem_ok {n : Nat} {c o : Address}
    (h : v.requestRedeem msg s n c o = .ok s') :
    0 < n ∧ (o = msg.sender ∨ s.isOperator o msg.sender) ∧
      (c = o ∨ s.isOperator c msg.sender) ∧
      ∃ lead, lead = v.accrueFees msg.timestamp s ∧
      ∃ t, lead.shares.transferBetween o v.self n = .ok t ∧
      s' = { lead with
        shares := t
        redeem := Function.update lead.redeem c { lead.redeem c with
          pendingShares := (lead.redeem c).pendingShares + n
          requestedAt := msg.timestamp }
        totalPendingRedeemShares := lead.totalPendingRedeemShares + n
        log := lead.log ++ [.transfer o v.self n] ++ [.redeemRequest c o requestId msg.sender n]
          ++ [.redeemQueued c n (msg.timestamp + lead.limits.val.minRedeemDelay)
            (msg.timestamp + lead.limits.val.maxRedeemDelay)] } := by
  simp only [requestRedeem, bind_eq_ok, revertIf_eq_ok, pure_eq_ok] at h
  obtain ⟨-, hn, -, howner, -, hcontroller, s₁, hmove, rfl⟩ := h
  obtain ⟨t, ht, rfl⟩ := State.transferShares_ok hmove
  refine ⟨Nat.pos_of_ne_zero hn, ?_, ?_, _, rfl, t, ht, rfl⟩
  · by_cases ho : o = msg.sender
    · exact .inl ho
    · exact .inr (by simpa [ho] using howner)
  · by_cases hc : c = o
    · exact .inl hc
    · exact .inr (by simpa [hc] using hcontroller)

theorem fulfillRedeem_ok {n a : Nat} {c : Address}
    (h : v.fulfillRedeem msg s c n = .ok (a, s')) :
    (s.hasRole .agent msg.sender ∨ s.hasRole .guardian msg.sender) ∧
      (navIsStale s msg.timestamp → s.hasRole .guardian msg.sender ∧ s.emergencyExit) ∧
      ∃ lead, lead = v.accrueFees msg.timestamp s ∧
      0 < n ∧ n ≤ (lead.redeem c).pendingShares ∧
      (lead.redeem c).requestedAt + lead.limits.val.minRedeemDelay ≤ msg.timestamp ∧
      a = v.convertToAssets lead n .floor ∧ a ≤ v.freeAssets lead ∧
      ∃ t, lead.shares.burn v.self n = .ok t ∧
      s' = { lead with
        shares := t
        redeem := Function.update lead.redeem c { lead.redeem c with
          pendingShares := (lead.redeem c).pendingShares - n
          claimableShares := (lead.redeem c).claimableShares + n
          claimableAssets := (lead.redeem c).claimableAssets + a }
        totalPendingRedeemShares := lead.totalPendingRedeemShares - n
        claimableAssets := lead.claimableAssets + a
        log := lead.log ++ [.transfer v.self 0 n] ++ [.redeemFulfilled c n a] } := by
  simp only [fulfillRedeem, bind_eq_ok, revertIf_eq_ok, pure_eq_ok, Prod.mk.injEq] at h
  obtain ⟨-, hrole, -, hstale, -, hn, -, hpending, -, hripe, -, hfree, s₁, hburn, rfl, rfl⟩ := h
  obtain ⟨t, ht, rfl⟩ := State.burnShares_ok hburn
  refine ⟨?_, ?_, _, rfl, Nat.pos_of_ne_zero hn, Nat.le_of_not_lt hpending,
    Nat.le_of_not_lt hripe, rfl, Nat.le_of_not_lt hfree, t, ht, rfl⟩
  · by_cases ha : s.hasRole .agent msg.sender
    · exact .inl ha
    · exact .inr (by simpa [ha] using hrole)
  · intro hs
    simpa [hs] using hstale

theorem assertCanClaim_ok {c : Address} {u : Unit} (h : assertCanClaim msg s c = .ok u) :
    msg.sender = c ∨ s.isOperator c msg.sender := by
  by_cases hc : msg.sender = c
  · exact .inl hc
  · exact .inr (by simpa [assertCanClaim, hc] using h)

theorem claim_ok {c r : Address} {n a : Nat} (h : v.claim msg s c r n a = .ok s') :
    r ≠ 0 ∧ ∃ t, s.usdc.transferBetween v.self r a = .ok t ∧ s' = { s with
      usdc := t
      redeem := Function.update s.redeem c { s.redeem c with
        claimableShares := (s.redeem c).claimableShares - n
        claimableAssets := (s.redeem c).claimableAssets - a }
      claimableAssets := s.claimableAssets - a
      log := s.log ++ [.redeemClaimed c r n a] ++ [.withdraw msg.sender r c a n] } := by
  simp only [claim, bind_eq_ok, revertIf_eq_ok, pure_eq_ok] at h
  obtain ⟨-, hr, s₁, hpush, rfl⟩ := h
  obtain ⟨t, ht, rfl⟩ := pushAssets_ok hpush
  exact ⟨hr, t, ht, rfl⟩

/-- A claim the vault can pay succeeds. -/
theorem claim_of_ok {c r : Address} {n a : Nat} {t : Erc20 Address} (hr : r ≠ 0)
    (h : s.usdc.transferBetween v.self r a = .ok t) :
    ∃ s', v.claim msg s c r n a = .ok s' := by
  rw [claim, bind_of_ok (revertIf_of_not hr)]
  exact ⟨_, bind_of_ok (pushAssets_of_ok h)⟩

theorem redeem_ok {n a : Nat} {r c : Address} (h : v.redeem msg s n r c = .ok (a, s')) :
    (msg.sender = c ∨ s.isOperator c msg.sender) ∧ 0 < n ∧
      n ≤ (s.redeem c).claimableShares ∧
      a = mulDiv n (s.redeem c).claimableAssets (s.redeem c).claimableShares .floor ∧
      v.claim msg s c r n a = .ok s' := by
  simp only [redeem, bind_eq_ok, revertIf_eq_ok, pure_eq_ok, Prod.mk.injEq] at h
  obtain ⟨_, hcan, -, hn, -, hle, s₁, hclaim, rfl, rfl⟩ := h
  exact ⟨assertCanClaim_ok hcan, Nat.pos_of_ne_zero hn, Nat.le_of_not_lt hle, rfl, hclaim⟩

theorem redeem_of_ok {n : Nat} {r c : Address}
    (hcan : msg.sender = c ∨ s.isOperator c msg.sender) (hn : 0 < n)
    (hle : n ≤ (s.redeem c).claimableShares)
    (h : v.claim msg s c r n
      (mulDiv n (s.redeem c).claimableAssets (s.redeem c).claimableShares .floor) = .ok s') :
    v.redeem msg s n r c =
      .ok (mulDiv n (s.redeem c).claimableAssets (s.redeem c).claimableShares .floor, s') := by
  have hauth : assertCanClaim msg s c = .ok () :=
    revertIf_of_not (by rcases hcan with hc | hc <;> simp [hc])
  rw [redeem, bind_of_ok hauth, bind_of_ok (revertIf_of_not (Nat.ne_of_gt hn)),
    bind_of_ok (revertIf_of_not (Nat.not_lt.mpr hle)), bind_of_ok h]
  rfl

theorem withdraw_ok {a n : Nat} {r c : Address} (h : v.withdraw msg s a r c = .ok (n, s')) :
    (msg.sender = c ∨ s.isOperator c msg.sender) ∧ 0 < a ∧
      a ≤ (s.redeem c).claimableAssets ∧
      n = min (mulDiv a (s.redeem c).claimableShares (s.redeem c).claimableAssets .ceil)
        (s.redeem c).claimableShares ∧
      v.claim msg s c r n a = .ok s' := by
  simp only [withdraw, bind_eq_ok, revertIf_eq_ok, pure_eq_ok, Prod.mk.injEq] at h
  obtain ⟨_, hcan, -, ha, -, hle, s₁, hclaim, rfl, rfl⟩ := h
  refine ⟨assertCanClaim_ok hcan, Nat.pos_of_ne_zero ha, Nat.le_of_not_lt hle, ?_, hclaim⟩
  split <;> omega

theorem withdraw_of_ok {a n : Nat} {r c : Address}
    (hcan : msg.sender = c ∨ s.isOperator c msg.sender) (ha : 0 < a)
    (hle : a ≤ (s.redeem c).claimableAssets)
    (hn : n = min (mulDiv a (s.redeem c).claimableShares (s.redeem c).claimableAssets .ceil)
      (s.redeem c).claimableShares)
    (h : v.claim msg s c r n a = .ok s') : v.withdraw msg s a r c = .ok (n, s') := by
  have hauth : assertCanClaim msg s c = .ok () :=
    revertIf_of_not (by rcases hcan with hc | hc <;> simp [hc])
  have hshares : (if mulDiv a (s.redeem c).claimableShares (s.redeem c).claimableAssets .ceil >
      (s.redeem c).claimableShares then (s.redeem c).claimableShares
      else mulDiv a (s.redeem c).claimableShares (s.redeem c).claimableAssets .ceil) = n := by
    rw [hn]; split <;> omega
  rw [withdraw, bind_of_ok hauth, bind_of_ok (revertIf_of_not (Nat.ne_of_gt ha)),
    bind_of_ok (revertIf_of_not (Nat.not_lt.mpr hle))]
  simp only [hshares]
  rw [bind_of_ok h]
  rfl

theorem agentWithdraw_ok {n : Nat} (h : v.agentWithdraw msg s n = .ok s') :
    s.hasRole .agent msg.sender ∧ s.paused = false ∧ 0 < n ∧ s.emergencyExit = false ∧
      navIsStale s msg.timestamp = false ∧ n ≤ v.freeAssets s ∧
      s.deployedAssets + n ≤ v.deployedCeiling s ∧ n ≤ windowRemaining s msg.timestamp ∧
      ∃ t, s.usdc.transferBetween v.self v.agentWallet n = .ok t ∧ s' = { s with
        usdc := t
        agentWindowStartedAt := msg.timestamp
        agentWithdrawnInWindow := drawnInWindow s msg.timestamp + n
        deployedAssets := s.deployedAssets + n
        navEpochAnchor := s.navEpochAnchor + n
        log := s.log ++ [.agentWithdrew n (s.deployedAssets + n)] } := by
  simp only [agentWithdraw, bind_eq_ok, revertIf_eq_ok, pure_eq_ok] at h
  obtain ⟨_, hrole, _, hpaused, -, hn, -, hexit, -, hstale, -, hfree, -, hceil, -, hwindow,
    s₁, hpush, rfl⟩ := h
  obtain ⟨t, ht, rfl⟩ := pushAssets_ok hpush
  exact ⟨onlyRole_ok hrole, whenNotPaused_ok hpaused, Nat.pos_of_ne_zero hn, by simpa using hexit,
    by simpa using hstale, Nat.le_of_not_lt hfree, Nat.le_of_not_lt hceil,
    Nat.le_of_not_lt hwindow, t, ht, rfl⟩

/-- The credited part of a return, and the anchor, both saturate. -/
theorem agentReturn_ok {n : Nat} (h : v.agentReturn msg s n = .ok s') :
    0 < n ∧ ∃ t, s.usdc.transferFrom v.self msg.sender v.self n = .ok t ∧ s' = { s with
      usdc := t
      deployedAssets := s.deployedAssets - min n s.deployedAssets
      navEpochAnchor := s.navEpochAnchor - min n s.deployedAssets
      log := s.log ++ [.agentReturned n (s.deployedAssets - min n s.deployedAssets)] } := by
  simp only [agentReturn, bind_eq_ok, revertIf_eq_ok, pure_eq_ok] at h
  obtain ⟨-, hn, s₁, hpull, rfl⟩ := h
  obtain ⟨t, ht, rfl⟩ := pullAssets_ok hpull
  have hcredited : (if n < s.deployedAssets then n else s.deployedAssets) =
      min n s.deployedAssets := by split <;> omega
  have hanchor : ∀ k, (if s.navEpochAnchor > k then s.navEpochAnchor - k else 0) =
      s.navEpochAnchor - k := fun k => by split <;> omega
  simp only [hcredited, hanchor]
  exact ⟨Nat.pos_of_ne_zero hn, t, ht, rfl⟩

theorem donate_ok {n : Nat} (h : v.donate msg s n = .ok s') :
    0 < n ∧ ∃ lead, lead = v.accrueFees msg.timestamp s ∧
      ∃ t, lead.usdc.transferFrom v.self msg.sender v.self n = .ok t ∧
      s' = { lead with
        usdc := t
        highWaterMarkPps := max lead.highWaterMarkPps (v.pricePerShare { lead with usdc := t })
        log := lead.log ++ [.donated msg.sender n (v.totalAssets { lead with usdc := t })] } := by
  simp only [donate, bind_eq_ok, revertIf_eq_ok, pure_eq_ok] at h
  obtain ⟨-, hn, s₁, hpull, rfl⟩ := h
  obtain ⟨t, ht, rfl⟩ := pullAssets_ok hpull
  refine ⟨Nat.pos_of_ne_zero hn, _, rfl, t, ht, ?_⟩
  generalize v.accrueFees msg.timestamp s = lead
  generalize v.pricePerShare { lead with usdc := t } = pps
  split
  next hlt => rw [Nat.max_eq_right (Nat.le_of_lt hlt), totalAssets_mark]; rfl
  next hle => rw [Nat.max_eq_left (Nat.le_of_not_lt hle)]; rfl

theorem checkNavDeviation_ok {n : Nat} {u : Unit} (h : checkNavDeviation s n = .ok u) :
    (s.deployedAssets = 0 → n = 0) ∧
      deviation n s.deployedAssets ≤
        mulDiv s.deployedAssets s.limits.val.maxNavDeviationBps bps .floor := by
  simp only [checkNavDeviation] at h
  split at h
  next hz =>
    obtain rfl : n = 0 := by simpa using h
    exact ⟨fun _ => rfl, by simp [deviation, hz]⟩
  next hne => exact ⟨fun hz => absurd hz hne, by simpa using h⟩

theorem checkNavEpoch_ok {n : Nat} {u : Unit} (h : checkNavEpoch s n = .ok u)
    (hanchor : 0 < s.navEpochAnchor) :
    deviation n s.navEpochAnchor ≤
      mulDiv s.navEpochAnchor s.limits.val.maxNavEpochDeviationBps bps .floor := by
  simpa [checkNavEpoch, Nat.ne_of_gt hanchor] using h

/-- The three states a report goes through: rolled, accrued, restated. -/
theorem reportNav_ok {d l o : Nat} (h : v.reportNav msg s d l o = .ok s') :
    s.hasRole .agent msg.sender ∧
      s.lastNavReportAt + s.limits.val.minNavReportInterval ≤ msg.timestamp ∧
      l ≤ v.risk.val.maxLeverageBps ∧ checkNavDeviation s d = .ok () ∧
      ∃ rolled, rolled = rollNavEpoch msg.timestamp s ∧ checkNavEpoch rolled d = .ok () ∧
      ∃ restated,
        restated = restateNav msg.timestamp (v.accrueFees msg.timestamp rolled) d l ∧
      s' = (v.accrueFees msg.timestamp restated).emit
        (.navReported d (v.totalAssets (v.accrueFees msg.timestamp restated))
          (v.pricePerShare (v.accrueFees msg.timestamp restated)) l o) := by
  simp only [reportNav, bind_eq_ok, revertIf_eq_ok, pure_eq_ok] at h
  obtain ⟨_, hrole, -, hsoon, -, hlev, _, hdev, _, hepoch, rfl⟩ := h
  exact ⟨onlyRole_ok hrole, Nat.le_of_not_lt hsoon, Nat.le_of_not_lt hlev, hdev, _, rfl, hepoch,
    _, rfl, rfl⟩

theorem reportActivity_ok {r : ActivityReport} (h : reportActivity msg s r = .ok s') :
    s.hasRole .agent msg.sender ∧ s' = recordActivity s r := by
  simp only [reportActivity, bind_eq_ok, pure_eq_ok] at h
  obtain ⟨_, hrole, rfl⟩ := h
  exact ⟨onlyRole_ok hrole, rfl⟩

theorem reportActivityBatch_ok {rs : List ActivityReport}
    (h : reportActivityBatch msg s rs = .ok s') :
    s.hasRole .agent msg.sender ∧ s' = rs.foldl recordActivity s := by
  simp only [reportActivityBatch, bind_eq_ok, pure_eq_ok] at h
  obtain ⟨_, hrole, rfl⟩ := h
  exact ⟨onlyRole_ok hrole, rfl⟩

theorem setLimits_ok {l : Limits} (h : v.setLimits msg s l = .ok s') :
    s.hasRole .defaultAdmin msg.sender ∧
      ∃ lead, lead = v.accrueFees msg.timestamp s ∧
      ∃ hl : l.Valid, s' = { lead with
        limits := ⟨l, hl⟩
        log := lead.log ++ [.limitsUpdated l] } := by
  simp only [setLimits, bind_eq_ok, pure_eq_ok, validateLimits] at h
  obtain ⟨_, hrole, next, hvalid, rfl⟩ := h
  split at hvalid
  next hl =>
    obtain rfl := Except.ok.inj hvalid
    exact ⟨onlyRole_ok hrole, _, rfl, hl, rfl⟩
  next => cases hvalid

theorem setInsuranceFund_ok {a : Address} (h : v.setInsuranceFund msg s a = .ok s') :
    s.hasRole .defaultAdmin msg.sender ∧
      ∃ lead, lead = v.accrueFees msg.timestamp s ∧
      ∃ ha : a ≠ 0, s' = { lead with
        insuranceFund := ⟨a, ha⟩
        log := lead.log ++ [.insuranceFundUpdated a] } := by
  simp only [setInsuranceFund, bind_eq_ok, pure_eq_ok, nonzeroAddress] at h
  obtain ⟨_, hrole, next, hnext, rfl⟩ := h
  split at hnext
  next ha =>
    obtain rfl := Except.ok.inj hnext
    exact ⟨onlyRole_ok hrole, _, rfl, ha, rfl⟩
  next => cases hnext

theorem setEmergencyExit_ok {b : Bool} (h : setEmergencyExit msg s b = .ok s') :
    s.hasRole .guardian msg.sender ∧ s' = { s with
      emergencyExit := b
      log := s.log ++ [.emergencyExitSet b] } := by
  simp only [setEmergencyExit, bind_eq_ok, pure_eq_ok] at h
  obtain ⟨_, hrole, rfl⟩ := h
  exact ⟨onlyRole_ok hrole, rfl⟩

theorem pause_ok (h : pause msg s = .ok s') :
    s.hasRole .guardian msg.sender ∧ s' = { s with
      paused := true
      log := s.log ++ [.paused msg.sender] } := by
  simp only [pause, bind_eq_ok, pure_eq_ok] at h
  obtain ⟨_, hrole, _, -, rfl⟩ := h
  exact ⟨onlyRole_ok hrole, rfl⟩

theorem unpause_ok (h : unpause msg s = .ok s') :
    s.hasRole .defaultAdmin msg.sender ∧ s' = { s with
      paused := false
      log := s.log ++ [.unpaused msg.sender] } := by
  simp only [unpause, bind_eq_ok, pure_eq_ok] at h
  obtain ⟨_, hrole, _, -, rfl⟩ := h
  exact ⟨onlyRole_ok hrole, rfl⟩

/-! ### Roles and construction -/

/-- Granting or revoking a role writes the role table and the log only. -/
theorem grantRoleUnchecked_rest (msg : Msg) (s : State) (role : Role) (a : Address) :
    grantRoleUnchecked msg s role a = { s with
      hasRole := (grantRoleUnchecked msg s role a).hasRole
      log := (grantRoleUnchecked msg s role a).log } := by
  simp only [grantRoleUnchecked]
  split <;> rfl

theorem revokeRoleUnchecked_rest (msg : Msg) (s : State) (role : Role) (a : Address) :
    revokeRoleUnchecked msg s role a = { s with
      hasRole := (revokeRoleUnchecked msg s role a).hasRole
      log := (revokeRoleUnchecked msg s role a).log } := by
  simp only [revokeRoleUnchecked]
  split <;> rfl

/-- A role call, whichever of the three it is, changes nothing but roles and log. -/
theorem roleCall_ok {role : Role} {a : Address}
    (h : grantRole msg s role a = .ok s' ∨ revokeRole msg s role a = .ok s' ∨
      renounceRole msg s role a = .ok s') :
    s' = { s with hasRole := s'.hasRole, log := s'.log } := by
  rcases h with h | h | h
  · simp only [grantRole, bind_eq_ok, pure_eq_ok] at h
    obtain ⟨-, -, rfl⟩ := h
    exact grantRoleUnchecked_rest msg s role a
  · simp only [revokeRole, bind_eq_ok, pure_eq_ok] at h
    obtain ⟨-, -, rfl⟩ := h
    exact revokeRoleUnchecked_rest msg s role a
  · simp only [renounceRole, bind_eq_ok, pure_eq_ok] at h
    obtain ⟨-, -, rfl⟩ := h
    exact revokeRoleUnchecked_rest msg s role a

/-- `_recordActivity`, once or in a batch, counts and logs only. -/
theorem foldl_recordActivity_rest (rs : List ActivityReport) (s : State) :
    rs.foldl recordActivity s = { s with
      activityCount := (rs.foldl recordActivity s).activityCount
      cumulativeNotional := (rs.foldl recordActivity s).cumulativeNotional
      cumulativeVenueFees := (rs.foldl recordActivity s).cumulativeVenueFees
      log := (rs.foldl recordActivity s).log } := by
  induction rs generalizing s with
  | nil => rfl
  | cons r rs ih => rw [List.foldl_cons, ih]; rfl

/-! ### Calls

A call answers with a state, whatever its entry point returns beside it. -/

theorem exec_usdc_ok {call : TokenCall} (h : v.exec msg s (.usdc call) = .ok s') :
    ∃ t, call.exec s.usdc msg.sender = .ok t ∧ s' = { s with usdc := t } := by
  simp only [exec, bind_eq_ok, mapError_eq_ok, pure_eq_ok] at h
  obtain ⟨t, hcall, rfl⟩ := h
  exact ⟨t, hcall, rfl⟩

theorem exec_shares_ok {call : TokenCall} (h : v.exec msg s (.shares call) = .ok s') :
    ∃ t, call.exec s.shares msg.sender = .ok t ∧
      s' = { s with shares := t, log := s.log ++ [call.event msg.sender] } := by
  simp only [exec, bind_eq_ok, mapError_eq_ok, pure_eq_ok] at h
  obtain ⟨t, hcall, rfl⟩ := h
  exact ⟨t, hcall, rfl⟩

theorem exec_deposit_ok {a : Nat} {r : Address} (h : v.exec msg s (.deposit a r) = .ok s') :
    ∃ n, v.deposit msg s a r = .ok (n, s') := snd_eq_ok h

theorem exec_mint_ok {n : Nat} {r : Address} (h : v.exec msg s (.mint n r) = .ok s') :
    ∃ a, v.mint msg s n r = .ok (a, s') := snd_eq_ok h

theorem exec_fulfillRedeem_ok {c : Address} {n : Nat}
    (h : v.exec msg s (.fulfillRedeem c n) = .ok s') :
    ∃ a, v.fulfillRedeem msg s c n = .ok (a, s') := snd_eq_ok h

theorem exec_redeem_ok {n : Nat} {r c : Address} (h : v.exec msg s (.redeem n r c) = .ok s') :
    ∃ a, v.redeem msg s n r c = .ok (a, s') := snd_eq_ok h

theorem exec_withdraw_ok {a : Nat} {r c : Address} (h : v.exec msg s (.withdraw a r c) = .ok s') :
    ∃ n, v.withdraw msg s a r c = .ok (n, s') := snd_eq_ok h

theorem exec_accrueFees_ok (h : v.exec msg s .accrueFees = .ok s') :
    v.accrueFees msg.timestamp s = s' := Except.ok.inj h

/-! ### Calls that administer the vault -/

/-- The state a call starts its own work in: fees accrued first, where it accrues. -/
def lead (v : LemonVault) (msg : Msg) (s : State) : Call → State
  | .deposit _ _ | .mint _ _ | .requestRedeem _ _ _ | .fulfillRedeem _ _ | .donate _
  | .accrueFees | .setLimits _ | .setInsuranceFund _ => v.accrueFees msg.timestamp s
  | .reportNav _ _ _ => v.accrueFees msg.timestamp (rollNavEpoch msg.timestamp s)
  | _ => s

/-- The calls that set an option, hand out a role or count activity, and do nothing else
once the fees are accrued. -/
def administers : Call → Bool
  | .reportActivity _ | .reportActivityBatch _ | .accrueFees | .setLimits _
  | .setInsuranceFund _ | .setEmergencyExit _ | .pause | .unpause | .grantRole _ _
  | .revokeRole _ _ | .renounceRole _ _ => true
  | _ => false

/-- Such a call accrues fees at most, and then writes options, roles, counters and the
log. -/
theorem exec_administers {call : Call} (hcall : administers call = true)
    (h : v.exec msg s call = .ok s') :
    FeeFrame s (v.lead msg s call) ∧ s' = { v.lead msg s call with
      insuranceFund := s'.insuranceFund
      limits := s'.limits
      emergencyExit := s'.emergencyExit
      activityCount := s'.activityCount
      cumulativeNotional := s'.cumulativeNotional
      cumulativeVenueFees := s'.cumulativeVenueFees
      paused := s'.paused
      hasRole := s'.hasRole
      log := s'.log } := by
  have hfees := accrueFees_frame (v := v) msg.timestamp s
  have hnone := FeeFrame.refl s
  cases call with
  | reportActivity r =>
      obtain ⟨-, rfl⟩ := reportActivity_ok h
      exact ⟨hnone, rfl⟩
  | reportActivityBatch rs =>
      obtain ⟨-, hs'⟩ := reportActivityBatch_ok h
      rw [foldl_recordActivity_rest] at hs'
      subst hs'
      exact ⟨hnone, rfl⟩
  -- these accrue fees
  | accrueFees =>
      obtain rfl := exec_accrueFees_ok h
      exact ⟨hfees, rfl⟩
  | setLimits l =>
      obtain ⟨-, lead, rfl, hl, rfl⟩ := setLimits_ok h
      exact ⟨hfees, rfl⟩
  | setInsuranceFund a =>
      obtain ⟨-, lead, rfl, ha, rfl⟩ := setInsuranceFund_ok h
      exact ⟨hfees, rfl⟩
  -- and these do not
  | setEmergencyExit b =>
      obtain ⟨-, rfl⟩ := setEmergencyExit_ok h
      exact ⟨hnone, rfl⟩
  | pause =>
      obtain ⟨-, rfl⟩ := pause_ok h
      exact ⟨hnone, rfl⟩
  | unpause =>
      obtain ⟨-, rfl⟩ := unpause_ok h
      exact ⟨hnone, rfl⟩
  | grantRole role a =>
      rw [roleCall_ok (.inl h)]
      exact ⟨hnone, rfl⟩
  | revokeRole role a =>
      rw [roleCall_ok (.inr (.inl h))]
      exact ⟨hnone, rfl⟩
  | renounceRole role a =>
      rw [roleCall_ok (.inr (.inr h))]
      exact ⟨hnone, rfl⟩
  | _ => cases hcall

/-! ### Calls that move no capital -/

/-- The storage the three capital calls share: what is deployed, the epoch and its
anchor, the report clock and the withdrawal window. -/
structure SameCapital (s s' : State) : Prop where
  deployedAssets : s'.deployedAssets = s.deployedAssets
  navEpochAnchor : s'.navEpochAnchor = s.navEpochAnchor
  navEpochStartedAt : s'.navEpochStartedAt = s.navEpochStartedAt
  lastNavReportAt : s'.lastNavReportAt = s.lastNavReportAt
  agentWindowStartedAt : s'.agentWindowStartedAt = s.agentWindowStartedAt
  agentWithdrawnInWindow : s'.agentWithdrawnInWindow = s.agentWithdrawnInWindow

theorem SameCapital.refl (s : State) : SameCapital s s := ⟨rfl, rfl, rfl, rfl, rfl, rfl⟩

theorem FeeFrame.sameCapital (h : FeeFrame s s') : SameCapital s s' := by
  rw [h.rest]; exact ⟨rfl, rfl, rfl, rfl, rfl, rfl⟩

theorem accrueFees_sameCapital (now : Nat) (s : State) : SameCapital s (v.accrueFees now s) :=
  (accrueFees_frame now s).sameCapital

theorem depositAssets_sameCapital {s₀ : State} {r : Address} {a n : Nat}
    (h₀ : SameCapital s₀ s) (h : v.depositAssets msg s r a n = .ok s') : SameCapital s₀ s' := by
  obtain ⟨t, -, -, rfl⟩ := depositAssets_ok h
  exact { h₀ with }

theorem claim_sameCapital {c r : Address} {n a : Nat} (h : v.claim msg s c r n a = .ok s') :
    SameCapital s s' := by
  obtain ⟨-, t, -, rfl⟩ := claim_ok h
  exact ⟨rfl, rfl, rfl, rfl, rfl, rfl⟩

/-- The three calls that move capital or restate it. -/
def movesCapital : Call → Bool
  | .agentWithdraw _ | .agentReturn _ | .reportNav _ _ _ => true
  | _ => false

theorem exec_sameCapital {call : Call} (hcall : movesCapital call = false)
    (h : v.exec msg s call = .ok s') : SameCapital s s' := by
  have hlead := accrueFees_sameCapital (v := v) msg.timestamp s
  cases hadmin : administers call with
  | true =>
      obtain ⟨hfees, hs'⟩ := exec_administers hadmin h
      rw [hs']
      exact { hfees.sameCapital with }
  | false =>
      cases call with
      | usdc call =>
          obtain ⟨t, -, rfl⟩ := exec_usdc_ok h
          exact ⟨rfl, rfl, rfl, rfl, rfl, rfl⟩
      | shares call =>
          obtain ⟨t, -, rfl⟩ := exec_shares_ok h
          exact ⟨rfl, rfl, rfl, rfl, rfl, rfl⟩
      -- these accrue fees first, which leaves the capital as it is
      | deposit a r =>
          obtain ⟨n, hdep⟩ := exec_deposit_ok h
          exact depositAssets_sameCapital hlead (deposit_ok hdep).2.2
      | mint n r =>
          obtain ⟨a, hmint⟩ := exec_mint_ok h
          exact depositAssets_sameCapital hlead (mint_ok hmint).2.2
      | setOperator op b =>
          obtain ⟨-, rfl⟩ := setOperator_ok h
          exact ⟨rfl, rfl, rfl, rfl, rfl, rfl⟩
      | requestRedeem n c o =>
          obtain ⟨-, -, -, lead, rfl, t, -, rfl⟩ := requestRedeem_ok h
          exact { hlead with }
      | fulfillRedeem c n =>
          obtain ⟨a, hful⟩ := exec_fulfillRedeem_ok h
          obtain ⟨-, -, lead, rfl, -, -, -, -, -, t, -, rfl⟩ := fulfillRedeem_ok hful
          exact { hlead with }
      | redeem n r c =>
          obtain ⟨a, hred⟩ := exec_redeem_ok h
          exact claim_sameCapital (redeem_ok hred).2.2.2.2
      | withdraw a r c =>
          obtain ⟨n, hwd⟩ := exec_withdraw_ok h
          exact claim_sameCapital (withdraw_ok hwd).2.2.2.2
      | donate n =>
          obtain ⟨-, lead, rfl, t, -, rfl⟩ := donate_ok h
          exact { hlead with }
      -- and these are the ones that move it
      | agentWithdraw | agentReturn | reportNav => cases hcall
      | _ => cases hadmin

/-- What an accepted report leaves of the capital storage. -/
theorem reportNav_capital {d l o : Nat} (h : v.reportNav msg s d l o = .ok s') :
    s'.deployedAssets = d ∧
      s'.navEpochAnchor = (rollNavEpoch msg.timestamp s).navEpochAnchor ∧
      s'.agentWindowStartedAt = s.agentWindowStartedAt ∧
      s'.agentWithdrawnInWindow = s.agentWithdrawnInWindow := by
  obtain ⟨-, -, -, -, rolled, hrolled, -, restated, hrestated, hs'⟩ := reportNav_ok h
  have hlast := accrueFees_sameCapital (v := v) msg.timestamp restated
  have hfirst := accrueFees_sameCapital (v := v) msg.timestamp rolled
  have hroll : rolled.agentWindowStartedAt = s.agentWindowStartedAt ∧
      rolled.agentWithdrawnInWindow = s.agentWithdrawnInWindow := by
    rw [hrolled, rollNavEpoch]; split <;> exact ⟨rfl, rfl⟩
  subst hs' hrestated
  refine ⟨hlast.1, ?_, ?_, ?_⟩
  · rw [← hrolled]; exact hlast.2.trans hfirst.2
  · exact hlast.5.trans (hfirst.5.trans hroll.1)
  · exact hlast.6.trans (hfirst.6.trans hroll.2)

end LemonVault

/-- What the constructor leaves, field by field: empty books, every clock at the
deployment, the mark at par. -/
structure Fresh (p : InitParams) (s : State) : Prop where
  usdc : s.usdc = p.asset
  shares : s.shares = emptyErc20
  deployedAssets : s.deployedAssets = 0
  claimableAssets : s.claimableAssets = 0
  navEpochAnchor : s.navEpochAnchor = 0
  navEpochStartedAt : s.navEpochStartedAt = p.deployedAt
  lastFeeAccrualAt : s.lastFeeAccrualAt = p.deployedAt
  agentWindowStartedAt : s.agentWindowStartedAt = p.deployedAt
  agentWithdrawnInWindow : s.agentWithdrawnInWindow = 0
  highWaterMarkPps : s.highWaterMarkPps = LemonVault.assetUnit
  redeem : s.redeem = fun _ => ⟨0, 0, 0, 0⟩
  totalPendingRedeemShares : s.totalPendingRedeemShares = 0
  isOperator : s.isOperator = fun _ _ => false

theorem initialState_fresh (p : InitParams) (fund : NonzeroAddress) (risk : ValidRiskProfile)
    (limits : ValidLimits) : Fresh p (initialState p fund risk limits) := by
  simp only [initialState]
  iterate 4 rw [LemonVault.grantRoleUnchecked_rest]
  constructor <;> rfl

/-- A construction that went through checked its arguments. -/
theorem construct_ok {p : InitParams} {v : LemonVault} (h : construct p = .ok (v, s)) :
    v.self = p.self ∧ ∃ fund risk limits, s = initialState p fund risk limits := by
  simp only [construct, bind_eq_ok, revertIf_eq_ok, pure_eq_ok, Prod.mk.injEq] at h
  obtain ⟨-, -, wallet, -, -, -, fund, -, risk, -, limits, -, rfl, rfl⟩ := h
  exact ⟨rfl, fund, risk, limits, rfl⟩

/-- Valid arguments construct. -/
theorem construct_of_valid {p : InitParams} (hadmin : p.admin ≠ 0) (hagent : p.agentWallet ≠ 0)
    (hguardian : p.guardian ≠ 0) (hfund : p.insuranceFund ≠ 0) (hr : p.risk.Valid)
    (hl : p.limits.Valid) :
    construct p = .ok (⟨p.self, ⟨_, hagent⟩, ⟨_, hr⟩⟩,
      initialState p ⟨_, hfund⟩ ⟨_, hr⟩ ⟨_, hl⟩) := by
  have ha : LemonVault.nonzeroAddress p.agentWallet = .ok ⟨_, hagent⟩ := dif_pos hagent
  have hf : LemonVault.nonzeroAddress p.insuranceFund = .ok ⟨_, hfund⟩ := dif_pos hfund
  have hv : LemonVault.validateLimits p.limits = .ok ⟨_, hl⟩ := dif_pos hl
  have hk : LemonVault.validateRiskProfile p.risk = .ok ⟨_, hr⟩ := dif_pos hr
  rw [construct, bind_of_ok (revertIf_of_not hadmin), bind_of_ok ha,
    bind_of_ok (revertIf_of_not hguardian), bind_of_ok hf, bind_of_ok hk, bind_of_ok hv]
  rfl

theorem Genesis.fresh {v : LemonVault} {w : World} (h : Genesis v w) :
    ∃ p, w.now = p.deployedAt ∧ v.self = p.self ∧ Fresh p w.state := by
  obtain ⟨p, hp, hnow⟩ := h.built
  obtain ⟨hself, fund, risk, limits, hs⟩ := construct_ok hp
  exact ⟨p, hnow, hself, hs ▸ initialState_fresh p fund risk limits⟩

end LemonMarket
