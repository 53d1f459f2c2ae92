import LemonMarket.Contracts.Mark

/-!
# LemonMarket.Contracts.ManagementFee

**What the rent comes to.** However often and by whatever call fees are accrued, the
management fee is charged on the time since the last accrual, in shares that dilute every
holder, the insurance fund with them. So the fund's part of the supply, virtual shares
included, grows by no more than the rate over the elapsed time each time
(`rent_dilutes`), and what it is worth is at most that part of the assets.

The part is the fund's of the supply, so the bound is on what it is charged: shares
burned against no assets raise every part that is left, the fund's among them, and so
does a fund that is replaced by a holder.
-/

namespace LemonMarket

open Lib

namespace LemonVault

variable {v : LemonVault} {s s' : State} {msg : Msg} {w w₀ : World} {now rate since : Nat}
  {tr : List (Transition World Tx)}

/-- The shares of the insurance fund. -/
def fundShares (s : State) : Nat := s.shares.balanceOf s.insuranceFund

/-- The shares a part of the supply is a part of. -/
def wholeSupply (s : State) : Nat := s.shares.totalSupply + virtualShares

/-! ### One accrual -/

/-- A fee of at most `rate` on the assets, minted to a part of the supply that was within
`paid`: the part after is within the two together. -/
theorem rent_dilutes {held minted supply fee left paid charge unit : Nat}
    (hleft : 0 < left) (hminted : minted * left ≤ fee * supply)
    (hcharge : fee * unit ≤ (fee + left) * charge) (hheld : held * unit ≤ paid * supply) :
    (held + minted) * unit ≤ (paid + charge) * (supply + minted) := by
  have hdiluted : minted * (fee + left) ≤ fee * (supply + minted) := by
    rw [Nat.mul_add, Nat.mul_add, Nat.add_comm, Nat.mul_comm minted fee]
    exact Nat.add_le_add_right hminted _
  have hrent : minted * unit ≤ charge * (supply + minted) := by
    refine Nat.le_of_mul_le_mul_left ?_ (show 0 < fee + left by omega)
    calc (fee + left) * (minted * unit) = minted * (fee + left) * unit := by ring
      _ ≤ fee * (supply + minted) * unit := Nat.mul_le_mul_right _ hdiluted
      _ = fee * unit * (supply + minted) := by ring
      _ ≤ (fee + left) * charge * (supply + minted) := Nat.mul_le_mul_right _ hcharge
      _ = (fee + left) * (charge * (supply + minted)) := by ring
  calc (held + minted) * unit = held * unit + minted * unit := Nat.add_mul _ _ _
    _ ≤ paid * supply + charge * (supply + minted) := Nat.add_le_add hheld hrent
    _ ≤ paid * (supply + minted) + charge * (supply + minted) :=
        Nat.add_le_add_right (Nat.mul_le_mul_left _ (Nat.le_add_right _ _)) _
    _ = (paid + charge) * (supply + minted) := (Nat.add_mul _ _ _).symm

/-- The fund's part of the supply is within the rate over the time accrued since. -/
def WithinRate (rate since : Nat) (s : State) : Prop :=
  fundShares s * (bps * year) ≤ rate * (s.lastFeeAccrualAt - since) * wholeSupply s

/-- What minting a fee leaves the fund, and of how many shares. -/
theorem mintFeeShares_fund (f : Nat) :
    fundShares (v.mintFeeShares s f) = fundShares s + v.feeShares s f ∧
      wholeSupply (v.mintFeeShares s f) = wholeSupply s + v.feeShares s f := by
  simp only [mintFeeShares]
  split
  next h => rw [h]; exact ⟨rfl, rfl⟩
  next =>
    refine ⟨Ledger.credit_self, ?_⟩
    exact Nat.add_right_comm _ _ _

theorem accrueManagementFee_within (elapsed : Nat) {paid : Nat}
    (hrate : s.limits.val.managementFeeBps ≤ rate)
    (h : fundShares s * (bps * year) ≤ paid * wholeSupply s) :
    fundShares (v.accrueManagementFee elapsed s) * (bps * year) ≤
      (paid + rate * elapsed) * wholeSupply (v.accrueManagementFee elapsed s) := by
  have hidle : fundShares s * (bps * year) ≤ (paid + rate * elapsed) * wholeSupply s :=
    h.trans (Nat.mul_le_mul_right _ (Nat.le_add_right _ _))
  rw [accrueManagementFee]
  split
  · obtain ⟨hfund, hwhole⟩ := mintFeeShares_fund (v := v) (s := s) (v.managementFeeAssets elapsed s)
    rw [hfund, hwhole]
    rcases Nat.eq_zero_or_pos (v.feeShares s (v.managementFeeAssets elapsed s)) with hnone | hsome
    · rw [hnone]
      exact hidle
    -- the shares minted for a charge are worth at most the charge after it
    · obtain ⟨-, hless⟩ := feeShares_pos hsome
      have hminted := feeShares_mul_le (v := v) (s := s) (v.managementFeeAssets elapsed s)
      have hcharge : v.managementFeeAssets elapsed s * (bps * year) ≤
          v.totalAssets s * (rate * elapsed) :=
        mulDiv_floor_mul_le.trans (Nat.mul_le_mul_left _ (Nat.mul_le_mul_right _ hrate))
      obtain ⟨left, hassets⟩ := Nat.exists_eq_add_of_le hless.le
      rw [hassets, Nat.add_sub_cancel_left] at hminted
      rw [hassets] at hcharge
      exact rent_dilutes (by omega) hminted hcharge h
  · exact hidle

/-- No performance fee falls due in an accrual: the price the rent leaves is not above the
mark. -/
def NoPerformance (v : LemonVault) (now : Nat) (s : State) : Prop :=
  ¬ v.FeeDue (v.accrueManagementFee (now - s.lastFeeAccrualAt) (s.setAccrualClock now))

instance (v : LemonVault) (now : Nat) (s : State) : Decidable (v.NoPerformance now s) :=
  inferInstanceAs (Decidable (¬ _))

/-- Without a performance fee the shares after an accrual are those the rent leaves. -/
theorem accrueFees_shares (hnone : v.NoPerformance now s) (hsupply : 0 < s.shares.totalSupply) :
    (v.accrueFees now s).shares =
      (v.accrueManagementFee (now - s.lastFeeAccrualAt) (s.setAccrualClock now)).shares := by
  obtain ⟨due, rfl, hshares, -⟩ := accrueFees_of_holders (v := v) now hsupply
  rw [hshares, accruePerformanceFee_idle hnone]

theorem accrueFees_within (hsince : since ≤ s.lastFeeAccrualAt) (hnow : s.lastFeeAccrualAt ≤ now)
    (hrate : s.limits.val.managementFeeBps ≤ rate) (hnone : v.NoPerformance now s)
    (h : WithinRate rate since s) : WithinRate rate since (v.accrueFees now s) := by
  have hframe := accrueFees_frame (v := v) now s
  have hfund : (v.accrueFees now s).insuranceFund = s.insuranceFund := by rw [hframe.rest]
  have htime : rate * (now - since) =
      rate * (s.lastFeeAccrualAt - since) + rate * (now - s.lastFeeAccrualAt) := by
    rw [← Nat.mul_add]
    congr 1
    omega
  rw [WithinRate, accrueFees_clock, htime]
  rcases Nat.eq_zero_or_pos s.shares.totalSupply with hempty | hholders
  -- with no holders only the clock moves
  · rw [accrueFees_of_empty hempty]
    exact h.trans (Nat.mul_le_mul_right _ (Nat.le_add_right _ _))
  · have hrent := accrueManagementFee_within (v := v) (s := s.setAccrualClock now)
      (now - s.lastFeeAccrualAt) hrate h
    have hsame : ((v.accrueManagementFee (now - s.lastFeeAccrualAt)
        (s.setAccrualClock now)).insuranceFund) = s.insuranceFund := by
      rw [(accrueManagementFee_frame (v := v) _).rest]
      rfl
    simp only [fundShares, wholeSupply, hsame] at hrent
    simp only [fundShares, wholeSupply, hfund, accrueFees_shares hnone hholders]
    exact hrent

/-! ### One transaction -/

/-- The states a call accrues fees in. A report accrues before and after it restates. -/
def accrualStates (v : LemonVault) (msg : Msg) (s : State) : Call → List State
  | .reportNav d l _ =>
      let rolled := rollNavEpoch msg.timestamp s
      [rolled, restateNav msg.timestamp (v.accrueFees msg.timestamp rolled) d l]
  | call => if accrues call then [s] else []

/-- A transaction charges rent at most: at a rate of at most `rate`, with no performance
fee due, and apart from what it accrues it raises the fund's part of the supply by nothing. -/
structure RentOnly (v : LemonVault) (rate : Nat) (t : Transition World Tx) : Prop where
  rate : t.pre.state.limits.val.managementFeeBps ≤ rate
  noPerformance : ∀ s ∈ v.accrualStates t.label.msg t.pre.state t.label.call,
    v.NoPerformance t.label.msg.timestamp s
  noWindfall : fundShares t.post.state * wholeSupply (v.lead t.label.msg t.pre.state t.label.call) ≤
    fundShares (v.lead t.label.msg t.pre.state t.label.call) * wholeSupply t.post.state

/-- The accrual a call starts with keeps the fund's part within the rate. -/
theorem lead_within {call : Call} (hsince : since ≤ s.lastFeeAccrualAt)
    (hnow : s.lastFeeAccrualAt ≤ msg.timestamp) (hrate : s.limits.val.managementFeeBps ≤ rate)
    (hnone : ∀ s₁ ∈ v.accrualStates msg s call, v.NoPerformance msg.timestamp s₁)
    (h : WithinRate rate since s) :
    WithinRate rate since (v.lead msg s call) ∧ since ≤ (v.lead msg s call).lastFeeAccrualAt ∧
      (v.lead msg s call).lastFeeAccrualAt ≤ msg.timestamp := by
  have haccrual : v.NoPerformance msg.timestamp s →
      WithinRate rate since (v.accrueFees msg.timestamp s) ∧
        since ≤ (v.accrueFees msg.timestamp s).lastFeeAccrualAt ∧
        (v.accrueFees msg.timestamp s).lastFeeAccrualAt ≤ msg.timestamp := by
    intro hnone
    rw [accrueFees_clock]
    exact ⟨accrueFees_within hsince hnow hrate hnone h, hsince.trans hnow, le_rfl⟩
  cases call with
  | deposit | mint | requestRedeem | fulfillRedeem | donate | accrueFees | setLimits
  | setInsuranceFund => exact haccrual (hnone s (List.mem_singleton_self s))
  -- a report accrues after its epoch is rolled over, which charges nothing
  | reportNav =>
      have hrolled : ∃ started anchor, rollNavEpoch msg.timestamp s =
          { s with navEpochStartedAt := started, navEpochAnchor := anchor } := by
        rw [rollNavEpoch]
        split <;> exact ⟨_, _, rfl⟩
      have hfirst := hnone _ List.mem_cons_self
      obtain ⟨started, anchor, hsame⟩ := hrolled
      simp only [lead]
      rw [hsame] at hfirst ⊢
      rw [accrueFees_clock]
      exact ⟨accrueFees_within hsince hnow hrate hfirst h, hsince.trans hnow, le_rfl⟩
  | _ => exact ⟨h, hsince, hnow⟩

/-- What a transaction does apart from its accrual does not raise the fund's part. -/
theorem WithinRate.of_noWindfall (hclock : s'.lastFeeAccrualAt = s.lastFeeAccrualAt)
    (hpart : fundShares s' * wholeSupply s ≤ fundShares s * wholeSupply s')
    (h : WithinRate rate since s) : WithinRate rate since s' := by
  rw [WithinRate, hclock]
  refine Nat.le_of_mul_le_mul_right ?_ (supply_pos s)
  calc fundShares s' * (bps * year) * wholeSupply s
      = fundShares s' * wholeSupply s * (bps * year) := Nat.mul_right_comm _ _ _
    _ ≤ fundShares s * wholeSupply s' * (bps * year) := Nat.mul_le_mul_right _ hpart
    _ = fundShares s * (bps * year) * wholeSupply s' := Nat.mul_right_comm _ _ _
    _ ≤ rate * (s.lastFeeAccrualAt - since) * wholeSupply s * wholeSupply s' :=
        Nat.mul_le_mul_right _ h
    _ = rate * (s.lastFeeAccrualAt - since) * wholeSupply s' * wholeSupply s :=
        Nat.mul_right_comm _ _ _

/-- A transaction that charges rent at most keeps the fund's part within the rate. -/
theorem next_within {w' : World} {tx : Tx} (hn : v.next w tx = some w')
    (hrent : RentOnly v rate ⟨w, tx, w'⟩) (hsince : since ≤ w.state.lastFeeAccrualAt)
    (hclock : w.state.lastFeeAccrualAt ≤ w.now) (h : WithinRate rate since w.state) :
    WithinRate rate since w'.state ∧ since ≤ w'.state.lastFeeAccrualAt ∧
      w'.state.lastFeeAccrualAt ≤ w'.now := by
  obtain ⟨hnow, -, hat, he⟩ := next_eq_some hn
  obtain ⟨hlead, hfrom, hto⟩ := lead_within hsince (hclock.trans hnow) hrent.rate
    hrent.noPerformance h
  have hkept := (exec_keepsMark he).clock
  rw [hkept, hat]
  exact ⟨hlead.of_noWindfall hkept hrent.noWindfall, hfrom, hto⟩

/-! ### Which calls are no windfall -/

/-- The calls that, apart from accruing, burn no shares, pay none to the fund and do not
replace it. -/
def sparesFund (v : LemonVault) (fund : Address) : Call → Bool
  | .shares (.transfer r _) | .shares (.transferFrom _ r _) | .deposit _ r | .mint _ r => r ≠ fund
  | .requestRedeem _ _ _ => v.self.val ≠ fund
  | .setInsuranceFund next => next = fund
  | .fulfillRedeem _ _ => false
  | _ => true

/-- `s'` holds no more shares for the fund than `s`, out of at least as many. -/
structure Spared (s s' : State) : Prop where
  fund : fundShares s' ≤ fundShares s
  whole : wholeSupply s ≤ wholeSupply s'

theorem Spared.refl (s : State) : Spared s s := ⟨le_rfl, le_rfl⟩

theorem Spared.noWindfall (h : Spared s s') :
    fundShares s' * wholeSupply s ≤ fundShares s * wholeSupply s' :=
  Nat.mul_le_mul h.fund h.whole

/-- Moving shares to another account than the fund. -/
theorem Spared.moved {t : Erc20 Address} {a b : Address} {n : Nat}
    {hn : n ≤ s.shares.ledger.balance a} (hfund : s'.insuranceFund = s.insuranceFund)
    (hb : b ≠ s.insuranceFund) (ht : t.ledger = s.shares.ledger.move a b n hn)
    (hs' : s'.shares = t) : Spared s s' := by
  constructor
  · rw [fundShares, fundShares, hfund, hs', Erc20.balanceOf, Erc20.balanceOf, ht]
    by_cases ha : (s.insuranceFund : Address) = a
    · rw [ha, Ledger.move_from hn (ha ▸ hb.symm)]
      exact Nat.sub_le _ _
    · rw [Ledger.move_of_ne hn ha hb.symm]
  · rw [wholeSupply, wholeSupply, hs', Erc20.totalSupply, Erc20.totalSupply, ht]
    exact le_rfl

theorem depositAssets_spared {r : Address} {a n : Nat} (hr : r ≠ s.insuranceFund)
    (h : v.depositAssets msg s r a n = .ok s') : Spared s s' := by
  obtain ⟨t, -, -, rfl⟩ := depositAssets_ok h
  exact ⟨(Ledger.credit_of_ne hr.symm).le, Nat.add_le_add_right (Nat.le_add_right _ _) _⟩

theorem claim_spared {c r : Address} {n a : Nat} (h : v.claim msg s c r n a = .ok s') :
    Spared s s' := by
  obtain ⟨-, t, -, rfl⟩ := claim_ok h
  exact ⟨Nat.le_refl (fundShares s), Nat.le_refl (wholeSupply s)⟩

/-- Administering the vault moves no shares. -/
theorem administers_spared {call : Call} (hadmin : administers call = true)
    (hspares : v.sparesFund s.insuranceFund call = true) (h : v.exec msg s call = .ok s') :
    Spared (v.lead msg s call) s' := by
  have hfund : ((v.lead msg s call).insuranceFund : Address) = s.insuranceFund := by
    rw [(exec_administers hadmin h).1.rest]
  obtain ⟨-, hs'⟩ := exec_administers hadmin h
  have hshares : s'.shares = (v.lead msg s call).shares := by rw [hs']
  suffices hsame : (s'.insuranceFund : Address) = s.insuranceFund by
    constructor
    · rw [fundShares, fundShares, hshares, hsame, hfund]
    · rw [wholeSupply, wholeSupply, hshares]
  -- only one of them names another fund, and that is ruled out
  cases call with
  | reportActivity r =>
      obtain ⟨-, rfl⟩ := reportActivity_ok h
      rfl
  | reportActivityBatch rs =>
      rw [(reportActivityBatch_ok h).2, foldl_recordActivity_rest]
  | accrueFees =>
      obtain rfl := exec_accrueFees_ok h
      exact hfund
  | setLimits l =>
      obtain ⟨-, lead, rfl, hl, rfl⟩ := setLimits_ok h
      exact hfund
  | setInsuranceFund a =>
      obtain ⟨-, lead, rfl, ha, rfl⟩ := setInsuranceFund_ok h
      simpa [sparesFund] using hspares
  | setEmergencyExit b =>
      obtain ⟨-, rfl⟩ := setEmergencyExit_ok h
      rfl
  | pause =>
      obtain ⟨-, rfl⟩ := pause_ok h
      rfl
  | unpause =>
      obtain ⟨-, rfl⟩ := unpause_ok h
      rfl
  | grantRole role a => rw [roleCall_ok (.inl h)]
  | revokeRole role a => rw [roleCall_ok (.inr (.inl h))]
  | renounceRole role a => rw [roleCall_ok (.inr (.inr h))]
  | _ => cases hadmin

/-- A report accrues again on what it restated, at the same time: with no performance fee
due it mints nothing more. -/
theorem reportNav_spared {d l o : Nat} (h : v.reportNav msg s d l o = .ok s')
    (hnone : ∀ s₁ ∈ v.accrualStates msg s (.reportNav d l o), v.NoPerformance msg.timestamp s₁) :
    Spared (v.lead msg s (.reportNav d l o)) s' := by
  obtain ⟨-, -, -, -, rolled, rfl, -, restated, hrestated, rfl⟩ := reportNav_ok h
  have hsecond : v.NoPerformance msg.timestamp restated :=
    hrestated ▸ hnone _ (List.mem_cons_of_mem _ (List.mem_singleton_self _))
  -- the second accrual is in the same second, so it rents nothing
  have hclock : msg.timestamp - restated.lastFeeAccrualAt = 0 := by
    rw [hrestated]
    exact Nat.sub_eq_zero_of_le accrueFees_clock.ge
  have hfund : (v.accrueFees msg.timestamp restated).insuranceFund = restated.insuranceFund := by
    rw [(accrueFees_frame (v := v) msg.timestamp restated).rest]
  have hshares : (v.accrueFees msg.timestamp restated).shares = restated.shares := by
    rcases Nat.eq_zero_or_pos restated.shares.totalSupply with hempty | hholders
    · rw [accrueFees_of_empty hempty]
      rfl
    · rw [accrueFees_shares hsecond hholders, hclock, accrueManagementFee_idle (.inl rfl)]
      rfl
  have hsame : Spared restated ((v.accrueFees msg.timestamp restated).emit
      (.navReported d (v.totalAssets (v.accrueFees msg.timestamp restated))
        (v.pricePerShare (v.accrueFees msg.timestamp restated)) l o)) := by
    constructor
    · simp only [fundShares, State.emit, hshares, hfund]
      exact le_rfl
    · simp only [wholeSupply, State.emit_shares, hshares]
      exact le_rfl
  rw [hrestated] at hsame ⊢
  exact ⟨hsame.fund, hsame.whole⟩

/-- A call that spares the fund is no windfall to it. -/
theorem exec_spared {call : Call} (hspares : v.sparesFund s.insuranceFund call = true)
    (hnone : ∀ s₁ ∈ v.accrualStates msg s call, v.NoPerformance msg.timestamp s₁)
    (h : v.exec msg s call = .ok s') : Spared (v.lead msg s call) s' := by
  have hfund : ((v.accrueFees msg.timestamp s).insuranceFund : Address) = s.insuranceFund := by
    rw [(accrueFees_frame (v := v) msg.timestamp s).rest]
  cases hadmin : administers call with
  | true => exact administers_spared hadmin hspares h
  | false =>
      cases call with
      | usdc call =>
          obtain ⟨t, -, rfl⟩ := exec_usdc_ok h
          exact ⟨Nat.le_refl (fundShares s), Nat.le_refl (wholeSupply s)⟩
      | shares call =>
          obtain ⟨t, hcall, rfl⟩ := exec_shares_ok h
          cases call with
          -- shares that move do not move to the fund
          | transfer r n =>
              obtain ⟨hn, ht⟩ := Erc20.transferBetween_ok hcall
              have hr : r ≠ s.insuranceFund := by simpa [sparesFund] using hspares
              have hledger : t.ledger = s.shares.ledger.move msg.sender r n hn := by rw [ht]
              have hmoved : Spared s { s with shares := t } := Spared.moved rfl hr hledger rfl
              exact ⟨hmoved.fund, hmoved.whole⟩
          | transferFrom o r n =>
              obtain ⟨hn, hledger, -⟩ := Erc20.transferFrom_ok hcall
              have hr : r ≠ s.insuranceFund := by simpa [sparesFund] using hspares
              have hmoved : Spared s { s with shares := t } := Spared.moved rfl hr hledger rfl
              exact ⟨hmoved.fund, hmoved.whole⟩
          | approve spender n =>
              obtain rfl := Erc20.approve_ok hcall
              exact ⟨Nat.le_refl (fundShares s), Nat.le_refl (wholeSupply s)⟩
      -- new shares, and shares in escrow, are not the fund's either
      | deposit a r =>
          obtain ⟨n, hdep⟩ := exec_deposit_ok h
          exact depositAssets_spared (hfund ▸ by simpa [sparesFund] using hspares)
            (deposit_ok hdep).2.2
      | mint n r =>
          obtain ⟨a, hmint⟩ := exec_mint_ok h
          exact depositAssets_spared (hfund ▸ by simpa [sparesFund] using hspares)
            (mint_ok hmint).2.2
      | setOperator op b =>
          obtain ⟨-, rfl⟩ := setOperator_ok h
          exact ⟨Nat.le_refl (fundShares s), Nat.le_refl (wholeSupply s)⟩
      | requestRedeem n c o =>
          obtain ⟨-, -, -, lead, rfl, t, ht, rfl⟩ := requestRedeem_ok h
          obtain ⟨hn, rfl⟩ := Erc20.transferBetween_ok ht
          exact Spared.moved rfl (hfund ▸ by simpa [sparesFund] using hspares) rfl rfl
      -- USDC that moves leaves the shares alone
      | redeem n r c =>
          obtain ⟨a, hred⟩ := exec_redeem_ok h
          exact claim_spared (redeem_ok hred).2.2.2.2
      | withdraw a r c =>
          obtain ⟨n, hwd⟩ := exec_withdraw_ok h
          exact claim_spared (withdraw_ok hwd).2.2.2.2
      | agentWithdraw n =>
          obtain ⟨-, -, -, -, -, -, -, -, t, -, rfl⟩ := agentWithdraw_ok h
          exact ⟨Nat.le_refl (fundShares s), Nat.le_refl (wholeSupply s)⟩
      | agentReturn n =>
          obtain ⟨-, t, -, rfl⟩ := agentReturn_ok h
          exact ⟨Nat.le_refl (fundShares s), Nat.le_refl (wholeSupply s)⟩
      | donate n =>
          obtain ⟨-, lead, rfl, t, -, rfl⟩ := donate_ok h
          exact ⟨Nat.le_refl (fundShares (v.accrueFees _ s)),
            Nat.le_refl (wholeSupply (v.accrueFees _ s))⟩
      | reportNav d l o => exact reportNav_spared h hnone
      | fulfillRedeem c n => cases hspares
      | _ => cases hadmin

theorem rentOnly_of_spares {w' : World} {tx : Tx} (hn : v.next w tx = some w')
    (hrate : w.state.limits.val.managementFeeBps ≤ rate)
    (hnone : ∀ s ∈ v.accrualStates tx.msg w.state tx.call, v.NoPerformance tx.msg.timestamp s)
    (hspares : v.sparesFund w.state.insuranceFund tx.call = true) :
    RentOnly v rate ⟨w, tx, w'⟩ :=
  ⟨hrate, hnone, (exec_spared hspares hnone (next_eq_some hn).2.2.2).noWindfall⟩

/-! ### Runs -/

theorem lead_clock_le {call : Call} (hclock : s.lastFeeAccrualAt ≤ msg.timestamp) :
    (v.lead msg s call).lastFeeAccrualAt ≤ msg.timestamp := by
  have haccrued : ∀ s₁, (v.accrueFees msg.timestamp s₁).lastFeeAccrualAt ≤ msg.timestamp := by
    intro s₁
    rw [accrueFees_clock]
  cases call <;> simp only [lead, haccrued, hclock]

/-- No reachable state has accrued fees past its time. -/
theorem accrualClock_le_now (hw : Reachable v w) : w.state.lastFeeAccrualAt ≤ w.now := by
  obtain ⟨w₀, tr, hgenesis, hrun⟩ := hw
  refine (hrun.invariant (I := fun w => w.state.lastFeeAccrualAt ≤ w.now) ?_ ?_).1
  · obtain ⟨p, hnow, -, hfresh⟩ := hgenesis.fresh
    rw [hfresh.lastFeeAccrualAt, hnow]
  · intro w tx w' hclock hn
    obtain ⟨hnow, -, hat, he⟩ := next_eq_some hn
    have hlead : (v.lead tx.msg w.state tx.call).lastFeeAccrualAt ≤ tx.msg.timestamp :=
      lead_clock_le (hclock.trans hnow)
    rw [(exec_keepsMark he).clock, hat]
    exact hlead

/-- **The rent never exceeds its rate.** Along every run from a reachable state in which the
fund holds no shares, whose transactions charge rent of at most `rate` and are no windfall
to the fund, what its shares are worth is at most that rate on the assets over the time
accrued. -/
theorem management_fee_within_rate (hw : Reachable v w₀) (hfund : fundShares w₀.state = 0)
    (hrun : Run v.next w₀ tr w) (hrent : ∀ t ∈ tr, RentOnly v rate t) :
    v.convertToAssets w.state (fundShares w.state) .floor * (bps * year) ≤
      (v.totalAssets w.state + 1) * rate *
        (w.state.lastFeeAccrualAt - w₀.state.lastFeeAccrualAt) := by
  have hstart : WithinRate rate w₀.state.lastFeeAccrualAt w₀.state := by
    rw [WithinRate, hfund, Nat.zero_mul]
    exact Nat.zero_le _
  have hkept := hrun.invariant_of (P := RentOnly v rate)
    (I := fun w : World => WithinRate rate w₀.state.lastFeeAccrualAt w.state ∧
      w₀.state.lastFeeAccrualAt ≤ w.state.lastFeeAccrualAt ∧ w.state.lastFeeAccrualAt ≤ w.now)
    hrent ⟨hstart, le_rfl, accrualClock_le_now hw⟩
    (fun w tx w' hrent hI hn => next_within hn hrent hI.2.1 hI.2.2 hI.1)
  have hwithin := hkept.1.1
  rw [WithinRate] at hwithin
  generalize w.state.lastFeeAccrualAt - w₀.state.lastFeeAccrualAt = elapsed at hwithin ⊢
  -- worth is by the supply with the virtual shares, rounded down
  have hvalue : v.convertToAssets w.state (fundShares w.state) .floor * wholeSupply w.state ≤
      fundShares w.state * (v.totalAssets w.state + 1) := convertToAssets_mul_le
  refine Nat.le_of_mul_le_mul_right ?_ (supply_pos w.state)
  calc v.convertToAssets w.state (fundShares w.state) .floor * (bps * year) * wholeSupply w.state
      = v.convertToAssets w.state (fundShares w.state) .floor * wholeSupply w.state *
          (bps * year) := Nat.mul_right_comm _ _ _
    _ ≤ fundShares w.state * (v.totalAssets w.state + 1) * (bps * year) :=
        Nat.mul_le_mul_right _ hvalue
    _ = (v.totalAssets w.state + 1) * (fundShares w.state * (bps * year)) := by ring
    _ ≤ (v.totalAssets w.state + 1) * (rate * elapsed * wholeSupply w.state) :=
        Nat.mul_le_mul_left _ hwithin
    _ = (v.totalAssets w.state + 1) * rate * elapsed * wholeSupply w.state := by ring

/-- The highest management fee the contract allows, and no performance fee. -/
def onlyManagement : ValidLimits :=
  ⟨{ Test.defaultLimits.val with managementFeeBps := 500, performanceFeeBps := 0 }, by decide⟩

/-- A thousand USDC, accrued by anyone, by a report and by a request. -/
def rent : List Tx :=
  [Test.tx Test.bob (180 * 86400) .accrueFees,
   Test.tx Test.agent (365 * 86400) (.reportNav 0 10000 0),
   Test.tx Test.alice (400 * 86400) (.requestRedeem (10 ^ 18) Test.alice Test.alice)]

/-- The vault before them. -/
def thousandIn : World :=
  Test.after onlyManagement Test.conservativeRisk
    [Test.tx Test.alice 0 (.deposit (1000 * 10 ^ 6) Test.alice)] (by rfl)

theorem rent_isSome :
    (trace (Test.lemonVault Test.conservativeRisk).next thousandIn rent).isSome := by rfl

/-- Four hundred days' rent on the thousand is worth less than 54.8 USDC. -/
theorem management_fee_within_rate_rent :
    (Test.lemonVault Test.conservativeRisk).convertToAssets (Option.get _ rent_isSome).2.state
        (fundShares (Option.get _ rent_isSome).2.state) .floor * (bps * year) ≤
      (1000 * 10 ^ 6 + 1) * 500 * (400 * 86400) := by
  have hrun := trace_run (Option.some_get rent_isSome).symm
  exact management_fee_within_rate (Test.reachable_after _) (by decide) hrun fun t ht =>
    rentOnly_of_spares (hrun.step_of_mem t ht) (by decide +revert) (by decide +revert)
      (by decide +revert)

/-- Ten units of USDC, and all their shares put up for redemption. -/
def dust : World :=
  Test.after onlyManagement Test.conservativeRisk
    [Test.tx Test.alice 0 (.deposit 10 Test.alice),
     Test.tx Test.alice 0 (.requestRedeem (10 ^ 13) Test.alice Test.alice)] (by rfl)

/-- Sixteen years' rent, and then half of them burned for nothing. -/
def burned : List Tx :=
  [Test.tx Test.agent (16 * 365 * 86400) (.reportNav 0 10000 0),
   Test.tx Test.agent (16 * 365 * 86400) (.fulfillRedeem Test.alice (5 * 10 ^ 12 - 1))]

theorem burned_isSome :
    (trace (Test.lemonVault Test.conservativeRisk).next dust burned).isSome := by rfl

/-- Nine units, where sixteen years at a twentieth of eleven come to 8.8: the fulfilment
accrues and leaves the assets alone, and the fund's part is of fewer shares. -/
theorem management_fee_exceeds_rate_burned :
    ¬ ∀ (v : LemonVault) (w₀ w : World) (tr : List (Transition World Tx)) (A rate : Nat),
      Reachable v w₀ → Run v.next w₀ tr w → fundShares w₀.state = 0 →
      (∀ m ∈ reached w₀ tr, v.totalAssets m.state = A ∧
        m.state.limits.val.managementFeeBps = rate) →
      (∀ t ∈ tr, accrues t.label.call = true ∧
        ∀ s ∈ v.accrualStates t.label.msg t.pre.state t.label.call,
          v.NoPerformance t.label.msg.timestamp s) →
      v.convertToAssets w.state (fundShares w.state) .floor * (bps * year) ≤
        (A + 1) * rate * (w.now - w₀.now) := by
  intro h
  have hrun := trace_run (Option.some_get burned_isSome).symm
  have hbound := h _ _ _ _ 10 500 (Test.reachable_after _) hrun (by decide) (by decide) (by decide)
  exact absurd hbound (by decide)

end LemonVault

end LemonMarket
