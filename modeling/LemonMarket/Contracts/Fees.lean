import LemonMarket.Contracts.Valuation

/-!
# LemonMarket.Contracts.Fees

**Fee accrual.** `_accrueFees` runs at the head of every priced operation: first
the management fee on the elapsed time, then the performance fee on the price
above the high-water mark, both taken as newly minted shares.

The accrual never fails, so it is a function on states. Callers do not unfold it:
`accrueFees_frame` says that everything but the share ledger, the mark, the clock
and the event log is untouched, and that the supply only grows.
-/

namespace LemonMarket

open Lib

namespace LemonVault

variable (v : LemonVault)

/-- The shares `_mintFeeShares` decides to mint for a fee. -/
def feeShares (s : State) (feeAssets : Nat) : Nat :=
  if feeAssets = 0 then 0
  else
    let assets := v.totalAssets s
    if assets = 0 ∨ feeAssets ≥ assets then 0
    else
      let supply := s.shares.totalSupply + virtualShares
      mulDiv feeAssets supply (assets - feeAssets) .floor

/-- `_mintFeeShares`, which returns `feeShares`. The fund is not the zero address, so
`_mint` does not revert. -/
def mintFeeShares (s : State) (feeAssets : Nat) : State :=
  let shares := v.feeShares s feeAssets
  if shares = 0 then s else s.issueShares s.insuranceFund shares

/-- Rent on the elapsed time. -/
def managementFeeAssets (elapsed : Nat) (s : State) : Nat :=
  mulDiv (v.totalAssets s) (s.limits.val.managementFeeBps * elapsed) (bps * year) .floor

/-- The `managementShares` of `_accrueFees`. -/
def managementShares (elapsed : Nat) (s : State) : Nat :=
  if elapsed > 0 ∧ s.limits.val.managementFeeBps > 0 then
    v.feeShares s (v.managementFeeAssets elapsed s)
  else 0

/-- The management half of `_accrueFees`. -/
def accrueManagementFee (elapsed : Nat) (s : State) : State :=
  if elapsed > 0 ∧ s.limits.val.managementFeeBps > 0 then
    v.mintFeeShares s (v.managementFeeAssets elapsed s)
  else s

/-- What the price stands above the mark, over the whole supply. -/
def gainAssets (s : State) : Nat :=
  mulDiv (v.pricePerShare s - s.highWaterMarkPps) s.shares.totalSupply priceUnit .floor

/-- The share of that gain the performance fee takes. -/
def performanceFeeAssets (s : State) : Nat :=
  mulDiv (v.gainAssets s) s.limits.val.performanceFeeBps bps .floor

/-- A performance fee is due: there is a rate, and the price is above the mark. -/
def FeeDue (s : State) : Prop :=
  s.limits.val.performanceFeeBps > 0 ∧ v.pricePerShare s > s.highWaterMarkPps

instance (s : State) : Decidable (v.FeeDue s) := inferInstanceAs (Decidable (_ ∧ _))

/-- The `performanceShares` of `_accrueFees`. -/
def performanceShares (s : State) : Nat :=
  if v.FeeDue s then v.feeShares s (v.performanceFeeAssets s) else 0

/-- The performance half: a fee on the price above the mark, and the mark re-read
after the mint has diluted it. -/
def accruePerformanceFee (s : State) : State :=
  if v.FeeDue s then
    let s := v.mintFeeShares s (v.performanceFeeAssets s)
    s.setMark (v.pricePerShare s)
  else s

/-- `_accrueFees`, which `accrueFees` exposes to anyone. -/
def accrueFees (now : Nat) (s : State) : State :=
  let elapsed := now - s.lastFeeAccrualAt
  let s := s.setAccrualClock now
  if s.shares.totalSupply = 0 then
    -- Nobody to dilute: the mark goes back to par for the next cohort.
    s.setMark assetUnit
  else
    let managementShares := v.managementShares elapsed s
    let s := v.accrueManagementFee elapsed s
    let performanceShares := v.performanceShares s
    let s := v.accruePerformanceFee s
    if managementShares > 0 ∨ performanceShares > 0 then
      s.emit (.feesAccrued managementShares performanceShares s.highWaterMarkPps)
    else s

/-! ### Minting a fee -/

variable {v} {s : State}

/-- The shares minted for a fee are worth at most the fee, after their own dilution. -/
theorem feeShares_mul_le (f : Nat) :
    v.feeShares s f * (v.totalAssets s - f) ≤ f * (s.shares.totalSupply + virtualShares) := by
  simp only [feeShares]
  split
  · simp
  · split
    · simp
    · exact mulDiv_floor_mul_le

/-- A fee that is charged is never the whole vault. -/
theorem feeShares_pos {f : Nat} (h : 0 < v.feeShares s f) : 0 < f ∧ f < v.totalAssets s := by
  simp only [feeShares] at h
  split at h
  · omega
  · split at h <;> omega

/-! ### What an accrual leaves alone -/

/-- `s'` is `s` but for the shares, the mark, the accrual clock and the log. -/
structure FeeFrame (s s' : State) : Prop where
  rest : s' = { s with
    shares := s'.shares
    highWaterMarkPps := s'.highWaterMarkPps
    lastFeeAccrualAt := s'.lastFeeAccrualAt
    log := s'.log }
  allowance : s'.shares.allowance = s.shares.allowance
  supply : s.shares.totalSupply ≤ s'.shares.totalSupply
  balance : ∀ a, s.shares.balanceOf a ≤ s'.shares.balanceOf a

theorem FeeFrame.refl (s : State) : FeeFrame s s :=
  ⟨rfl, rfl, Nat.le_refl _, fun _ => Nat.le_refl _⟩

theorem FeeFrame.trans {s₁ s₂ s₃ : State} (h₁ : FeeFrame s₁ s₂) (h₂ : FeeFrame s₂ s₃) :
    FeeFrame s₁ s₃ where
  rest := by rw [h₂.rest, h₁.rest]
  allowance := h₂.allowance.trans h₁.allowance
  supply := h₁.supply.trans h₂.supply
  balance a := (h₁.balance a).trans (h₂.balance a)

theorem FeeFrame.mark (s : State) (pps : Nat) : FeeFrame s (s.setMark pps) :=
  ⟨rfl, rfl, Nat.le_refl _, fun _ => Nat.le_refl _⟩

theorem FeeFrame.clock (s : State) (now : Nat) : FeeFrame s (s.setAccrualClock now) :=
  ⟨rfl, rfl, Nat.le_refl _, fun _ => Nat.le_refl _⟩

theorem FeeFrame.emit (s : State) (e : Event) : FeeFrame s (s.emit e) :=
  ⟨rfl, rfl, Nat.le_refl _, fun _ => Nat.le_refl _⟩

theorem FeeFrame.issue (s : State) (a : NonzeroAddress) (n : Nat) :
    FeeFrame s (s.issueShares a n) :=
  ⟨rfl, rfl, Nat.le_add_right _ _, fun _ => Ledger.le_credit⟩

theorem mintFeeShares_frame (f : Nat) : FeeFrame s (v.mintFeeShares s f) := by
  simp only [mintFeeShares]
  split
  · exact .refl s
  · exact .issue s _ _

theorem accrueManagementFee_frame (elapsed : Nat) :
    FeeFrame s (v.accrueManagementFee elapsed s) := by
  rw [accrueManagementFee]
  split
  · exact mintFeeShares_frame _
  · exact .refl s

theorem accruePerformanceFee_frame : FeeFrame s (v.accruePerformanceFee s) := by
  rw [accruePerformanceFee]
  split
  · exact (mintFeeShares_frame _).trans (.mark _ _)
  · exact .refl s

/-- **The accrual's frame.** -/
theorem accrueFees_frame (now : Nat) (s : State) : FeeFrame s (v.accrueFees now s) := by
  simp only [accrueFees]
  split
  · exact (FeeFrame.clock s now).trans (.mark _ _)
  · have hfees := ((FeeFrame.clock s now).trans (accrueManagementFee_frame (v := v)
      (now - s.lastFeeAccrualAt))).trans (accruePerformanceFee_frame (v := v))
    split
    · exact hfees.trans (.emit _ _)
    · exact hfees

theorem FeeFrame.usdc {s' : State} (h : FeeFrame s s') : s'.usdc = s.usdc := by rw [h.rest]

theorem accrueFees_usdc (now : Nat) : (v.accrueFees now s).usdc = s.usdc :=
  (accrueFees_frame now s).usdc

theorem accrueFees_redeem (now : Nat) : (v.accrueFees now s).redeem = s.redeem := by
  rw [(accrueFees_frame now s).rest]

theorem accrueFees_limits (now : Nat) : (v.accrueFees now s).limits = s.limits := by
  rw [(accrueFees_frame now s).rest]

theorem FeeFrame.freeAssets_eq {s' : State} (h : FeeFrame s s') :
    v.freeAssets s' = v.freeAssets s := by
  rw [h.rest]; rfl

theorem FeeFrame.totalAssets_eq {s' : State} (h : FeeFrame s s') :
    v.totalAssets s' = v.totalAssets s := by
  rw [h.rest]; rfl

/-- More shares over the same assets: no share gains from an accrual. -/
theorem FeeFrame.convertToAssets_le {s' : State} (h : FeeFrame s s') (shares : Nat) :
    v.convertToAssets s' shares .floor ≤ v.convertToAssets s shares .floor := by
  simp only [convertToAssets, mulDiv, h.totalAssets_eq]
  exact Nat.div_le_div_left (Nat.add_le_add_right h.supply _) (supply_pos s)

/-! ### What an accrual charges -/

/-- Rent that comes to no share is not taken. -/
theorem accrueManagementFee_of_none {elapsed : Nat} (h : v.managementShares elapsed s = 0) :
    v.accrueManagementFee elapsed s = s := by
  rw [accrueManagementFee]
  split
  next hrate =>
    rw [managementShares, if_pos hrate] at h
    exact if_pos h
  next => rfl

/-- No time, or no rate: no rent. -/
theorem accrueManagementFee_idle {elapsed : Nat}
    (h : elapsed = 0 ∨ s.limits.val.managementFeeBps = 0) :
    v.accrueManagementFee elapsed s = s := by
  have hno : ¬ (elapsed > 0 ∧ s.limits.val.managementFeeBps > 0) := by omega
  rw [accrueManagementFee, if_neg hno]

theorem accruePerformanceFee_idle (h : ¬ v.FeeDue s) : v.accruePerformanceFee s = s := if_neg h

/-- A fee that is due mints its shares and re-reads the mark. -/
theorem accruePerformanceFee_due (h : v.FeeDue s) : v.accruePerformanceFee s =
    (v.mintFeeShares s (v.performanceFeeAssets s)).setMark
      (v.pricePerShare (v.mintFeeShares s (v.performanceFeeAssets s))) := if_pos h

theorem mintFeeShares_totalSupply (f : Nat) :
    (v.mintFeeShares s f).shares.totalSupply = s.shares.totalSupply + v.feeShares s f := by
  simp only [mintFeeShares]
  split
  next h => rw [h, Nat.add_zero]
  next => rfl

theorem accrueManagementFee_totalSupply (elapsed : Nat) :
    (v.accrueManagementFee elapsed s).shares.totalSupply =
      s.shares.totalSupply + v.managementShares elapsed s := by
  rw [accrueManagementFee, managementShares]
  split
  · exact mintFeeShares_totalSupply _
  · rfl

theorem accruePerformanceFee_totalSupply :
    (v.accruePerformanceFee s).shares.totalSupply =
      s.shares.totalSupply + v.performanceShares s := by
  by_cases hdue : v.FeeDue s
  · rw [accruePerformanceFee_due hdue, State.setMark_shares, mintFeeShares_totalSupply,
      performanceShares, if_pos hdue]
  · rw [accruePerformanceFee_idle hdue, performanceShares, if_neg hdue, Nat.add_zero]

theorem mintFeeShares_totalAssets (f : Nat) :
    v.totalAssets (v.mintFeeShares s f) = v.totalAssets s := by
  simp only [mintFeeShares]
  split <;> rfl

/-- The price once a fee is minted: the same assets over the diluted supply. -/
theorem mintFeeShares_pricePerShare (f : Nat) :
    v.pricePerShare (v.mintFeeShares s f) =
      mulDiv priceUnit (v.totalAssets s + 1)
        (s.shares.totalSupply + v.feeShares s f + virtualShares) .floor := by
  rw [pricePerShare, convertToAssets, mintFeeShares_totalAssets, mintFeeShares_totalSupply]

/-- Rent leaves the mark where it is. -/
theorem accrueManagementFee_mark (elapsed : Nat) :
    (v.accrueManagementFee elapsed s).highWaterMarkPps = s.highWaterMarkPps := by
  simp only [accrueManagementFee, mintFeeShares]
  split
  · split <;> rfl
  · rfl

/-- With holders, an accrual is the rent and then the performance half: what is left to it
is the event. -/
theorem accrueFees_of_holders (now : Nat) (hsupply : 0 < s.shares.totalSupply) :
    ∃ due, due = v.accrueManagementFee (now - s.lastFeeAccrualAt) (s.setAccrualClock now) ∧
      (v.accrueFees now s).shares = (v.accruePerformanceFee due).shares ∧
      (v.accrueFees now s).highWaterMarkPps = (v.accruePerformanceFee due).highWaterMarkPps := by
  have hholders : (s.setAccrualClock now).shares.totalSupply ≠ 0 := Nat.ne_of_gt hsupply
  refine ⟨_, rfl, ?_⟩
  simp only [accrueFees, if_neg hholders]
  split
  · exact ⟨State.emit_shares _ _, State.emit_highWaterMarkPps _ _⟩
  · exact ⟨rfl, rfl⟩

/-- With holders and no rent due, an accrual is its performance half: same shares, same
mark, and the clock. -/
theorem accrueFees_of_no_rent (now : Nat) (hsupply : 0 < s.shares.totalSupply)
    (hrent : now ≤ s.lastFeeAccrualAt ∨ s.limits.val.managementFeeBps = 0) :
    (v.accrueFees now s).shares = (v.accruePerformanceFee (s.setAccrualClock now)).shares ∧
      (v.accrueFees now s).highWaterMarkPps =
        (v.accruePerformanceFee (s.setAccrualClock now)).highWaterMarkPps := by
  have hidle : now - s.lastFeeAccrualAt = 0 ∨
      (s.setAccrualClock now).limits.val.managementFeeBps = 0 :=
    hrent.imp (fun h => by omega) id
  obtain ⟨due, hdue, haccrued⟩ := accrueFees_of_holders (v := v) now hsupply
  rw [accrueManagementFee_idle hidle] at hdue
  exact hdue ▸ haccrued

/-- With nobody to dilute the mark goes back to par. -/
theorem accrueFees_of_empty {now : Nat} (hsupply : s.shares.totalSupply = 0) :
    v.accrueFees now s = (s.setAccrualClock now).setMark assetUnit := by
  have hempty : (s.setAccrualClock now).shares.totalSupply = 0 := hsupply
  simp only [accrueFees, if_pos hempty]

/-- An accrual mints nothing: there is nobody to charge, or neither the rent nor the fee on the
gain comes to a share. -/
def FeeFree (v : LemonVault) (now : Nat) (s : State) : Prop :=
  s.shares.totalSupply = 0 ∨
    v.managementShares (now - s.lastFeeAccrualAt) (s.setAccrualClock now) = 0 ∧
      v.performanceShares (s.setAccrualClock now) = 0

instance (now : Nat) (s : State) : Decidable (v.FeeFree now s) :=
  inferInstanceAs (Decidable (_ ∨ _))

theorem accrueFees_totalSupply_iff {now : Nat} :
    (v.accrueFees now s).shares.totalSupply = s.shares.totalSupply ↔ v.FeeFree now s := by
  rcases Nat.eq_zero_or_pos s.shares.totalSupply with hempty | hpos
  · rw [accrueFees_of_empty hempty]
    exact ⟨fun _ => .inl hempty, fun _ => rfl⟩
  · obtain ⟨due, hdue, hshares, -⟩ := accrueFees_of_holders (v := v) now hpos
    have hrent := accrueManagementFee_totalSupply (v := v) (s := s.setAccrualClock now)
      (now - s.lastFeeAccrualAt)
    rw [← hdue, State.setAccrualClock_shares] at hrent
    rw [hshares, accruePerformanceFee_totalSupply, hrent, Nat.add_assoc, Nat.add_eq_left,
      Nat.add_eq_zero_iff, FeeFree, or_iff_right hpos.ne']
    refine and_congr_right fun hnone => ?_
    rw [hdue, accrueManagementFee_of_none hnone]

/-- The performance half leaves the mark covering the price, where there is a rate. -/
theorem pricePerShare_le_mark_of_performance (hrate : 0 < s.limits.val.performanceFeeBps) :
    v.pricePerShare (v.accruePerformanceFee s) ≤ (v.accruePerformanceFee s).highWaterMarkPps := by
  by_cases hdue : v.FeeDue s
  · rw [accruePerformanceFee_due hdue, pricePerShare_mark, State.setMark_highWaterMarkPps]
  · rw [accruePerformanceFee_idle hdue]
    exact Nat.le_of_not_lt fun hlt => hdue ⟨hrate, hlt⟩

/-- After an accrual at a positive rate, with holders left, the mark covers the price. -/
theorem pricePerShare_le_mark_of_accrued {now : Nat}
    (hsupply : 0 < (v.accrueFees now s).shares.totalSupply)
    (hrate : 0 < s.limits.val.performanceFeeBps) :
    v.pricePerShare (v.accrueFees now s) ≤ (v.accrueFees now s).highWaterMarkPps := by
  rcases Nat.eq_zero_or_pos s.shares.totalSupply with h0 | hpos
  · rw [accrueFees_of_empty h0] at hsupply
    exact absurd h0 (Nat.ne_of_gt hsupply)
  · obtain ⟨due, hdue, hshares, hmark⟩ := accrueFees_of_holders (v := v) now hpos
    have hframe := accrueFees_frame (v := v) now s
    have hassets :
        v.totalAssets (v.accruePerformanceFee due) = v.totalAssets (v.accrueFees now s) := by
      rw [accruePerformanceFee_frame.totalAssets_eq, hframe.totalAssets_eq, hdue,
        (accrueManagementFee_frame (v := v) _).totalAssets_eq, totalAssets_clock]
    have hlimits : due.limits = s.limits := by
      rw [hdue, (accrueManagementFee_frame (v := v) _).rest]
      rfl
    have hlast := pricePerShare_le_mark_of_performance (v := v) (s := due)
      (by rw [hlimits]; exact hrate)
    rw [pricePerShare, convertToAssets, hassets, ← hshares, ← hmark] at hlast
    exact hlast

end LemonVault

end LemonMarket
