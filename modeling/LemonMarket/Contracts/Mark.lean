import LemonMarket.Contracts.Solvency
import LemonMarket.Contracts.Deployment

/-!
# LemonMarket.Contracts.Mark

**The high-water mark.** `_accrueFees` compares the price with the mark before it mints,
and sets the mark from the price after, which the mint has diluted and a floor has
rounded. What is minted is for at most three tenths of the gain, and the gain is over the
supply that is diluted; so the dilution stays above the mark the gain is measured from
(`mark_le_diluted`). A mark that is re-read is then never lowered, a donation carries it
up, and nothing else moves it but an accrual with nobody left to dilute.

After an accrual no fee is due at the price it leaves, and no time has passed: a second
one at the same time changes nothing at all.
-/

namespace LemonMarket

open Lib

namespace LemonVault

variable {v : LemonVault} {s s' : State} {msg : Msg} {w w₀ : World} {now : Nat}
  {tr : List (Transition World Tx)}

/-! ### Dilution stays above the mark -/

/-- A price of `mark + rise` over a supply of `supply`, diluted by the shares of a fee of at
most three tenths of the rise, stays at or above the mark. With `left` the assets without
the fee. -/
theorem mark_mul_diluted_le {mark rise supply minted fee left price : Nat} (hleft : 0 < left)
    (hfee : 0 < fee) (hprice : (mark + rise) * supply ≤ price * (fee + left + 1))
    (hminted : minted * left ≤ fee * supply) (hshare : 10 * (price * fee) ≤ 3 * (rise * supply)) :
    mark * (supply + minted) ≤ price * (fee + left + 1) := by
  refine Nat.le_of_mul_le_mul_right ?_ hleft
  -- what the fee takes of the assets is covered by the rise
  have hcovered : price * (fee + left + 1) * fee ≤ rise * supply * (fee + left) := by
    refine Nat.le_of_mul_le_mul_left ?_ (show 0 < 10 by decide)
    calc 10 * (price * (fee + left + 1) * fee) = 10 * (price * fee) * (fee + left + 1) := by ring
      _ ≤ 3 * (rise * supply) * (fee + left + 1) := Nat.mul_le_mul_right _ hshare
      _ = rise * supply * (3 * (fee + left + 1)) := by ring
      _ ≤ rise * supply * (10 * (fee + left)) := Nat.mul_le_mul_left _ (by omega)
      _ = 10 * (rise * supply * (fee + left)) := by ring
  have hdiluted : mark * (supply + minted) * left ≤ mark * supply * (fee + left) := by
    calc mark * (supply + minted) * left = mark * supply * left + mark * (minted * left) := by ring
      _ ≤ mark * supply * left + mark * (fee * supply) :=
          Nat.add_le_add_left (Nat.mul_le_mul_left _ hminted) _
      _ = mark * supply * (fee + left) := by ring
  have hbefore : mark * supply * (fee + left) + rise * supply * (fee + left) ≤
      price * (fee + left + 1) * left + price * (fee + left + 1) * fee := by
    calc mark * supply * (fee + left) + rise * supply * (fee + left)
        = (mark + rise) * supply * (fee + left) := by ring
      _ ≤ price * (fee + left + 1) * (fee + left) := Nat.mul_le_mul_right _ hprice
      _ = price * (fee + left + 1) * left + price * (fee + left + 1) * fee := by ring
  omega

/-- The fee is at most three tenths of the gain over the whole supply. -/
theorem performanceFee_share (s : State) :
    10 * (priceUnit * v.performanceFeeAssets s) ≤
      3 * ((v.pricePerShare s - s.highWaterMarkPps) * (s.shares.totalSupply + virtualShares)) := by
  have hrate : s.limits.val.performanceFeeBps ≤ 3000 := s.limits.property.performanceFee
  have hfee := mulDiv_floor_mul_le (x := v.gainAssets s)
    (y := s.limits.val.performanceFeeBps) (d := bps)
  have hgain := mulDiv_floor_mul_le (x := v.pricePerShare s - s.highWaterMarkPps)
    (y := s.shares.totalSupply) (d := priceUnit)
  refine Nat.le_of_mul_le_mul_left ?_ (show 0 < 1000 by decide)
  calc 1000 * (10 * (priceUnit * v.performanceFeeAssets s))
      = priceUnit * (v.performanceFeeAssets s * bps) := by simp only [bps]; ring
    _ ≤ priceUnit * (v.gainAssets s * s.limits.val.performanceFeeBps) :=
        Nat.mul_le_mul_left _ hfee
    _ ≤ priceUnit * (v.gainAssets s * 3000) :=
        Nat.mul_le_mul_left _ (Nat.mul_le_mul_left _ hrate)
    _ = v.gainAssets s * priceUnit * 3000 := by ring
    _ ≤ (v.pricePerShare s - s.highWaterMarkPps) * s.shares.totalSupply * 3000 :=
        Nat.mul_le_mul_right _ hgain
    _ ≤ (v.pricePerShare s - s.highWaterMarkPps) * (s.shares.totalSupply + virtualShares) * 3000 :=
        Nat.mul_le_mul_right _ (Nat.mul_le_mul_left _ (Nat.le_add_right _ _))
    _ = 1000 * (3 * ((v.pricePerShare s - s.highWaterMarkPps) *
          (s.shares.totalSupply + virtualShares))) := by ring

/-- **The mint never takes the price below the mark** the fee is charged above. -/
theorem mark_le_diluted (hdue : v.FeeDue s) :
    s.highWaterMarkPps ≤ v.pricePerShare (v.mintFeeShares s (v.performanceFeeAssets s)) := by
  obtain ⟨-, hrise⟩ := hdue
  have hprice : v.pricePerShare s * (s.shares.totalSupply + virtualShares) ≤
      priceUnit * (v.totalAssets s + 1) := le_pricePerShare_iff.mp le_rfl
  rw [le_pricePerShare_iff, mintFeeShares_totalAssets, mintFeeShares_totalSupply]
  rcases Nat.eq_zero_or_pos (v.feeShares s (v.performanceFeeAssets s)) with hnone | hsome
  · rw [hnone, Nat.add_zero]
    exact (Nat.mul_le_mul_right _ hrise.le).trans hprice
  · obtain ⟨hfee, hless⟩ := feeShares_pos hsome
    have hminted := feeShares_mul_le (v := v) (s := s) (v.performanceFeeAssets s)
    have hshare := performanceFee_share (v := v) s
    obtain ⟨rise, hpps⟩ := Nat.exists_eq_add_of_le hrise.le
    obtain ⟨left, hassets⟩ := Nat.exists_eq_add_of_le hless.le
    rw [hpps, Nat.add_sub_cancel_left] at hshare
    rw [hassets, Nat.add_sub_cancel_left] at hminted
    rw [hpps, hassets] at hprice
    rw [hassets, Nat.add_right_comm]
    exact mark_mul_diluted_le (by omega) hfee hprice hminted hshare

/-! ### An accrual -/

theorem accruePerformanceFee_mark :
    s.highWaterMarkPps ≤ (v.accruePerformanceFee s).highWaterMarkPps := by
  by_cases hdue : v.FeeDue s
  · rw [accruePerformanceFee_due hdue, State.setMark_highWaterMarkPps]
    exact mark_le_diluted hdue
  · rw [accruePerformanceFee_idle hdue]

/-- With holders left, an accrual never lowers the mark. -/
theorem accrueFees_mark (hsupply : 0 < s.shares.totalSupply) :
    s.highWaterMarkPps ≤ (v.accrueFees now s).highWaterMarkPps := by
  obtain ⟨due, hdue, -, hmark⟩ := accrueFees_of_holders (v := v) now hsupply
  have hrent : due.highWaterMarkPps = s.highWaterMarkPps := by
    rw [hdue, accrueManagementFee_mark]
    rfl
  rw [hmark, ← hrent]
  exact accruePerformanceFee_mark

/-- At the time of the last accrual, with no fee due, an accrual changes nothing. -/
theorem accrueFees_settled (hclock : s.lastFeeAccrualAt = now)
    (hsupply : 0 < s.shares.totalSupply) (hdue : ¬ v.FeeDue s) : v.accrueFees now s = s := by
  have hsame : s.setAccrualClock now = s := by rw [← hclock]; rfl
  have hnone : v.performanceShares s = 0 := if_neg hdue
  subst hclock
  simp only [accrueFees, hsame, Nat.sub_self, if_neg (Nat.ne_of_gt hsupply), managementShares,
    accrueManagementFee, accruePerformanceFee_idle hdue, hnone, lt_irrefl, gt_iff_lt, false_and,
    or_self, if_false]

theorem accrueFees_clock : (v.accrueFees now s).lastFeeAccrualAt = now := by
  simp only [accrueFees, accrueManagementFee, accruePerformanceFee, mintFeeShares]
  repeat' split
  all_goals rfl

/-- **An accrual is idempotent**: a second one at the same time changes nothing. -/
theorem accrueFees_idempotent (now : Nat) (s : State) :
    v.accrueFees now (v.accrueFees now s) = v.accrueFees now s := by
  rcases Nat.eq_zero_or_pos s.shares.totalSupply with h0 | hpos
  · rw [accrueFees_of_empty h0, accrueFees_of_empty (by exact h0)]
    rfl
  · have hframe := accrueFees_frame (v := v) now s
    have hholders := hpos.trans_le hframe.supply
    refine accrueFees_settled accrueFees_clock hholders ?_
    rintro ⟨hrate, hrise⟩
    rw [accrueFees_limits] at hrate
    exact absurd hrise (not_lt.mpr (pricePerShare_le_mark_of_accrued hholders hrate))

/-! ### A call -/

/-- The calls that accrue fees. -/
def accrues : Call → Bool
  | .deposit _ _ | .mint _ _ | .requestRedeem _ _ _ | .fulfillRedeem _ _ | .donate _
  | .reportNav _ _ _ | .accrueFees | .setLimits _ | .setInsuranceFund _ => true
  | _ => false

/-- The accrual a call starts with keeps the mark, or puts it at par in an empty vault. -/
theorem lead_mark (v : LemonVault) (msg : Msg) (s : State) (call : Call) :
    s.highWaterMarkPps ≤ (v.lead msg s call).highWaterMarkPps ∨
      accrues call = true ∧ s.shares.totalSupply = 0 ∧
        (v.lead msg s call).highWaterMarkPps = assetUnit := by
  have haccrual : ∀ s₁ : State, s₁.shares = s.shares → s₁.highWaterMarkPps = s.highWaterMarkPps →
      s.highWaterMarkPps ≤ (v.accrueFees msg.timestamp s₁).highWaterMarkPps ∨
        s.shares.totalSupply = 0 ∧
          (v.accrueFees msg.timestamp s₁).highWaterMarkPps = assetUnit := by
    intro s₁ hshares hmark
    -- with no shares the mark is put at par
    rcases Nat.eq_zero_or_pos s.shares.totalSupply with h0 | hpos
    · right
      rw [accrueFees_of_empty (hshares ▸ h0)]
      exact ⟨h0, rfl⟩
    · left
      rw [← hmark]
      exact accrueFees_mark (hshares ▸ hpos)
  have hrolled : (rollNavEpoch msg.timestamp s).shares = s.shares ∧
      (rollNavEpoch msg.timestamp s).highWaterMarkPps = s.highWaterMarkPps := by
    rw [rollNavEpoch]
    split <;> exact ⟨rfl, rfl⟩
  cases call with
  | deposit | mint | requestRedeem | fulfillRedeem | donate | accrueFees | setLimits
  | setInsuranceFund => exact (haccrual s rfl rfl).imp_right fun h => ⟨rfl, h⟩
  | reportNav => exact (haccrual _ hrolled.1 hrolled.2).imp_right fun h => ⟨rfl, h⟩
  | _ => exact .inl le_rfl

/-- `s'` has the mark of `s` or a higher one, and its accrual clock. -/
structure KeepsMark (s s' : State) : Prop where
  mark : s.highWaterMarkPps ≤ s'.highWaterMarkPps
  clock : s'.lastFeeAccrualAt = s.lastFeeAccrualAt

theorem depositAssets_keepsMark {r : Address} {a n : Nat}
    (h : v.depositAssets msg s r a n = .ok s') : KeepsMark s s' := by
  obtain ⟨t, -, -, rfl⟩ := depositAssets_ok h
  exact ⟨le_rfl, rfl⟩

theorem claim_keepsMark {c r : Address} {n a : Nat} (h : v.claim msg s c r n a = .ok s') :
    KeepsMark s s' := by
  obtain ⟨-, t, -, rfl⟩ := claim_ok h
  exact ⟨le_rfl, rfl⟩

/-- The accrual on a restated value leaves the mark at least where the one before it did. -/
theorem reportNav_keepsMark {d l o : Nat} (h : v.reportNav msg s d l o = .ok s') :
    KeepsMark (v.lead msg s (.reportNav d l o)) s' := by
  obtain ⟨-, -, -, -, rolled, rfl, -, restated, hrestated, rfl⟩ := reportNav_ok h
  have hmark : restated.highWaterMarkPps =
      (v.accrueFees msg.timestamp (rollNavEpoch msg.timestamp s)).highWaterMarkPps := by
    rw [hrestated]; rfl
  have hshares : restated.shares =
      (v.accrueFees msg.timestamp (rollNavEpoch msg.timestamp s)).shares := by
    rw [hrestated]; rfl
  refine ⟨?_, accrueFees_clock.trans accrueFees_clock.symm⟩
  simp only [lead, State.emit_highWaterMarkPps]
  rw [← hmark]
  rcases Nat.eq_zero_or_pos restated.shares.totalSupply with h0 | hpos
  · -- with no shares both accruals put it at par
    have hempty : (rollNavEpoch msg.timestamp s).shares.totalSupply = 0 :=
      Nat.le_zero.mp ((accrueFees_frame (v := v) _ _).supply.trans_eq (hshares ▸ h0))
    rw [accrueFees_of_empty h0, hmark, accrueFees_of_empty hempty]
    exact le_rfl
  · exact accrueFees_mark hpos

/-- Past its first accrual no call lowers the mark or moves the accrual clock. -/
theorem exec_keepsMark {call : Call} (h : v.exec msg s call = .ok s') :
    KeepsMark (v.lead msg s call) s' := by
  cases hadmin : administers call with
  | true =>
      rw [(exec_administers hadmin h).2]
      exact ⟨le_rfl, rfl⟩
  | false =>
      cases call with
      | usdc call =>
          obtain ⟨t, -, rfl⟩ := exec_usdc_ok h
          exact ⟨le_rfl, rfl⟩
      | shares call =>
          obtain ⟨t, -, rfl⟩ := exec_shares_ok h
          exact ⟨le_rfl, rfl⟩
      | deposit a r =>
          obtain ⟨n, hdep⟩ := exec_deposit_ok h
          exact depositAssets_keepsMark (deposit_ok hdep).2.2
      | mint n r =>
          obtain ⟨a, hmint⟩ := exec_mint_ok h
          exact depositAssets_keepsMark (mint_ok hmint).2.2
      | setOperator op b =>
          obtain ⟨-, rfl⟩ := setOperator_ok h
          exact ⟨le_rfl, rfl⟩
      | requestRedeem n c o =>
          obtain ⟨-, -, -, lead, rfl, t, -, rfl⟩ := requestRedeem_ok h
          exact ⟨le_rfl, rfl⟩
      | fulfillRedeem c n =>
          obtain ⟨a, hful⟩ := exec_fulfillRedeem_ok h
          obtain ⟨-, -, lead, rfl, -, -, -, -, -, t, -, rfl⟩ := fulfillRedeem_ok hful
          exact ⟨le_rfl, rfl⟩
      | redeem n r c =>
          obtain ⟨a, hred⟩ := exec_redeem_ok h
          exact claim_keepsMark (redeem_ok hred).2.2.2.2
      | withdraw a r c =>
          obtain ⟨n, hwd⟩ := exec_withdraw_ok h
          exact claim_keepsMark (withdraw_ok hwd).2.2.2.2
      | agentWithdraw n =>
          obtain ⟨-, -, -, -, -, -, -, -, t, -, rfl⟩ := agentWithdraw_ok h
          exact ⟨le_rfl, rfl⟩
      | agentReturn n =>
          obtain ⟨-, t, -, rfl⟩ := agentReturn_ok h
          exact ⟨le_rfl, rfl⟩
      -- a donation sets the mark to the price where that is more
      | donate n =>
          obtain ⟨-, lead, rfl, t, -, rfl⟩ := donate_ok h
          exact ⟨le_max_left _ _, rfl⟩
      | reportNav d l o => exact reportNav_keepsMark h
      | _ => cases hadmin

/-! ### Runs -/

/-- The transaction accrues fees while nobody holds a share. -/
def Resets (t : Transition World Tx) : Prop :=
  accrues t.label.call = true ∧ t.pre.state.shares.totalSupply = 0

theorem next_mark {w' : World} {tx : Tx} (hn : v.next w tx = some w') :
    w.state.highWaterMarkPps ≤ w'.state.highWaterMarkPps ∨
      Resets ⟨w, tx, w'⟩ ∧ (v.lead tx.msg w.state tx.call).highWaterMarkPps = assetUnit ∧
        assetUnit ≤ w'.state.highWaterMarkPps := by
  obtain ⟨-, -, -, he⟩ := next_eq_some hn
  have hrest := (exec_keepsMark he).mark
  rcases lead_mark v tx.msg w.state tx.call with hkept | ⟨haccrues, hempty, hpar⟩
  · exact .inl (hkept.trans hrest)
  · exact .inr ⟨⟨haccrues, hempty⟩, hpar, hpar ▸ hrest⟩

/-- The high-water mark of a vault over the run `tr` from `w₀` to `w`. -/
structure MarkKept (v : LemonVault) (w₀ w : World) (tr : List (Transition World Tx)) : Prop where
  /-- No transaction lowers the mark but by an accrual at no supply, which puts it at par. -/
  raised : ∀ t ∈ tr, t.pre.state.highWaterMarkPps ≤ t.post.state.highWaterMarkPps ∨
    Resets t ∧ (v.lead t.label.msg t.pre.state t.label.call).highWaterMarkPps = assetUnit ∧
      assetUnit ≤ t.post.state.highWaterMarkPps
  /-- Without such an accrual it ends no lower than it began. -/
  ratchets : (∀ t ∈ tr, ¬ Resets t) → w₀.state.highWaterMarkPps ≤ w.state.highWaterMarkPps
  /-- After an accrual at a positive rate, with holders, it covers the price. -/
  covers : ∀ now s, 0 < s.limits.val.performanceFeeBps → 0 < s.shares.totalSupply →
    v.pricePerShare (v.accrueFees now s) ≤ (v.accrueFees now s).highWaterMarkPps
  /-- The performance mint leaves the price at or above it. -/
  diluted : ∀ s, v.FeeDue s →
    s.highWaterMarkPps ≤ v.pricePerShare (v.mintFeeShares s (v.performanceFeeAssets s))
  /-- A second accrual at the same time changes nothing, and so mints nothing. -/
  idempotent : ∀ now s, v.accrueFees now (v.accrueFees now s) = v.accrueFees now s

/-- **The high-water mark is one**, over every run of every operation. -/
theorem high_water_mark_kept (hrun : Run v.next w₀ tr w) : MarkKept v w₀ w tr where
  raised t ht := next_mark (hrun.step_of_mem t ht)
  ratchets hnone := by
    refine (hrun.invariant_of (I := fun w' => w₀.state.highWaterMarkPps ≤
      w'.state.highWaterMarkPps) hnone le_rfl ?_).1
    intro w tx w' hkeeps hw hn
    rcases next_mark hn with hle | ⟨hresets, -⟩
    · exact hw.trans hle
    · exact absurd hresets hkeeps
  covers now s hrate hsupply :=
    pricePerShare_le_mark_of_accrued (hsupply.trans_le (accrueFees_frame now s).supply) hrate
  diluted s := mark_le_diluted
  idempotent := accrueFees_idempotent

/-- A thousand USDC gain a tenth at the venue. -/
def gain : List Tx :=
  [Test.tx Test.alice 0 (.deposit (1000 * Test.oneUsdc) Test.alice),
   Test.tx Test.agent 0 (.agentWithdraw (900 * Test.oneUsdc)),
   Test.tx Test.agent 3600 (.reportNav (990 * Test.oneUsdc) 10000 (year + 3600)),
   Test.tx Test.bob 3600 .accrueFees]

theorem gain_isSome : (trace (Test.lemonVault Test.conservativeRisk).next
    (Test.world Test.onlyPerformance Test.conservativeRisk) gain).isSome := by rfl

/-- The report bills the gain and raises the mark, and the accrual after it does nothing. -/
theorem high_water_mark_kept_gain : MarkKept (Test.lemonVault Test.conservativeRisk)
    (Test.world Test.onlyPerformance Test.conservativeRisk)
    (Test.after Test.onlyPerformance Test.conservativeRisk gain gain_isSome)
    (Test.transitions Test.onlyPerformance Test.conservativeRisk gain gain_isSome) :=
  high_water_mark_kept (Test.run_after gain_isSome)

end LemonVault

end LemonMarket
