import LemonMarket.Contracts.Rate

/-!
# LemonMarket.Contracts.EmptyVault

**The first deposit into an emptied vault.** With no shares left the accrual sets
the mark back to par, one USDC a share. The price of the next share is not par: it
comes out of the virtual-share formula over whatever the vault still holds. With
nothing left the two agree exactly. With `A ≥ 1` units left the first share costs at
least `A + 1` times par, so the depositor starts above the mark and is billed for a
gain nobody made.
-/

namespace LemonMarket

open Lib

namespace LemonVault

variable {v : LemonVault} {s s' : State} {msg : Msg} {w : World}

/-- A deposit into an empty vault, field by field. -/
structure FirstDeposit (v : LemonVault) (s s' : State) (now a : Nat) : Prop where
  supply : s'.shares.totalSupply = mulDiv a virtualShares (v.totalAssets s + 1) .floor
  assets : v.totalAssets s' = v.totalAssets s + a
  mark : s'.highWaterMarkPps = assetUnit
  clock : s'.lastFeeAccrualAt = now
  limits : s'.limits = s.limits

theorem deposit_first {a n : Nat} {r : Address} (hb : Books v s)
    (hempty : s.shares.totalSupply = 0) (hsender : msg.sender ≠ v.self)
    (h : v.deposit msg s a r = .ok (n, s')) : FirstDeposit v s s' msg.timestamp a := by
  obtain ⟨-, hn, hdep⟩ := deposit_ok h
  rw [accrueFees_of_empty hempty] at hn hdep
  have hb' : Books v ((s.setAccrualClock msg.timestamp).setMark assetUnit) :=
    ⟨hb.solvent, hb.unapproved⟩
  obtain ⟨hassets, hsupply⟩ := depositAssets_effect hb' hsender hdep
  rw [totalAssets_mark, totalAssets_clock] at hassets
  rw [State.setMark_shares, State.setAccrualClock_shares, hempty, Nat.zero_add] at hsupply
  rw [convertToShares, totalAssets_mark, totalAssets_clock, State.setMark_shares,
    State.setAccrualClock_shares, hempty, Nat.zero_add] at hn
  obtain ⟨t, -, -, hs'⟩ := depositAssets_ok hdep
  exact ⟨hsupply.trans hn, hassets, by rw [hs']; rfl, by rw [hs']; rfl, by rw [hs']; rfl⟩

/-- With nothing left, the first share costs exactly par. -/
theorem FirstDeposit.price_par {now a : Nat} (h : FirstDeposit v s s' now a)
    (hA : v.totalAssets s = 0) : v.pricePerShare s' = assetUnit := by
  have hn : s'.shares.totalSupply = a * virtualShares := by
    rw [h.supply, hA]
    exact Nat.div_one _
  rw [pricePerShare, convertToAssets, mulDiv, h.assets, hA, hn, priceUnit_eq]
  have hsplit : assetUnit * virtualShares * (0 + a + 1) =
      assetUnit * (a * virtualShares + virtualShares) := by ring
  rw [hsplit]
  exact Nat.mul_div_cancel _ (Nat.add_pos_right _ virtualShares_pos)

/-- With `A` units left, it costs at least `A + 1` times par. -/
theorem FirstDeposit.price_ge {now a : Nat} (h : FirstDeposit v s s' now a) :
    assetUnit * (v.totalAssets s + 1) ≤ v.pricePerShare s' := by
  rw [le_pricePerShare_iff, h.assets, h.supply, priceUnit_eq]
  have hfloor := mulDiv_floor_mul_le (x := a) (y := virtualShares) (d := v.totalAssets s + 1)
  generalize mulDiv a virtualShares (v.totalAssets s + 1) .floor = n at hfloor ⊢
  generalize v.totalAssets s = A at hfloor ⊢
  calc assetUnit * (A + 1) * (n + virtualShares)
      = assetUnit * (n * (A + 1) + (A + 1) * virtualShares) := by ring
    _ ≤ assetUnit * (a * virtualShares + (A + 1) * virtualShares) :=
        Nat.mul_le_mul_left _ (Nat.add_le_add_right hfloor _)
    _ = assetUnit * virtualShares * (A + a + 1) := by ring

/-- An accrual in the same second, with no performance fee due, mints nothing. -/
theorem accrueFees_same_second {now : Nat} (hclock : s.lastFeeAccrualAt = now)
    (hdue : ¬ v.FeeDue s) : (v.accrueFees now s).shares = s.shares := by
  rcases Nat.eq_zero_or_pos s.shares.totalSupply with h0 | hpos
  · rw [accrueFees_of_empty h0]; rfl
  · have hdue' : ¬ v.FeeDue (s.setAccrualClock now) := hdue
    rw [(accrueFees_of_no_rent _ hpos (.inl (Nat.le_of_eq hclock.symm))).1,
      accruePerformanceFee_idle hdue']
    rfl

/-- **The empty vault, exactly.** A deposit into a reachable state with no shares
leaves the price at or below the mark, and an accrual in the same second mints
nothing, if and only if the vault held nothing before it or charges no performance
fee. -/
theorem empty_vault_deposit_unbilled_iff {a n : Nat} {r : Address} (hw : Reachable v w)
    (hempty : w.state.shares.totalSupply = 0) (hsender : msg.sender ≠ v.self)
    (hdep : v.deposit msg w.state a r = .ok (n, s')) :
    ((0 < s'.limits.val.performanceFeeBps → v.pricePerShare s' ≤ s'.highWaterMarkPps) ∧
        (v.accrueFees msg.timestamp s').shares = s'.shares) ↔
      v.totalAssets w.state = 0 ∨ w.state.limits.val.performanceFeeBps = 0 := by
  have hfirst := deposit_first (Books.reachable hw) hempty hsender hdep
  rw [hfirst.limits, hfirst.mark]
  constructor
  -- with a fee the price is over par once anything was there
  · rintro ⟨hprice, -⟩
    rcases Nat.eq_zero_or_pos w.state.limits.val.performanceFeeBps with hrate | hrate
    · exact .inr hrate
    · left
      have hle := hfirst.price_ge.trans (hprice hrate)
      have hpos : 0 < assetUnit := by decide
      have := Nat.le_of_mul_le_mul_left (hle.trans_eq (Nat.mul_one _).symm) hpos
      omega
  · rintro (hA | hrate)
    -- from nothing the price is par, which is the mark
    · have hpar := hfirst.price_par hA
      refine ⟨fun _ => Nat.le_of_eq hpar, accrueFees_same_second hfirst.clock ?_⟩
      intro hdue
      have hlt := hdue.2
      rw [hpar, hfirst.mark] at hlt
      exact Nat.lt_irrefl _ hlt
    · refine ⟨fun h => absurd hrate (Nat.ne_of_gt h),
        accrueFees_same_second hfirst.clock ?_⟩
      intro hdue
      have hpos := hdue.1
      rw [hfirst.limits] at hpos
      exact absurd hrate (Nat.ne_of_gt hpos)

/-- One unit of USDC sent straight to the vault, and nothing else. -/
def dusted : World :=
  Test.after Test.onlyPerformance Test.conservativeRisk
    [Test.tx Test.bob 0 (.usdc (.transfer Test.vault 1))] (by rfl)

/-- Ten USDC deposited after it start at twice par, and the next accrual takes a fee. -/
theorem dusted_vault_bills_first_deposit :
    ¬ ∀ (v : LemonVault) (w : World) (msg : Msg) (a n : Nat) (r : Address) (s' : State),
      Reachable v w → w.state.shares.totalSupply = 0 → msg.sender ≠ v.self → 0 < a →
      v.deposit msg w.state a r = .ok (n, s') →
      (0 < s'.limits.val.performanceFeeBps → v.pricePerShare s' ≤ s'.highWaterMarkPps) ∧
        (v.accrueFees msg.timestamp s').shares.totalSupply = s'.shares.totalSupply := by
  intro h
  have hdep : ((Test.lemonVault Test.conservativeRisk).deposit ⟨Test.alice, year⟩ dusted.state
    (10 * 10 ^ 6) Test.alice).toOption.isSome := by rfl
  obtain ⟨⟨n, s'⟩, hns⟩ := Option.isSome_iff_exists.mp hdep
  have hfee := (h _ dusted ⟨Test.alice, year⟩ _ _ _ _ (Test.reachable_after _) (by rfl)
    (by decide) (by decide) (toOption_eq_some.mp hns)).2
  have hminted : ((Test.lemonVault Test.conservativeRisk).deposit ⟨Test.alice, year⟩ dusted.state
      (10 * 10 ^ 6) Test.alice).toOption.map (fun p =>
        ((Test.lemonVault Test.conservativeRisk).accrueFees year p.2).shares.totalSupply -
          p.2.shares.totalSupply) = some 0 := by
    rw [hns]
    exact congrArg some (Nat.sub_eq_zero_of_le (Nat.le_of_eq hfee))
  exact absurd hminted (by decide)

/-- The same deposit into a vault that holds nothing is left alone. -/
theorem empty_vault_deposit_unbilled_iff_clean :
    ∃ n s', (Test.lemonVault Test.conservativeRisk).deposit ⟨Test.alice, year⟩
        (Test.world Test.onlyPerformance Test.conservativeRisk).state (10 * 10 ^ 6) Test.alice =
        .ok (n, s') ∧
      ((Test.lemonVault Test.conservativeRisk).accrueFees year s').shares = s'.shares := by
  have hdep : ((Test.lemonVault Test.conservativeRisk).deposit ⟨Test.alice, year⟩
    (Test.world Test.onlyPerformance Test.conservativeRisk).state (10 * 10 ^ 6)
    Test.alice).toOption.isSome := by rfl
  obtain ⟨⟨n, s'⟩, hns⟩ := Option.isSome_iff_exists.mp hdep
  have hok := toOption_eq_some.mp hns
  exact ⟨n, s', hok, ((empty_vault_deposit_unbilled_iff
    (w := Test.world Test.onlyPerformance Test.conservativeRisk)
    ⟨_, [], Test.testGenesis _ _, .nil⟩ (by rfl) (by decide) hok).mpr (.inl (by rfl))).2⟩

end LemonVault

end LemonMarket
