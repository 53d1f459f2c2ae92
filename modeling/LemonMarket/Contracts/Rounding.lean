import LemonMarket.Contracts.Delay
import LemonMarket.Contracts.Rate
import LemonMarket.Contracts.Reach
import Mathlib.Algebra.Order.Field.Rat
import Mathlib.Tactic.FieldSimp

/-!
# LemonMarket.Contracts.Rounding

**What rounding costs.** Every conversion of the contract is floored, with one unit of
assets and `10^12` shares added to the pool. Two bounds on the loss.

A fee is minted as shares priced after their own dilution: they are worth the fee to
within one share (`feeShares_worth`).

A deposit that is taken out again, in any number of fulfilments and claims, sends out no
more than it brought in, because no step lowers the rate; and each fulfilment loses less
than a unit on a rate that is no lower than the one the deposit left
(`round_trip_within_rounding`).
-/

namespace LemonMarket

open Lib

/-- The calls that take `c` out. -/
def Call.exits (c : Address) : Call → Bool
  | .requestRedeem _ _ _ => true
  | .fulfillRedeem d _ | .redeem _ _ d | .withdraw _ _ d => d = c
  | _ => false

/-- Who a claim pays. -/
def Call.payee : Call → Option Address
  | .redeem _ r _ | .withdraw _ r _ => some r
  | _ => none

/-- One for a fulfilment. -/
def Call.fulfilments : Call → Nat
  | .fulfillRedeem _ _ => 1
  | _ => 0

namespace LemonVault

variable {v : LemonVault} {s s' : State} {msg : Msg} {w w₀ w₁ : World} {c : Address}

/-! ### Fee shares -/

theorem lt_feeShares_mul {f : Nat} (hf : 0 < f) (hlt : f < v.totalAssets s) :
    f * (s.shares.totalSupply + virtualShares) <
      (v.feeShares s f + 1) * (v.totalAssets s - f) := by
  rw [feeShares, if_neg hf.ne']
  show _ < ((if v.totalAssets s = 0 ∨ f ≥ v.totalAssets s then 0 else _) + 1) * _
  rw [if_neg (by omega)]
  exact (mulDiv_floor_lt_iff (by omega)).mp (Nat.lt_succ_self _)

/-- **Fee shares are worth the fee, once minted.** Converted at the diluted supply they come
to no more than it, and exactly to more than it less one share's value. -/
theorem feeShares_worth {f : Nat} (hf : 0 < f) (hlt : f < v.totalAssets s) :
    v.convertToAssets (v.mintFeeShares s f) (v.feeShares s f) .floor ≤ f ∧
      (f : ℚ) - (v.totalAssets s + 1) / (s.shares.totalSupply + virtualShares) <
        v.feeShares s f * (v.totalAssets s + 1) /
          (s.shares.totalSupply + v.feeShares s f + virtualShares) := by
  have hmost := feeShares_mul_le (v := v) (s := s) f
  have hleast := lt_feeShares_mul hf hlt
  have hsupply := supply_pos s
  rw [convertToAssets, mintFeeShares_totalAssets, mintFeeShares_totalSupply]
  obtain ⟨rest, hrest⟩ : ∃ rest, v.totalAssets s = rest + f :=
    ⟨_, (Nat.sub_add_cancel hlt.le).symm⟩
  rw [hrest] at hmost hleast ⊢
  rw [Nat.add_sub_cancel] at hmost hleast
  generalize v.feeShares s f = m at hmost hleast ⊢
  constructor
  -- at most the fee: shares were floored
  · rw [← Nat.lt_succ_iff, mulDiv_floor_lt_iff (by omega)]
    calc m * (rest + f + 1) = m * rest + m * (f + 1) := by ring
      _ < (f + 1) * (s.shares.totalSupply + virtualShares) + m * (f + 1) := by
          rw [Nat.succ_mul]
          omega
      _ = (f + 1) * (s.shares.totalSupply + m + virtualShares) := by ring
  -- and less than a share of it is dropped
  · have hpos : (0 : ℚ) < s.shares.totalSupply + virtualShares := by exact_mod_cast hsupply
    have hshort : (f : ℚ) * (s.shares.totalSupply + virtualShares) < (m + 1) * rest := by
      exact_mod_cast hleast
    rw [show (s.shares.totalSupply + m + virtualShares : ℚ) =
      s.shares.totalSupply + virtualShares + m by ring]
    generalize (s.shares.totalSupply + virtualShares : ℚ) = supply at hpos hshort ⊢
    have hdiluted : 0 < supply + m := add_pos_of_pos_of_nonneg hpos (Nat.cast_nonneg m)
    rw [sub_lt_iff_lt_add, div_add_div _ _ hdiluted.ne' hpos.ne',
      lt_div_iff₀ (mul_pos hdiluted hpos)]
    push_cast
    have hscaled : f * supply * supply < (m + 1) * rest * supply :=
      mul_lt_mul_of_pos_right hshort hpos
    have hslack : 0 ≤ m * supply + supply * f + supply + m * (rest + f + 1) := by positivity
    calc f * ((supply + m) * supply) = f * supply * supply + m * f * supply := by ring
      _ < (m + 1) * rest * supply + m * f * supply := by linarith
      _ ≤ (m + 1) * rest * supply + m * f * supply +
          (m * supply + supply * f + supply + m * (rest + f + 1)) := by linarith
      _ = m * (rest + f + 1) * supply + (supply + m) * (rest + f + 1) := by ring

/-- A thousand USDC deposited. -/
def thousand : World :=
  Test.after Test.noFeeLimits Test.conservativeRisk
    [Test.tx Test.alice 0 (.deposit (1000 * Test.oneUsdc) Test.alice)] (by rfl)

/-- A fee of one USDC on it. -/
theorem feeShares_worth_thousand :
    (Test.lemonVault Test.conservativeRisk).convertToAssets
      ((Test.lemonVault Test.conservativeRisk).mintFeeShares thousand.state Test.oneUsdc)
      ((Test.lemonVault Test.conservativeRisk).feeShares thousand.state Test.oneUsdc) .floor ≤
        Test.oneUsdc :=
  (feeShares_worth (by decide) (by decide)).1

/-! ### One call of an exit -/

/-- The assets a claim answers for. -/
def claimed (v : LemonVault) (msg : Msg) (s : State) : Call → Nat
  | .redeem n r c => ((v.redeem msg s n r c).toOption.map Prod.fst).getD 0
  | .withdraw a _ _ => a
  | _ => 0

/-- Both fees at zero. -/
def FeesZero (s : State) : Prop :=
  s.limits.val.managementFeeBps = 0 ∧ s.limits.val.performanceFeeBps = 0

instance (s : State) : Decidable (FeesZero s) := inferInstanceAs (Decidable (_ ∧ _))

theorem accrueFees_totalSupply_of_zero (h : FeesZero s) (now : Nat) :
    (v.accrueFees now s).shares.totalSupply = s.shares.totalSupply := by
  refine accrueFees_totalSupply_iff.mpr (.inr ⟨if_neg fun hdue => ?_, if_neg fun hdue => ?_⟩)
  · exact hdue.2.ne' h.1
  · exact hdue.1.ne' h.2

/-- What one call of an exit does to `c` and to the pool: `promised` is what a fulfilment
sets aside, less than a unit under its price. -/
structure ExitStep (v : LemonVault) (c : Address) (msg : Msg) (call : Call) (s s' : State)
    (promised : Nat) : Prop where
  limits : s'.limits = s.limits
  supply : s'.shares.totalSupply + call.burned = s.shares.totalSupply
  worth : v.totalAssets s' + (s'.redeem c).claimableAssets +
      (v.idleAssets s - v.idleAssets s') = v.totalAssets s + (s.redeem c).claimableAssets
  claims : (s'.redeem c).claimableAssets + v.claimed msg s call =
    (s.redeem c).claimableAssets + promised
  priced : call.burned * (v.totalAssets s + 1) ≤
    (promised + call.fulfilments) * (s.shares.totalSupply + virtualShares)
  sent : call.payee ≠ some v.self.val →
    v.idleAssets s - v.idleAssets s' = v.claimed msg s call

/-- An accrual with no fees changes nothing an exit is measured by. -/
structure Level (v : LemonVault) (s lead : State) : Prop where
  limits : lead.limits = s.limits
  supply : lead.shares.totalSupply = s.shares.totalSupply
  worth : v.totalAssets lead = v.totalAssets s
  idle : v.idleAssets lead = v.idleAssets s
  redeem : lead.redeem = s.redeem

theorem accrueFees_level (h : FeesZero s) (now : Nat) : Level v s (v.accrueFees now s) where
  limits := accrueFees_limits now
  supply := accrueFees_totalSupply_of_zero h now
  worth := accrueFees_totalAssets now
  idle := by rw [idleAssets, accrueFees_usdc]; rfl
  redeem := accrueFees_redeem now

theorem requestRedeem_exit {n : Nat} {d o : Address} (hfees : FeesZero s)
    (h : v.requestRedeem msg s n d o = .ok s') :
    ExitStep v c msg (.requestRedeem n d o) s s' 0 := by
  obtain ⟨-, -, -, lead, hlead, t, ht, hs'⟩ := requestRedeem_ok h
  have hlevel : Level v s lead := hlead ▸ accrueFees_level hfees msg.timestamp
  obtain ⟨hn, rfl⟩ := Erc20.transferBetween_ok ht
  have hclaim : (s'.redeem c).claimableAssets = (s.redeem c).claimableAssets := by
    rw [hs', ← hlevel.redeem]
    by_cases hc : c = d
    · simp [hc]
    · simp [hc]
  have hworth : v.totalAssets s' = v.totalAssets s := by rw [hs', ← hlevel.worth]; rfl
  have hidle : v.idleAssets s' = v.idleAssets s := by rw [hs', ← hlevel.idle]; rfl
  have hsupply : s'.shares.totalSupply = s.shares.totalSupply := by
    rw [hs', ← hlevel.supply]; rfl
  refine ⟨by rw [hs', ← hlevel.limits], hsupply, ?_, ?_, ?_, fun _ => ?_⟩
  · rw [hworth, hclaim, hidle, Nat.sub_self]
    rfl
  · rw [hclaim]
    rfl
  · exact (Nat.zero_mul _).le.trans (Nat.zero_le _)
  · rw [hidle, Nat.sub_self]
    rfl

theorem fulfillRedeem_exit {n a : Nat} (hfees : FeesZero s)
    (h : v.fulfillRedeem msg s c n = .ok (a, s')) :
    ExitStep v c msg (.fulfillRedeem c n) s s' a := by
  obtain ⟨-, -, lead, hlead, -, -, -, ha, hfree, t, ht, hs'⟩ := fulfillRedeem_ok h
  have hlevel : Level v s lead := hlead ▸ accrueFees_level hfees msg.timestamp
  have hclaim : (s'.redeem c).claimableAssets = (s.redeem c).claimableAssets + a := by
    rw [hs', ← hlevel.redeem]
    simp
  -- what is promised leaves the pool for the claim, and the vault holds what it held
  have hworth : v.totalAssets s' + a = v.totalAssets s := by
    rw [← hlevel.worth, hs']
    rw [freeAssets_eq] at hfree
    simp only [totalAssets_eq, idleAssets] at hfree ⊢
    omega
  have hidle : v.idleAssets s' = v.idleAssets s := by rw [hs', ← hlevel.idle]; rfl
  refine ⟨by rw [hs', ← hlevel.limits], ?_, ?_, ?_, ?_, fun _ => ?_⟩
  · rw [hs', ← hlevel.supply]
    exact Erc20.burn_totalSupply ht
  · omega
  · rw [hclaim]
    rfl
  · rw [← hlevel.worth, ← hlevel.supply, ha]
    exact ((mulDiv_floor_lt_iff (supply_pos _)).mp (Nat.lt_succ_self _)).le
  · rw [hidle, Nat.sub_self]
    rfl

/-- A claim on what is set aside takes as much off the promises as off the balance. -/
theorem claim_exit {n a : Nat} {r : Address} {call : Call} (hb : Books v s)
    (hle : a ≤ (s.redeem c).claimableAssets) (hcall : v.claimed msg s call = a)
    (hburned : call.burned = 0) (hpayee : call.payee = some r)
    (h : v.claim msg s c r n a = .ok s') :
    ExitStep v c msg call s s' 0 := by
  obtain ⟨-, t, ht, hs'⟩ := claim_ok h
  obtain ⟨hn, -, hbal⟩ := pushed ht
  have hheld := hb.solvent.held
  have hpart := hb.solvent.claim_le c
  have hclaim : (s'.redeem c).claimableAssets + a = (s.redeem c).claimableAssets := by
    rw [hs']
    simp only [Function.update_self]
    omega
  -- the assets set aside are no part of the pool, so the pool is as it was
  have hworth : v.totalAssets s' + (s'.redeem c).claimableAssets +
      (v.idleAssets s - v.idleAssets s') = v.totalAssets s + (s.redeem c).claimableAssets := by
    rw [hs'] at hclaim ⊢
    simp only [pool, totalAssets_eq, idleAssets, hbal] at hheld hpart hclaim ⊢
    split <;> omega
  refine ⟨by rw [hs'], ?_, hworth, ?_, ?_, fun hself => ?_⟩
  · rw [hburned, hs']
    rfl
  · rw [hcall, hclaim]
    rfl
  · rw [hburned, Nat.zero_mul]
    exact Nat.zero_le _
  · rw [if_neg fun hr => hself (hpayee.trans (congrArg some hr))] at hbal
    rw [hcall, hs']
    simp only [idleAssets, hbal]
    omega

/-- **Every call of an exit.** -/
theorem exits_step {call : Call} (hb : Books v s) (hfees : FeesZero s)
    (hcall : call.exits c = true) (h : v.exec msg s call = .ok s') :
    ∃ promised, ExitStep v c msg call s s' promised := by
  cases call with
  | requestRedeem n d o => exact ⟨0, requestRedeem_exit hfees h⟩
  | fulfillRedeem d n =>
      obtain rfl : d = c := by simpa [Call.exits] using hcall
      obtain ⟨a, hful⟩ := exec_fulfillRedeem_ok h
      exact ⟨a, fulfillRedeem_exit hfees hful⟩
  -- a claim, by shares or by assets, is for what was set aside
  | redeem n r d =>
      obtain rfl : d = c := by simpa [Call.exits] using hcall
      obtain ⟨a, hred⟩ := exec_redeem_ok h
      obtain ⟨-, -, hn, ha, hclaim⟩ := redeem_ok hred
      refine ⟨0, claim_exit hb (ha ▸ mulDiv_floor_le_right hn) ?_ rfl rfl hclaim⟩
      rw [claimed, hred]
      rfl
  | withdraw a r d =>
      obtain rfl : d = c := by simpa [Call.exits] using hcall
      obtain ⟨n, hwd⟩ := exec_withdraw_ok h
      obtain ⟨-, -, ha, -, hclaim⟩ := withdraw_ok hwd
      exact ⟨0, claim_exit hb ha rfl rfl rfl hclaim⟩
  | _ => cases hcall

/-- Without fees no call but a report lowers the rate. -/
theorem Books.rate_exec_of_zero {call : Call} (hb : Books v s) (hfees : FeesZero s)
    (hsender : msg.sender ≠ v.self) (hcall : call.isReport = false)
    (h : v.exec msg s call = .ok s') : RateLe v s s' := by
  have hrate := hb.rate_exec hsender hcall h
  have hsupply : (v.lead msg s call).shares.totalSupply = s.shares.totalSupply := by
    cases call with
    | reportNav => cases hcall
    | deposit | mint | requestRedeem | fulfillRedeem | donate | accrueFees | setLimits
    | setInsuranceFund => exact accrueFees_totalSupply_of_zero hfees _
    | _ => rfl
  rw [RateLe, lead_totalAssets, hsupply] at hrate
  exact hrate

/-! ### A whole exit -/

/-- The shares a run burns, the fulfilments it takes, and the assets its claims answer
for. -/
def burnedBy (tr : List (Transition World Tx)) : Nat := (tr.map (·.label.call.burned)).sum

def fulfilmentsIn (tr : List (Transition World Tx)) : Nat :=
  (tr.map (·.label.call.fulfilments)).sum

def claimedBy (v : LemonVault) (tr : List (Transition World Tx)) : Nat :=
  (tr.map fun t => v.claimed t.label.msg t.pre.state t.label.call).sum

/-- An exit of `c` under way since `s₁`. -/
structure Exiting (v : LemonVault) (c : Address) (s₁ : State) (tr : List (Transition World Tx))
    (w : World) : Prop where
  books : Books v w.state
  fees : FeesZero w.state
  rate : RateLe v s₁ w.state
  supply : w.state.shares.totalSupply + burnedBy tr = s₁.shares.totalSupply
  worth : v.totalAssets w.state + (w.state.redeem c).claimableAssets + v.sentOut tr =
    v.totalAssets s₁ + (s₁.redeem c).claimableAssets
  priced : burnedBy tr * (v.totalAssets s₁ + 1) +
      (s₁.redeem c).claimableAssets * (s₁.shares.totalSupply + virtualShares) ≤
    ((w.state.redeem c).claimableAssets + v.claimedBy tr + fulfilmentsIn tr) *
      (s₁.shares.totalSupply + virtualShares)

theorem Exiting.step {s₁ : State} {tr : List (Transition World Tx)} {tx : Tx} {w' : World}
    (h : Exiting v c s₁ tr w) (hcall : tx.call.exits c = true) (hn : v.next w tx = some w') :
    Exiting v c s₁ (tr ++ [⟨w, tx, w'⟩]) w' := by
  obtain ⟨-, hsender, -, he⟩ := next_eq_some hn
  obtain ⟨promised, hstep⟩ := exits_step h.books h.fees hcall he
  have hplain : tx.call.isReport = false := by
    cases hkind : tx.call <;> rw [hkind] at hcall <;> first | rfl | cases hcall
  have hrate := h.books.rate_exec_of_zero h.fees hsender hplain he
  -- each of the four sums grows by what this call adds
  have hsums : burnedBy (tr ++ [⟨w, tx, w'⟩]) = burnedBy tr + tx.call.burned ∧
      fulfilmentsIn (tr ++ [⟨w, tx, w'⟩]) = fulfilmentsIn tr + tx.call.fulfilments ∧
      v.claimedBy (tr ++ [⟨w, tx, w'⟩]) =
        v.claimedBy tr + v.claimed tx.msg w.state tx.call := by
    simp [burnedBy, fulfilmentsIn, claimedBy]
  obtain ⟨hburned, hfulfilments, hclaimed⟩ := hsums
  have hsupply := hstep.supply
  have hworth := hstep.worth
  have hclaims := hstep.claims
  refine ⟨h.books.exec hsender he, ?_, ?_, ?_, ?_, ?_⟩
  · rw [FeesZero, hstep.limits]
    exact h.fees
  · exact rateLe_iff.mpr ((rateLe_iff.mp h.rate).trans virtualShares_pos (rateLe_iff.mp hrate))
  · have := h.supply
    omega
  · have := h.worth
    rw [sentOut_snoc]
    show v.totalAssets w'.state + _ + (v.sentOut tr +
      (v.idleAssets w.state - v.idleAssets w'.state)) = _
    omega
  · -- a fulfilment is priced at this rate, and the rate has not fallen since `s₁`
    have hpriced : tx.call.burned * (v.totalAssets s₁ + 1) ≤
        (promised + tx.call.fulfilments) * (s₁.shares.totalSupply + virtualShares) := by
      refine Nat.le_of_mul_le_mul_right ?_ (supply_pos w.state)
      calc tx.call.burned * (v.totalAssets s₁ + 1) * (w.state.shares.totalSupply + virtualShares)
          = tx.call.burned *
              ((v.totalAssets s₁ + 1) * (w.state.shares.totalSupply + virtualShares)) := by ring
        _ ≤ tx.call.burned *
              ((v.totalAssets w.state + 1) * (s₁.shares.totalSupply + virtualShares)) :=
            Nat.mul_le_mul_left _ h.rate
        _ = tx.call.burned * (v.totalAssets w.state + 1) *
              (s₁.shares.totalSupply + virtualShares) := by ring
        _ ≤ (promised + tx.call.fulfilments) * (w.state.shares.totalSupply + virtualShares) *
              (s₁.shares.totalSupply + virtualShares) := Nat.mul_le_mul_right _ hstep.priced
        _ = _ := by ring
    have hsum : (w'.state.redeem c).claimableAssets + v.claimedBy (tr ++ [⟨w, tx, w'⟩]) +
        fulfilmentsIn (tr ++ [⟨w, tx, w'⟩]) = (w.state.redeem c).claimableAssets +
          v.claimedBy tr + fulfilmentsIn tr + (promised + tx.call.fulfilments) := by omega
    rw [hsum, hburned, Nat.add_mul, Nat.add_mul]
    have := h.priced
    omega

theorem Exiting.run {tr : List (Transition World Tx)} (hb : Books v w₁.state)
    (hfees : FeesZero w₁.state) (hrun : Run v.next w₁ tr w)
    (hexits : ∀ t ∈ tr, t.label.call.exits c = true) : Exiting v c w₁.state tr w := by
  refine hrun.history (I := Exiting v c w₁.state) (P := fun t => t.label.call.exits c = true)
    hexits ?_ fun tr w tx w' hcall h hn => h.step hcall hn
  exact ⟨hb, hfees, rateLe_iff.mpr (.refl _), rfl, rfl,
    by simp [burnedBy, claimedBy, fulfilmentsIn]⟩

/-- What claims answer for leaves the vault, unless they are made out to it. -/
theorem sentOut_eq_claimedBy {tr : List (Transition World Tx)} (hb : Books v w₁.state)
    (hfees : FeesZero w₁.state) (hrun : Run v.next w₁ tr w)
    (hexits : ∀ t ∈ tr, t.label.call.exits c = true)
    (hpayee : ∀ t ∈ tr, t.label.call.payee ≠ some v.self.val) :
    v.sentOut tr = v.claimedBy tr := by
  have hkept := (hrun.invariant_of (I := fun w => Books v w.state ∧ FeesZero w.state)
    (P := fun t => t.label.call.exits c = true) hexits ⟨hb, hfees⟩ fun w tx w' hcall h hn => by
      obtain ⟨-, hsender, -, he⟩ := next_eq_some hn
      obtain ⟨_, hstep⟩ := exits_step h.1 h.2 hcall he
      exact ⟨h.1.exec hsender he, by rw [FeesZero, hstep.limits]; exact h.2⟩).2
  refine congrArg List.sum (List.map_congr_left fun t ht => ?_)
  obtain ⟨-, -, -, he⟩ := next_eq_some (hrun.step_of_mem t ht)
  obtain ⟨_, hstep⟩ := exits_step (hkept t ht).1.1 (hkept t ht).1.2 (hexits t ht) he
  exact hstep.sent (hpayee t ht)

/-- What a deposit without fees leaves. -/
structure Deposited (v : LemonVault) (c : Address) (s s' : State) (a m : Nat) : Prop where
  fees : FeesZero s'
  worth : v.totalAssets s' = v.totalAssets s + a
  supply : s'.shares.totalSupply = s.shares.totalSupply + m
  claims : (s'.redeem c).claimableAssets = (s.redeem c).claimableAssets
  most : m * (v.totalAssets s + 1) ≤ a * (s.shares.totalSupply + virtualShares)
  least : a * (s.shares.totalSupply + virtualShares) < (m + 1) * (v.totalAssets s + 1)

theorem deposit_of_zero {a m : Nat} {r : Address} (hb : Books v s) (hfees : FeesZero s)
    (hsender : msg.sender ≠ v.self) (h : v.deposit msg s a r = .ok (m, s')) :
    Deposited v c s s' a m := by
  have hlevel : Level v s (v.accrueFees msg.timestamp s) := accrueFees_level hfees _
  have hsolvent : (v.pool (v.lead msg s .accrueFees)).Solvent := hb.lead_solvent .accrueFees
  have hlead : Books v (v.accrueFees msg.timestamp s) :=
    ⟨hsolvent, by rw [accrueFees_usdc]; exact hb.unapproved⟩
  obtain ⟨-, hm, hdep⟩ := deposit_ok h
  obtain ⟨hworth, hsupply⟩ := depositAssets_effect hlead hsender hdep
  obtain ⟨t, -, -, hs'⟩ := depositAssets_ok hdep
  refine ⟨?_, by rw [hworth, hlevel.worth], by rw [hsupply, hlevel.supply], ?_, ?_, ?_⟩
  · rw [FeesZero, hs']
    show (v.accrueFees msg.timestamp s).limits.val.managementFeeBps = 0 ∧
      (v.accrueFees msg.timestamp s).limits.val.performanceFeeBps = 0
    rw [hlevel.limits]
    exact hfees
  · rw [hs', ← hlevel.redeem]
  · rw [← hlevel.worth, ← hlevel.supply, hm]
    exact convertToShares_mul_le
  · rw [← hlevel.worth, ← hlevel.supply, hm]
    exact (mulDiv_floor_lt_iff (Nat.succ_pos _)).mp (Nat.lt_succ_self _)

/-- The shares `m` of a deposit `a`, exited at the rate it left, come to the deposit but for
the value of one share: `p` is what covers them at that rate. -/
theorem deposit_le_of_priced {A a m T : Nat} {p : ℚ} (hT : 0 < T)
    (hleast : a * T < (m + 1) * (A + 1)) (hp : (m * (A + a + 1) : ℚ) ≤ p * (T + m)) :
    (a : ℚ) - (A + a + 1) / T ≤ p := by
  have hpos : (0 : ℚ) < T := by exact_mod_cast hT
  have hT' : (0 : ℚ) < T + m := add_pos_of_pos_of_nonneg hpos (Nat.cast_nonneg m)
  have hle : (a * T : ℚ) ≤ (m + 1) * (A + 1) := by exact_mod_cast hleast.le
  rw [sub_le_iff_le_add, ← sub_le_iff_le_add', le_div_iff₀ hpos]
  refine le_of_mul_le_mul_right ?_ hT'
  have hscaled : (a * T * T : ℚ) ≤ (m + 1) * (A + 1) * T := mul_le_mul_of_nonneg_right hle hpos.le
  have hcovered : (m * (A + a + 1) * T : ℚ) ≤ p * (T + m) * T :=
    mul_le_mul_of_nonneg_right hp hpos.le
  have hslack : (0 : ℚ) ≤ a * T + (A + a + 1) * m := by positivity
  calc ((a : ℚ) - p) * T * (T + m)
      = a * T * T + a * m * T - p * (T + m) * T := by ring
    _ ≤ (m + 1) * (A + 1) * T + a * m * T - m * (A + a + 1) * T :=
        sub_le_sub (add_le_add_left hscaled _) hcovered
    _ = (A + 1) * T := by ring
    _ ≤ (A + 1) * T + (a * T + (A + a + 1) * m) := le_add_of_nonneg_right hslack
    _ = (A + a + 1) * (T + m) := by ring

/-- **A round trip loses rounding only.** Without fees, a deposit of `a` whose shares are
then all taken out by `c`, in any number of fulfilments and claims: what leaves the vault is
at most the deposit and what `c` could claim before; what the claims answer for is at least
that, less a unit a fulfilment and the value of one share. The two are the same amount
unless a claim is made out to the vault itself. -/
theorem round_trip_within_rounding {tr : List (Transition World Tx)} {a : Nat} {r : Address}
    (hw : Reachable v w₀) (hfees : FeesZero w₀.state)
    (hdeposit : v.next w₀ ⟨msg, .deposit a r⟩ = some w₁)
    (hminted : v.deposit msg w₀.state a r = .ok (burnedBy tr, w₁.state))
    (hrun : Run v.next w₁ tr w) (hexits : ∀ t ∈ tr, t.label.call.exits c = true)
    (hnone : (w.state.redeem c).claimableAssets = 0) :
    v.sentOut tr ≤ a + (w₀.state.redeem c).claimableAssets ∧
      (a + (w₀.state.redeem c).claimableAssets : ℚ) - fulfilmentsIn tr -
          (v.totalAssets w₀.state + a + 1) / (w₀.state.shares.totalSupply + virtualShares) ≤
        v.claimedBy tr ∧
      ((∀ t ∈ tr, t.label.call.payee ≠ some v.self.val) → v.sentOut tr = v.claimedBy tr) := by
  have hb := Books.reachable hw
  obtain ⟨-, hsender, -, he⟩ := next_eq_some hdeposit
  have hdep : Deposited v c w₀.state w₁.state a (burnedBy tr) :=
    deposit_of_zero hb hfees hsender hminted
  have hexit : Exiting v c w₁.state tr w := .run (hb.exec hsender he) hdep.fees hrun hexits
  refine ⟨?_, ?_, ?_⟩
  -- at most: the supply is as it was and the rate has not fallen
  · have hrate : RateLe v w₀.state w.state :=
      rateLe_iff.mpr ((rateLe_iff.mp (hb.rate_exec_of_zero hfees hsender rfl he)).trans
        virtualShares_pos (rateLe_iff.mp hexit.rate))
    have hsupply : w.state.shares.totalSupply = w₀.state.shares.totalSupply := by
      have := hexit.supply
      have := hdep.supply
      omega
    rw [RateLe, hsupply] at hrate
    have hkept := Nat.le_of_mul_le_mul_right hrate (supply_pos _)
    have hworth := hexit.worth
    rw [hnone, hdep.worth, hdep.claims] at hworth
    omega
  -- at least: each fulfilment drops less than a unit, and the deposit less than a share
  · have hpriced := hexit.priced
    rw [hnone, hdep.worth, hdep.supply, hdep.claims, Nat.zero_add,
      Nat.add_right_comm _ (burnedBy tr)] at hpriced
    have hcovered := deposit_le_of_priced (p := v.claimedBy tr + fulfilmentsIn tr -
      (w₀.state.redeem c).claimableAssets) (supply_pos w₀.state) hdep.least (by
        have hcast : (burnedBy tr * (v.totalAssets w₀.state + a + 1) +
            (w₀.state.redeem c).claimableAssets *
              (w₀.state.shares.totalSupply + virtualShares + burnedBy tr) : ℚ) ≤
            (v.claimedBy tr + fulfilmentsIn tr) *
              (w₀.state.shares.totalSupply + virtualShares + burnedBy tr) := by
          exact_mod_cast hpriced
        push_cast
        linarith)
    push_cast at hcovered
    linarith
  · intro hpayee
    exact sentOut_eq_claimedBy (hb.exec hsender he) hdep.fees hrun hexits hpayee

/-- No fees, and a report that stays fresh for longer than a redemption waits. -/
def patientLimits : ValidLimits :=
  ⟨{ Test.noFeeLimits.val with maxNavStaleness := 7 * 86400 }, by decide⟩

/-- Five USDC sent to an empty vault: a share costs five million times as much. -/
def inflated : World :=
  Test.after patientLimits Test.conservativeRisk
    [Test.tx Test.bob 0 (.usdc (.transfer Test.vault (5 * Test.oneUsdc)))] (by rfl)

def thousandIntoInflated : Tx :=
  Test.tx Test.alice 0 (.deposit (1000 * Test.oneUsdc) Test.alice)

theorem thousandIntoInflated_isSome :
    ((Test.lemonVault Test.conservativeRisk).next inflated thousandIntoInflated).isSome := by rfl

/-- Out of it in two fulfilments, each claimed. -/
def outInTwo : List Tx :=
  [Test.tx Test.alice 0 (.requestRedeem 199999960000007 Test.alice Test.alice),
   Test.tx Test.agent 259200 (.fulfillRedeem Test.alice 99999980000003),
   Test.tx Test.alice 259200 (.redeem 99999980000003 Test.bob Test.alice),
   Test.tx Test.agent 259200 (.fulfillRedeem Test.alice 99999980000004),
   Test.tx Test.alice 259200 (.redeem 99999980000004 Test.alice Test.alice)]

theorem outInTwo_isSome : (trace (Test.lemonVault Test.conservativeRisk).next
    (Option.get _ thousandIntoInflated_isSome) outInTwo).isSome := by rfl

theorem round_trip_within_rounding_inflated :
    (Test.lemonVault Test.conservativeRisk).sentOut (Option.get _ outInTwo_isSome).1 ≤
      1000 * Test.oneUsdc := by
  have hdeposit := (Option.some_get thousandIntoInflated_isSome).symm
  obtain ⟨-, -, -, he⟩ := next_eq_some hdeposit
  obtain ⟨m, hminted⟩ := exec_deposit_ok he
  have hm : m = burnedBy (Option.get _ outInTwo_isSome).1 := by
    rw [(deposit_ok hminted).2.1]
    decide
  exact (round_trip_within_rounding (Test.reachable_after _) (by decide) hdeposit (hm ▸ hminted)
    (trace_run (Option.some_get outInTwo_isSome).symm) (c := Test.alice.val) (by decide)
    (by decide)).1

end LemonVault

end LemonMarket
