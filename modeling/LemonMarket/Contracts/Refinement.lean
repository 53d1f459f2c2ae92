import LemonMarket.Contracts.Effects
import LemonMarket.Lib.SharePool

/-!
# LemonMarket.Contracts.Refinement

**The vault is a share pool.** `LemonVault.pool` reads the five numbers of
`Lib.Pool` off the storage, and `exec_refines` says that every successful call is a
sequence of allowed pool moves, each one the call is entitled to (`Call.Permits`).
What the pool's moves keep, the vault's calls keep: solvency, the claims of
everyone a call does not name, and the rate.

The moves are counted from the state after the leading accrual (`lead`); the
accrual itself is one `mint`.
-/

namespace LemonMarket

open Lib

/-- The moves a call may make of the pool. Paying the vault itself, or an agent
wallet that is the vault, brings the assets straight back: a gift. -/
def Call.Permits : Call → Move Address → Prop
  | .usdc _, .gift _ => True
  | .deposit _ _, .subscribe _ _ => True
  | .mint _ _, .subscribe _ _ => True
  | .fulfillRedeem c _, .settle d _ _ => d = c
  | .redeem _ _ c, .pay d _ _ => d = c
  | .redeem _ _ _, .gift _ => True
  | .withdraw _ _ c, .pay d _ _ => d = c
  | .withdraw _ _ _, .gift _ => True
  | .agentWithdraw n, .deploy a => a = n
  | .agentWithdraw _, .gift _ => True
  | .agentReturn _, .bringBack _ => True
  | .agentReturn _, .gift _ => True
  | .donate _, .gift _ => True
  | .reportNav d _ _, .restate e => e = d
  | .reportNav _ _ _, .mint _ => True
  | _, _ => False

/-- The controller whose claim a call is about. -/
def Call.claimant : Call → Option Address
  | .fulfillRedeem c _ | .redeem _ _ c | .withdraw _ _ c => some c
  | _ => none

/-- Whether the call is a valuation report. -/
def Call.isReport : Call → Bool
  | .reportNav _ _ _ => true
  | _ => false

theorem Call.Permits.claimant {call : Call} {m : Move Address} {c : Address}
    (h : call.Permits m) (hm : m.claimant = some c) : call.claimant = some c := by
  cases m with
  | settle d n a =>
      obtain rfl : d = c := by simpa [Move.claimant] using hm
      cases call with
      | fulfillRedeem e n => simpa [Call.Permits, Call.claimant, eq_comm] using h
      | _ => exact h.elim
  | pay d n a =>
      obtain rfl : d = c := by simpa [Move.claimant] using hm
      cases call with
      | redeem n r e => simpa [Call.Permits, Call.claimant, eq_comm] using h
      | withdraw n r e => simpa [Call.Permits, Call.claimant, eq_comm] using h
      | _ => exact h.elim
  | _ => cases hm

theorem Call.Permits.plain {call : Call} {m : Move Address} (h : call.Permits m)
    (hc : call.isReport = false) : m.Plain := by
  cases m with
  | mint n =>
      cases call with
      | reportNav d l o => cases hc
      | _ => exact h.elim
  | restate d =>
      cases call with
      | reportNav d l o => cases hc
      | _ => exact h.elim
  | _ => trivial

namespace LemonVault

variable (v : LemonVault)

/-- The pool the storage amounts to. -/
def pool (s : State) : Pool Address where
  idle := v.idleAssets s
  deployed := s.deployedAssets
  reserved := s.claimableAssets
  supply := s.shares.totalSupply
  claims c := ⟨(s.redeem c).claimableShares, (s.redeem c).claimableAssets⟩

variable {v} {s s' : State} {msg : Msg}

@[simp] theorem pool_worth : (v.pool s).worth = v.totalAssets s := (v.totalAssets_eq s).symm

@[simp] theorem pool_free : (v.pool s).free = v.freeAssets s := (v.freeAssets_eq s).symm

@[simp] theorem pool_supply : (v.pool s).supply = s.shares.totalSupply := rfl

/-! ### USDC in and out -/

/-- A pull from anyone but the vault adds the amount. -/
theorem pulled {t : Erc20 Address} {n : Nat} (hsender : msg.sender ≠ v.self)
    (h : s.usdc.transferFrom v.self msg.sender v.self n = .ok t) :
    t.balanceOf v.self = s.usdc.balanceOf v.self + n ∧
      ∀ a b, t.allowance a b ≤ s.usdc.allowance a b := by
  obtain ⟨hn, hl, -, hallow⟩ := Erc20.transferFrom_ok h
  exact ⟨by rw [Erc20.balanceOf, hl]; exact Ledger.move_to hn hsender, hallow⟩

/-- A push takes the amount, unless it goes to the vault itself. -/
theorem pushed {t : Erc20 Address} {r : Address} {n : Nat}
    (h : s.usdc.transferBetween v.self r n = .ok t) :
    n ≤ s.usdc.balanceOf v.self ∧ t.allowance = s.usdc.allowance ∧
      t.balanceOf v.self =
        s.usdc.balanceOf v.self - n + if r = v.self then n else 0 := by
  obtain ⟨hn, rfl⟩ := Erc20.transferBetween_ok h
  refine ⟨hn, rfl, ?_⟩
  split
  next hr =>
    subst hr
    exact (congrFun (Ledger.move_self hn) _).trans (Nat.sub_add_cancel hn).symm
  next hr => exact Ledger.move_from hn (Ne.symm hr)

/-- A call on USDC by anyone else never takes from the vault. -/
theorem usdcCall_gift {t : Erc20 Address} {call : TokenCall} (hsender : msg.sender ≠ v.self)
    (hnone : ∀ a, s.usdc.allowance v.self a = 0)
    (h : call.exec s.usdc msg.sender = .ok t) :
    (∃ g, t.balanceOf v.self = s.usdc.balanceOf v.self + g) ∧
      ∀ a, t.allowance v.self a = 0 := by
  obtain ⟨hbal, hallow⟩ := TokenCall.exec_spares (Ne.symm hsender) (hnone _) h
  refine ⟨Nat.exists_eq_add_of_le hbal, ?_⟩
  intro a
  exact Nat.le_zero.mp (hnone a ▸ hallow a)

/-! ### Calls as moves -/

/-- An accrual only dilutes. -/
theorem FeeFrame.pool (h : FeeFrame s s') :
    ∃ n, v.pool s' = (v.pool s).apply (.mint n) := by
  obtain ⟨n, hn⟩ := Nat.exists_eq_add_of_le h.supply
  refine ⟨n, ?_⟩
  rw [h.rest]
  simp only [LemonVault.pool, Pool.apply, idleAssets, hn]

theorem rollNavEpoch_pool (now : Nat) : v.pool (rollNavEpoch now s) = v.pool s := by
  simp only [rollNavEpoch]
  split <;> rfl

/-- The accrual at the head of a call. -/
theorem lead_pool (v : LemonVault) (s : State) (msg : Msg) (call : Call) :
    v.pool (v.lead msg s call) = v.pool s ∨
      ∃ n, v.pool (v.lead msg s call) = (v.pool s).apply (.mint n) := by
  cases call with
  | reportNav d l o =>
      right
      rw [← rollNavEpoch_pool (v := v) (s := s) msg.timestamp]
      exact (accrueFees_frame msg.timestamp _).pool
  | deposit | mint | requestRedeem | fulfillRedeem | donate | accrueFees | setLimits
  | setInsuranceFund => exact .inr (accrueFees_frame msg.timestamp s).pool
  | _ => exact .inl rfl

/-- A call that took the pool `p` to that of `s'` by moves it may make, and left no
USDC allowance out of the vault. -/
structure Refines (v : LemonVault) (call : Call) (p : Pool Address) (s' : State) : Prop where
  moves : ∃ ms, p.Steps virtualShares ms (v.pool s') ∧ ∀ m ∈ ms, call.Permits m
  unapproved : ∀ a, s'.usdc.allowance v.self a = 0

variable {call : Call} {p : Pool Address}

theorem Refines.stay (hp : v.pool s' = p) (ha : ∀ a, s'.usdc.allowance v.self a = 0) :
    Refines v call p s' :=
  ⟨⟨[], hp, by simp⟩, ha⟩

theorem Refines.one {m : Move Address} (hm : p.Allowed virtualShares m) (hc : call.Permits m)
    (hp : v.pool s' = p.apply m) (ha : ∀ a, s'.usdc.allowance v.self a = 0) :
    Refines v call p s' :=
  ⟨⟨[m], ⟨hm, hp⟩, by simpa using hc⟩, ha⟩

theorem Refines.two (m₁ m₂ : Move Address) (h₁ : p.Allowed virtualShares m₁)
    (h₂ : (p.apply m₁).Allowed virtualShares m₂) (hc₁ : call.Permits m₁) (hc₂ : call.Permits m₂)
    (hp : v.pool s' = (p.apply m₁).apply m₂) (ha : ∀ a, s'.usdc.allowance v.self a = 0) :
    Refines v call p s' :=
  ⟨⟨[m₁, m₂], ⟨h₁, h₂, hp⟩, by simp [hc₁, hc₂]⟩, ha⟩

/-- No call raises an allowance out of the vault. -/
theorem unapproved_of_le {t u : Erc20 Address} (h : ∀ a b, t.allowance a b ≤ u.allowance a b)
    (hu : ∀ a, u.allowance v.self a = 0) (a : Address) : t.allowance v.self a = 0 :=
  Nat.le_zero.mp (hu a ▸ h v.self a)

theorem depositAssets_refines {r : Address} {a n : Nat} (hsender : msg.sender ≠ v.self)
    (hnone : ∀ a, s.usdc.allowance v.self a = 0)
    (hprice : n * (v.totalAssets s + 1) ≤ a * (s.shares.totalSupply + virtualShares))
    (hcall : call.Permits (.subscribe a n)) (h : v.depositAssets msg s r a n = .ok s') :
    Refines v call (v.pool s) s' := by
  obtain ⟨t, ht, -, rfl⟩ := depositAssets_ok h
  obtain ⟨hbal, hallow⟩ := pulled hsender ht
  refine .one (m := .subscribe a n) ?_ hcall ?_ (unapproved_of_le hallow hnone)
  · simpa only [Pool.Allowed, pool_worth, pool_supply] using hprice
  · simp only [pool, Pool.apply, idleAssets, hbal, Erc20.issue_totalSupply]

theorem claim_refines {c r : Address} {n a : Nat} (hn : n ≤ (s.redeem c).claimableShares)
    (ha : a ≤ (s.redeem c).claimableAssets) (hnone : ∀ a, s.usdc.allowance v.self a = 0)
    (hpay : call.Permits (.pay c n a)) (hgift : ∀ g, call.Permits (.gift g))
    (h : v.claim msg s c r n a = .ok s') : Refines v call (v.pool s) s' := by
  obtain ⟨-, t, ht, rfl⟩ := claim_ok h
  obtain ⟨-, hallow, hbal⟩ := pushed ht
  refine .two (.pay c n a) (.gift (if r = v.self then a else 0)) ⟨hn, ha⟩ trivial hpay
    (hgift _) ?_ (fun x => hallow ▸ hnone x)
  simp only [pool, Pool.apply, idleAssets, hbal]
  congr 1
  funext x
  by_cases hx : x = c
  · subst hx; simp
  · simp [hx]

theorem fulfillRedeem_refines {c : Address} {n a : Nat}
    (hnone : ∀ a, s.usdc.allowance v.self a = 0)
    (h : v.fulfillRedeem msg s c n = .ok (a, s')) :
    Refines v (.fulfillRedeem c n) (v.pool (v.accrueFees msg.timestamp s)) s' := by
  obtain ⟨-, -, lead, hlead, -, -, -, ha, hfree, t, ht, rfl⟩ := fulfillRedeem_ok h
  have hsupply := Erc20.burn_totalSupply ht
  rw [← hlead]
  refine .one (m := .settle c n a) ⟨?_, ?_, ?_⟩ rfl ?_ ?_
  · simpa only [pool_free] using hfree
  · simp only [pool]; omega
  · simp only [pool_worth, ha]
    exact convertToAssets_mul_le
  · simp only [pool, Pool.apply, idleAssets]
    congr 1
    · omega
    · funext x
      by_cases hx : x = c
      · subst hx; simp
      · simp [hx]
  · rw [hlead]
    simp only [accrueFees_usdc]
    exact hnone

theorem agentWithdraw_refines {n : Nat} (hnone : ∀ a, s.usdc.allowance v.self a = 0)
    (h : v.agentWithdraw msg s n = .ok s') :
    Refines v (.agentWithdraw n) (v.pool s) s' := by
  obtain ⟨-, -, -, -, -, hfree, -, -, t, ht, rfl⟩ := agentWithdraw_ok h
  obtain ⟨-, hallow, hbal⟩ := pushed ht
  refine .two (.deploy n) (.gift (if v.agentWallet = v.self.val then n else 0))
    (by simpa only [Pool.Allowed, pool_free] using hfree) trivial rfl trivial ?_
    (fun x => hallow ▸ hnone x)
  simp only [pool, Pool.apply, idleAssets, hbal]

theorem agentReturn_refines {n : Nat} (hsender : msg.sender ≠ v.self)
    (hnone : ∀ a, s.usdc.allowance v.self a = 0) (h : v.agentReturn msg s n = .ok s') :
    Refines v (.agentReturn n) (v.pool s) s' := by
  obtain ⟨-, t, ht, rfl⟩ := agentReturn_ok h
  obtain ⟨hbal, hallow⟩ := pulled hsender ht
  refine .two (.bringBack (min n s.deployedAssets)) (.gift (n - min n s.deployedAssets))
    (Nat.min_le_right _ _) trivial trivial trivial ?_ (unapproved_of_le hallow hnone)
  simp only [pool, Pool.apply, idleAssets, hbal]
  congr 1
  omega

theorem donate_refines {n : Nat} (hsender : msg.sender ≠ v.self)
    (hnone : ∀ a, s.usdc.allowance v.self a = 0) (h : v.donate msg s n = .ok s') :
    Refines v (.donate n) (v.pool (v.accrueFees msg.timestamp s)) s' := by
  obtain ⟨-, lead, hlead, t, ht, rfl⟩ := donate_ok h
  obtain ⟨hbal, hallow⟩ := pulled hsender ht
  have hnone' : ∀ a, lead.usdc.allowance v.self a = 0 := by
    rw [hlead, accrueFees_usdc]; exact hnone
  rw [← hlead]
  refine .one (m := .gift n) trivial trivial ?_ (unapproved_of_le hallow hnone')
  simp only [pool, Pool.apply, idleAssets, hbal]

theorem reportNav_refines {d l o : Nat} (hnone : ∀ a, s.usdc.allowance v.self a = 0)
    (h : v.reportNav msg s d l o = .ok s') :
    Refines v (.reportNav d l o)
      (v.pool (v.accrueFees msg.timestamp (rollNavEpoch msg.timestamp s))) s' := by
  obtain ⟨-, -, -, -, rolled, hrolled, -, restated, hrestated, rfl⟩ := reportNav_ok h
  have hframe := accrueFees_frame (v := v) msg.timestamp restated
  obtain ⟨k, hk⟩ := hframe.pool (v := v)
  refine .two (.restate d) (.mint k) trivial trivial rfl trivial ?_ ?_
  · rw [← hrolled]
    calc v.pool _ = v.pool (v.accrueFees msg.timestamp restated) := rfl
      _ = (v.pool restated).apply (.mint k) := hk
      _ = _ := by rw [hrestated]; rfl
  · intro a
    have husdc : (v.accrueFees msg.timestamp restated).usdc = s.usdc := by
      rw [accrueFees_usdc, hrestated]
      simp only [restateNav, accrueFees_usdc, hrolled, rollNavEpoch]
      split <;> rfl
    simp only [State.emit, husdc]
    exact hnone a

/-- A token call moves shares but never issues or retires them. -/
theorem tokenCall_totalSupply {t u : Erc20 Address} {a : Address} {call : TokenCall}
    (h : call.exec t a = .ok u) : u.totalSupply = t.totalSupply := by
  cases call with
  | transfer r n =>
      obtain ⟨hn, rfl⟩ := Erc20.transferBetween_ok h
      rfl
  | transferFrom o r n =>
      obtain ⟨hn, hl, -⟩ := Erc20.transferFrom_ok h
      rw [Erc20.totalSupply, hl]
      rfl
  | approve spender n =>
      obtain rfl := Erc20.approve_ok h
      rfl

/-- **Refinement.** A successful call by anyone but the vault, with no USDC
allowance out of it, is a sequence of pool moves the call may make. -/
theorem exec_refines (hsender : msg.sender ≠ v.self)
    (hnone : ∀ a, s.usdc.allowance v.self a = 0) (h : v.exec msg s call = .ok s') :
    Refines v call (v.pool (v.lead msg s call)) s' := by
  have haccrued : ∀ a, (v.accrueFees msg.timestamp s).usdc.allowance v.self a = 0 := by
    rw [accrueFees_usdc]; exact hnone
  cases hadmin : administers call with
  | true =>
      obtain ⟨hfees, hs'⟩ := exec_administers hadmin h
      rw [hs']
      refine .stay rfl ?_
      rw [hfees.usdc]
      exact hnone
  | false =>
      cases call with
      -- plain transfers of either token: a gift at most
      | usdc call =>
          obtain ⟨t, ht, rfl⟩ := exec_usdc_ok h
          obtain ⟨⟨g, hg⟩, hallow⟩ := usdcCall_gift hsender hnone ht
          refine .one (m := .gift g) trivial trivial ?_ hallow
          simp only [lead, pool, Pool.apply, idleAssets, hg]
      | shares call =>
          obtain ⟨t, ht, rfl⟩ := exec_shares_ok h
          refine .stay ?_ hnone
          simp only [lead, pool, idleAssets, tokenCall_totalSupply ht]
      -- shares are issued at or above the price of the pool, whichever amount is given
      | deposit a r =>
          obtain ⟨n, hdep⟩ := exec_deposit_ok h
          obtain ⟨-, hn, hdep⟩ := deposit_ok hdep
          exact depositAssets_refines hsender haccrued (hn ▸ convertToShares_mul_le) trivial hdep
      | mint n r =>
          obtain ⟨a, hmint⟩ := exec_mint_ok h
          obtain ⟨-, ha, hdep⟩ := mint_ok hmint
          exact depositAssets_refines hsender haccrued (ha ▸ le_convertToAssets_ceil_mul) trivial
            hdep
      | setOperator op b =>
          obtain ⟨-, rfl⟩ := setOperator_ok h
          exact .stay rfl hnone
      | requestRedeem n c o =>
          obtain ⟨-, -, -, lead, rfl, t, ht, rfl⟩ := requestRedeem_ok h
          obtain ⟨hn, rfl⟩ := Erc20.transferBetween_ok ht
          refine .stay ?_ haccrued
          simp only [LemonVault.lead, pool]
          congr 1
          funext x
          by_cases hx : x = c
          · subst hx; simp
          · simp [hx]
      -- what is owed is fixed when a request is fulfilled, and paid out when it is claimed
      | fulfillRedeem c n =>
          obtain ⟨a, hful⟩ := exec_fulfillRedeem_ok h
          exact fulfillRedeem_refines hnone hful
      | redeem n r c =>
          obtain ⟨a, hred⟩ := exec_redeem_ok h
          obtain ⟨-, -, hn, ha, hclaim⟩ := redeem_ok hred
          exact claim_refines hn (ha ▸ mulDiv_floor_le_right hn) hnone rfl (fun _ => trivial) hclaim
      | withdraw a r c =>
          obtain ⟨n, hwd⟩ := exec_withdraw_ok h
          obtain ⟨-, -, ha, hn, hclaim⟩ := withdraw_ok hwd
          exact claim_refines (hn ▸ Nat.min_le_right _ _) ha hnone rfl (fun _ => trivial) hclaim
      -- capital that goes out, comes back, is given or is marked
      | agentWithdraw n => exact agentWithdraw_refines hnone h
      | agentReturn n => exact agentReturn_refines hsender hnone h
      | donate n => exact donate_refines hsender hnone h
      | reportNav d l o => exact reportNav_refines hnone h
      | _ => cases hadmin

end LemonVault

end LemonMarket
