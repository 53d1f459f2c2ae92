import LemonMarket.Contracts.Authority
import LemonMarket.Contracts.Mark
import LemonMarket.Contracts.Rate
import LemonMarket.Contracts.Registry

/-!
# LemonMarket.Contracts.FundCustody

**What the fund holds leaves by its treasurer alone.** The fund approves nobody: not its
shares, not its operators, and its USDC only inside a `cover`, which takes the approval
back. `Closed` is that invariant. From it: through any run in which no treasurer acts the
fund's USDC and its shares in every vault only grow, and its queued exits are only ever
settled in its favour.

A `cover` is a gift and nothing else: the whole amount reaches the vault, no share is
minted against it, and the mark is carried over it, so it is never billed as a gain.
-/

namespace LemonMarket

open Lib

/-! ### Delegating nothing -/

/-- Calls that hand somebody else the caller's shares or exits. -/
def Call.delegates : Call → Bool
  | .shares (.approve _ _) | .setOperator _ _ => true
  | _ => false

/-- `x` has delegated nothing in this vault. -/
structure Closed (x : Address) (k : Custody) : Prop where
  shares : ∀ b, k.shares.allowance x b = 0
  operator : ∀ b, k.isOperator x b = false

/-- `x` holds what it held: shares are there or more, and what was queued is queued or
claimable still. -/
structure HoldsOn (x : Address) (k k' : Custody) : Prop where
  shares : k.shares.balanceOf x ≤ k'.shares.balanceOf x
  queued : (k'.redeem x).pendingShares + (k'.redeem x).claimableShares =
    (k.redeem x).pendingShares + (k.redeem x).claimableShares
  claimableShares : (k.redeem x).claimableShares ≤ (k'.redeem x).claimableShares
  claimableAssets : (k.redeem x).claimableAssets ≤ (k'.redeem x).claimableAssets

variable {vault x : Address} {msg : Msg} {call : Call} {k k' k'' : Custody}

theorem HoldsOn.refl (x : Address) (k : Custody) : HoldsOn x k k := ⟨le_rfl, rfl, le_rfl, le_rfl⟩

theorem HoldsOn.trans (h₁ : HoldsOn x k k') (h₂ : HoldsOn x k' k'') : HoldsOn x k k'' where
  shares := h₁.shares.trans h₂.shares
  queued := h₂.queued.trans h₁.queued
  claimableShares := h₁.claimableShares.trans h₂.claimableShares
  claimableAssets := h₁.claimableAssets.trans h₂.claimableAssets

namespace Custody

theorem Grows.holdsOn (h : k.Grows k') : HoldsOn x k k' where
  shares := h.balance x
  queued := by rw [h.rest]
  claimableShares := by rw [h.rest]
  claimableAssets := by rw [h.rest]

theorem Grows.closed (h : k.Grows k') (hx : Closed x k) : Closed x k' where
  shares b := by rw [h.allowance]; exact hx.shares b
  operator b := by rw [h.rest]; exact hx.operator b

/-- What `x` did not hand out, nobody hands out for it. -/
theorem Step.closed (hs : k.Step vault msg call k')
    (hcall : x ≠ msg.sender ∨ call.delegates = false) (hx : Closed x k) : Closed x k' := by
  cases hs with
  | stay | claim => exact ⟨hx.shares, hx.operator⟩
  | @token tc k t moved =>
      refine ⟨fun b => ?_, hx.operator⟩
      cases tc with
      | transfer r n =>
          obtain ⟨hn, rfl⟩ := Erc20.transferBetween_ok moved
          exact hx.shares b
      | transferFrom o r n =>
          obtain ⟨-, -, -, hallow⟩ := Erc20.transferFrom_ok moved
          exact Nat.le_zero.mp (hx.shares b ▸ hallow x b)
      -- to approve and to appoint are its own calls alone
      | approve spender n =>
          have hsender : x ≠ msg.sender := hcall.resolve_right Bool.noConfusion
          exact Nat.le_zero.mp (hx.shares b ▸ TokenCall.exec_allowance hsender moved b)
  | appoint =>
      have hsender : x ≠ msg.sender := hcall.resolve_right Bool.noConfusion
      exact ⟨hx.shares, fun b => by simpa [hsender] using hx.operator b⟩
  -- an escrow and a burn are on the vault's own authority, and leave the allowances
  | enqueue owner controller escrowed =>
      obtain ⟨hn, rfl⟩ := Erc20.transferBetween_ok escrowed
      exact ⟨hx.shares, hx.operator⟩
  | settle pending burnt =>
      obtain ⟨hn, rfl⟩ := Erc20.burn_ok burnt
      exact ⟨hx.shares, hx.operator⟩

/-- A step by anybody else leaves `x` what it holds. -/
theorem Step.holdsOn (hs : k.Step vault msg call k') (hvault : x ≠ vault) (hc : x ≠ msg.sender)
    (hx : Closed x k) : HoldsOn x k k' := by
  have hentry : (k'.redeem x).pendingShares + (k'.redeem x).claimableShares =
        (k.redeem x).pendingShares + (k.redeem x).claimableShares ∧
      (k.redeem x).claimableShares ≤ (k'.redeem x).claimableShares ∧
      (k.redeem x).claimableAssets ≤ (k'.redeem x).claimableAssets := by
    by_cases hcall : ∃ n, call = .fulfillRedeem x n
    · obtain ⟨n, rfl⟩ := hcall
      cases hs with
      | stay => exact ⟨rfl, le_rfl, le_rfl⟩
      | claim claimant authority =>
          obtain rfl := Option.some.inj claimant
          rcases authority with hsender | hop
          · exact absurd hsender hc
          · simp [hx.operator] at hop
      | settle pending burnt =>
          -- what leaves the pending shares becomes claimable
          simp only [Function.update_self]
          exact ⟨by omega, Nat.le_add_right _ _, Nat.le_add_right _ _⟩
    · rw [hs.entry hc (hx.operator _) fun n hn => hcall ⟨n, hn⟩]
      exact ⟨rfl, le_rfl, le_rfl⟩
  exact ⟨hs.spares hvault hc (hx.operator _) (hx.shares _), hentry.1, hentry.2.1, hentry.2.2⟩

end Custody

namespace LemonVault

variable {v : LemonVault} {s s' : State} {calls : List Call}

theorem exec_closed (hcall : x ≠ msg.sender ∨ call.delegates = false)
    (h : v.exec msg s call = .ok s') (hx : Closed x s.custody) : Closed x s'.custody := by
  obtain ⟨k, hgrow, hstep⟩ := (exec_custody h).step
  exact hstep.closed hcall (hgrow.closed hx)

theorem execAll_closed (hcall : x ≠ msg.sender ∨ ∀ call ∈ calls, call.delegates = false)
    (h : v.execAll msg s calls = .ok s') (hx : Closed x s.custody) : Closed x s'.custody := by
  induction calls generalizing s with
  | nil =>
      obtain rfl := Except.ok.inj h
      exact hx
  | cons call calls ih =>
      obtain ⟨m, hm, hrest⟩ := execAll_cons h
      refine ih (hcall.imp_right fun hall c hc => hall c (List.mem_cons_of_mem _ hc)) hrest ?_
      exact exec_closed (hcall.imp_right fun hall => hall call List.mem_cons_self) hm hx

theorem exec_holdsOn (hv : x ≠ v.self) (hc : x ≠ msg.sender) (h : v.exec msg s call = .ok s')
    (hx : Closed x s.custody) : HoldsOn x s.custody s'.custody := by
  obtain ⟨k, hgrow, hstep⟩ := (exec_custody h).step
  exact hgrow.holdsOn.trans (hstep.holdsOn hv hc (hgrow.closed hx))

end LemonVault

namespace Platform

variable {p q : Platform} {tx : PlatformTx}

/-- None of the fund's entry points delegates. -/
theorem OfFund.delegates {fund a : Address} {calls : List Call} (h : OfFund fund a calls) :
    ∀ call ∈ calls, call.delegates = false := by
  cases h <;> simp [Call.delegates]

/-- The approval of a `cover` is taken back; the other entry points approve nobody. -/
theorem OfFund.unapproved {v : LemonVault} {fund : Address} {now : Nat} {s s' : State}
    {calls : List Call} (h : OfFund fund v.self calls)
    (hnone : ∀ b, s.usdc.allowance fund b = 0)
    (hexec : v.execAll ⟨fund, now⟩ s calls = .ok s') : ∀ b, s'.usdc.allowance fund b = 0 := by
  have hone : ∀ call, v.execAll ⟨fund, now⟩ s [call] = .ok s' → (∀ tc, call ≠ .usdc tc) →
      ∀ b, s'.usdc.allowance fund b = 0 := by
    intro call he hcall b
    obtain ⟨m, hm, hrest⟩ := LemonVault.execAll_cons he
    obtain rfl := Except.ok.inj hrest
    exact Nat.le_zero.mp
      (hnone b ▸ (LemonVault.exec_usdcMove hm).allowance (.inr hcall) b)
  cases h with
  -- a single call, which allows nobody
  | requestExit | claimExit | sweep => exact hone _ hexec (by simp)
  -- the last call of a cover sets the allowance of the vault to nothing
  | @cover n =>
      obtain ⟨s₁, h₁, hrest⟩ := LemonVault.execAll_cons hexec
      obtain ⟨s₂, h₂, hrest⟩ := LemonVault.execAll_cons hrest
      obtain ⟨s₃, h₃, hrest⟩ := LemonVault.execAll_cons hrest
      obtain rfl := Except.ok.inj hrest
      obtain ⟨t, ht, rfl⟩ := LemonVault.exec_usdc_ok h₁
      obtain ⟨u, hu, rfl⟩ := LemonVault.exec_usdc_ok h₃
      obtain rfl := Erc20.approve_ok ht
      obtain rfl := Erc20.approve_ok hu
      intro b
      by_cases hb : b = v.self
      · subst hb
        simp
      · have hgift := (LemonVault.exec_usdcMove h₂).allowance
          (.inr (by simp) : fund ≠ _ ∨ ∀ tc, Call.donate n ≠ .usdc tc) b
        simp only [Function.update_self, Function.update_of_ne hb] at hgift ⊢
        exact Nat.le_zero.mp (hnone b ▸ hgift)

/-- The fund has approved nobody, anywhere. -/
structure FundClosed (p : Platform) : Prop where
  usdc : ∀ b, p.usdc.allowance p.fund.self b = 0
  vaults : ∀ a c, p.vaults a = some c → Closed p.fund.self c.storage.custody

theorem Genesis.fundClosed (h : Genesis p) : FundClosed p where
  usdc := h.fundUnapproved
  vaults a c hc := by simp [h.vaults a] at hc

/-- What a vault is built with: no approvals and no operators. -/
theorem created_closed {f f' : VaultFactory} {site : Site} {request : NewVault} {limits : Limits}
    {c : VaultContract} (h : f.create site request limits = .ok (c, f')) (x : Address) :
    Closed x c.storage.custody := by
  obtain ⟨-, -, -, hbuilt, -⟩ := VaultFactory.create_ok h
  obtain ⟨-, fund, risk, limits, hs⟩ := construct_ok hbuilt
  have hfresh := initialState_fresh (f.initParams site request ‹_›) fund risk limits
  rw [← hs] at hfresh
  refine ⟨fun b => ?_, fun b => ?_⟩
  · show c.storage.shares.allowance x b = 0
    rw [hfresh.shares]
    rfl
  · show c.storage.isOperator x b = false
    rw [hfresh.isOperator]

/-- The fund sends no transaction. -/
theorem fund_ne_sender {msg : Msg} (h : p.isContract msg.sender = false) :
    p.fund.self.val ≠ msg.sender := by
  intro hf
  simp [isContract, ← hf] at h

/-- The fund stays where it is. -/
theorem fund_self (hn : p.next tx = some q) : q.fund.self = p.fund.self := by
  obtain ⟨-, -, -, q', hstep, rfl⟩ := next_ok hn
  cases hstep with
  | token _ _ _ _ self => exact self
  | vault _ _ _ _ _ self => exact self
  | create => rfl
  | terms _ _ _ _ self => exact self

/-- **One transaction keeps the fund closed.** -/
theorem FundClosed.next (h : FundClosed p) (hn : p.next tx = some q) : FundClosed q := by
  obtain ⟨hnow, hsender, hunused, q', hstep, rfl⟩ := next_ok hn
  have hne := fund_ne_sender hsender
  cases hstep with
  -- USDC of its own: only the holder approves, and the fund approves no one
  | @token b moved t fund target created may done self roles =>
      refine ⟨?_, ?_⟩
      · intro d
        show t.allowance fund.self d = 0
        rw [self]
        cases may with
        | sender => exact Nat.le_zero.mp (h.usdc d ▸ TokenCall.exec_allowance hne done d)
        | fund =>
            obtain ⟨hn, rfl⟩ := Erc20.transferBetween_ok done
            exact h.usdc d
      · intro a c hc
        show Closed fund.self _
        rw [self]
        exact h.vaults a c hc
  -- the vaults called: the fund asks none of them to act for another
  | @vault a b c calls s fund target created found may done self roles =>
      have hquiet : p.fund.self.val ≠ b ∨ ∀ call ∈ calls, call.delegates = false := by
        cases may with
        | sender => exact .inl hne
        | fund treasurer entry => exact .inr entry.delegates
      refine ⟨?_, ?_⟩
      · intro d
        show s.usdc.allowance fund.self d = 0
        rw [self]
        cases may with
        | sender => exact Nat.le_zero.mp (h.usdc d ▸ execAll_allowance hne done)
        | fund treasurer entry => exact entry.unapproved h.usdc done d
      · intro d c' hc'
        have hc' : (p.write a c s).vaults d = some c' := hc'
        show Closed fund.self _
        rw [self]
        by_cases hd : d = a
        · subst hd
          obtain rfl : c' = { c with storage := s } := by simpa [write, eq_comm] using hc'
          exact LemonVault.execAll_closed hquiet done (h.vaults d c found)
        · exact h.vaults d c' (by simpa [write, hd] using hc')
  -- a new vault knows no one yet
  | @create c vault request limits factory target created authority done =>
      refine ⟨h.usdc, ?_⟩
      intro d c' hc'
      have hc' : (p.deploy (some c)).vaults d = some c' := hc'
      by_cases hd : d = c.code.self
      · subst hd
        obtain rfl : c = c' := by simpa [deploy] using hc'
        exact created_closed done _
      · exact h.vaults d c' (by simpa [deploy, hd] using hc')
  | @terms factory fund target created registry _ self =>
      refine ⟨?_, ?_⟩
      · show ∀ d, p.usdc.allowance fund.self d = 0
        rw [self]; exact h.usdc
      · show ∀ a c, p.vaults a = some c → Closed fund.self c.storage.custody
        rw [self]; exact h.vaults

/-- What the fund holds, it still holds. -/
structure FundKept (p q : Platform) : Prop where
  self : q.fund.self = p.fund.self
  usdc : p.usdc.balanceOf p.fund.self ≤ q.usdc.balanceOf p.fund.self
  vaults : ∀ a c, p.vaults a = some c → ∃ c', q.vaults a = some c' ∧
    HoldsOn p.fund.self c.storage.custody c'.storage.custody

theorem FundKept.refl (p : Platform) : FundKept p p :=
  ⟨rfl, le_rfl, fun _ c hc => ⟨c, hc, .refl _ _⟩⟩

theorem FundKept.trans {o : Platform} (h₁ : FundKept o p) (h₂ : FundKept p q) :
    FundKept o q where
  self := h₂.self.trans h₁.self
  usdc := h₁.usdc.trans (h₁.self ▸ h₂.usdc)
  vaults a c hc := by
    obtain ⟨c₁, hc₁, hold₁⟩ := h₁.vaults a c hc
    obtain ⟨c₂, hc₂, hold₂⟩ := h₂.vaults a c₁ hc₁
    exact ⟨c₂, hc₂, hold₁.trans (h₁.self ▸ hold₂)⟩

/-- A transaction whose sender is no treasurer takes nothing from the fund. -/
theorem FundClosed.kept (h : FundClosed p) (hw : Wired p) (hn : p.next tx = some q)
    (htx : p.fund.roles .treasurer tx.msg.sender = false) : FundKept p q := by
  obtain ⟨hnow, hsender, hunused, q', hstep, rfl⟩ := next_ok hn
  have hne := fund_ne_sender hsender
  cases hstep with
  | @token b moved t fund target created may done self roles =>
      cases may with
      | fund treasurer => simp [treasurer] at htx
      | sender =>
          exact ⟨self, (TokenCall.exec_spares hne (h.usdc _) done).1,
            fun _ c hc => ⟨c, hc, .refl _ _⟩⟩
  | @vault a b c calls s fund target created found may done self roles =>
      cases may with
      | fund treasurer => simp [treasurer] at htx
      | @sender call =>
          -- a vault called by someone else keeps what the fund holds on it
          have hv : p.fund.self.val ≠ c.code.self := by
            rw [hw.address a c found]
            exact (hw.apart a c found).1.symm
          have hcall : c.code.exec tx.msg (p.view c) call = .ok s := by
            obtain ⟨m, hm, hrest⟩ := LemonVault.execAll_cons done
            obtain rfl := Except.ok.inj hrest
            exact hm
          have hholds : HoldsOn p.fund.self (p.view c).custody s.custody :=
            LemonVault.exec_holdsOn hv hne hcall (h.vaults a c found)
          refine ⟨self, ?_, ?_⟩
          · exact (steps_spare h.usdc (LemonVault.execAll_steps hv hne done)).1
          · intro d c' hc'
            show ∃ c'', (p.write a c s).vaults d = some c'' ∧ _
            by_cases hd : d = a
            · subst hd
              obtain rfl : c = c' := Option.some.inj (found.symm.trans hc')
              exact ⟨{ c with storage := s }, by simp [write], hholds⟩
            · exact ⟨c', by simpa [write, hd] using hc', .refl _ _⟩
  | @create c vault request limits factory target created authority done =>
      refine ⟨rfl, le_rfl, ?_⟩
      intro d c' hc'
      refine ⟨c', ?_, .refl _ _⟩
      show (p.deploy (some c)).vaults d = some c'
      -- the address of the new vault was not in use
      have hd : d ≠ c.code.self := by
        rintro rfl
        rw [(VaultFactory.create_ok_site done).1] at hc'
        exact (hunused _ created).2 (hw.vaultActive _ c' hc')
      simp [deploy, hd, hc']
  | @terms factory fund target created registry _ self =>
      exact ⟨self, le_rfl, fun _ c hc => ⟨c, hc, .refl _ _⟩⟩

theorem Reachable.fundClosed (h : Reachable p) : FundClosed p := by
  obtain ⟨p₀, tr, hgen, hrun⟩ := h
  have hall := hrun.invariant (I := fun q => Wired q ∧ FundClosed q)
    ⟨hgen.wired, hgen.fundClosed⟩ fun _ _ _ hq hn => ⟨hq.1.next hn, hq.2.next hn⟩
  exact hall.1.2

/-- **Only a treasurer parts the fund from what it holds.** In every reachable platform the
fund has approved nobody and appointed no operator; and through any run in which no
treasurer acts its USDC and its shares in every vault do not fall, and what it has queued
stays queued or becomes claimable, with what was claimable still there. -/
theorem fund_kept_without_treasurer (h : Reachable p) :
    ((∀ b, p.usdc.allowance p.fund.self b = 0) ∧
      ∀ a c, p.vaults a = some c → (∀ b, c.storage.shares.allowance p.fund.self b = 0) ∧
        ∀ b, c.storage.isOperator p.fund.self b = false) ∧
    ∀ q tr, Run Platform.next p tr q →
      (∀ t ∈ tr, t.pre.fund.roles .treasurer t.label.msg.sender = false) → FundKept p q := by
  have hclosed := h.fundClosed
  refine ⟨⟨hclosed.usdc, fun a c hc => ⟨(hclosed.vaults a c hc).shares,
    (hclosed.vaults a c hc).operator⟩⟩, ?_⟩
  intro q tr hrun htr
  have hall := hrun.invariant_of
    (P := fun t => t.pre.fund.roles .treasurer t.label.msg.sender = false)
    (I := fun q => Wired q ∧ FundClosed q ∧ FundKept p q) htr ⟨h.wired, hclosed, .refl p⟩ ?_
  · exact hall.1.2.2
  · rintro o tx o' htx ⟨hw, hc, hk⟩ hn
    exact ⟨hw.next hn, hc.next hn, hk.trans (hc.kept hw hn htx)⟩

/-- A depositor's transactions take nothing from the fund. -/
theorem fund_kept_without_treasurer_invested : FundKept Test.opened Test.invested := by
  have hnone : Test.depositsRun.all
      (fun t => !t.pre.fund.roles .treasurer t.label.msg.sender) = true := by rfl
  refine (fund_kept_without_treasurer Test.opened_reachable).2 _ _ Test.deposits_run ?_
  intro t ht
  simpa using List.all_eq_true.mp hnone t ht

end Platform

/-! ### Approvals and fees

No fee depends on who has approved whom. -/

/-- The storage with other USDC approvals outstanding. -/
def State.approving (s : State) (allowance : Address → Address → Nat) : State :=
  { s with usdc := { s.usdc with allowance := allowance } }

namespace LemonVault

variable {v : LemonVault} {s : State}

theorem totalAssets_approving (A : Address → Address → Nat) :
    v.totalAssets (s.approving A) = v.totalAssets s := rfl

theorem setMark_approving (A : Address → Address → Nat) (n : Nat) :
    (s.approving A).setMark n = (s.setMark n).approving A := rfl

theorem pricePerShare_approving (A : Address → Address → Nat) :
    v.pricePerShare (s.approving A) = v.pricePerShare s := by
  simp only [pricePerShare, convertToAssets, totalAssets_approving]
  rfl

theorem feeShares_approving (A : Address → Address → Nat) (f : Nat) :
    v.feeShares (s.approving A) f = v.feeShares s f := by
  simp only [feeShares, totalAssets_approving]
  rfl

theorem mintFeeShares_approving (A : Address → Address → Nat) (f : Nat) :
    v.mintFeeShares (s.approving A) f = (v.mintFeeShares s f).approving A := by
  simp only [mintFeeShares, feeShares_approving]
  split <;> rfl

theorem managementShares_approving (A : Address → Address → Nat) (e : Nat) :
    v.managementShares e (s.approving A) = v.managementShares e s := by
  simp only [managementShares, managementFeeAssets, feeShares_approving, totalAssets_approving]
  rfl

theorem accrueManagementFee_approving (A : Address → Address → Nat) (e : Nat) :
    v.accrueManagementFee e (s.approving A) = (v.accrueManagementFee e s).approving A := by
  have hlimits : (s.approving A).limits = s.limits := rfl
  simp only [accrueManagementFee, managementFeeAssets, totalAssets_approving, hlimits,
    mintFeeShares_approving]
  split <;> rfl

theorem feeDue_approving (A : Address → Address → Nat) :
    v.FeeDue (s.approving A) ↔ v.FeeDue s := by
  simp only [FeeDue, pricePerShare_approving]
  rfl

theorem performanceFeeAssets_approving (A : Address → Address → Nat) :
    v.performanceFeeAssets (s.approving A) = v.performanceFeeAssets s := by
  simp only [performanceFeeAssets, gainAssets, pricePerShare_approving]
  rfl

theorem performanceShares_approving (A : Address → Address → Nat) :
    v.performanceShares (s.approving A) = v.performanceShares s := by
  by_cases hdue : v.FeeDue s
  · rw [performanceShares, if_pos ((feeDue_approving A).mpr hdue), performanceShares, if_pos hdue,
      performanceFeeAssets_approving, feeShares_approving]
  · rw [performanceShares, if_neg (mt (feeDue_approving A).mp hdue), performanceShares,
      if_neg hdue]

theorem accruePerformanceFee_approving (A : Address → Address → Nat) :
    v.accruePerformanceFee (s.approving A) = (v.accruePerformanceFee s).approving A := by
  by_cases hdue : v.FeeDue s
  · rw [accruePerformanceFee_due hdue, accruePerformanceFee_due ((feeDue_approving A).mpr hdue),
      performanceFeeAssets_approving, mintFeeShares_approving, pricePerShare_approving,
      setMark_approving]
  · rw [accruePerformanceFee_idle hdue, accruePerformanceFee_idle (mt (feeDue_approving A).mp hdue)]

theorem accrueFees_approving (A : Address → Address → Nat) (now : Nat) :
    v.accrueFees now (s.approving A) = (v.accrueFees now s).approving A := by
  have hclock : (s.approving A).setAccrualClock now = (s.setAccrualClock now).approving A := rfl
  have hsupply : ∀ s : State, (s.approving A).shares.totalSupply = s.shares.totalSupply :=
    fun _ => rfl
  have hlast : (s.approving A).lastFeeAccrualAt = s.lastFeeAccrualAt := rfl
  have hmark : ∀ s : State, (s.approving A).highWaterMarkPps = s.highWaterMarkPps := fun _ => rfl
  have hset : ∀ (s : State) (n : Nat), (s.approving A).setMark n = (s.setMark n).approving A :=
    fun _ _ => rfl
  have hemit : ∀ (s : State) (e : Event), (s.approving A).emit e = (s.emit e).approving A :=
    fun _ _ => rfl
  simp only [accrueFees, hclock, hsupply, hlast, hset, managementShares_approving,
    accrueManagementFee_approving, performanceShares_approving, accruePerformanceFee_approving,
    hmark, hemit]
  split
  · rfl
  · split <;> rfl

/-- The books of a vault are the same whoever else has approved whom. -/
theorem Books.approving {A : Address → Address → Nat} (h : Books v s)
    (hnone : ∀ b, A v.self b = 0) : Books v (s.approving A) :=
  ⟨h.solvent, hnone⟩

end LemonVault

namespace Platform

variable {p q : Platform}

/-! ### Covering a vault -/

/-- What a `cover` of `n` did to the vault it names. -/
structure Covered (v : LemonVault) (now n : Nat) (s s' : State) : Prop where
  assets : v.totalAssets s' = v.totalAssets s + n
  shares : s'.shares = (v.accrueFees now s).shares
  worth : ∀ x, v.convertToAssets (v.accrueFees now s) x .floor ≤ v.convertToAssets s' x .floor
  marked : v.pricePerShare s' ≤ s'.highWaterMarkPps
  unbilled : 0 < s'.shares.totalSupply → v.accrueFees now s' = s'

/-- A donation by somebody other than the vault is a gift to the holders. -/
theorem donate_covered {v : LemonVault} {s s' : State} {msg : Msg} {n : Nat}
    (hbooks : LemonVault.Books v s) (hsender : msg.sender ≠ v.self)
    (h : v.donate msg s n = .ok s') : Covered v msg.timestamp n s s' := by
  obtain ⟨hn, lead, hlead, t, ht, hs'⟩ := LemonVault.donate_ok h
  obtain ⟨hbal, -⟩ := LemonVault.pulled hsender ht
  have hleadUsdc : lead.usdc = s.usdc := by rw [hlead]; exact LemonVault.accrueFees_usdc ..
  have hleadAssets : v.totalAssets lead = v.totalAssets s := by
    rw [hlead]; exact LemonVault.accrueFees_totalAssets ..
  have hclaims : lead.claimableAssets = s.claimableAssets := by
    rw [hlead, (LemonVault.accrueFees_frame msg.timestamp s).rest]
  -- the state with the gift in, before the mark is carried over it
  have hgift : v.totalAssets { lead with usdc := t } = v.totalAssets s + n := by
    have hheld := hbooks.solvent.held
    rw [LemonVault.totalAssets_eq, LemonVault.idleAssets] at hleadAssets ⊢
    show t.balanceOf v.self + lead.deployedAssets - lead.claimableAssets = _
    rw [hbal, hleadUsdc]
    rw [hleadUsdc] at hleadAssets
    have hle : lead.claimableAssets ≤ s.usdc.balanceOf v.self := hclaims ▸ hheld
    omega
  have hassets : v.totalAssets s' = v.totalAssets s + n := by rw [hs', ← hgift]; rfl
  have hshares : s'.shares = lead.shares := by rw [hs']
  have hmarked : v.pricePerShare s' ≤ s'.highWaterMarkPps := by
    rw [hs']
    exact Nat.le_max_right _ _
  refine ⟨hassets, by rw [hshares, hlead], ?_, hmarked, ?_⟩
  · intro x
    rw [← hlead]
    simp only [LemonVault.convertToAssets, hassets, hleadAssets, hshares]
    exact Nat.div_le_div_right (Nat.mul_le_mul_left _ (by omega))
  · intro hsupply
    have hclock : s'.lastFeeAccrualAt = msg.timestamp := by
      rw [hs', hlead]
      exact LemonVault.accrueFees_clock
    exact LemonVault.accrueFees_settled hclock hsupply fun hdue =>
      absurd hdue.2 (Nat.not_lt.mpr hmarked)

/-- An approval beforehand makes no difference. -/
theorem Covered.of_approving {v : LemonVault} {now n : Nat} {s s' : State}
    {allowance : Address → Address → Nat} (h : Covered v now n (s.approving allowance) s') :
    Covered v now n s s' where
  assets := h.assets
  shares := by rw [h.shares, LemonVault.accrueFees_approving]; rfl
  worth x := by
    have hworth := h.worth x
    rw [LemonVault.accrueFees_approving] at hworth
    exact hworth
  marked := h.marked
  unbilled := h.unbilled

/-- An approval afterwards makes none either. -/
theorem Covered.approving {v : LemonVault} {now n : Nat} {s s' : State}
    (h : Covered v now n s s') (allowance : Address → Address → Nat) :
    Covered v now n s (s'.approving allowance) where
  assets := h.assets
  shares := h.shares
  worth := h.worth
  marked := by
    rw [LemonVault.pricePerShare_approving]
    exact h.marked
  unbilled hsupply := by
    rw [LemonVault.accrueFees_approving, h.unbilled hsupply]

/-- A donation moves its amount from the giver to the vault. -/
theorem donate_moves {v : LemonVault} {s s' : State} {msg : Msg} {n : Nat}
    (hsender : msg.sender ≠ v.self) (h : v.donate msg s n = .ok s') :
    s'.usdc.balanceOf msg.sender + n = s.usdc.balanceOf msg.sender ∧
      s'.usdc.balanceOf v.self = s.usdc.balanceOf v.self + n := by
  obtain ⟨-, lead, hlead, t, ht, hs'⟩ := LemonVault.donate_ok h
  have husdc : lead.usdc = s.usdc := by rw [hlead]; exact LemonVault.accrueFees_usdc ..
  rw [husdc] at ht
  obtain ⟨hn, hledger, -⟩ := Erc20.transferFrom_ok ht
  rw [hs']
  simp only [Erc20.balanceOf, hledger]
  exact ⟨by rw [Ledger.move_from hn hsender, Nat.sub_add_cancel hn], Ledger.move_to hn hsender⟩

/-- The fund's approval is none of the vault's. -/
theorem fund_approves {v : LemonVault} {t : Erc20 Address} {fund : Address} (hne : fund ≠ v.self)
    (n : Nat) (hnone : ∀ b, t.allowance v.self b = 0) (b : Address) :
    Function.update t.allowance fund (Function.update (t.allowance fund) v.self n) v.self b =
      0 := by
  rw [Function.update_of_ne hne.symm]
  exact hnone b

/-- **A cover is a gift to the holders.** All of it leaves the fund and reaches the vault;
the holders' assets rise by exactly that and no share is minted beyond the fees already
owed, so nobody's shares are worth less; the mark stands over the new price, so accruing
again bills none of it; and the fund's approval is gone. -/
theorem cover_is_gift (h : Reachable p) {msg : Msg} {a : Address} {n : Nat} {c : VaultContract}
    (hc : p.vaults a = some c) (hn : p.next ⟨msg, .fund (.cover a n)⟩ = some q) :
    p.fund.roles .treasurer msg.sender = true ∧
    q.usdc.balanceOf a = p.usdc.balanceOf a + n ∧
    q.usdc.balanceOf p.fund.self + n = p.usdc.balanceOf p.fund.self ∧
    (∀ b, q.usdc.allowance p.fund.self b = 0) ∧
    ∃ s, q.vaults a = some { c with storage := s } ∧
      Covered c.code msg.timestamp n (p.view c) s := by
  have hw := h.wired
  have hself := hw.address a c hc
  have hne : p.fund.self.val ≠ c.code.self := hself ▸ (hw.apart a c hc).1.symm
  have hclosed : ∀ b, q.usdc.allowance p.fund.self b = 0 := by
    rw [← fund_self hn]
    exact (h.fundClosed.next hn).usdc
  obtain ⟨t, ht, hreach⟩ := hw.alone a c hc
  have hbooks := LemonVault.Books.reachable hreach
  simp only [next] at hn
  split at hn
  next hguard =>
    simp only [Option.map_eq_some_iff, toOption_eq_some, exec, fundCall, bind_eq_ok,
      mapError_eq_ok, pure_eq_ok] at hn
    obtain ⟨q', ⟨c', hc', ⟨s, fund⟩, hcover, rfl⟩, rfl⟩ := hn
    obtain rfl : c = c' := Option.some.inj (hc.symm.trans (contractAt_ok hc'))
    obtain ⟨htreasurer, hfund, -, -, t, s₁, u, happrove, hdonate, hclear, rfl⟩ :=
      InsuranceFund.cover_ok hcover
    -- approve, donate, approve nothing: the gift is made where the vault is allowed its amount
    obtain rfl := Erc20.approve_ok happrove
    obtain rfl := Erc20.approve_ok hclear
    obtain ⟨hfrom, hto⟩ := donate_moves hne hdonate
    have hopen := hbooks.approving (fund_approves hne n hbooks.unapproved)
    have hcovered := (donate_covered hopen hne hdonate).of_approving
    rw [← hself]
    exact ⟨htreasurer, hto, hfrom, hclosed, s₁.approving _, Function.update_self ..,
      hcovered.approving _⟩
  next => cases hn

/-- The hundred USDC of the launch: the vault holds them, and the approval they went by is
gone. -/
theorem cover_is_gift_launched :
    Test.launched.usdc.balanceOf Test.vault =
        Test.invested.usdc.balanceOf Test.vault + 100 * 10 ^ 6 ∧
      Test.launched.usdc.allowance Test.insurance Test.vault = 0 := by
  obtain ⟨c, hc⟩ := Option.isSome_iff_exists.mp
    (show (Test.invested.vaults Test.vault).isSome by rfl)
  obtain ⟨-, hto, -, hnone, -⟩ := cover_is_gift Test.invested_reachable hc Test.cover_next
  exact ⟨hto, hnone Test.vault⟩

end Platform

end LemonMarket
