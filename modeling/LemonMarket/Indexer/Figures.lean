import LemonMarket.Indexer.Index

/-!
# LemonMarket.Indexer.Figures

**The vault's figures, cached.** Seven columns of the vault's row are read back from the
contract by the handlers that sync, and are otherwise left as they are. A block with one such
event leaves them as the contract has them at its end, whatever else is in it.

Not every call that moves a figure ends in one. A donation raises the assets and the price,
and an accrual (`accrueFees`, `setLimits`, `setInsuranceFund`) mints fee shares and moves the
mark; neither `Donated` nor `FeesAccrued` nor `LimitsUpdated` is followed by a read. So the
figures are the contract's at the end of every block of a run (`figures_are_current`) whose
blocks each sync, or hold nothing that moves a figure (`Refreshed`).
-/

namespace LemonMarket.Indexer

open Lib LemonVault

variable {v : LemonVault} {s s' : State} {msg : Msg} {call : Call} {db db' : Db} {w w' w₀ : World}
  {now : Nat} {tx : Tx} {b : Block World Tx} {blocks : List (Block World Tx)}

/-! ### What moves a figure -/

/-- The figures depend on six numbers of the state. -/
theorem figures_congr (hidle : v.idleAssets s' = v.idleAssets s)
    (hdeployed : s'.deployedAssets = s.deployedAssets)
    (hclaimable : s'.claimableAssets = s.claimableAssets)
    (hsupply : s'.shares.totalSupply = s.shares.totalSupply)
    (hmark : s'.highWaterMarkPps = s.highWaterMarkPps)
    (hpending : s'.totalPendingRedeemShares = s.totalPendingRedeemShares) :
    (views v s').figures = (views v s).figures := by
  have hassets : v.totalAssets s' = v.totalAssets s := by
    rw [totalAssets_eq, totalAssets_eq, hidle, hdeployed, hclaimable]
  have hprice : v.pricePerShare s' = v.pricePerShare s := by
    rw [pricePerShare, pricePerShare, convertToAssets, convertToAssets, hassets, hsupply]
  simp only [Views.figures, views, hassets, hprice, hdeployed, hclaimable, hsupply, hmark, hpending]

/-- An accrual has nothing to do: no rent that comes to a share and no price above the mark,
or nobody to charge and the mark at par. -/
structure Settled (v : LemonVault) (now : Nat) (s : State) : Prop where
  par : s.shares.totalSupply = 0 → s.highWaterMarkPps = assetUnit
  rent : s.shares.totalSupply ≠ 0 →
    v.managementShares (now - s.lastFeeAccrualAt) (s.setAccrualClock now) = 0
  gain : s.shares.totalSupply ≠ 0 → ¬ v.FeeDue (s.setAccrualClock now)

instance (v : LemonVault) (now : Nat) (s : State) : Decidable (Settled v now s) :=
  decidable_of_iff (_ ∧ _ ∧ _) ⟨fun h => ⟨h.1, h.2.1, h.2.2⟩, fun h => ⟨h.par, h.rent, h.gain⟩⟩

/-- A settled accrual moves the clock only. -/
theorem accrueFees_of_settled (h : Settled v now s) :
    v.accrueFees now s = s.setAccrualClock now := by
  by_cases hempty : s.shares.totalSupply = 0
  · rw [accrueFees_of_empty hempty, ← h.par hempty]
    rfl
  · have hrent := h.rent hempty
    have hdue := h.gain hempty
    have hholders : (s.setAccrualClock now).shares.totalSupply ≠ 0 := hempty
    have hgain : v.performanceShares (s.setAccrualClock now) = 0 := if_neg hdue
    simp only [accrueFees, if_neg hholders, accrueManagementFee_of_none hrent,
      accruePerformanceFee_idle hdue, hrent, hgain, lt_irrefl, or_self, if_false]

/-- **An accrual moves no figure just when it is settled.** -/
theorem accrueFees_figures_iff :
    (views v (v.accrueFees now s)).figures = (views v s).figures ↔ Settled v now s := by
  constructor
  · intro h
    have hfree : v.FeeFree now s :=
      accrueFees_totalSupply_iff.mp (congrArg Figures.totalSupply h)
    have hmark : (v.accrueFees now s).highWaterMarkPps = s.highWaterMarkPps :=
      congrArg Figures.highWaterMarkPps h
    by_cases hempty : s.shares.totalSupply = 0
    · rw [accrueFees_of_empty hempty] at hmark
      exact ⟨fun _ => hmark.symm, fun hsome => absurd hempty hsome,
        fun hsome => absurd hempty hsome⟩
    · obtain ⟨hrent, hnone⟩ := hfree.resolve_left hempty
      refine ⟨fun hnone => absurd hnone hempty, fun _ => hrent, ?_⟩
      -- a fee that is due re-reads the mark at the price above it, though it mints nothing
      rintro - hdue
      obtain ⟨due, heq, -, hpps⟩ :=
        accrueFees_of_holders (v := v) now (Nat.pos_of_ne_zero hempty)
      have hsame : v.mintFeeShares (s.setAccrualClock now)
          (v.performanceFeeAssets (s.setAccrualClock now)) = s.setAccrualClock now :=
        if_pos ((if_pos hdue).symm.trans hnone)
      rw [accrueManagementFee_of_none hrent] at heq
      rw [heq, accruePerformanceFee_due hdue, hsame, hmark, State.setMark_highWaterMarkPps] at hpps
      exact absurd hdue.2 (hpps.symm.le.not_gt)
  · intro h
    rw [accrueFees_of_settled h]
    rfl

/-- A direct transfer of USDC to the vault. -/
def direct (v : LemonVault) : Call → Bool
  | .usdc (.transfer receiver _) | .usdc (.transferFrom _ receiver _) => receiver = v.self
  | _ => false

/-- The calls that, but for what they accrue, move no figure. -/
def still (v : LemonVault) : Call → Bool
  | .usdc call => !direct v (.usdc call)
  | .shares _ | .setOperator _ _ => true
  | call => administers call

/-- A transaction that moves no figure. -/
structure Quiet (v : LemonVault) (t : Transition World Tx) : Prop where
  call : still v t.label.call = true
  settled : ∀ s ∈ v.accrualStates t.label.msg t.pre.state t.label.call,
    Settled v t.label.msg.timestamp s

instance (v : LemonVault) (t : Transition World Tx) : Decidable (Quiet v t) :=
  decidable_of_iff (_ ∧ _) ⟨fun h => ⟨h.1, h.2⟩, fun h => ⟨h.call, h.settled⟩⟩

/-- A block with a call the indexer syncs on, or with nothing to sync. -/
def Refreshed (v : LemonVault) (b : Block World Tx) : Prop :=
  (∃ t ∈ b.transitions, synced t.label.call = true) ∨ ∀ t ∈ b.transitions, Quiet v t

instance (v : LemonVault) (b : Block World Tx) : Decidable (Refreshed v b) :=
  inferInstanceAs (Decidable (_ ∨ _))

/-- A call on USDC that is no transfer to the vault leaves what the vault holds. -/
theorem usdcCall_idle {t : Erc20 Address} {call : TokenCall} (hsender : msg.sender ≠ v.self)
    (hnone : ∀ a, s.usdc.allowance v.self a = 0) (hcall : direct v (.usdc call) = false)
    (h : call.exec s.usdc msg.sender = .ok t) :
    t.balanceOf v.self = s.usdc.balanceOf v.self := by
  cases call with
  | transfer r n =>
      obtain ⟨hn, rfl⟩ := Erc20.transferBetween_ok h
      have hr : r ≠ v.self := by simpa [direct] using hcall
      exact Ledger.move_of_ne hn hsender.symm hr.symm
  | transferFrom o r n =>
      obtain ⟨hn, hmove, hallow, -⟩ := Erc20.transferFrom_ok h
      have hr : r ≠ v.self := by simpa [direct] using hcall
      rw [Erc20.balanceOf, Erc20.balanceOf, hmove]
      by_cases ho : o = v.self
      · -- with no allowance out of the vault only nothing leaves it
        subst ho
        rw [hnone] at hallow
        obtain rfl := Nat.le_zero.mp (hallow (by decide))
        rw [Ledger.move_from hn hr.symm, Nat.sub_zero]
      · exact Ledger.move_of_ne hn (Ne.symm ho) hr.symm
  | approve spender n =>
      obtain rfl := Erc20.approve_ok h
      rfl

/-- Administering the vault moves the figures only as far as it accrues. -/
theorem administers_figures (hadmin : administers call = true) (h : v.exec msg s call = .ok s') :
    (views v s').figures = (views v (v.lead msg s call)).figures := by
  obtain ⟨-, hs'⟩ := exec_administers hadmin h
  rw [hs']
  exact figures_congr rfl rfl rfl rfl rfl rfl

/-- A call that only administers the vault leads with an accrual, or with the state it is
given. -/
theorem administers_lead (v : LemonVault) (msg : Msg) (s : State)
    (hadmin : administers call = true) :
    v.lead msg s call = s ∧ v.accrualStates msg s call = [] ∨
      v.lead msg s call = v.accrueFees msg.timestamp s ∧ v.accrualStates msg s call = [s] := by
  cases call with
  | accrueFees | setLimits | setInsuranceFund => exact .inr ⟨rfl, rfl⟩
  | reportNav => cases hadmin
  | deposit | mint | requestRedeem | fulfillRedeem | donate => cases hadmin
  | _ => exact .inl ⟨rfl, rfl⟩

/-- **A quiet call moves no figure.** -/
theorem still_figures (hsender : msg.sender ≠ v.self) (hnone : ∀ a, s.usdc.allowance v.self a = 0)
    (hcall : still v call = true)
    (hsettled : ∀ s₁ ∈ v.accrualStates msg s call, Settled v msg.timestamp s₁)
    (h : v.exec msg s call = .ok s') : (views v s').figures = (views v s).figures := by
  cases hadmin : administers call with
  | true =>
      rw [administers_figures hadmin h]
      rcases administers_lead v msg s hadmin with ⟨hlead, -⟩ | ⟨hlead, hstates⟩
      · rw [hlead]
      · rw [hlead]
        exact accrueFees_figures_iff.mpr (hsettled s (by simp [hstates]))
  | false =>
      cases call with
      -- of the rest only USDC sent to the vault could show
      | usdc call =>
          obtain ⟨t, ht, rfl⟩ := exec_usdc_ok h
          have hidle := usdcCall_idle hsender hnone (by simpa [still] using hcall) ht
          exact figures_congr hidle rfl rfl rfl rfl rfl
      | shares call =>
          obtain ⟨t, ht, rfl⟩ := exec_shares_ok h
          exact figures_congr rfl rfl rfl (tokenCall_totalSupply ht) rfl rfl
      | setOperator op b =>
          obtain ⟨-, rfl⟩ := setOperator_ok h
          exact figures_congr rfl rfl rfl rfl rfl rfl
      | deposit | mint | requestRedeem | fulfillRedeem | redeem | withdraw | agentWithdraw
      | agentReturn | donate | reportNav => cases hcall
      | _ => cases hadmin

/-- A donation moves one: the vault has more assets. -/
theorem donate_figures {n : Nat} (hbooks : Books v s) (hsender : msg.sender ≠ v.self)
    (h : v.donate msg s n = .ok s') : (views v s').figures ≠ (views v s).figures := by
  obtain ⟨hn, lead, rfl, t, ht, rfl⟩ := donate_ok h
  have hframe := accrueFees_frame (v := v) msg.timestamp s
  have hpulled := (pulled hsender ht).1
  rw [accrueFees_usdc] at hpulled
  have hsolvent : s.claimableAssets ≤ s.usdc.balanceOf v.self := hbooks.solvent.held
  intro hsame
  have hassets := congrArg Figures.totalAssets hsame
  simp only [Views.figures, views, totalAssets_eq, idleAssets, hpulled] at hassets
  rw [hframe.rest] at hassets
  simp only at hassets
  omega

/-- And of the calls the indexer does not sync on, direct transfers of USDC apart, no other
leaves the figures. -/
theorem still_figures_iff (hbooks : Books v s) (hsender : msg.sender ≠ v.self)
    (hcall : synced call = false) (hdirect : direct v call = false)
    (h : v.exec msg s call = .ok s') :
    (views v s').figures = (views v s).figures ↔
      still v call = true ∧ ∀ s₁ ∈ v.accrualStates msg s call, Settled v msg.timestamp s₁ := by
  refine ⟨?_, fun hquiet => still_figures hsender hbooks.unapproved hquiet.1 hquiet.2 h⟩
  intro hsame
  cases hadmin : administers call with
  -- a call that administers changes the figures only by the accrual it starts with
  | true =>
      have hstill : still v call = true := by
        cases call with
        | usdc | shares | setOperator => cases hadmin
        | _ => exact hadmin
      refine ⟨hstill, ?_⟩
      rw [administers_figures hadmin h] at hsame
      rcases administers_lead v msg s hadmin with ⟨-, hstates⟩ | ⟨hlead, hstates⟩
      · simp [hstates]
      · rw [hlead] at hsame
        simpa [hstates] using accrueFees_figures_iff.mp hsame
  | false =>
      cases call with
      | usdc call => exact ⟨by simp [still, hdirect], by simp [accrualStates, accrues]⟩
      | shares call => exact ⟨rfl, by simp [accrualStates, accrues]⟩
      | setOperator op b => exact ⟨rfl, by simp [accrualStates, accrues]⟩
      -- a gift always shows
      | donate n => exact absurd hsame (donate_figures hbooks hsender h)
      | deposit | mint | requestRedeem | fulfillRedeem | redeem | withdraw | agentWithdraw
      | agentReturn | reportNav => cases hcall
      | _ => cases hadmin

/-! ### Blocks -/

/-- What a block leaves the figures at: as its end has them, if it synced at all. -/
theorem indexBlock_figures (h : indexBlock v db b = some db') :
    db'.vault.figures =
      if b.transitions.any fun t => (emitted t).any syncs then (views v b.post.state).figures
      else db.vault.figures :=
  foldlM_any (g := fun db => db.vault.figures) (fun _ _ _ => fold_figures) h

/-- A call the indexer syncs on emits an event it syncs on. -/
theorem emitted_syncs (hescrow : Custody.Escrowed v.self w.state.custody)
    (hn : v.next w tx = some w') (hcall : synced tx.call = true) :
    (emitted ⟨w, tx, w'⟩).any syncs = true := by
  obtain ⟨lead, e, -, htells, -, hcarries⟩ := next_told hescrow hn
  obtain ⟨e₁, rfl, hsync⟩ := htells.synced hcall
  generalize emitted ⟨w, tx, w'⟩ = events at hcarries ⊢
  cases hcarries with
  | some before after before_plain after_plain => simp [hsync]

/-- The figures of a quiet block are those of its start. -/
theorem quiet_figures {tr : List (Transition World Tx)} (hbooks : Books v w.state)
    (hrun : Run v.next w tr w') (hquiet : ∀ t ∈ tr, Quiet v t) :
    (views v w'.state).figures = (views v w.state).figures := by
  refine (hrun.invariant_of (P := Quiet v) (I := fun w₁ : World => Books v w₁.state ∧
    (views v w₁.state).figures = (views v w.state).figures) hquiet ⟨hbooks, rfl⟩ ?_).1.2
  intro w₁ tx w₂ hquiet hkept hn
  obtain ⟨-, hsender, -, he⟩ := next_eq_some hn
  exact ⟨hkept.1.exec hsender he,
    (still_figures hsender hkept.1.unapproved hquiet.call hquiet.settled he).trans hkept.2⟩

/-- **A refreshed block leaves the row current**, if it was before. -/
theorem indexBlock_current (hfollows : Follows v db w) (hbooks : Books v w.state)
    (hrun : Run v.next w b.transitions b.post) (hrefreshed : Refreshed v b)
    (hcurrent : db.vault.figures = (views v w.state).figures) :
    ∃ db', indexBlock v db b = some db' ∧ Follows v db' b.post ∧
      db'.vault.figures = (views v b.post.state).figures := by
  obtain ⟨db', hindex, hafter⟩ := indexBlock_follows hfollows hrun
  refine ⟨db', hindex, hafter, ?_⟩
  have hfigures := indexBlock_figures hindex
  rcases hrefreshed with ⟨t, ht, hcall⟩ | hquiet
  · have hescrow := hrun.invariant (I := fun w : World => Custody.Escrowed v.self w.state.custody)
      hfollows.escrow fun w tx w' hescrow hn =>
        escrowed_exec hescrow (next_eq_some hn).2.1 (next_eq_some hn).2.2.2
    have hsync : (b.transitions.any fun t => (emitted t).any syncs) = true :=
      List.any_eq_true.mpr
        ⟨t, ht, emitted_syncs (hescrow.2 t ht).1 (hrun.step_of_mem t ht) hcall⟩
    rw [hfigures, if_pos hsync]
  · have hstill := quiet_figures hbooks hrun hquiet
    rw [hfigures, hcurrent, hstill, ite_self]

/-- **The cached figures are the contract's.** At the end of every block of a run whose
blocks are refreshed, from a vault deployed where there was no USDC, the seven columns are
what the contract's views answer. -/
theorem figures_are_current (hgenesis : Genesis v w₀) (hempty : v.idleAssets w₀.state = 0)
    (hrun : BlockRun v.next w₀ blocks w) (hrefreshed : ∀ b ∈ blocks, Refreshed v b)
    (limits : Option Terms) (created : Nat) :
    ∃ db, index v (onVaultCreated limits created) blocks = some db ∧
      db.vault.figures = (views v w.state).figures := by
  have hstart : (onVaultCreated limits created).vault.figures = (views v w₀.state).figures := by
    obtain ⟨p, -, -, hfresh⟩ := hgenesis.fresh
    simp only [Views.figures, views, pricePerShare, convertToAssets, totalAssets_eq, hempty,
      hfresh.shares, hfresh.deployedAssets, hfresh.claimableAssets, hfresh.highWaterMarkPps,
      hfresh.totalPendingRedeemShares]
    rfl
  obtain ⟨db, hindex, -, -, hcurrent⟩ := hrun.fold (P := Refreshed v)
    (J := fun db w => Follows v db w ∧ Books v w.state ∧
      db.vault.figures = (views v w.state).figures) hrefreshed
    ⟨follows_genesis limits created hgenesis, Books.genesis hgenesis, hstart⟩
    (fun db w b hrefreshed hkept hblock => by
      obtain ⟨db', hindex, hfollows, hcurrent⟩ :=
        indexBlock_current hkept.1 hkept.2.1 hblock hrefreshed hkept.2.2
      exact ⟨db', hindex, hfollows, hkept.2.1.run hblock, hcurrent⟩)
  exact ⟨db, hindex, hcurrent⟩

/-- Capital out and back, with an accrual and new limits in between that have nothing to
charge. -/
def outAndBack : List Tx :=
  [Test.tx Test.alice 0 (.deposit (1000 * 10 ^ 6) Test.alice),
   Test.tx Test.agent 60 (.agentWithdraw (500 * 10 ^ 6)),
   Test.tx Test.bob 3600 .accrueFees,
   Test.tx Test.admin 3600 (.setLimits Test.noFeeLimits.val),
   Test.tx Test.alice 3600 (.requestRedeem (10 ^ 18) Test.alice Test.alice),
   Test.tx Test.agent 7200 (.reportNav (510 * 10 ^ 6) 10000 7200),
   Test.tx Test.agent 7200 (.agentReturn (510 * 10 ^ 6))]

theorem outAndBack_isSome : (trace (Test.lemonVault Test.conservativeRisk).next
    (Test.world Test.noFeeLimits Test.conservativeRisk) outAndBack).isSome := by rfl

theorem figures_are_current_outAndBack :
    ∃ db, index (Test.lemonVault Test.conservativeRisk) (onVaultCreated none 0)
        (testBlocks _ _ outAndBack outAndBack_isSome) = some db ∧
      db.vault.figures = (views (Test.lemonVault Test.conservativeRisk)
        (Test.after _ _ outAndBack outAndBack_isSome).state).figures :=
  figures_are_current (Test.testGenesis _ _) (by rfl) (testBlocks_run outAndBack_isSome)
    (by decide) none 0

/-- A deposit, and a gift in the next block. -/
def gift : List Tx :=
  [Test.tx Test.alice 0 (.deposit (1000 * 10 ^ 6) Test.alice),
   Test.tx Test.bob 12 (.donate (100 * 10 ^ 6))]

theorem gift_isSome : (trace (Test.lemonVault Test.conservativeRisk).next
    (Test.world Test.noFeeLimits Test.conservativeRisk) gift).isSome := by rfl

/-- The row still has a thousand USDC, at a dollar a share; the vault has eleven hundred. -/
theorem figures_miss_gift :
    ¬ ∀ (v : LemonVault) (w₀ w : World) (blocks : List (Block World Tx))
      (limits : Option Terms) (created : Nat),
      Genesis v w₀ → v.idleAssets w₀.state = 0 → BlockRun v.next w₀ blocks w →
      (∀ b ∈ blocks, ∀ t ∈ b.transitions, direct v t.label.call = false) →
      ∃ db, index v (onVaultCreated limits created) blocks = some db ∧
        db.vault.figures = (views v w.state).figures := by
  intro h
  obtain ⟨db, hindex, hcurrent⟩ := h _ _ _ _ none 0 (Test.testGenesis _ _) (by rfl)
    (testBlocks_run gift_isSome) (by decide)
  have hrow : (index (Test.lemonVault Test.conservativeRisk) (onVaultCreated none 0)
      (testBlocks _ _ gift gift_isSome)).map (fun db => db.vault.figures.totalAssets) =
      some (1000 * 10 ^ 6) := by decide
  rw [hindex, Option.map_some, hcurrent] at hrow
  exact absurd (Option.some.inj hrow) (by decide)

end LemonMarket.Indexer
