import LemonMarket.Indexer.Handlers
import LemonMarket.Contracts.Escrow
import LemonMarket.Contracts.ManagementFee

/-!
# LemonMarket.Indexer.Events

**What a transaction tells.** A successful call charges fees, which the indexer hears
nothing of that it writes to a position (`Charged`), and then does one thing: it moves
shares, deposits, queues, fulfils, pays a claim, reports, or nothing the tables are about.
`Tells` pairs each of these with the event that says so, and `exec_told` is the case
analysis over the calls: every call's events are plain ones around at most one that is
told.

So what the handlers make of a transaction is what they make of one event; nothing after
this module looks at the entry points.
-/

namespace LemonMarket.Indexer

open Lib LemonVault

variable {v : LemonVault} {vault : Address} {s s' s₁ s₂ s₃ : State} {msg : Msg} {call : Call}
  {now m n : Nat}

/-! ### Fees -/

/-- Between `s` and `s'` no more happened than that `n` shares were minted for the fund, and
the events of it are plain. -/
structure Charged (vault : Address) (n : Nat) (s s' : State) : Prop where
  custody : s'.custody = { s.custody with shares := s'.shares }
  limits : s'.limits = s.limits
  fund : s'.insuranceFund = s.insuranceFund
  supply : s'.shares.totalSupply = s.shares.totalSupply + n
  balance : ∀ a, s'.shares.balanceOf a =
    s.shares.balanceOf a + if a = s.insuranceFund then n else 0
  told : ∃ events, s'.log = s.log ++ events ∧ ∀ e ∈ events, plain vault e = true

/-- Nothing was charged. -/
theorem Charged.still (hcustody : s'.custody = s.custody) (hlimits : s'.limits = s.limits)
    (hfund : s'.insuranceFund = s.insuranceFund) (hlog : s'.log = s.log) :
    Charged vault 0 s s' := by
  have hshares : s'.shares = s.shares := congrArg Custody.shares hcustody
  refine ⟨?_, hlimits, hfund, ?_, ?_, [], ?_, ?_⟩
  · rw [hcustody, hshares]
    rfl
  · rw [hshares, Nat.add_zero]
  · intro a
    rw [hshares, ite_self, Nat.add_zero]
  · rw [hlog, List.append_nil]
  · simp

theorem Charged.trans (h₁ : Charged vault m s₁ s₂) (h₂ : Charged vault n s₂ s₃) :
    Charged vault (m + n) s₁ s₃ := by
  obtain ⟨told₁, hlog₁, hplain₁⟩ := h₁.told
  obtain ⟨told₂, hlog₂, hplain₂⟩ := h₂.told
  refine ⟨?_, h₂.limits.trans h₁.limits, h₂.fund.trans h₁.fund, ?_, ?_, told₁ ++ told₂, ?_, ?_⟩
  · rw [h₂.custody, h₁.custody]
  · rw [h₂.supply, h₁.supply, Nat.add_assoc]
  · intro a
    rw [h₂.balance, h₁.balance, h₁.fund]
    split <;> omega
  · rw [hlog₂, hlog₁, List.append_assoc]
  · intro e he
    rcases List.mem_append.mp he with he | he
    · exact hplain₁ e he
    · exact hplain₂ e he

/-- No fee touches the queue. -/
theorem Charged.redeem (h : Charged vault n s s') : s'.custody.redeem = s.redeem := by
  rw [h.custody]
  rfl

theorem Charged.emit {e : Event} (h : Charged vault n s s') (he : plain vault e = true) :
    Charged vault n s (s'.emit e) := by
  obtain ⟨told, hlog, hplain⟩ := h.told
  refine ⟨h.custody, h.limits, h.fund, h.supply, h.balance, told ++ [e], ?_, ?_⟩
  · rw [State.emit, hlog, List.append_assoc]
  · intro e' he'
    rcases List.mem_append.mp he' with he' | he'
    · exact hplain e' he'
    · obtain rfl := List.mem_singleton.mp he'
      exact he

theorem mintFeeShares_charged (f : Nat) :
    Charged vault (v.feeShares s f) s (v.mintFeeShares s f) := by
  simp only [mintFeeShares]
  split
  next hnone =>
    rw [hnone]
    exact .still rfl rfl rfl rfl
  next =>
    refine ⟨rfl, rfl, rfl, rfl, ?_, [.transfer 0 s.insuranceFund (v.feeShares s f)], rfl, ?_⟩
    · intro a
      by_cases ha : a = s.insuranceFund
      · rw [if_pos ha, ha]
        exact Ledger.credit_self
      · rw [if_neg ha]
        exact Ledger.credit_of_ne ha
    · simp [plain]

/-- **An accrual is a charge**, of what it adds to the supply. -/
theorem accrueFees_charged (now : Nat) (s : State) :
    Charged vault ((v.accrueFees now s).shares.totalSupply - s.shares.totalSupply) s
      (v.accrueFees now s) := by
  suffices hsome : ∃ n, Charged vault n s (v.accrueFees now s) by
    obtain ⟨n, hn⟩ := hsome
    rw [hn.supply, Nat.add_sub_cancel_left]
    exact hn
  have hmark : ∀ (s₁ : State) (pps : Nat), Charged vault 0 s₁ (s₁.setMark pps) :=
    fun _ _ => .still rfl rfl rfl rfl
  have hclock : Charged vault 0 s (s.setAccrualClock now) := .still rfl rfl rfl rfl
  -- the two fees, each minted or not
  have hrent : ∀ (elapsed : Nat) (s₁ : State),
      ∃ n, Charged vault n s₁ (v.accrueManagementFee elapsed s₁) := by
    intro elapsed s₁
    rw [accrueManagementFee]
    split
    · exact ⟨_, mintFeeShares_charged _⟩
    · exact ⟨0, .still rfl rfl rfl rfl⟩
  have hgain : ∀ s₁ : State, ∃ n, Charged vault n s₁ (v.accruePerformanceFee s₁) := by
    intro s₁
    by_cases hdue : v.FeeDue s₁
    · rw [accruePerformanceFee_due hdue]
      exact ⟨_, (mintFeeShares_charged _).trans (hmark _ _)⟩
    · rw [accruePerformanceFee_idle hdue]
      exact ⟨0, .still rfl rfl rfl rfl⟩
  simp only [accrueFees]
  split
  · exact ⟨_, hclock.trans (hmark _ _)⟩
  · obtain ⟨m, hm⟩ := hrent (now - s.lastFeeAccrualAt) (s.setAccrualClock now)
    obtain ⟨n, hn⟩ := hgain (v.accrueManagementFee (now - s.lastFeeAccrualAt)
      (s.setAccrualClock now))
    have hboth := (hclock.trans hm).trans hn
    split
    · exact ⟨_, hboth.emit rfl⟩
    · exact ⟨_, hboth⟩

/-- The shares the accruals of a call mint for the fund. -/
def feesMinted (v : LemonVault) (msg : Msg) (s : State) (call : Call) : Nat :=
  ((v.accrualStates msg s call).map fun s₁ =>
    (v.accrueFees msg.timestamp s₁).shares.totalSupply - s₁.shares.totalSupply).sum

theorem feesMinted_eq_zero_iff :
    feesMinted v msg s call = 0 ↔
      ∀ s₁ ∈ v.accrualStates msg s call, v.FeeFree msg.timestamp s₁ := by
  rw [feesMinted, List.sum_eq_zero_iff]
  simp only [List.mem_map, forall_exists_index, and_imp, forall_apply_eq_imp_iff₂]
  refine forall₂_congr fun s₁ _ => ?_
  rw [← accrueFees_totalSupply_iff, Nat.sub_eq_zero_iff_le]
  exact ⟨fun hle => hle.antisymm (accrueFees_frame msg.timestamp s₁).supply, fun h => h.le⟩

/-! ### What is told -/

/-- The calls that end in an event the indexer syncs on. -/
def synced : Call → Bool
  | .deposit _ _ | .mint _ _ | .requestRedeem _ _ _ | .fulfillRedeem _ _ | .redeem _ _ _
  | .withdraw _ _ _ | .agentWithdraw _ | .agentReturn _ | .reportNav _ _ _ => true
  | _ => false

/-- Where a token call sends how much. -/
def sent : TokenCall → Option (Address × Nat)
  | .transfer receiver amount | .transferFrom _ receiver amount => some (receiver, amount)
  | .approve _ _ => none

/-- What a call does to the shares and the queue of a vault under a redemption delay, once
the fees are charged, and the event that tells it. -/
inductive Tells (vault : Address) (delay : Nat) (msg : Msg) :
    Call → Custody → Option Event → Custody → Prop
  | silent {call : Call} {k k' : Custody} (unsynced : synced call = false)
      (balance : ∀ a, k'.shares.balanceOf a = k.shares.balanceOf a)
      (redeem : k'.redeem = k.redeem) : Tells vault delay msg call k none k'
  | reported {call : Call} {k : Custody} {e : Event} (sync : syncs e = true)
      (rest : plain vault e = true) : Tells vault delay msg call k (some e) k
  | moved {call : TokenCall} {k k' : Custody} {a b : Address} {n : Nat}
      (target : sent call = some (b, n)) (nonzero : a ≠ 0 ∧ b ≠ 0) (own : a = vault → n = 0)
      (held : n ≤ k.shares.ledger.balance a)
      (shares : k'.shares.ledger = k.shares.ledger.move a b n held)
      (redeem : k'.redeem = k.redeem) :
      Tells vault delay msg (.shares call) k (some (.transfer a b n)) k'
  | deposited {call : Call} {k k' : Custody} {sender r : Address} {a n : Nat}
      (shares : k'.shares.ledger = k.shares.ledger.credit r n) (redeem : k'.redeem = k.redeem) :
      Tells vault delay msg call k (some (.deposit sender r a n)) k'
  | queued {k k' : Custody} {n fulfillBy : Nat} {c o : Address} (positive : 0 < n)
      (held : n ≤ k.shares.ledger.balance o)
      (shares : k'.shares.ledger = k.shares.ledger.move o vault n held)
      (redeem : k'.redeem = Function.update k.redeem c { k.redeem c with
        pendingShares := (k.redeem c).pendingShares + n
        requestedAt := msg.timestamp }) :
      Tells vault delay msg (.requestRedeem n c o) k
        (some (.redeemQueued c n (msg.timestamp + delay) fulfillBy)) k'
  | fulfilled {k k' : Custody} {c : Address} {n a : Nat} (positive : 0 < n)
      (pending : n ≤ (k.redeem c).pendingShares) (held : n ≤ k.shares.ledger.balance vault)
      (shares : k'.shares.ledger = k.shares.ledger.debit vault n held)
      (redeem : k'.redeem = Function.update k.redeem c { k.redeem c with
        pendingShares := (k.redeem c).pendingShares - n
        claimableShares := (k.redeem c).claimableShares + n
        claimableAssets := (k.redeem c).claimableAssets + a }) :
      Tells vault delay msg (.fulfillRedeem c n) k (some (.redeemFulfilled c n a)) k'
  | claimed {call : Call} {k k' : Custody} {c r : Address} {n a : Nat} (positive : 0 < n ∨ 0 < a)
      (covered : n ≤ (k.redeem c).claimableShares ∧ a ≤ (k.redeem c).claimableAssets)
      (shares : k'.shares = k.shares)
      (redeem : k'.redeem = Function.update k.redeem c { k.redeem c with
        claimableShares := (k.redeem c).claimableShares - n
        claimableAssets := (k.redeem c).claimableAssets - a }) :
      Tells vault delay msg call k (some (.redeemClaimed c r n a)) k'

/-- A call the indexer syncs on tells an event it syncs on. -/
theorem Tells.synced {delay : Nat} {k k' : Custody} {e : Option Event}
    (h : Tells vault delay msg call k e k') (hcall : synced call = true) :
    ∃ e₁, e = some e₁ ∧ syncs e₁ = true := by
  cases h with
  | silent unsynced => rw [hcall] at unsynced; cases unsynced
  | reported sync => exact ⟨_, rfl, sync⟩
  | moved => cases hcall
  | deposited | queued | fulfilled | claimed => exact ⟨_, rfl, rfl⟩

/-- Plain events, around one that is told if any is. -/
inductive Carries (vault : Address) : List Event → Option Event → Prop
  | none {events : List Event} (plain : ∀ e ∈ events, plain vault e = true) :
      Carries vault events none
  | some (before after : List Event) {e : Event}
      (before_plain : ∀ e ∈ before, plain vault e = true)
      (after_plain : ∀ e ∈ after, plain vault e = true) :
      Carries vault (before ++ e :: after) (some e)

/-- What a successful call did, and told: the fees up to some state, and one thing from
there. -/
structure Told (v : LemonVault) (msg : Msg) (call : Call) (s s' : State) : Prop where
  told : ∃ lead events e, Charged v.self (feesMinted v msg s call) s lead ∧
    Tells v.self s.limits.val.minRedeemDelay msg call lead.custody e s'.custody ∧
    s'.log = lead.log ++ events ∧ Carries v.self events e
  limits : s'.limits = s.limits ∨ ∃ l, call = .setLimits l ∧ s'.limits.val = l

/-! ### The calls -/

/-- A call that tells nothing, after its fees. -/
theorem Told.silent {lead : State} {events : List Event} (hcall : synced call = false)
    (hcharged : Charged v.self (feesMinted v msg s call) s lead)
    (hcustody : s'.custody = lead.custody) (hlog : s'.log = lead.log ++ events)
    (hplain : ∀ e ∈ events, plain v.self e = true)
    (hlimits : s'.limits = s.limits ∨ ∃ l, call = .setLimits l ∧ s'.limits.val = l) :
    Told v msg call s s' := by
  refine ⟨⟨lead, events, none, hcharged, ?_, hlog, .none hplain⟩, hlimits⟩
  rw [hcustody]
  exact .silent hcall (fun _ => rfl) rfl

/-- Activity is logged in plain events. -/
theorem foldl_recordActivity_log (reports : List ActivityReport) (s : State) :
    ∃ events, (reports.foldl recordActivity s).log = s.log ++ events ∧
      ∀ e ∈ events, plain vault e = true := by
  induction reports generalizing s with
  | nil => exact ⟨[], (List.append_nil _).symm, by simp⟩
  | cons r reports ih =>
      obtain ⟨events, hlog, hplain⟩ := ih (recordActivity s r)
      refine ⟨.activityReported (s.activityCount + 1) r :: events, ?_, ?_⟩
      · rw [List.foldl_cons, hlog, recordActivity, List.append_assoc]
        rfl
      · intro e he
        rcases List.mem_cons.mp he with rfl | he
        · rfl
        · exact hplain e he

/-- So are roles. -/
theorem roleCall_log {role : Role} {a : Address}
    (h : grantRole msg s role a = .ok s' ∨ revokeRole msg s role a = .ok s' ∨
      renounceRole msg s role a = .ok s') :
    ∃ events, s'.log = s.log ++ events ∧ ∀ e ∈ events, plain vault e = true := by
  have hsame : ∃ events, s.log = s.log ++ events ∧ ∀ e ∈ events, plain vault e = true :=
    ⟨[], (List.append_nil _).symm, by simp⟩
  -- a role that was held already, or was not, is no event
  have hgranted : ∃ events, (grantRoleUnchecked msg s role a).log = s.log ++ events ∧
      ∀ e ∈ events, plain vault e = true := by
    rw [grantRoleUnchecked]
    split
    · exact hsame
    · exact ⟨_, rfl, by simp [plain]⟩
  have hrevoked : ∃ events, (revokeRoleUnchecked msg s role a).log = s.log ++ events ∧
      ∀ e ∈ events, plain vault e = true := by
    rw [revokeRoleUnchecked]
    split
    · exact ⟨_, rfl, by simp [plain]⟩
    · exact hsame
  rcases h with h | h | h
  · simp only [grantRole, bind_eq_ok, pure_eq_ok] at h
    obtain ⟨-, -, rfl⟩ := h
    exact hgranted
  · simp only [revokeRole, bind_eq_ok, pure_eq_ok] at h
    obtain ⟨-, -, rfl⟩ := h
    exact hrevoked
  · simp only [renounceRole, bind_eq_ok, pure_eq_ok] at h
    obtain ⟨-, -, rfl⟩ := h
    exact hrevoked

/-- Administering the vault tells nothing. -/
theorem administers_told (hadmin : administers call = true) (h : v.exec msg s call = .ok s') :
    Told v msg call s s' := by
  have hfees : Charged v.self _ s (v.accrueFees msg.timestamp s) := accrueFees_charged _ _
  have hnone : Charged v.self 0 s s := .still rfl rfl rfl rfl
  have hrole : ∀ {role : Role} {a : Address}, synced call = false →
      feesMinted v msg s call = 0 →
      (grantRole msg s role a = .ok s' ∨ revokeRole msg s role a = .ok s' ∨
        renounceRole msg s role a = .ok s') → Told v msg call s s' := by
    intro role a hcall hfree hrole
    obtain ⟨events, hlog, hplain⟩ := roleCall_log hrole
    have hsame := roleCall_ok hrole
    refine Told.silent hcall (hfree ▸ hnone) ?_ hlog hplain (.inl ?_)
    · rw [hsame]
      rfl
    · rw [hsame]
  -- a role call logs role events only; of the others, two accrue first
  cases call with
  | reportActivity r =>
      obtain ⟨-, rfl⟩ := reportActivity_ok h
      exact .silent rfl hnone rfl rfl (by simp [plain]) (.inl rfl)
  | reportActivityBatch rs =>
      obtain ⟨-, rfl⟩ := reportActivityBatch_ok h
      obtain ⟨events, hlog, hplain⟩ := foldl_recordActivity_log rs s
      have hsame := foldl_recordActivity_rest rs s
      refine .silent rfl hnone ?_ hlog hplain (.inl ?_)
      · rw [hsame]
        rfl
      · rw [hsame]
  | accrueFees =>
      obtain rfl := exec_accrueFees_ok h
      exact .silent rfl hfees rfl (List.append_nil _).symm (by simp) (.inl hfees.limits)
  -- the two that accrue first
  | setLimits l =>
      obtain ⟨-, lead, rfl, hl, rfl⟩ := setLimits_ok h
      exact .silent rfl hfees rfl rfl (by simp [plain]) (.inr ⟨l, rfl, rfl⟩)
  | setInsuranceFund a =>
      obtain ⟨-, lead, rfl, ha, rfl⟩ := setInsuranceFund_ok h
      exact .silent rfl hfees rfl rfl (by simp [plain]) (.inl hfees.limits)
  | setEmergencyExit b =>
      obtain ⟨-, rfl⟩ := setEmergencyExit_ok h
      exact .silent rfl hnone rfl rfl (by simp [plain]) (.inl rfl)
  | pause =>
      obtain ⟨-, rfl⟩ := pause_ok h
      exact .silent rfl hnone rfl rfl (by simp [plain]) (.inl rfl)
  | unpause =>
      obtain ⟨-, rfl⟩ := unpause_ok h
      exact .silent rfl hnone rfl rfl (by simp [plain]) (.inl rfl)
  | grantRole role a => exact hrole rfl rfl (.inl h)
  | revokeRole role a => exact hrole rfl rfl (.inr (.inl h))
  | renounceRole role a => exact hrole rfl rfl (.inr (.inr h))
  | _ => cases hadmin

/-- A call on the share token moves shares, none of them the vault's own, or approves. -/
theorem sharesCall_told {call : TokenCall} (hsender : msg.sender ≠ v.self)
    (hnone : ∀ a, s.shares.allowance v.self a = 0) (h : v.exec msg s (.shares call) = .ok s') :
    Told v msg (.shares call) s s' := by
  obtain ⟨t, hcall, rfl⟩ := exec_shares_ok h
  refine ⟨?_, .inl rfl⟩
  cases call with
  | transfer r n =>
      obtain ⟨hn, rfl⟩ := Erc20.transferBetween_ok hcall
      refine ⟨s, _, some (.transfer msg.sender r n), .still rfl rfl rfl rfl, ?_, rfl,
        .some [] [] (by simp) (by simp)⟩
      exact .moved rfl (Erc20.transferBetween_nonzero hcall) (fun hown => absurd hown hsender) hn
        rfl rfl
  | transferFrom o r n =>
      obtain ⟨hn, hmove, hallow, -⟩ := Erc20.transferFrom_ok hcall
      refine ⟨s, _, some (.transfer o r n), .still rfl rfl rfl rfl, ?_, rfl,
        .some [] [] (by simp) (by simp)⟩
      refine .moved rfl (Erc20.transferFrom_nonzero hcall) ?_ hn hmove rfl
      -- nobody may spend the vault's shares, so none of them move
      rintro rfl
      rw [hnone] at hallow
      exact Nat.le_zero.mp (hallow (by decide))
  | approve spender n =>
      obtain rfl := Erc20.approve_ok hcall
      exact ⟨s, _, none, .still rfl rfl rfl rfl, .silent rfl (fun _ => rfl) rfl, rfl,
        .none (by simp [TokenCall.event, plain])⟩

theorem depositAssets_told {lead : State} {r : Address} {a n : Nat}
    (hcharged : Charged v.self (feesMinted v msg s call) s lead)
    (h : v.depositAssets msg lead r a n = .ok s') : Told v msg call s s' := by
  obtain ⟨t, -, -, rfl⟩ := depositAssets_ok h
  refine ⟨⟨lead, _, some (.deposit msg.sender r a n), hcharged, .deposited rfl rfl,
    List.append_assoc _ _ _, .some [.transfer 0 r n] [] ?_ ?_⟩,
    .inl hcharged.limits⟩
  · simp [plain]
  · simp

theorem claim_told {c r : Address} {n a : Nat} (hfree : feesMinted v msg s call = 0)
    (hpositive : 0 < n ∨ 0 < a) (hn : n ≤ (s.redeem c).claimableShares)
    (ha : a ≤ (s.redeem c).claimableAssets) (h : v.claim msg s c r n a = .ok s') :
    Told v msg call s s' := by
  obtain ⟨-, t, -, rfl⟩ := claim_ok h
  refine ⟨⟨s, _, some (.redeemClaimed c r n a), ?_, .claimed hpositive ⟨hn, ha⟩ rfl rfl,
    List.append_assoc _ _ _, .some [] [.withdraw msg.sender r c a n] ?_ ?_⟩,
    .inl rfl⟩
  · rw [hfree]
    exact .still rfl rfl rfl rfl
  · simp
  · simp [plain]

/-- A report charges twice, and says so once. -/
theorem reportNav_told {d l o : Nat} (h : v.reportNav msg s d l o = .ok s') :
    Told v msg (.reportNav d l o) s s' := by
  obtain ⟨-, -, -, -, rolled, rfl, -, restated, hrestated, rfl⟩ := reportNav_ok h
  have hrolled : Charged v.self 0 s (rollNavEpoch msg.timestamp s) := by
    rw [rollNavEpoch]
    split <;> exact .still rfl rfl rfl rfl
  have hfirst : Charged v.self _ (rollNavEpoch msg.timestamp s) _ :=
    accrueFees_charged (v := v) msg.timestamp _
  have hrestate : Charged v.self 0 (v.accrueFees msg.timestamp (rollNavEpoch msg.timestamp s))
      restated := by
    rw [hrestated]
    exact .still rfl rfl rfl rfl
  have hlast : Charged v.self _ restated _ := accrueFees_charged (v := v) msg.timestamp _
  have hcharged := ((hrolled.trans hfirst).trans hrestate).trans hlast
  refine ⟨⟨v.accrueFees msg.timestamp restated, _, some (.navReported d _ _ l o), ?_,
    .reported rfl rfl, rfl, .some [] [] (by simp) (by simp)⟩,
    .inl hcharged.limits⟩
  rw [hrestated] at hcharged ⊢
  simpa [feesMinted, accrualStates] using hcharged

/-- **Every call tells at most one thing.** -/
theorem exec_told (hsender : msg.sender ≠ v.self) (hnone : ∀ a, s.shares.allowance v.self a = 0)
    (h : v.exec msg s call = .ok s') : Told v msg call s s' := by
  have hfees : Charged v.self _ s (v.accrueFees msg.timestamp s) := accrueFees_charged _ _
  have hfree : Charged v.self 0 s s := .still rfl rfl rfl rfl
  cases hadmin : administers call with
  | true => exact administers_told hadmin h
  | false =>
      cases call with
      | usdc call =>
          obtain ⟨t, -, rfl⟩ := exec_usdc_ok h
          exact .silent rfl hfree rfl (List.append_nil _).symm (by simp) (.inl rfl)
      | shares call => exact sharesCall_told hsender hnone h
      -- a deposit, under either entry point
      | deposit a r =>
          obtain ⟨n, hdep⟩ := exec_deposit_ok h
          exact depositAssets_told hfees (deposit_ok hdep).2.2
      | mint n r =>
          obtain ⟨a, hmint⟩ := exec_mint_ok h
          exact depositAssets_told hfees (mint_ok hmint).2.2
      | setOperator op b =>
          obtain ⟨-, rfl⟩ := setOperator_ok h
          refine ⟨⟨s, _, none, hfree, .silent rfl (fun _ => rfl) rfl, rfl, .none ?_⟩, .inl rfl⟩
          simp [plain]
      -- the redemption queue: both deadlines are the limits of the moment
      | requestRedeem n c o =>
          obtain ⟨hn, -, -, lead, rfl, t, ht, rfl⟩ := requestRedeem_ok h
          obtain ⟨hheld, rfl⟩ := Erc20.transferBetween_ok ht
          have hdelay : (v.accrueFees msg.timestamp s).limits = s.limits := hfees.limits
          refine ⟨⟨_, _, some (.redeemQueued c n (msg.timestamp + s.limits.val.minRedeemDelay)
            (msg.timestamp + s.limits.val.maxRedeemDelay)), hfees, .queued hn hheld rfl rfl, ?_,
            .some [.transfer o v.self n, .redeemRequest c o requestId msg.sender n] [] ?_ ?_⟩,
            .inl hfees.limits⟩
          · simp [hdelay]
          · simp [plain]
          · simp
      | fulfillRedeem c n =>
          obtain ⟨a, hful⟩ := exec_fulfillRedeem_ok h
          obtain ⟨-, -, lead, rfl, hn, hpending, -, -, -, t, ht, rfl⟩ := fulfillRedeem_ok hful
          obtain ⟨hheld, rfl⟩ := Erc20.burn_ok ht
          refine ⟨⟨_, _, some (.redeemFulfilled c n a), hfees, .fulfilled hn hpending hheld rfl rfl,
            List.append_assoc _ _ _, .some [.transfer v.self 0 n] [] ?_ ?_⟩,
            .inl hfees.limits⟩
          · simp [plain]
          · simp
      | redeem n r c =>
          obtain ⟨a, hred⟩ := exec_redeem_ok h
          obtain ⟨-, hn, hle, ha, hclaim⟩ := redeem_ok hred
          exact claim_told rfl (.inl hn) hle (ha ▸ mulDiv_floor_le_right hle) hclaim
      | withdraw a r c =>
          obtain ⟨n, hwd⟩ := exec_withdraw_ok h
          obtain ⟨-, ha, hle, hn, hclaim⟩ := withdraw_ok hwd
          exact claim_told rfl (.inr ha) (hn ▸ Nat.min_le_right _ _) hle hclaim
      -- the agent moves capital, and the shares stay where they are
      | agentWithdraw n =>
          obtain ⟨-, -, -, -, -, -, -, -, t, -, rfl⟩ := agentWithdraw_ok h
          exact ⟨⟨s, _, some (.agentWithdrew n _), hfree, .reported rfl rfl, rfl,
            .some [] [] (by simp) (by simp)⟩, .inl rfl⟩
      | agentReturn n =>
          obtain ⟨-, t, -, rfl⟩ := agentReturn_ok h
          exact ⟨⟨s, _, some (.agentReturned n _), hfree, .reported rfl rfl, rfl,
            .some [] [] (by simp) (by simp)⟩, .inl rfl⟩
      | donate n =>
          obtain ⟨-, lead, rfl, t, -, rfl⟩ := donate_ok h
          exact .silent rfl hfees rfl rfl (by simp [plain]) (.inl hfees.limits)
      | reportNav d l o => exact reportNav_told h
      | _ => cases hadmin

end LemonMarket.Indexer
