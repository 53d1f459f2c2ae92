import LemonMarket.Contracts.Platform

/-!
# LemonMarket.Contracts.Wiring

**Every vault runs as if alone.** The vaults of a platform meet in one place, the USDC
ledger, and there each of them sees the others as it sees any account: as callers of USDC.
So what happens on a platform is, for each vault, a run of that vault by itself, in which
the transactions that do not concern it appear as USDC calls or not at all.

`Wired` is the invariant. It also says what the single-vault model assumes of its
surroundings: the contracts have their own addresses, none of which sends a transaction,
and an account nobody has acted from has approved nothing.
-/

namespace LemonMarket

open Lib

/-! ### USDC as one account sees it -/

/-- A call on USDC by an account other than `a`. -/
def UsdcBy (a : Address) (t u : Erc20 Address) : Prop :=
  ∃ b tc, b ≠ a ∧ TokenCall.exec t b tc = .ok u

/-- Any number of them. -/
abbrev UsdcSteps (a : Address) : Erc20 Address → Erc20 Address → Prop :=
  Relation.ReflTransGen (UsdcBy a)

/-- No call raises an allowance but its maker's. -/
theorem TokenCall.exec_allowance {t u : Erc20 Address} {sender a : Address} {call : TokenCall}
    (ha : a ≠ sender) (h : call.exec t sender = .ok u) (b : Address) :
    u.allowance a b ≤ t.allowance a b := by
  cases call with
  | transfer r n =>
      obtain ⟨hn, rfl⟩ := Erc20.transferBetween_ok h
      exact Nat.le_refl _
  | transferFrom o r n =>
      obtain ⟨-, -, -, hallow⟩ := Erc20.transferFrom_ok h
      exact hallow a b
  | approve spender n =>
      obtain rfl := Erc20.approve_ok h
      simp [ha]

namespace LemonVault

variable {v : LemonVault} {s s' : State} {msg : Msg} {call : Call}

/-- What a call does to the USDC ledger: nothing, a pull from its sender, a push, or the
USDC call it is. -/
inductive UsdcMove (v : LemonVault) (msg : Msg) (t : Erc20 Address) : Call → Erc20 Address → Prop
  | stay {call : Call} : UsdcMove v msg t call t
  | pull {call : Call} {u : Erc20 Address} {n : Nat}
      (done : t.transferFrom v.self msg.sender v.self n = .ok u) : UsdcMove v msg t call u
  | push {call : Call} {u : Erc20 Address} {receiver : Address} {n : Nat}
      (done : t.transferBetween v.self receiver n = .ok u) : UsdcMove v msg t call u
  | call {tc : TokenCall} {u : Erc20 Address} (done : tc.exec t msg.sender = .ok u) :
      UsdcMove v msg t (.usdc tc) u

theorem depositAssets_usdc {r : Address} {a n : Nat} (hs : s.usdc = t)
    (h : v.depositAssets msg s r a n = .ok s') : UsdcMove v msg t call s'.usdc := by
  obtain ⟨u, hu, -, rfl⟩ := depositAssets_ok h
  exact .pull (hs ▸ hu)

theorem claim_usdc {c r : Address} {n a : Nat} (h : v.claim msg s c r n a = .ok s') :
    UsdcMove v msg s.usdc call s'.usdc := by
  obtain ⟨-, u, hu, rfl⟩ := claim_ok h
  exact .push hu

theorem exec_usdcMove (h : v.exec msg s call = .ok s') : UsdcMove v msg s.usdc call s'.usdc := by
  have hlead : (v.accrueFees msg.timestamp s).usdc = s.usdc := accrueFees_usdc ..
  cases hadmin : administers call with
  | true =>
      obtain ⟨hfees, hs'⟩ := exec_administers hadmin h
      rw [hs', hfees.usdc]
      exact .stay
  | false =>
      cases call with
      | usdc tc =>
          obtain ⟨t, ht, rfl⟩ := exec_usdc_ok h
          exact .call ht
      | shares tc =>
          obtain ⟨t, -, rfl⟩ := exec_shares_ok h
          exact .stay
      -- a deposit pulls USDC in
      | deposit a r =>
          obtain ⟨n, hdep⟩ := exec_deposit_ok h
          exact depositAssets_usdc hlead (deposit_ok hdep).2.2
      | mint n r =>
          obtain ⟨a, hmint⟩ := exec_mint_ok h
          exact depositAssets_usdc hlead (mint_ok hmint).2.2
      | setOperator op b =>
          obtain ⟨-, rfl⟩ := setOperator_ok h
          exact .stay
      | requestRedeem n c o =>
          obtain ⟨-, -, -, lead, rfl, t, -, rfl⟩ := requestRedeem_ok h
          simp only [hlead]
          exact .stay
      | fulfillRedeem c n =>
          obtain ⟨a, hful⟩ := exec_fulfillRedeem_ok h
          obtain ⟨-, -, lead, rfl, -, -, -, -, -, t, -, rfl⟩ := fulfillRedeem_ok hful
          simp only [hlead]
          exact .stay
      -- a claim pushes it out, and what follows is the agent's capital and gifts
      | redeem n r c =>
          obtain ⟨a, hred⟩ := exec_redeem_ok h
          exact claim_usdc (redeem_ok hred).2.2.2.2
      | withdraw a r c =>
          obtain ⟨n, hwd⟩ := exec_withdraw_ok h
          exact claim_usdc (withdraw_ok hwd).2.2.2.2
      | agentWithdraw n =>
          obtain ⟨-, -, -, -, -, -, -, -, t, ht, rfl⟩ := agentWithdraw_ok h
          exact .push ht
      | agentReturn n =>
          obtain ⟨-, t, ht, rfl⟩ := agentReturn_ok h
          exact .pull ht
      | donate n =>
          obtain ⟨-, lead, rfl, t, ht, rfl⟩ := donate_ok h
          exact .pull (hlead ▸ ht)
      | reportNav d l o =>
          obtain ⟨-, -, -, -, rolled, rfl, -, restated, rfl, rfl⟩ := reportNav_ok h
          have hroll : (rollNavEpoch msg.timestamp s).usdc = s.usdc := by
            rw [rollNavEpoch]; split <;> rfl
          simp only [State.emit, accrueFees_usdc, restateNav, hroll]
          exact .stay
      | _ => cases hadmin

/-- To an account that is neither the vault nor the sender, a call is a USDC call by
somebody else. -/
theorem UsdcMove.steps {t u : Erc20 Address} {a : Address} (hm : UsdcMove v msg t call u)
    (hv : a ≠ v.self) (hs : a ≠ msg.sender) : UsdcSteps a t u := by
  cases hm with
  | stay => exact .refl
  | pull done => exact .single ⟨v.self, .transferFrom _ _ _, Ne.symm hv, done⟩
  | push done => exact .single ⟨v.self, .transfer _ _, Ne.symm hv, done⟩
  | call done => exact .single ⟨msg.sender, _, Ne.symm hs, done⟩

/-- A call raises no USDC allowance, unless it is a USDC call by its owner. -/
theorem UsdcMove.allowance {t u : Erc20 Address} {a : Address} (hm : UsdcMove v msg t call u)
    (ha : a ≠ msg.sender ∨ ∀ tc, call ≠ .usdc tc) (b : Address) :
    u.allowance a b ≤ t.allowance a b := by
  cases hm with
  | stay => exact Nat.le_refl _
  | pull done =>
      obtain ⟨-, -, -, hallow⟩ := Erc20.transferFrom_ok done
      exact hallow a b
  | push done =>
      obtain ⟨hn, rfl⟩ := Erc20.transferBetween_ok done
      exact Nat.le_refl _
  | call done =>
      rcases ha with hsender | hcall
      · exact TokenCall.exec_allowance hsender done b
      · exact absurd rfl (hcall _)

/-! ### Several calls -/

variable {calls : List Call} {t : Nat}

theorem execAll_cons (h : v.execAll msg s (call :: calls) = .ok s') :
    ∃ m, v.exec msg s call = .ok m ∧ v.execAll msg m calls = .ok s' := by
  simpa only [execAll, bind_eq_ok] using h

theorem execAll_steps {a : Address} (hv : a ≠ v.self) (hs : a ≠ msg.sender)
    (h : v.execAll msg s calls = .ok s') : UsdcSteps a s.usdc s'.usdc := by
  induction calls generalizing s with
  | nil =>
      obtain rfl := Except.ok.inj h
      exact .refl
  | cons call calls ih =>
      obtain ⟨m, hm, hrest⟩ := execAll_cons h
      exact ((exec_usdcMove hm).steps hv hs).trans (ih hrest)

/-- Some time up to `now`, the vault was in a state its own runs lead to, and that is the
state it is in. -/
def RunsAlone (v : LemonVault) (now : Nat) (s : State) : Prop :=
  ∃ t ≤ now, Reachable v ⟨t, s⟩

theorem RunsAlone.later {now : Nat} (h : RunsAlone v t s) (hn : t ≤ now) : RunsAlone v now s := by
  obtain ⟨t', ht', hr⟩ := h
  exact ⟨t', ht'.trans hn, hr⟩

/-- One more call, by anybody else. -/
theorem RunsAlone.exec {b : Address} {now : Nat} (h : RunsAlone v now s) (hb : b ≠ v.self)
    (he : v.exec ⟨b, now⟩ s call = .ok s') : RunsAlone v now s' := by
  obtain ⟨t, ht, w₀, tr, hgen, hrun⟩ := h
  refine ⟨now, le_rfl, w₀, _, hgen, .snoc (l := ⟨⟨b, now⟩, call⟩) hrun ?_⟩
  simp only [next]
  rw [if_pos ⟨ht, hb⟩, he]
  rfl

theorem RunsAlone.execAll {b : Address} {now : Nat} (h : RunsAlone v now s) (hb : b ≠ v.self)
    (he : v.execAll ⟨b, now⟩ s calls = .ok s') : RunsAlone v now s' := by
  induction calls generalizing s with
  | nil =>
      obtain rfl := Except.ok.inj he
      exact h
  | cons call calls ih =>
      obtain ⟨m, hm, hrest⟩ := execAll_cons he
      exact ih (h.exec hb hm) hrest

/-- The ledger moved under the vault, by others' hands. -/
theorem RunsAlone.usdc {now : Nat} {u : Erc20 Address} (h : RunsAlone v now s)
    (hu : UsdcSteps v.self s.usdc u) : RunsAlone v now { s with usdc := u } := by
  induction hu with
  | refl => exact h
  | @tail t u _ hstep ih =>
      obtain ⟨b, tc, hb, hdone⟩ := hstep
      have hcall : v.exec ⟨b, now⟩ { s with usdc := t } (.usdc tc) =
          .ok { s with usdc := u } := Platform.exec_usdc_of_ok hdone
      exact ih.exec hb hcall

end LemonVault

/-! ### The platform -/

namespace Platform

/-- What the contracts are to each other, and to the accounts around them. -/
structure Wired (p : Platform) : Prop where
  address : ∀ a c, p.vaults a = some c → c.code.self = a
  apart : ∀ a c, p.vaults a = some c → a ≠ p.fund.self ∧ a ≠ p.factory.self
  vaultActive : ∀ a c, p.vaults a = some c → a ∈ p.active
  factoryActive : p.factory.self.val ∈ p.active
  fundActive : p.fund.self.val ∈ p.active
  approved : ∀ a b, p.usdc.allowance a b ≠ 0 → a ∈ p.active
  alone : ∀ a c, p.vaults a = some c → c.code.RunsAlone p.now (p.view c)

variable {p q : Platform} {msg : Msg} {call : PlatformCall} {tx : PlatformTx}

theorem Genesis.wired (h : Genesis p) : Wired p where
  address a c hc := by simp [h.vaults a] at hc
  apart a c hc := by simp [h.vaults a] at hc
  vaultActive a c hc := by simp [h.vaults a] at hc
  factoryActive := h.factoryActive
  fundActive := h.fundActive
  approved := h.approved
  alone a c hc := by simp [h.vaults a] at hc

/-- A vault calls nobody, so it makes no transaction; nor does the fund make one for it. -/
theorem Wired.mayCall_ne {a b d : Address} {c : VaultContract} {calls : List Call}
    (h : Wired p) (hsender : p.isContract msg.sender = false) (hc : p.vaults a = some c)
    (hb : p.MayCall msg d b calls) : a ≠ b := by
  cases hb with
  | sender =>
      rintro rfl
      simp [isContract, hc] at hsender
  | fund => exact (h.apart a c hc).1

theorem Wired.mayMove_ne {a b : Address} {c : VaultContract} {moved : TokenCall}
    (h : Wired p) (hsender : p.isContract msg.sender = false) (hc : p.vaults a = some c)
    (hb : p.MayMove msg b moved) : a ≠ b := by
  cases hb with
  | sender =>
      rintro rfl
      simp [isContract, hc] at hsender
  | fund => exact (h.apart a c hc).1

/-- Whoever acts has acted. -/
theorem mayCall_active {d b : Address} {calls : List Call} (h : Wired p)
    (hb : p.MayCall tx.msg d b calls) : b ∈ p.acted tx := by
  cases hb with
  | sender => exact List.mem_cons_self
  | fund => exact List.mem_cons_of_mem _ (List.mem_append_right _ h.fundActive)

theorem mem_acted {a : Address} (h : a ∈ p.active) : a ∈ p.acted tx :=
  List.mem_cons_of_mem _ (List.mem_append_right _ h)

/-- What every account but the sender sees of a vault's calls. -/
theorem execAll_allowance {v : LemonVault} {s s' : State} {calls : List Call} {a b : Address}
    (ha : a ≠ msg.sender) (h : v.execAll msg s calls = .ok s') :
    s'.usdc.allowance a b ≤ s.usdc.allowance a b := by
  induction calls generalizing s with
  | nil =>
      obtain rfl := Except.ok.inj h
      exact Nat.le_refl _
  | cons call calls ih =>
      obtain ⟨m, hm, hrest⟩ := LemonVault.execAll_cons h
      exact (ih hrest).trans ((LemonVault.exec_usdcMove hm).allowance (.inl ha) b)

theorem Wired.token {b : Address} {moved : TokenCall} {t : Erc20 Address} {fund : InsuranceFund}
    (h : Wired p) (hnow : p.now ≤ tx.msg.timestamp) (hsender : p.isContract tx.msg.sender = false)
    (may : p.MayMove tx.msg b moved) (done : moved.exec p.usdc b = .ok t)
    (self : fund.self = p.fund.self) :
    Wired (p.settle tx { p with usdc := t, fund := fund }) where
  address := h.address
  apart a c hc := by
    show a ≠ fund.self ∧ _
    rw [self]
    exact h.apart a c hc
  vaultActive a c hc := mem_acted (h.vaultActive a c hc)
  factoryActive := mem_acted h.factoryActive
  fundActive := by
    show fund.self.val ∈ _
    rw [self]
    exact mem_acted h.fundActive
  approved a d had := by
    by_cases hab : a = b
    · subst hab
      cases may with
      | sender => exact List.mem_cons_self
      | fund => exact mem_acted h.fundActive
    · refine mem_acted (h.approved a d fun hz => had ?_)
      exact Nat.le_zero.mp (hz ▸ TokenCall.exec_allowance hab done d)
  alone a c hc := by
    have hself := h.address a c hc
    have hb : b ≠ c.code.self := hself ▸ (h.mayMove_ne hsender hc may).symm
    exact ((h.alone a c hc).later hnow).usdc (.single ⟨b, moved, hb, done⟩)

theorem Wired.called {a b : Address} {c : VaultContract} {calls : List Call} {s : State}
    {fund : InsuranceFund} (h : Wired p) (hnow : p.now ≤ tx.msg.timestamp)
    (hsender : p.isContract tx.msg.sender = false) (found : p.vaults a = some c)
    (may : p.MayCall tx.msg c.code.self b calls)
    (done : c.code.execAll ⟨b, tx.msg.timestamp⟩ (p.view c) calls = .ok s)
    (self : fund.self = p.fund.self) :
    Wired (p.settle tx { p.write a c s with fund := fund }) := by
  have hself := h.address a c found
  -- what the table holds afterwards at each address, and where that comes from
  have hat : ∀ a' c', (p.write a c s).vaults a' = some c' →
      (a' = a ∧ c' = { c with storage := s }) ∨ (a' ≠ a ∧ p.vaults a' = some c') := by
    intro a' c' hc'
    by_cases ha : a' = a
    · subst ha
      exact .inl ⟨rfl, by simpa [write, eq_comm] using hc'⟩
    · exact .inr ⟨ha, by simpa [write, ha] using hc'⟩
  have hold : ∀ a' c', (p.write a c s).vaults a' = some c' → ∃ c₀, p.vaults a' = some c₀ := by
    intro a' c' hc'
    rcases hat a' c' hc' with ⟨rfl, -⟩ | ⟨-, hc₀⟩
    · exact ⟨c, found⟩
    · exact ⟨c', hc₀⟩
  refine ⟨?_, ?_, ?_, mem_acted h.factoryActive, ?_, ?_, ?_⟩
  · intro a' c' hc'
    rcases hat a' c' hc' with ⟨rfl, rfl⟩ | ⟨-, hc₀⟩
    · exact hself
    · exact h.address a' c' hc₀
  · intro a' c' hc'
    obtain ⟨c₀, hc₀⟩ := hold a' c' hc'
    show a' ≠ fund.self ∧ _
    rw [self]
    exact h.apart a' c₀ hc₀
  · intro a' c' hc'
    obtain ⟨c₀, hc₀⟩ := hold a' c' hc'
    exact mem_acted (h.vaultActive a' c₀ hc₀)
  · show fund.self.val ∈ _
    rw [self]
    exact mem_acted h.fundActive
  · intro x y hxy
    by_cases hx : x = b
    · subst hx
      exact mayCall_active h may
    · refine mem_acted (h.approved x y fun hz => hxy ?_)
      exact Nat.le_zero.mp (hz ▸ execAll_allowance hx done)
  · intro a' c' hc'
    rcases hat a' c' hc' with ⟨rfl, rfl⟩ | ⟨hne, hc₀⟩
    · have hb : b ≠ c.code.self := hself ▸ (h.mayCall_ne hsender found may).symm
      exact ((h.alone _ c found).later hnow).execAll hb done
    · -- another vault: what moved of its ledger was moved by others
      have hself' := h.address a' c' hc₀
      have hsteps : UsdcSteps c'.code.self p.usdc s.usdc :=
        LemonVault.execAll_steps (by rw [hself', hself]; exact hne)
          (by rw [hself']; exact h.mayCall_ne hsender hc₀ may) done
      exact ((h.alone a' c' hc₀).later hnow).usdc hsteps

theorem Wired.created {c : VaultContract} {vault : NonzeroAddress} {request : NewVault}
    {limits : Limits} {factory : VaultFactory} (h : Wired p) (hnow : p.now ≤ tx.msg.timestamp)
    (hcall : tx.call.created = some vault) (hfresh : vault.val ∉ p.active)
    (done : p.factory.create ⟨vault, tx.msg.timestamp, p.usdc⟩ request limits =
      .ok (c, factory)) :
    Wired (p.settle tx { p.deploy (some c) with factory := factory }) := by
  obtain ⟨-, -, -, hbuilt, hfactory⟩ := VaultFactory.create_ok done
  obtain ⟨hvault, -⟩ := VaultFactory.create_ok_site done
  have hfself : factory.self = p.factory.self := by rw [hfactory]; rfl
  -- a vault of the new state is the one deployed or one of before
  have hat : ∀ a' c', (p.deploy (some c)).vaults a' = some c' →
      (a' = vault ∧ c' = c) ∨ (a' ≠ vault ∧ p.vaults a' = some c') := by
    intro a' c' hc'
    simp only [deploy, hvault] at hc'
    by_cases ha : a' = vault
    · subst ha
      exact .inl ⟨rfl, by simpa [eq_comm] using hc'⟩
    · exact .inr ⟨ha, by simpa [ha] using hc'⟩
  refine ⟨?_, ?_, ?_, ?_, mem_acted h.fundActive, ?_, ?_⟩
  · intro a' c' hc'
    rcases hat a' c' hc' with ⟨rfl, rfl⟩ | ⟨-, hc₀⟩
    · exact congrArg Subtype.val hvault
    · exact h.address a' c' hc₀
  · intro a' c' hc'
    show a' ≠ p.fund.self ∧ a' ≠ factory.self
    rw [hfself]
    rcases hat a' c' hc' with ⟨rfl, rfl⟩ | ⟨-, hc₀⟩
    · exact ⟨fun hv => hfresh (hv ▸ h.fundActive), fun hv => hfresh (hv ▸ h.factoryActive)⟩
    · exact h.apart a' c' hc₀
  · intro a' c' hc'
    rcases hat a' c' hc' with ⟨rfl, rfl⟩ | ⟨-, hc₀⟩
    · simp [settle, acted, hcall]
    · exact mem_acted (h.vaultActive a' c' hc₀)
  · show factory.self.val ∈ _
    rw [hfself]
    exact mem_acted h.factoryActive
  · intro x y hxy
    exact mem_acted (h.approved x y hxy)
  · intro a' c' hc'
    rcases hat a' c' hc' with ⟨rfl, rfl⟩ | ⟨-, hc₀⟩
    -- the new vault starts a run of its own, with the USDC of the platform
    · have husdc : c'.storage.usdc = p.usdc := by
        obtain ⟨-, fund, risk, limits, hs⟩ := construct_ok hbuilt
        rw [hs, (initialState_fresh _ fund risk limits).usdc]
        rfl
      have hgen : LemonMarket.Genesis c'.code ⟨tx.msg.timestamp, c'.storage⟩ := by
        refine ⟨⟨_, hbuilt, rfl⟩, ?_⟩
        intro b
        by_contra hb
        rw [husdc, hvault] at hb
        exact hfresh (h.approved _ b hb)
      refine ⟨_, le_rfl, ⟨_, c'.storage⟩, [], hgen, ?_⟩
      have hview : (p.settle tx { p.deploy (some c') with factory := factory }).view c' =
          c'.storage := by
        rw [view]
        show { c'.storage with usdc := p.usdc } = c'.storage
        rw [← husdc]
      rw [hview]
      exact .nil
    · exact (h.alone a' c' hc₀).later hnow

/-- **One transaction keeps the wiring.** -/
theorem Wired.next (h : Wired p) (hn : p.next tx = some q) : Wired q := by
  obtain ⟨hnow, hsender, hunused, q', hstep, rfl⟩ := next_ok hn
  cases hstep with
  | token target created may done self roles => exact h.token hnow hsender may done self
  | vault target created found may done self roles =>
      exact h.called hnow hsender found may done self
  | create target created authority done =>
      exact h.created hnow created (hunused _ created).2 done
  -- new terms are the factory's or the fund's; both stay where they are
  | @terms factory fund target created registry _ self =>
      refine ⟨h.address, ?_, ?_, ?_, ?_, ?_, ?_⟩
      · intro a c hc
        show a ≠ fund.self ∧ a ≠ factory.self
        rw [self, registry.self]
        exact h.apart a c hc
      · exact fun a c hc => mem_acted (h.vaultActive a c hc)
      · show factory.self.val ∈ _
        rw [registry.self]
        exact mem_acted h.factoryActive
      · show fund.self.val ∈ _
        rw [self]
        exact mem_acted h.fundActive
      · exact fun x y hxy => mem_acted (h.approved x y hxy)
      · exact fun a c hc => (h.alone a c hc).later hnow

theorem Wired.run {tr : List (Transition Platform PlatformTx)} (hp : Wired p)
    (h : Run Platform.next p tr q) : Wired q :=
  (h.invariant (I := Wired) hp fun _ _ _ hw hn => hw.next hn).1

theorem Reachable.wired (h : Reachable p) : Wired p := by
  obtain ⟨p₀, tr, hgen, hrun⟩ := h
  exact hgen.wired.run hrun

/-- **Every vault runs as if alone.** Whatever the accounts, the factory, the fund and the
other vaults have done, in whatever order: each vault on the platform is in a state that one
of its own runs leads to, from its own construction, and its claims are funded. -/
theorem vaults_run_alone (h : Reachable p) {a : Address} {c : VaultContract}
    (hc : p.vaults a = some c) :
    c.code.self = a ∧ (∃ t ≤ p.now, LemonMarket.Reachable c.code ⟨t, p.view c⟩) ∧
      c.storage.claimableAssets = ∑ x, (c.storage.redeem x).claimableAssets ∧
      c.storage.claimableAssets ≤ p.usdc.balanceOf a := by
  have hself := h.wired.address a c hc
  obtain ⟨t, ht, hreach⟩ := h.wired.alone a c hc
  have hbooks := LemonVault.Books.reachable hreach
  refine ⟨hself, ⟨t, ht, hreach⟩, hbooks.solvent.reconciled.symm, ?_⟩
  have hheld := hbooks.solvent.held
  rw [← hself]
  exact hheld

/-- Alice's deposit and what the fund covered it with are on the platform, and a run of the
vault alone leads to a state that holds both. -/
theorem vaults_run_alone_launched :
    ∃ c t, Test.launched.vaults Test.vault = some c ∧ c.code.self = Test.vault ∧
      LemonMarket.Reachable c.code ⟨t, Test.launched.view c⟩ ∧
      c.code.totalAssets (Test.launched.view c) = 1100 * 10 ^ 6 ∧
      ∑ x, (c.storage.redeem x).claimableAssets = 0 := by
  obtain ⟨c, hc⟩ := Option.isSome_iff_exists.mp
    (show (Test.launched.vaults Test.vault).isSome by rfl)
  obtain ⟨hself, ⟨t, -, hreach⟩, hclaimable, -⟩ := vaults_run_alone Test.launched_reachable hc
  have hstored : (Test.launched.vaults Test.vault).map (fun c =>
      (c.code.totalAssets (Test.launched.view c), c.storage.claimableAssets)) =
        some (1100 * 10 ^ 6, 0) := by rfl
  rw [hc, Option.map_some, Option.some.injEq, Prod.mk.injEq] at hstored
  exact ⟨c, t, hc, Subtype.ext hself, hreach, hstored.1, hclaimable ▸ hstored.2⟩

/-! ### What does not concern a vault leaves it alone -/

/-- What others do on USDC takes nothing from an account that has approved nobody. -/
theorem steps_spare {a : Address} {t u : Erc20 Address} (hnone : ∀ b, t.allowance a b = 0)
    (h : UsdcSteps a t u) : t.balanceOf a ≤ u.balanceOf a ∧ ∀ b, u.allowance a b = 0 := by
  induction h with
  | refl => exact ⟨Nat.le_refl _, hnone⟩
  | tail _ hstep ih =>
      obtain ⟨b, tc, hb, hdone⟩ := hstep
      obtain ⟨hbal, hallow⟩ := TokenCall.exec_spares hb.symm (ih.2 b) hdone
      exact ⟨ih.1.trans hbal, fun d => Nat.le_zero.mp (ih.2 d ▸ hallow d)⟩

/-- A transaction about something else: the vault stays as stored, and keeps its USDC. -/
theorem Wired.elsewhere {a : Address} {c : VaultContract} (h : Wired p)
    (hc : p.vaults a = some c) (hn : p.next tx = some q) (ht : tx.call.target ≠ some a) :
    q.vaults a = some c ∧ p.usdc.balanceOf a ≤ q.usdc.balanceOf a := by
  have hself := h.address a c hc
  obtain ⟨t, -, hreach⟩ := h.alone a c hc
  have hnone : ∀ b, p.usdc.allowance c.code.self b = 0 :=
    (LemonVault.Books.reachable hreach).unapproved
  have hspare : ∀ u, UsdcSteps a p.usdc u → p.usdc.balanceOf a ≤ u.balanceOf a :=
    fun u hu => (steps_spare (hself ▸ hnone) hu).1
  obtain ⟨hnow, hsender, hunused, q', hstep, rfl⟩ := next_ok hn
  -- whatever the transaction is about, the vault allows no one its USDC and is not the sender
  cases hstep with
  | @token b moved t fund target created may done self roles =>
      refine ⟨hc, hspare t (.single ⟨b, moved, ?_, done⟩)⟩
      exact (h.mayMove_ne hsender hc may).symm
  | @vault a' b c' calls s fund target created found may done self roles =>
      have hne : a ≠ a' := by
        rintro rfl
        exact ht target
      refine ⟨?_, hspare s.usdc (LemonVault.execAll_steps ?_ ?_ done)⟩
      · show Function.update p.vaults a' _ a = some c
        rw [Function.update_of_ne hne]
        exact hc
      · rw [h.address a' c' found]
        exact hne
      · exact h.mayCall_ne hsender hc may
  | @create c' vault request limits factory target created authority done =>
      obtain ⟨hvault, -⟩ := VaultFactory.create_ok_site done
      refine ⟨?_, Nat.le_refl _⟩
      show Function.update p.vaults c'.code.self _ a = some c
      rw [Function.update_of_ne, hc]
      rintro rfl
      rw [hvault] at hc
      exact (hunused _ created).2 (h.vaultActive _ c hc)
  | terms => exact ⟨hc, Nat.le_refl _⟩

/-- **Vaults are isolated.** Through any run in which no transaction is about a vault, its
storage stays as it is, to the last field, and no USDC leaves it. -/
theorem vaults_isolated (h : Reachable p) {a : Address} {c : VaultContract}
    (hc : p.vaults a = some c) {tr : List (Transition Platform PlatformTx)}
    (hrun : Run Platform.next p tr q) (htr : ∀ t ∈ tr, t.label.call.target ≠ some a) :
    q.vaults a = some c ∧ p.usdc.balanceOf a ≤ q.usdc.balanceOf a := by
  have hkept := hrun.invariant_of (P := fun t => t.label.call.target ≠ some a)
    (I := fun q => Wired q ∧ q.vaults a = some c ∧ p.usdc.balanceOf a ≤ q.usdc.balanceOf a)
    htr ⟨h.wired, hc, Nat.le_refl _⟩ ?_
  · exact hkept.1.2
  · rintro q tx q' htx ⟨hw, hat, hbal⟩ hn
    obtain ⟨hat', hbal'⟩ := hw.elsewhere hat hn htx
    exact ⟨hw.next hn, hat', hbal.trans hbal'⟩

/-- The second vault sleeps through a deposit into the first. -/
theorem vaults_isolated_invested :
    ∃ c, Test.opened.vaults Test.vaultB = some c ∧ Test.invested.vaults Test.vaultB = some c := by
  obtain ⟨c, hc⟩ := Option.isSome_iff_exists.mp
    (show (Test.opened.vaults Test.vaultB).isSome by rfl)
  have htargets : (Test.depositsRun.map Transition.label).all
      (fun tx => tx.call.target ≠ some Test.vaultB) := by
    rw [Test.deposits_labels]
    decide
  refine ⟨c, hc, (vaults_isolated Test.opened_reachable hc Test.deposits_run ?_).1⟩
  intro t ht
  simpa using List.all_eq_true.mp htargets _ (List.mem_map_of_mem ht)

end Platform

end LemonMarket
