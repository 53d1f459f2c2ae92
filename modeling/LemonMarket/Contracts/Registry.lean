import LemonMarket.Contracts.Wiring
import LemonMarket.Lib.Registry

/-!
# LemonMarket.Contracts.Registry

**One vault for a market, one for an agent.** The factory keeps its registry three times
over: a list, a table by market and a table by agent, and announces every vault in its log
besides. `Registered` says that the four agree with each other and with what is deployed,
and every transaction keeps it. Entries are final: no transaction renames, drops or
redirects one, which is what lets an indexer follow a vault from its announcement on.
-/

namespace LemonMarket

open Lib

namespace VaultFactory

variable {f f' : VaultFactory} {request : NewVault} {vault : Address}

/-- A constructor that went through leaves an empty registry. -/
theorem construct_ok {self : NonzeroAddress} {deployer : Address} {params : FactoryParams}
    (h : construct self deployer params = .ok f) :
    f.vaultForMarket = (fun _ => 0) ∧ f.vaultForAgent = (fun _ => 0) ∧ f.vaults = [] ∧
      announced f.log = [] := by
  simp only [construct, bind_eq_ok, pure_eq_ok] at h
  obtain ⟨asset, -, -, -, admin, -, guardian, -, fund, -, rfl⟩ := h
  refine ⟨rfl, rfl, rfl, ?_⟩
  simp only [putRoles, announced_append, announced_roles, List.append_nil]
  rfl

theorem announced_register :
    announced (f.register vault request).log = announced f.log ++ [vault] := by
  rw [register, announced_append]
  rfl

end VaultFactory

namespace Platform

variable {p q : Platform} {tx : PlatformTx}

/-- The registry is that of the vaults deployed. -/
structure Registered (p : Platform) : Prop where
  nodup : p.factory.vaults.Nodup
  markets : Enrols p.factory.vaultForMarket p.factory.vaults
  agents : Enrols p.factory.vaultForAgent p.factory.vaults
  announced : VaultFactory.announced p.factory.log = p.factory.vaults
  deployed : ∀ a, a ∈ p.factory.vaults ↔ ∃ c, p.vaults a = some c
  entered : ∀ a c, p.vaults a = some c →
    p.factory.vaultForMarket c.marketId = a ∧ p.factory.vaultForAgent c.code.agentWallet = a

theorem Genesis.registered (h : Genesis p) : Registered p := by
  obtain ⟨deployer, params, hbuilt⟩ := h.factory
  obtain ⟨hmarket, hagent, hvaults, hlog⟩ := VaultFactory.construct_ok hbuilt
  refine ⟨?_, ?_, ?_, ?_, ?_, ?_⟩
  · simp [hvaults]
  · rw [hmarket, hvaults]; exact .empty
  · rw [hagent, hvaults]; exact .empty
  · rw [hlog, hvaults]
  · simp [hvaults, h.vaults]
  · intro a c hc
    simp [h.vaults] at hc

/-- The registry of `p` is still that of `q`, with entries added at most. -/
structure Extends (p q : Platform) : Prop where
  vaults : p.factory.vaults <+: q.factory.vaults
  market : ∀ m, p.factory.vaultForMarket m ≠ 0 →
    q.factory.vaultForMarket m = p.factory.vaultForMarket m
  agent : ∀ w, p.factory.vaultForAgent w ≠ 0 →
    q.factory.vaultForAgent w = p.factory.vaultForAgent w
  code : ∀ a c, p.vaults a = some c →
    ∃ c', q.vaults a = some c' ∧ c'.code = c.code ∧ c'.marketId = c.marketId

theorem Extends.refl (p : Platform) : Extends p p :=
  ⟨List.prefix_rfl, fun _ _ => rfl, fun _ _ => rfl, fun _ c hc => ⟨c, hc, rfl, rfl⟩⟩

theorem Extends.trans {o : Platform} (h₁ : Extends o p) (h₂ : Extends p q) : Extends o q where
  vaults := h₁.vaults.trans h₂.vaults
  market m hm := by rw [h₂.market m (by rwa [h₁.market m hm]), h₁.market m hm]
  agent w hw := by rw [h₂.agent w (by rwa [h₁.agent w hw]), h₁.agent w hw]
  code a c hc := by
    obtain ⟨c₁, hc₁, hcode₁, hmarket₁⟩ := h₁.code a c hc
    obtain ⟨c₂, hc₂, hcode₂, hmarket₂⟩ := h₂.code a c₁ hc₁
    exact ⟨c₂, hc₂, hcode₂.trans hcode₁, hmarket₂.trans hmarket₁⟩

/-- A call on a vault keeps its code, and every other vault whole. -/
theorem write_vaults {a b : Address} {c : VaultContract} {s : State} (found : p.vaults a = some c) :
    (∃ c', (p.write a c s).vaults b = some c') ↔ ∃ c', p.vaults b = some c' := by
  by_cases hb : b = a
  · subst hb
    simp [write, found]
  · simp [write, hb]

/-- **One transaction keeps the registry, and its entries.** -/
theorem Registered.next (h : Registered p) (hw : Wired p) (hn : p.next tx = some q) :
    Registered q ∧ Extends p q := by
  obtain ⟨hnow, hsender, hunused, q', hstep, rfl⟩ := next_ok hn
  cases hstep with
  | token => exact ⟨{ h with }, { Extends.refl p with }⟩
  -- a transaction on a vault: where vaults are stays as it is, and who they are for
  | @vault a b c calls s fund target created found may done self roles =>
      refine ⟨⟨h.nodup, h.markets, h.agents, h.announced, ?_, ?_⟩,
        ⟨List.prefix_rfl, fun _ _ => rfl, fun _ _ => rfl, ?_⟩⟩
      · exact fun d => (h.deployed d).trans (write_vaults found).symm
      · intro d c' hc'
        have hc' : (p.write a c s).vaults d = some c' := hc'
        by_cases hd : d = a
        · subst hd
          obtain rfl : c' = { c with storage := s } := by simpa [write, eq_comm] using hc'
          exact h.entered _ c found
        · exact h.entered d c' (by simpa [write, hd] using hc')
      · intro d c' hc'
        show ∃ c'', (p.write a c s).vaults d = some c'' ∧ _
        by_cases hd : d = a
        · subst hd
          obtain rfl : c = c' := Option.some.inj (found.symm.trans hc')
          exact ⟨{ c with storage := s }, by simp [write], rfl, rfl⟩
        · exact ⟨c', by simpa [write, hd] using hc', rfl, rfl⟩
  -- a deployment enters the vault under a market and a wallet that were free
  | @create c vault request limits factory target created authority done =>
      obtain ⟨hagent, hmarket, hfree, hbuilt, rfl⟩ := VaultFactory.create_ok done
      obtain ⟨hvault, hwallet, hid⟩ := VaultFactory.create_ok_site done
      have hnone : p.vaults vault = none := by
        refine Option.eq_none_iff_forall_ne_some.mpr fun c' hc' => ?_
        exact (hunused _ created).2 (hw.vaultActive _ c' hc')
      -- its address has not been used, so no vault is listed there
      have hfresh : vault.val ∉ p.factory.vaults := by
        rw [h.deployed]
        simp [hnone]
      have hat : ∀ d, d ≠ vault.val → (p.deploy (some c)).vaults d = p.vaults d := by
        intro d hd
        simp [deploy, hvault, hd]
      have hself : (p.deploy (some c)).vaults vault = some c := by simp [deploy, hvault]
      refine ⟨⟨?_, h.markets.enrol hmarket hfresh vault.property,
        h.agents.enrol hfree hfresh vault.property, ?_, ?_, ?_⟩,
        ⟨List.prefix_append _ _, fun m hm => Enrols.update_of_used hmarket hm,
          fun w hw => Enrols.update_of_used hfree hw, ?_⟩⟩
      · exact List.nodup_append.mpr ⟨h.nodup, by simp, by
          intro a ha b hb hab
          exact hfresh (List.mem_singleton.mp hb ▸ hab ▸ ha)⟩
      · exact VaultFactory.announced_register.trans (by rw [h.announced]; rfl)
      · intro d
        show d ∈ p.factory.vaults ++ [vault.val] ↔ ∃ c', (p.deploy (some c)).vaults d = some c'
        by_cases hd : d = vault.val
        · subst hd
          simp [hself]
        · rw [hat d hd, ← h.deployed]
          simp [hd]
      · intro d c' hc'
        have hc' : (p.deploy (some c)).vaults d = some c' := hc'
        show Function.update p.factory.vaultForMarket request.marketId vault.val c'.marketId = d ∧
          Function.update p.factory.vaultForAgent request.agentWallet vault.val
            c'.code.agentWallet = d
        by_cases hd : d = vault.val
        · subst hd
          obtain rfl : c = c' := Option.some.inj (hself.symm.trans hc')
          rw [hwallet, hid]
          exact ⟨Function.update_self .., Function.update_self ..⟩
        · rw [hat d hd] at hc'
          obtain ⟨hmarket', hagent'⟩ := h.entered d c' hc'
          -- the address of another vault is not zero, so its keys were taken
          have hd0 : d ≠ 0 := by
            rintro rfl
            exact h.agents.nonzero ((h.deployed 0).mpr ⟨c', hc'⟩)
          rw [Enrols.update_of_used hmarket (by rw [hmarket']; exact hd0),
            Enrols.update_of_used hfree (by rw [hagent']; exact hd0)]
          exact ⟨hmarket', hagent'⟩
      · intro d c' hc'
        refine ⟨c', ?_, rfl, rfl⟩
        show (p.deploy (some c)).vaults d = some c'
        rw [hat d, hc']
        rintro rfl
        simp [hnone] at hc'
  -- the terms of the platform are no part of the registry
  | @terms factory fund target created registry _ self =>
      refine ⟨⟨?_, ?_, ?_, ?_, ?_, ?_⟩, ⟨?_, ?_, ?_, fun _ c hc => ⟨c, hc, rfl, rfl⟩⟩⟩
      · show factory.vaults.Nodup
        rw [registry.vaults]; exact h.nodup
      · show Enrols factory.vaultForMarket factory.vaults
        rw [registry.vaultForMarket, registry.vaults]; exact h.markets
      · show Enrols factory.vaultForAgent factory.vaults
        rw [registry.vaultForAgent, registry.vaults]; exact h.agents
      · show VaultFactory.announced factory.log = factory.vaults
        rw [registry.announced, registry.vaults]; exact h.announced
      · show ∀ a, a ∈ factory.vaults ↔ _
        rw [registry.vaults]; exact h.deployed
      · show ∀ (a : Address) (c : VaultContract), p.vaults a = some c →
          factory.vaultForMarket c.marketId = a ∧ factory.vaultForAgent c.code.agentWallet = a
        rw [registry.vaultForMarket, registry.vaultForAgent]; exact h.entered
      · show p.factory.vaults <+: factory.vaults
        rw [registry.vaults]
      · intro m _
        exact congrFun registry.vaultForMarket m
      · intro w _
        exact congrFun registry.vaultForAgent w

/-- A vault that was not there before is the one the transaction deployed. -/
theorem created_of_new {a : Address} {c : VaultContract} (hn : p.next tx = some q)
    (hnone : p.vaults a = none) (hc : q.vaults a = some c) :
    ∃ vault, tx.call.created = some vault ∧ vault.val = a := by
  obtain ⟨-, -, -, q', hstep, rfl⟩ := next_ok hn
  cases hstep with
  | token =>
      have hc : p.vaults a = some c := hc
      rw [hnone] at hc
      cases hc
  -- a vault called is one that was there
  | @vault b _ c₀ _ s _ _ _ found =>
      have hc : (p.write b c₀ s).vaults a = some c := hc
      have hab : a ≠ b := by
        rintro rfl
        rw [hnone] at found
        cases found
      simp [write, hab, hnone] at hc
  | @create c₀ vault _ _ _ _ created _ done =>
      refine ⟨vault, created, ?_⟩
      by_contra hne
      have hc : (p.deploy (some c₀)).vaults a = some c := hc
      simp [deploy, (VaultFactory.create_ok_site done).1, Ne.symm hne, hnone] at hc
  | terms =>
      have hc : p.vaults a = some c := hc
      rw [hnone] at hc
      cases hc

theorem Registered.run {tr : List (Transition Platform PlatformTx)} (hp : Registered p)
    (hw : Wired p) (h : Run Platform.next p tr q) : Registered q ∧ Extends p q := by
  have hall := h.invariant (I := fun q => Wired q ∧ Registered q ∧ Extends p q)
    ⟨hw, hp, .refl p⟩ ?_
  · exact hall.1.2
  · rintro q tx q' ⟨hwq, hq, hpq⟩ hn
    obtain ⟨hq', hqq'⟩ := hq.next hwq hn
    exact ⟨hwq.next hn, hq', hpq.trans hqq'⟩

theorem Reachable.registered (h : Reachable p) : Registered p := by
  obtain ⟨p₀, tr, hgen, hrun⟩ := h
  exact (hgen.registered.run hgen.wired hrun).1

/-- **The registry is one to one, complete and final.** In every reachable platform the
listed vaults are the ones deployed, each once and in the order they were announced; every
vault has exactly one market and one agent, its own; a used key names a vault; and along any
further run no entry and no vault's code ever changes. -/
theorem registry_one_to_one (h : Reachable p) :
    (p.factory.vaults.Nodup ∧ VaultFactory.announced p.factory.log = p.factory.vaults ∧
      ∀ a, a ∈ p.factory.vaults ↔ ∃ c, p.vaults a = some c) ∧
    (∀ a c, p.vaults a = some c → (∀ m, p.factory.vaultForMarket m = a ↔ m = c.marketId) ∧
      ∀ w, p.factory.vaultForAgent w = a ↔ w = c.code.agentWallet) ∧
    (∀ m, p.factory.vaultForMarket m ≠ 0 → p.factory.vaultForMarket m ∈ p.factory.vaults) ∧
    (∀ w, p.factory.vaultForAgent w ≠ 0 → p.factory.vaultForAgent w ∈ p.factory.vaults) ∧
    ∀ q tr, Run Platform.next p tr q → Extends p q := by
  have hreg := h.registered
  refine ⟨⟨hreg.nodup, hreg.announced, hreg.deployed⟩, ?_, hreg.markets.listed,
    hreg.agents.listed, fun q tr hrun => (hreg.run h.wired hrun).2⟩
  intro a c hc
  have hlisted := (hreg.deployed a).mpr ⟨c, hc⟩
  obtain ⟨hmarket, hagent⟩ := hreg.entered a c hc
  exact ⟨hreg.markets.eq_iff hlisted hmarket, hreg.agents.eq_iff hlisted hagent⟩

/-- The two vaults of the launch, listed in the order they were made. -/
theorem registry_one_to_one_launched :
    Test.launched.factory.vaults = [Test.vault.val, Test.vaultB.val] ∧
      VaultFactory.announced Test.launched.factory.log = Test.launched.factory.vaults := by
  obtain ⟨⟨-, hlog, -⟩, -⟩ := registry_one_to_one Test.launched_reachable
  exact ⟨by rfl, hlog⟩

end Platform

end LemonMarket
