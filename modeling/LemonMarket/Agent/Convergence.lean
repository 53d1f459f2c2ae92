import LemonMarket.Agent.Offers
import LemonMarket.Agent.Worker
import LemonMarket.Contracts.Deployment

/-!
# LemonMarket.Agent.Convergence

**Deployments converge to the weights.** A vault puts its capital to work one market a
tick: the policy projects the spot total with everything deployable in it, gives each
market its weight's share, and spends at most the room of the market it picks
(`deploymentFrom` of `policy.ts`). The next tick projects again, from what is held by then
and what is left.

Rounding moves the projection, but down only: a spot leg costs its deployment rounded up,
so what is left to come falls by at least what was bought (`incoming_bought`). A market
filled to its share of a later projection is then inside its share of the first one, and
the legs of a run fit into what was deployable at its start.
-/

namespace LemonMarket

namespace Agent

open Lib
open LemonVault (bps)

variable {cfg : Settings} {s s' s₀ : VaultSnapshot} {d : Decision}

/-! ### The run -/

/-- What the policy goes by in a market: its weight, and what is held of it. -/
structure MarketHolding where
  ticker : String
  targetWeightBps : Nat
  spotValueUsdc : Nat
  deriving Repr, DecidableEq

def MarketSnapshot.holding (m : MarketSnapshot) : MarketHolding :=
  ⟨m.ticker, m.targetWeightBps, m.spotValueUsdc⟩

def VaultSnapshot.holdings (s : VaultSnapshot) : List MarketHolding := s.markets.map (·.holding)

/-- The spot leg of a deployment. -/
def Decision.spotLeg (d : Decision) : Nat := (d.legs.map (·.spotNotional)).getD 0

/-- A market after a deployment: its spot leg added to the market it names. -/
def MarketHolding.bought (d : Decision) (h : MarketHolding) : MarketHolding :=
  if d.market = some h.ticker then { h with spotValueUsdc := h.spotValueUsdc + d.spotLeg } else h

/-- A deployment was applied as decided: the holdings show its spot leg, its amount is gone
from what is deployable, and nothing else has come in. -/
def AppliedTo (d : Decision) (s s' : VaultSnapshot) : Prop :=
  s'.risk = s.risk ∧ s'.holdings = s.holdings.map (·.bought d) ∧
    deployableAmount s' + d.amount = deployableAmount s

instance (d : Decision) (s s' : VaultSnapshot) : Decidable (AppliedTo d s s') :=
  inferInstanceAs (Decidable (_ ∧ _ ∧ _))

/-- One tick that deploys the vault's capital, and the snapshot the tick after it sees. -/
def deployed (cfg : Settings) (s seen : VaultSnapshot) : Option VaultSnapshot :=
  match nextDeployment cfg s with
  | none => none
  | some d => if d.fundedFrom = some .vault ∧ AppliedTo d s seen then some seen else none

/-- The spot value the markets hold together. -/
def held (s : VaultSnapshot) : Nat := (s.holdings.map (·.spotValueUsdc)).sum

/-- The spot notional that is still to come from what is deployable. -/
def incoming (cfg : Settings) (s : VaultSnapshot) : Nat :=
  (splitDeployment (deployableAmount s) (sizingLeverageBps cfg s.risk.val)).spotNotional

/-- The spot total the weights are shares of. -/
def projected (cfg : Settings) (s : VaultSnapshot) : Nat := held s + incoming cfg s

/-! ### One tick -/

theorem held_eq (s : VaultSnapshot) : held s = (s.markets.map (·.spotValueUsdc)).sum := by
  rw [held, VaultSnapshot.holdings, List.map_map]
  rfl

theorem bought_of_ne {h : MarketHolding} (hd : d.market ≠ some h.ticker) : h.bought d = h :=
  if_neg hd

theorem bought_of_eq {h : MarketHolding} (hd : d.market = some h.ticker) :
    h.bought d = { h with spotValueUsdc := h.spotValueUsdc + d.spotLeg } := if_pos hd

/-- What is bought is bought once, in the market that has the name. -/
theorem sum_bought {holdings : List MarketHolding} {h : MarketHolding}
    (hdistinct : (holdings.map MarketHolding.ticker).Nodup) (hmem : h ∈ holdings)
    (hd : d.market = some h.ticker) :
    ((holdings.map (·.bought d)).map (·.spotValueUsdc)).sum =
      (holdings.map (·.spotValueUsdc)).sum + d.spotLeg := by
  induction holdings with
  | nil => cases hmem
  | cons first rest ih =>
      obtain ⟨hfirst, hrest⟩ := List.nodup_cons.mp hdistinct
      simp only [List.map_cons, List.sum_cons]
      rcases List.mem_cons.mp hmem with rfl | hmem
      · -- no market further down has the name
        have hothers : rest.map (·.bought d) = rest := by
          refine (List.map_congr_left fun other hother => ?_).trans rest.map_id
          refine bought_of_ne fun heq => hfirst ?_
          rw [Option.some.inj (hd.symm.trans heq)]
          exact List.mem_map_of_mem hother
        rw [hothers, bought_of_eq hd]
        exact Nat.add_right_comm _ _ _
      · have hne : d.market ≠ some first.ticker := by
          intro heq
          refine hfirst ?_
          rw [Option.some.inj (heq.symm.trans hd)]
          exact List.mem_map_of_mem hmem
        rw [ih hrest hmem, bought_of_ne hne, Nat.add_assoc]

/-- What is to come falls by at least what was bought. -/
theorem incoming_bought {l spend left total : Nat} (hl : 0 < l)
    (h : left + deploymentFor spend l = total) :
    (splitDeployment left l).spotNotional + spend ≤ (splitDeployment total l).spotNotional := by
  rw [← deploymentFor_le_iff hl, ← h]
  calc deploymentFor ((splitDeployment left l).spotNotional + spend) l
      ≤ deploymentFor (splitDeployment left l).spotNotional l + deploymentFor spend l :=
        deploymentFor_add_le hl _ _
    _ ≤ left + deploymentFor spend l :=
        Nat.add_le_add_right ((deploymentFor_le_iff hl).mpr le_rfl) _

/-- Some of a deployment is always margin. -/
theorem splitDeployment_perpMargin_ne {l total : Nat}
    (h : (splitDeployment total l).spotNotional ≠ 0) :
    (splitDeployment total l).perpMargin ≠ 0 := by
  intro hnone
  have hsum := splitDeployment_sum total l
  rw [hnone, Nat.add_zero] at hsum
  have hpos : 0 < total := hsum ▸ Nat.pos_of_ne_zero h
  have hfloor : total * (l + bps) ≤ total * l := by
    calc total * (l + bps) = (splitDeployment total l).spotNotional * (l + bps) := by rw [hsum]
      _ ≤ total * l := Nat.div_mul_le_self _ _
  have hbps : l + bps ≤ l := Nat.le_of_mul_le_mul_left hfloor hpos
  exact absurd hbps (by simp only [bps]; omega)

/-- Taking a deployment of a spot leg apart gives the leg back. -/
theorem splitDeployment_deploymentFor {l : Nat} (hl : 0 < l) (spend : Nat) :
    (splitDeployment (deploymentFor spend l) l).spotNotional = spend := by
  refine le_antisymm ?_ ((deploymentFor_le_iff hl).mp le_rfl)
  by_contra hmore
  have hnext : deploymentFor (spend + 1) l ≤ deploymentFor spend l :=
    (deploymentFor_le_iff hl).mpr (not_le.mp hmore)
  rw [deploymentFor_le_iff_mul hl, deploymentFor, Nat.add_mul] at hnext
  have hceil := Nat.div_mul_le_self (spend * (l + bps) + l - 1) l
  omega

/-- What the vault's capital is deployed on: a market's room, for the deployment of it. -/
theorem vaultDeployment_some (h : nextDeployment cfg s = some d)
    (hv : d.fundedFrom = some .vault) :
    ∃ m ∈ s.markets, d.market = some m.ticker ∧ cfg.minDeployUsdc ≤ d.spotLeg ∧ 0 < d.spotLeg ∧
      m.spotValueUsdc + d.spotLeg ≤ projected cfg s * m.targetWeightBps / bps ∧
      d.amount = deploymentFor d.spotLeg (sizingLeverageBps cfg s.risk.val) := by
  obtain ⟨source, hsource, hne, market, hmarket, h⟩ := nextDeployment_some h
  obtain ⟨spend, legs, hspend, hmin, hlegs, hd⟩ := openPosition_some h
  obtain ⟨hmem, -, -, hroom⟩ := mem_candidates.mp hmarket
  rw [hd] at hv
  have hfrom := vault_source hsource (Option.some.inj hv)
  have hsizing : 0 < sizingLeverageBps cfg s.risk.val := sizing_pos s.risk
  have hmargin : source.legs.perpMargin ≠ 0 := by
    rw [hfrom] at hne ⊢
    exact splitDeployment_perpMargin_ne hne
  rw [if_neg hmargin] at hlegs
  have hleg : d.spotLeg = spend := by
    rw [hd, ← splitDeployment_deploymentFor hsizing spend, ← hlegs]
    rfl
  have hamount : d.amount = deploymentFor spend (sizingLeverageBps cfg s.risk.val) := by
    rw [hd, ← splitDeployment_sum (deploymentFor spend _) (sizingLeverageBps cfg s.risk.val),
      ← hlegs]
  -- the room is the share of the projected capital less what is held
  have hshare : room s source.legs.spotNotional market =
      projected cfg s * market.targetWeightBps / bps - market.spotValueUsdc := by
    rw [room, ite_gt_sub, projected, held_eq, incoming, hfrom]
  have hle : spend ≤ room s source.legs.spotNotional market := hspend ▸ min_le_left _ _
  rw [hleg]
  refine ⟨market, hmem, by rw [hd], hmin, hspend ▸ lt_min hroom (Nat.pos_of_ne_zero hne), ?_,
    hamount⟩
  omega

theorem deployed_some (h : deployed cfg s s' = some s₀) : s₀ = s' ∧
    ∃ d, nextDeployment cfg s = some d ∧ d.fundedFrom = some .vault ∧ AppliedTo d s s' := by
  unfold deployed at h
  split at h
  next => cases h
  next d hd =>
    split at h
    next happlied => exact ⟨(Option.some.inj h).symm, d, hd, happlied⟩
    next => cases h

/-- **One tick**: the spot total grows by a leg of at least the minimum, what is to come
falls by at least that leg, and no market ends past its share of the projection. -/
theorem deployed_step (hdistinct : (s.holdings.map MarketHolding.ticker).Nodup)
    (h : deployed cfg s s' = some s') : ∃ spend, cfg.minDeployUsdc ≤ spend ∧ 0 < spend ∧
      held s' = held s + spend ∧ incoming cfg s' + spend ≤ incoming cfg s ∧
      ∀ after ∈ s'.holdings, ∃ before ∈ s.holdings, before.ticker = after.ticker ∧
        before.targetWeightBps = after.targetWeightBps ∧
        (after.spotValueUsdc = before.spotValueUsdc ∨
          after.spotValueUsdc ≤ projected cfg s * before.targetWeightBps / bps) := by
  obtain ⟨-, d, hd, hv, hrisk, hholdings, hcapital⟩ := deployed_some h
  obtain ⟨m, hm, hmarket, hmin, hpos, hroom, hamount⟩ := vaultDeployment_some hd hv
  have hmem : m.holding ∈ s.holdings := List.mem_map_of_mem hm
  refine ⟨d.spotLeg, hmin, hpos, ?_, ?_, ?_⟩
  · rw [held, hholdings]
    exact sum_bought hdistinct hmem hmarket
  · rw [incoming, incoming, hrisk]
    exact incoming_bought (sizing_pos s.risk) (hamount ▸ hcapital)
  · intro after hafter
    rw [hholdings] at hafter
    obtain ⟨before, hbefore, rfl⟩ := List.mem_map.mp hafter
    refine ⟨before, hbefore, ?_⟩
    by_cases hnamed : d.market = some before.ticker
    · -- the name is of one market only, the one that has the room
      have hsame : before = m.holding := List.inj_on_of_nodup_map hdistinct hbefore hmem
        (Option.some.inj (hnamed.symm.trans hmarket))
      rw [bought_of_eq hnamed]
      exact ⟨rfl, rfl, .inr (hsame ▸ hroom)⟩
    · rw [bought_of_ne hnamed]
      exact ⟨rfl, rfl, .inl rfl⟩

theorem deployed_tickers (h : deployed cfg s s' = some s') :
    s'.holdings.map MarketHolding.ticker = s.holdings.map MarketHolding.ticker := by
  obtain ⟨-, d, -, -, -, hholdings, -⟩ := deployed_some h
  rw [hholdings, List.map_map]
  refine List.map_congr_left fun before _ => ?_
  by_cases hnamed : d.market = some before.ticker
  · rw [Function.comp_apply, bought_of_eq hnamed]
  · rw [Function.comp_apply, bought_of_ne hnamed]

/-! ### The whole run -/

/-- No market holds more than it did at the start, or than its weight's share of the spot
total projected then. -/
def WithinShares (cfg : Settings) (s₀ s : VaultSnapshot) : Prop :=
  ∀ h ∈ s.holdings, ∃ h₀ ∈ s₀.holdings, h₀.ticker = h.ticker ∧
    h₀.targetWeightBps = h.targetWeightBps ∧
    h.spotValueUsdc ≤ max h₀.spotValueUsdc (projected cfg s₀ * h₀.targetWeightBps / bps)

/-- What a run of deployments carries: one market a name, shares of a projection that does
not grow, and so what is bought is inside the shares it began with. -/
structure Converging (cfg : Settings) (s₀ s : VaultSnapshot) : Prop where
  distinct : (s.holdings.map MarketHolding.ticker).Nodup
  projection : projected cfg s ≤ projected cfg s₀
  within : WithinShares cfg s₀ s

theorem Converging.next (hs : Converging cfg s₀ s) (h : deployed cfg s s' = some s') :
    Converging cfg s₀ s' := by
  obtain ⟨spend, -, -, hheld, hincoming, hafter⟩ := deployed_step hs.distinct h
  refine ⟨by rw [deployed_tickers h]; exact hs.distinct, ?_, ?_⟩
  · have hless := hs.projection
    rw [projected] at hless ⊢
    omega
  · intro after hmem
    obtain ⟨before, hbefore, hticker, hweight, hvalue⟩ := hafter after hmem
    obtain ⟨start, hstart, hticker₀, hweight₀, hvalue₀⟩ := hs.within before hbefore
    refine ⟨start, hstart, hticker₀.trans hticker, hweight₀.trans hweight, ?_⟩
    rcases hvalue with hkept | hshare
    · exact hkept.le.trans hvalue₀
    · -- a share of a later projection is within the same share of the first
      refine hshare.trans (le_max_of_le_right ?_)
      rw [hweight₀]
      exact Nat.div_le_div_right (Nat.mul_le_mul_right _ hs.projection)

variable {tr : List (Transition VaultSnapshot VaultSnapshot)}

theorem deployed_label {seen : VaultSnapshot} (h : deployed cfg s seen = some s') :
    deployed cfg s s' = some s' := by
  obtain ⟨rfl, -⟩ := deployed_some h
  exact h

/-- **Deployments converge.** Along every run of vault-funded deployments, each applied as
decided: no market ever exceeds what it began with or its share of the first projection,
every step adds a spot leg of the minimum or more, and so the steps are bounded. -/
theorem deployments_converge (hdistinct : (s₀.holdings.map MarketHolding.ticker).Nodup)
    (hrun : Run (deployed cfg) s₀ tr s) :
    (∀ seen ∈ reached s₀ tr, WithinShares cfg s₀ seen) ∧
      (∀ t ∈ tr, held t.pre + cfg.minDeployUsdc ≤ held t.post) ∧
      tr.length * max 1 cfg.minDeployUsdc ≤ incoming cfg s₀ := by
  have hstart : Converging cfg s₀ s₀ :=
    ⟨hdistinct, le_rfl, fun h hh => ⟨h, hh, rfl, rfl, le_max_left _ _⟩⟩
  obtain ⟨-, hstates⟩ := hrun.invariant hstart fun _ _ _ hs h => hs.next (deployed_label h)
  refine ⟨?_, ?_, ?_⟩
  · intro seen hseen
    rcases mem_reached.mp hseen with rfl | ⟨t, ht, rfl⟩
    · exact hstart.within
    · exact (hstates t ht).2.within
  · intro t ht
    obtain ⟨spend, hmin, -, hheld, -⟩ := deployed_step (hstates t ht).1.distinct
      (deployed_label (hrun.step_of_mem t ht))
    omega
  · -- each step takes at least the minimum, and at least one unit, of what is to come
    suffices hpaid : Converging cfg s₀ s ∧
        incoming cfg s + tr.length * max 1 cfg.minDeployUsdc ≤ incoming cfg s₀ by omega
    refine hrun.history
      (I := fun tr s => Converging cfg s₀ s ∧
        incoming cfg s + tr.length * max 1 cfg.minDeployUsdc ≤ incoming cfg s₀)
      (P := fun _ => True) (fun _ _ => trivial) ⟨hstart, by simp⟩ ?_
    rintro tr s seen s' - ⟨hs, hpaid⟩ h
    obtain ⟨spend, hmin, hpos, -, hincoming, -⟩ := deployed_step hs.distinct (deployed_label h)
    refine ⟨hs.next (deployed_label h), ?_⟩
    have hunit : max 1 cfg.minDeployUsdc ≤ spend := max_le hpos hmin
    rw [List.length_append, List.length_singleton, Nat.succ_mul]
    omega

/-- A thousand USDC over two markets, with so much of it deployed so far. -/
def twoMarkets (deployedAssets nvda btc : Nat) : VaultSnapshot where
  risk := Test.conservativeRisk
  freeAssets := 1000000000 - deployedAssets
  totalAssets := 1000000000
  deployedAssets := deployedAssets
  maxDeployedBps := 9000
  withdrawWindowRemaining := 1000000000 - deployedAssets
  idleOnBase := 0
  unallocatedMargin := 0
  perpNotionalUsdc := 0
  perpEquityUsdc := 0
  ripeRedeemAssets := 0
  pendingRedeemAssets := 0
  earliestDeadline := none
  markets := [{ Test.nvda with targetWeightBps := 6000, spotValueUsdc := nvda },
    { Test.nvda with ticker := "BTC", targetWeightBps := 4000, spotValueUsdc := btc }]
  closeRequested := false
  rebalanceDriftBps := 0
  venueWithdrawalFeeUsdc := 0

theorem deployed_of_applied (hd : nextDeployment cfg s = some d)
    (hv : d.fundedFrom = some .vault) (happlied : AppliedTo d s s') :
    deployed cfg s s' = some s' := by
  simp only [deployed, hd, if_pos (And.intro hv happlied)]

/-- What the policy deploys of it into a market. -/
def vaultDeployment (ticker : String) (spotNotional perpMargin : Nat) : Decision where
  kind := .deploy
  amount := spotNotional + perpMargin
  market := some ticker
  fundedFrom := some .vault
  legs := some ⟨spotNotional, perpMargin⟩

/-- The heavier market is filled first, and the other on the next tick. -/
theorem twoMarkets_run : Run (deployed Settings.default) (twoMarkets 0 0 0)
    [⟨twoMarkets 0 0 0, twoMarkets 539999999 265888324 0, twoMarkets 539999999 265888324 0⟩,
      ⟨twoMarkets 539999999 265888324 0, twoMarkets 899999997 265888324 177258882,
        twoMarkets 899999997 265888324 177258882⟩]
    (twoMarkets 899999997 265888324 177258882) := by
  have hfirst : nextDeployment Settings.default (twoMarkets 0 0 0) =
      some (vaultDeployment "NVDA" 265888324 274111675) := by decide +kernel
  have hsecond : nextDeployment Settings.default (twoMarkets 539999999 265888324 0) =
      some (vaultDeployment "BTC" 177258882 182741116) := by decide +kernel
  exact .snoc (.snoc .nil (deployed_of_applied hfirst rfl (by decide +kernel)))
    (deployed_of_applied hsecond rfl (by decide +kernel))

theorem deployments_converge_twoMarkets :
    WithinShares Settings.default (twoMarkets 0 0 0) (twoMarkets 899999997 265888324 177258882) ∧
      2 * max 1 Settings.default.minDeployUsdc ≤ incoming Settings.default (twoMarkets 0 0 0) := by
  obtain ⟨hwithin, -, hsteps⟩ := deployments_converge (by decide) twoMarkets_run
  exact ⟨hwithin _ twoMarkets_run.last_reached, hsteps⟩

end Agent

end LemonMarket
