import LemonMarket.Agent.Convergence

/-!
# LemonMarket.Agent.Sizing

**What the policy's sizes guarantee.** A correction is sized against the leverage a hedge
is opened at, which the ceiling is never below: margin that covers the shortfall, or a
close of what the equity cannot carry, ends at or under the ceiling whatever is rounded
(`mandateCorrection_restores`). Nothing comes of a breach only when nothing can be sold.

A deployment is sized by its source, trimmed to its market's room and split again. Each
bound goes through both roundings (`deploy_bounded_and_hedged`).
-/

namespace LemonMarket

namespace Agent

open Lib
open LemonVault (bps)

variable {cfg : Settings} {s : VaultSnapshot} {d : Decision} {now : Nat}

/-! ### The ceiling -/

/-- No mandate's ceiling is under one. -/
theorem bps_le_max (risk : ValidRiskProfile) : bps ≤ risk.val.maxLeverageBps := by
  obtain ⟨htarget, -, htier⟩ := risk.property
  have hone : LemonVault.noLeverageBps ≤ risk.val.targetLeverageBps := by
    split at htier
    next => exact htier.1.ge
    next => exact Nat.le_of_lt htier
  exact hone.trans htarget

/-- An account is inside a ceiling if its equity carries its notional there. -/
theorem leverageBps_le {notional ceiling : Nat} {equity : Int} (hceiling : bps ≤ ceiling)
    (hequity : 0 < equity) (h : notional * bps < (ceiling + 1) * equity.toNat) :
    leverageBps notional equity ≤ ceiling := by
  rw [leverageBps]
  split
  · exact hceiling
  · rw [if_neg (by omega), Nat.le_iff_lt_add_one]
    exact (Nat.div_lt_iff_lt_mul (by omega)).mpr h

theorem of_leverageBps_lt {notional ceiling : Nat} {equity : Int} (hceiling : bps ≤ ceiling)
    (hequity : 0 < equity) (h : ceiling < leverageBps notional equity) :
    notional ≠ 0 ∧ (ceiling + 1) * equity.toNat ≤ notional * bps := by
  rw [leverageBps] at h
  split at h
  · omega
  · rename_i hopen
    rw [if_neg (by omega)] at h
    exact ⟨hopen, (Nat.le_div_iff_mul_le (by omega)).mp h⟩

/-! ### Corrections -/

/-- What a source has for a correction once the ceiling is breached. -/
def correctionFunds (s : VaultSnapshot) : Funding → Nat
  | .agent => s.idleOnBase
  | .vault => deployableAmount s

/-- The notional the equity carries at the sizing leverage. -/
def carriable (cfg : Settings) (s : VaultSnapshot) : Nat :=
  s.perpEquityUsdc.toNat * sizingLeverageBps cfg s.risk.val / bps

/-- The margin an open notional needs, cleared of the division. -/
theorem notional_lt_required (cfg : Settings) (s : VaultSnapshot) :
    s.perpNotionalUsdc * bps < (requiredMargin cfg s + 1) * sizingLeverageBps cfg s.risk.val := by
  have hsizing : 0 < sizingLeverageBps cfg s.risk.val := sizing_pos s.risk
  rw [requiredMargin]
  split
  · rename_i hnone
    rw [hnone, Nat.zero_mul]
    exact Nat.mul_pos (Nat.succ_pos _) hsizing
  · exact (Nat.div_lt_iff_lt_mul hsizing).mp (Nat.lt_succ_self _)

theorem topUp_restores (hequity : 0 < s.perpEquityUsdc) (h : marginTopUp cfg s true = some d) :
    (∃ fundedFrom, d.fundedFrom = some fundedFrom ∧ d.amount ≤ correctionFunds s fundedFrom) ∧
      leverageBps s.perpNotionalUsdc (s.perpEquityUsdc + d.amount + 1) ≤
        s.risk.val.maxLeverageBps := by
  obtain ⟨fundedFrom, available, hsource, hshort, hcovers, rfl⟩ := marginTopUp_some h
  refine ⟨⟨fundedFrom, rfl, (min_le_left _ _).trans ?_⟩, ?_⟩
  · rcases hsource with ⟨rfl, rfl⟩ | ⟨rfl, rfl⟩
    · exact le_rfl
    · exact le_rfl
  · refine leverageBps_le (bps_le_max s.risk) (by omega) ?_
    generalize hamount : min available _ = amount
    -- the floor under a top-up and the cap on it leave at least the shortfall
    have hclears : (requiredMargin cfg s : Int) ≤ s.perpEquityUsdc + amount := by
      split at hamount <;> omega
    have hmargin : requiredMargin cfg s + 1 ≤ (s.perpEquityUsdc + amount + 1).toNat := by omega
    calc s.perpNotionalUsdc * bps
        < (requiredMargin cfg s + 1) * sizingLeverageBps cfg s.risk.val :=
          notional_lt_required cfg s
      _ ≤ (s.perpEquityUsdc + amount + 1).toNat * (s.risk.val.maxLeverageBps + 1) :=
          Nat.mul_le_mul hmargin ((sizing_le_max _).trans (Nat.le_succ _))
      _ = _ := Nat.mul_comm _ _

/-- What is left of a position once its excess is closed is inside the mandate. -/
theorem closed_restores {closed : Nat} (hequity : 0 < s.perpEquityUsdc)
    (h : s.perpNotionalUsdc - carriable cfg s ≤ closed) :
    leverageBps (s.perpNotionalUsdc - min closed s.perpNotionalUsdc) s.perpEquityUsdc ≤
      s.risk.val.maxLeverageBps := by
  refine leverageBps_le (bps_le_max s.risk) hequity ?_
  have hleft : s.perpNotionalUsdc - min closed s.perpNotionalUsdc ≤ carriable cfg s := by omega
  have hpos : 0 < s.perpEquityUsdc.toNat := by omega
  calc (s.perpNotionalUsdc - min closed s.perpNotionalUsdc) * bps
      ≤ carriable cfg s * bps := Nat.mul_le_mul_right _ hleft
    _ ≤ s.perpEquityUsdc.toNat * sizingLeverageBps cfg s.risk.val := Nat.div_mul_le_self _ _
    _ ≤ s.perpEquityUsdc.toNat * s.risk.val.maxLeverageBps :=
        Nat.mul_le_mul_left _ (sizing_le_max _)
    _ < s.perpEquityUsdc.toNat * (s.risk.val.maxLeverageBps + 1) :=
        Nat.mul_lt_mul_of_pos_left (Nat.lt_succ_self _) hpos
    _ = _ := Nat.mul_comm _ _

/-- A breached position has more notional than its equity carries. -/
theorem excess_of_breach (cfg : Settings) (hequity : 0 < s.perpEquityUsdc)
    (hbreach : s.risk.val.maxLeverageBps < leverageBps s.perpNotionalUsdc s.perpEquityUsdc) :
    carriable cfg s < s.perpNotionalUsdc := by
  have hover := (of_leverageBps_lt (bps_le_max s.risk) hequity hbreach).2
  refine (Nat.div_lt_iff_lt_mul (by decide)).mpr ?_
  calc s.perpEquityUsdc.toNat * sizingLeverageBps cfg s.risk.val
      ≤ s.perpEquityUsdc.toNat * s.risk.val.maxLeverageBps :=
        Nat.mul_le_mul_left _ (sizing_le_max _)
    _ < s.perpEquityUsdc.toNat * (s.risk.val.maxLeverageBps + 1) :=
        Nat.mul_lt_mul_of_pos_left (Nat.lt_succ_self _) (by omega)
    _ ≤ s.perpNotionalUsdc * bps := by rw [Nat.mul_comm]; exact hover

/-- An unwind for the mandate is of what can be sold, and there is an answer whenever
something can. -/
theorem deleverage_reach (hequity : 0 < s.perpEquityUsdc)
    (hexcess : carriable cfg s < s.perpNotionalUsdc) :
    (∀ d, deleverage cfg s = some d → d.amount ≤ sellableValue s) ∧
      (deleverage cfg s = none → sellableValue s = 0) := by
  have hcarried : (if s.perpEquityUsdc > 0 then
      s.perpEquityUsdc.toNat * sizingLeverageBps cfg s.risk.val / bps else 0) = carriable cfg s :=
    if_pos hequity
  simp only [deleverage, hcarried, ite_gt_sub]
  rw [if_neg (by omega)]
  have hone : (minUnwindUsdc : Int) = 1 := rfl
  -- with a buffer, raised to what is worth an unwind, cut to what can be sold
  generalize hbuffer : s.perpNotionalUsdc - carriable cfg s +
    (s.perpNotionalUsdc - carriable cfg s) * unwindBufferBps / bps = withBuffer
  generalize economicFloor cfg _ = floor
  generalize hworth :
    (if (withBuffer : Int) > floor then (withBuffer : Int) else floor) = worthwhile
  have hpos : 0 < withBuffer := hbuffer ▸ Nat.add_pos_left (by omega) _
  have hsome : (withBuffer : Int) ≤ worthwhile := by split at hworth <;> omega
  constructor
  · intro d h
    split at h
    · cases h
    · split at h <;> obtain rfl := Option.some.inj h
      · exact Nat.zero_le _
      · show (min worthwhile (sellableValue s : Int)).toNat ≤ _
        omega
  · intro h
    split at h
    · omega
    · split at h <;> cases h

/-- **A forced correction restores the mandate.** Past the ceiling, with equity left: a
top-up is within its source's funds and leaves the account, one unit of margin more, inside
the ceiling; an unwind is of what can be sold and, if that covers the excess, does the
same; and there is no answer only when nothing can be sold. -/
theorem mandateCorrection_restores (hequity : 0 < s.perpEquityUsdc)
    (hbreach : s.risk.val.maxLeverageBps < leverageBps s.perpNotionalUsdc s.perpEquityUsdc) :
    (∀ d, mandateCorrection cfg s = some d → d.kind = .topUpMargin →
      (∃ fundedFrom, d.fundedFrom = some fundedFrom ∧ d.amount ≤ correctionFunds s fundedFrom) ∧
        leverageBps s.perpNotionalUsdc (s.perpEquityUsdc + d.amount + 1) ≤
          s.risk.val.maxLeverageBps) ∧
      (∀ d, mandateCorrection cfg s = some d → d.kind = .unwind →
        d.amount ≤ sellableValue s ∧
          (s.perpNotionalUsdc - carriable cfg s ≤ d.amount →
            leverageBps (s.perpNotionalUsdc - min d.amount s.perpNotionalUsdc) s.perpEquityUsdc ≤
              s.risk.val.maxLeverageBps)) ∧
      (mandateCorrection cfg s = none → sellableValue s = 0) := by
  have hopen := (of_leverageBps_lt (bps_le_max s.risk) hequity hbreach).1
  have hreach := deleverage_reach hequity (excess_of_breach cfg hequity hbreach)
  refine ⟨fun d h hkind => ?_, fun d h hkind => ?_, fun h => ?_⟩
  · obtain ⟨-, breached, hbreached, htopUp | ⟨-, hless⟩⟩ := mandateCorrection_some h
    · rw [hbreached.mpr hbreach] at htopUp
      exact topUp_restores hequity htopUp
    · rcases (deleverage_some hless).2.2 with hk | hk <;> rw [hk] at hkind <;> cases hkind
  · obtain ⟨-, breached, -, htopUp | ⟨-, hless⟩⟩ := mandateCorrection_some h
    · obtain ⟨_, _, -, -, -, rfl⟩ := marginTopUp_some htopUp
      cases hkind
    · exact ⟨hreach.1 d hless, closed_restores hequity⟩
  · refine hreach.2 ?_
    have hsized : sizingLeverageBps cfg s.risk.val ≤ s.risk.val.maxLeverageBps := sizing_le_max _
    simp only [mandateCorrection, if_neg hopen] at h
    rw [if_neg (by omega), decide_eq_true hbreach] at h
    cases htopUp : marginTopUp cfg s true with
    | none => simpa only [htopUp, if_true] using h
    | some topUp => rw [htopUp] at h; cases h

/-- A fully deployed vault whose account has run a tenth past its ceiling. -/
def runPast : VaultSnapshot :=
  { twoMarkets 900000000 600000000 400000000 with
    freeAssets := 0, withdrawWindowRemaining := 0
    perpNotionalUsdc := 1000000000, perpEquityUsdc := 900000000 }

/-- It sells what the equity does not carry, and is inside its ceiling. -/
theorem mandateCorrection_restores_runPast :
    ∃ d, mandateCorrection Settings.default runPast = some d ∧ d.kind = .unwind ∧
      d.amount ≤ sellableValue runPast ∧
      leverageBps (1000000000 - min d.amount 1000000000) 900000000 ≤ 10000 := by
  have hcorrection : mandateCorrection Settings.default runPast =
      some { kind := .unwind, amount := 127635000, forced := true } := by decide +kernel
  obtain ⟨hle, hinside⟩ :=
    (mandateCorrection_restores (by decide) (by decide)).2.1 _ hcorrection rfl
  exact ⟨_, hcorrection, rfl, hle, hinside (by decide)⟩

/-! ### Deployments -/

/-- What a deployment's source has to give. -/
def sourceCapital (s : VaultSnapshot) : Funding → Nat
  | .agent => resumableAmount s
  | .vault => deployableAmount s

/-- The three sources: margin that is free to carry a hedge, and two splits. -/
theorem source_cases {source : DeploymentSource} (h : source ∈ deploymentSources cfg s) :
    source = ⟨.agent, ⟨min (resumableAmount s)
        (spareMargin cfg s * sizingLeverageBps cfg s.risk.val / bps), 0⟩⟩ ∨
      source.legs =
        splitDeployment (sourceCapital s source.fundedFrom) (sizingLeverageBps cfg s.risk.val) := by
  simp only [deploymentSources, List.mem_append, List.mem_ite_nil_right, List.mem_singleton] at h
  rcases h with (⟨-, rfl⟩ | ⟨-, rfl⟩) | ⟨-, rfl⟩
  · exact .inl rfl
  · exact .inr rfl
  · exact .inr rfl

/-- The margin of a split carries its spot leg. -/
theorem splitDeployment_carries (total l : Nat) :
    (splitDeployment total l).spotNotional * bps ≤ (splitDeployment total l).perpMargin * l := by
  have hfloor : (splitDeployment total l).spotNotional * (l + bps) ≤ total * l :=
    Nat.div_mul_le_self _ _
  have hsum : total * l = (splitDeployment total l).spotNotional * l +
      (splitDeployment total l).perpMargin * l := by rw [← Nat.add_mul, splitDeployment_sum]
  rw [Nat.mul_add] at hfloor
  omega

/-- **Splitting and sizing are adjoint**, at every leverage: sized for a spot leg, a deployment
splits into that leg; it is affordable exactly when the total splits into a leg as large; and
a split spends the total, on a margin leg that carries the spot leg. -/
theorem splitDeployment_adjoint {l : Nat} (hl : 0 < l) (spot total : Nat) :
    (splitDeployment (deploymentFor spot l) l).spotNotional = spot ∧
      (deploymentFor spot l ≤ total ↔ spot ≤ (splitDeployment total l).spotNotional) ∧
      (splitDeployment total l).spotNotional + (splitDeployment total l).perpMargin = total ∧
      (splitDeployment total l).spotNotional * bps ≤ (splitDeployment total l).perpMargin * l :=
  ⟨splitDeployment_deploymentFor hl spot, deploymentFor_le_iff hl, splitDeployment_sum total l,
    splitDeployment_carries total l⟩

/-- At three times leverage, a spot leg of a hundred out of a total of a hundred and fifty. -/
theorem splitDeployment_adjoint_threeTimes :
    (splitDeployment (deploymentFor 100 30000) 30000).spotNotional = 100 ∧
      (deploymentFor 100 30000 ≤ 150 ↔ 100 ≤ (splitDeployment 150 30000).spotNotional) ∧
      (splitDeployment 150 30000).spotNotional + (splitDeployment 150 30000).perpMargin = 150 ∧
      (splitDeployment 150 30000).spotNotional * bps ≤
        (splitDeployment 150 30000).perpMargin * 30000 :=
  splitDeployment_adjoint (by decide) 100 150

/-- A market's room is what its share leaves of the projected total. -/
theorem add_room_le {incoming spend : Nat} {m : MarketSnapshot} (hpos : 0 < room s incoming m)
    (hspend : spend ≤ room s incoming m) :
    m.spotValueUsdc + spend ≤
      m.targetWeightBps * ((s.markets.map (·.spotValueUsdc)).sum + incoming) / bps := by
  rw [room, ite_gt_sub, Nat.mul_comm _ m.targetWeightBps] at hpos hspend
  omega

/-- What a position's margin has to carry it with. -/
def backedBy (cfg : Settings) (s : VaultSnapshot) (legs : DeploymentLegs) : Nat :=
  if 0 < legs.perpMargin then legs.perpMargin else spareMargin cfg s

/-- The legs of a deployment from a source, trimmed to a market's room: the spot leg is the
trimmed one, the source pays for both, and the margin carries it. -/
theorem trimmed_legs {source : DeploymentSource} {spend : Nat} {legs : DeploymentLegs}
    (hsource : source ∈ deploymentSources cfg s) (hpos : 0 < spend)
    (hle : spend ≤ source.legs.spotNotional)
    (hlegs : legs = (if source.legs.perpMargin = 0 then ⟨spend, 0⟩
        else splitDeployment (deploymentFor spend (sizingLeverageBps cfg s.risk.val))
          (sizingLeverageBps cfg s.risk.val))) :
    legs.spotNotional = spend ∧
      legs.spotNotional + legs.perpMargin ≤ sourceCapital s source.fundedFrom ∧
      legs.spotNotional * bps ≤ backedBy cfg s legs * sizingLeverageBps cfg s.risk.val := by
  have hsizing : 0 < sizingLeverageBps cfg s.risk.val := sizing_pos s.risk
  -- a source without a margin of its own spends what the account has to spare
  rcases source_cases hsource with rfl | hsplit
  · rw [if_pos rfl] at hlegs
    subst hlegs
    have hcarried : spend ≤ spareMargin cfg s * sizingLeverageBps cfg s.risk.val / bps :=
      hle.trans (min_le_right _ _)
    exact ⟨rfl, hle.trans (min_le_left _ _), (Nat.le_div_iff_mul_le (by decide)).mp hcarried⟩
  · have hmargin : source.legs.perpMargin ≠ 0 := by
      rw [hsplit] at hle ⊢
      exact splitDeployment_perpMargin_ne (by omega)
    rw [if_neg hmargin] at hlegs
    have hspot : legs.spotNotional = spend := by
      rw [hlegs, splitDeployment_deploymentFor hsizing]
    have hown : 0 < legs.perpMargin := by
      rw [hlegs]
      exact Nat.pos_of_ne_zero (splitDeployment_perpMargin_ne (by rw [← hlegs]; omega))
    refine ⟨hspot, ?_, ?_⟩
    · rw [hlegs, splitDeployment_sum]
      exact (deploymentFor_le_iff hsizing).mpr (hsplit ▸ hle)
    · rw [backedBy, if_pos hown, hlegs]
      exact splitDeployment_carries _ _

/-- **Every deployment is bounded and hedged.** It spends no more than its source has, on a
leg worth the trip in a market that is wanted and can be bought, keeps that market inside
its share, and has the margin to carry it at the sizing leverage. -/
theorem deploy_bounded_and_hedged (h : d ∈ permittedActions cfg s now) (hkind : d.kind = .deploy) :
    ∃ source ∈ deploymentSources cfg s, ∃ market ∈ s.markets, ∃ legs,
      d.fundedFrom = some source.fundedFrom ∧ d.market = some market.ticker ∧
      d.legs = some legs ∧ d.amount = legs.spotNotional + legs.perpMargin ∧
      d.amount ≤ sourceCapital s source.fundedFrom ∧
      cfg.minDeployUsdc ≤ legs.spotNotional ∧
      market.spotBuyable = true ∧ 0 < market.targetWeightBps ∧
      market.spotValueUsdc + legs.spotNotional ≤ market.targetWeightBps *
        ((s.markets.map (·.spotValueUsdc)).sum + source.legs.spotNotional) / bps ∧
      legs.spotNotional * bps ≤ backedBy cfg s legs * sizingLeverageBps cfg s.risk.val := by
  have hdeploy : nextDeployment cfg s = some d := by
    rcases growth_of_offered h (.inl hkind) with hnext | hrebalance
    · exact hnext
    · obtain ⟨_, -, -, rfl⟩ := mem_rebalances.mp hrebalance
      cases hkind
  obtain ⟨source, hsource, hne, market, hmarket, hopen⟩ := nextDeployment_some hdeploy
  obtain ⟨spend, legs, hspend, hmin, hlegs, hd⟩ := openPosition_some hopen
  obtain ⟨hmem, hbuyable, hweight, hroom⟩ := mem_candidates.mp hmarket
  have hpos : 0 < spend := hspend ▸ lt_min hroom (Nat.pos_of_ne_zero hne)
  obtain ⟨hspot, hcapital, hcarries⟩ :=
    trimmed_legs hsource hpos (hspend ▸ min_le_right _ _) hlegs
  have hshare := add_room_le hroom (show spend ≤ _ from hspend ▸ min_le_left _ _)
  subst hd
  exact ⟨source, hsource, market, hmem, legs, rfl, rfl, rfl, rfl, hcapital, hspot ▸ hmin, hbuyable,
    hweight, hspot ▸ hshare, hcarries⟩

theorem deploy_bounded_and_hedged_twoMarkets :
    ∃ source ∈ deploymentSources Settings.default (twoMarkets 0 0 0),
      ∃ market ∈ (twoMarkets 0 0 0).markets, ∃ legs : DeploymentLegs,
        market.ticker = "NVDA" ∧ 539999999 = legs.spotNotional + legs.perpMargin ∧
          539999999 ≤ sourceCapital (twoMarkets 0 0 0) source.fundedFrom := by
  have hoffered : vaultDeployment "NVDA" 265888324 274111675 ∈
      permittedActions Settings.default (twoMarkets 0 0 0) 0 := by decide +kernel
  obtain ⟨source, hsource, market, hmarket, legs, -, hticker, -, hamount, hcapital, -⟩ :=
    deploy_bounded_and_hedged hoffered rfl
  exact ⟨source, hsource, market, hmarket, legs, (Option.some.inj hticker).symm, hamount, hcapital⟩

end Agent

end LemonMarket
