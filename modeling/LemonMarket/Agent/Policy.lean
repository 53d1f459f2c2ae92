import LemonMarket.Agent.Snapshot

/-!
# LemonMarket.Agent.Policy

**Everything the agent is allowed to do right now** (`permittedActions` of
`policy.ts`), most urgent first: a standing close order, the redemptions that are
owed, retired markets, the mandate, hedge drift, growth, and at the end `hold`.

The stages are functions of their own, in the order `permittedActions` runs them.
An early `return` of the source is a branch of `permittedActions`; a `for` loop
that returns from its body is `findSome?`, with `continue` as `none`. The source
sorts with the language's stable sort, for which any stable sort stands.
-/

namespace LemonMarket

namespace Agent

open LemonVault (bps)

variable (cfg : Settings) (s : VaultSnapshot)

/-! ### What may be spent -/

/-- The agent's own idle USDC, unless the vault cannot cover its queue. -/
def resumableAmount : Nat :=
  let committed := s.ripeRedeemAssets + s.pendingRedeemAssets
  if s.freeAssets < committed then 0 else s.idleOnBase

/-- The vault's idle USDC: three ceilings, and the smallest wins. -/
def deployableAmount : Nat :=
  let ceiling := s.totalAssets * s.maxDeployedBps / bps
  let headroom := if ceiling > s.deployedAssets then ceiling - s.deployedAssets else 0
  let committed := s.ripeRedeemAssets + s.pendingRedeemAssets
  let uncommitted := if s.freeAssets > committed then s.freeAssets - committed else 0
  min (min headroom uncommitted) s.withdrawWindowRemaining

theorem deployableAmount_eq : deployableAmount s =
    min (min (s.totalAssets * s.maxDeployedBps / bps - s.deployedAssets)
      (s.freeAssets - (s.ripeRedeemAssets + s.pendingRedeemAssets)))
      s.withdrawWindowRemaining := by
  simp only [deployableAmount, ite_gt_sub]

/-- What every market whose spot leg can be sold is worth. -/
def sellableValue : Nat :=
  ((s.markets.filter (·.spotSellable)).map (·.spotValueUsdc)).sum

def isFlat : Bool :=
  let legsOpen := s.markets.any fun m => m.spotUnits > 0 || m.perpUnits > 0
  !legsOpen && s.deployedAssets ≤ closeDustUsdc

/-- The worst sellable market's impact and gas. -/
def unwindFrictions : TradeFrictions :=
  let sellable := s.markets.filter (·.spotSellable)
  { spotImpactPercent := sellable.foldl (fun worst m => max worst m.spotImpactPercent) 0
    spotGasUsdc := round (sellable.foldl (fun worst m => max worst m.spotGasUsd) 0 * 1000000)
    withdrawalFeeUsdc := s.venueWithdrawalFeeUsdc }

/-! ### Obligations -/

/-- Whether the earliest deadline is inside the urgency window. -/
def urgent (now : Nat) : Bool :=
  match s.earliestDeadline with
  | none => false
  | some deadline => deadline ≤ now + deadlineUrgencySeconds

/-- The unwind the ripe redemptions ask for: the shortfall and half a percent, capped
by what is deployed and by what can be sold. -/
def redemptionUnwind (now : Nat) : Option Decision :=
  let owed := s.ripeRedeemAssets
  let shortfall := if owed > s.freeAssets then owed - s.freeAssets else 0
  if shortfall > 0 then
    let withBuffer := shortfall + shortfall * unwindBufferBps / bps
    let reachable := min s.deployedAssets (sellableValue s)
    let amount := if withBuffer > reachable then reachable else withBuffer
    -- the minimum is one unit, which keeps out an unwind of nothing
    if amount ≥ minUnwindUsdc then
      some { kind := .unwind, amount := amount, forced := urgent s now }
    else none
  else none

/-- The unwind that drains markets an operator has retired, when it is worth a trip. -/
def retiredUnwind : Option Decision :=
  let retired := s.markets.filter fun m =>
    m.targetWeightBps = 0 && m.spotValueUsdc > 0 && m.spotSellable
  if retired.length > 0 then
    let amount : Nat := (retired.map (·.spotValueUsdc)).sum
    let cost := costOf cfg .unwind amount (unwindFrictions s)
    if (amount : Int) ≥ economicFloor cfg cost then
      some { kind := .unwind, amount := amount }
    else none
  else none

/-! ### The mandate -/

/-- Restore the buffer with margin, from the first source that covers the shortfall. -/
def marginTopUp (breached : Bool) : Option Decision :=
  let shortfall := requiredMargin cfg s - s.perpEquityUsdc
  if shortfall ≤ 0 then none
  else
    -- past the ceiling all that is idle counts, short of it none the queue is short of
    let sources : List (Funding × Nat) :=
      [(.agent, if breached then s.idleOnBase else resumableAmount s),
       (.vault, deployableAmount s)]
    match sources.find? fun source => (source.2 : Int) ≥ shortfall with
    | none => none
    | some (fundedFrom, available) =>
        let amount :=
          min available (if shortfall > cfg.minTopUpUsdc then shortfall.toNat else cfg.minTopUpUsdc)
        some { kind := .topUpMargin, amount, forced := breached, fundedFrom := some fundedFrom }

/-- Shrink the position to what its equity carries, rounded up to an amount worth the
trip. When all that can be sold is less than that, a forced `hold`. -/
def deleverage : Option Decision :=
  let sized := sizingLeverageBps cfg s.risk
  -- an account with no equity left carries nothing
  let carriable := if s.perpEquityUsdc > 0 then s.perpEquityUsdc.toNat * sized / bps else 0
  let excess := if s.perpNotionalUsdc > carriable then s.perpNotionalUsdc - carriable else 0
  if excess = 0 then none
  else
    let withBuffer := excess + excess * unwindBufferBps / bps
    let reachable := sellableValue s
    let cost := costOf cfg .unwind withBuffer (unwindFrictions s)
    let floor := economicFloor cfg cost
    let worthwhile := if (withBuffer : Int) > floor then (withBuffer : Int) else floor
    let amount := min worthwhile reachable
    if amount < minUnwindUsdc then none
    else if amount < floor then some { kind := .hold, forced := true }
    else some { kind := .unwind, amount := amount.toNat, forced := true }

/-- Bring the account back inside the mandate: margin first, and a smaller position
only once the ceiling is breached. -/
def mandateCorrection : Option Decision :=
  if s.perpNotionalUsdc = 0 then none
  else
    let sized := sizingLeverageBps cfg s.risk
    let ceiling := s.risk.val.maxLeverageBps
    let observed := leverageBps s.perpNotionalUsdc s.perpEquityUsdc
    -- halfway into the buffer, not at its end
    let actAt := sized + (ceiling - sized) / 2
    if observed ≤ actAt then none
    else
      let breached : Bool := observed > ceiling
      match marginTopUp cfg s breached with
      | some topUp => some topUp
      | none => if breached then deleverage cfg s else none

/-! ### Hedge health -/

/-- Why the venue would refuse a correction. -/
inductive Refusal
  | legsMatch
  | belowLot (correctionUnits lotSize : ℚ)
  | noMark
  | belowMinOrder (correctionUsd minOrderUsd : ℚ)

/-- The dollar value of the correction a market's drift implies, if the venue would
take the order. -/
def rebalanceIsPlaceable (market : MarketSnapshot) : Except Refusal ℚ :=
  let magnitude := ((market.spotUnits : Int) - market.perpUnits).natAbs
  if magnitude = 0 then .error .legsMatch
  else
    let correctionUnits : ℚ := magnitude / 10 ^ 18
    -- a floor the venue does not state is no floor
    if market.lotSize > 0 ∧ ⌊correctionUnits / market.lotSize⌋ < 1 then
      .error (.belowLot correctionUnits market.lotSize)
    else if market.markPriceUsd ≤ 0 then .error .noMark
    else
      let correctionUsd := correctionUnits * market.markPriceUsd
      if market.minOrderUsd > 0 ∧ correctionUsd < market.minOrderUsd then
        .error (.belowMinOrder correctionUsd market.minOrderUsd)
      else .ok correctionUsd

/-- A market's drift as the policy measures it. -/
def MarketSnapshot.drift (m : MarketSnapshot) : Int := driftBps m.spotUnits m.perpUnits

/-- Markets drifted past the threshold, worst first. -/
def drifted : List MarketSnapshot :=
  let threshold := if s.rebalanceDriftBps = 0 then defaultRebalanceDriftBps else s.rebalanceDriftBps
  (s.markets.filter fun m => m.drift.natAbs ≥ threshold).insertionSort
    fun a b => b.drift.natAbs ≤ a.drift.natAbs

/-- One correction for each of them that the venue would take. -/
def rebalances : List Decision :=
  (drifted s).filterMap fun m =>
    match rebalanceIsPlaceable m with
    | .error _ => none
    | .ok _ => some { kind := .rebalance, market := some m.ticker }

/-! ### Growth -/

/-- Capital a deployment could be built from. -/
structure DeploymentSource where
  fundedFrom : Funding
  legs : DeploymentLegs

/-- Every way to fund a deployment, in the order to try: margin already at the venue,
the agent's idle USDC, the vault. -/
def deploymentSources : List DeploymentSource :=
  let sizing := sizingLeverageBps cfg s.risk
  let idle := resumableAmount s
  let spare := spareMargin cfg s
  let deployable := deployableAmount s
  (if idle > 0 ∧ spare > 0 then [⟨.agent, ⟨min idle (spare * sizing / bps), 0⟩⟩] else []) ++
    (if idle > 0 then [⟨.agent, splitDeployment idle sizing⟩] else []) ++
    (if deployable > 0 then [⟨.vault, splitDeployment deployable sizing⟩] else [])

/-- How far below its share of the projected notional a market is. -/
def room (incoming : Nat) (market : MarketSnapshot) : Nat :=
  let held := (s.markets.map (·.spotValueUsdc)).sum
  let target := (held + incoming) * market.targetWeightBps / bps
  if target > market.spotValueUsdc then target - market.spotValueUsdc else 0

/-- The markets with room, furthest below their share first; the higher weight wins a
tie. -/
def candidates (incoming : Nat) : List MarketSnapshot :=
  ((s.markets.filter fun m => m.spotBuyable && m.targetWeightBps > 0).filter
      fun m => room s incoming m > 0).insertionSort
    fun a b => room s incoming b < room s incoming a ∨
      room s incoming a = room s incoming b ∧ b.targetWeightBps ≤ a.targetWeightBps

/-- One market as the place for a source's capital: skipped when the leg is under the
minimum, or when its funding does not pay the entry back in time. -/
def openPosition (source : DeploymentSource) (market : MarketSnapshot) : Option Decision :=
  let incoming := source.legs.spotNotional
  let spend := min (room s incoming market) incoming
  if spend < cfg.minDeployUsdc then none
  else
    let cost := costOf cfg .deploy spend
      ⟨market.spotImpactPercent, round (market.spotGasUsd * 1000000), 0⟩
    match breakevenHours cost.totalUsdc spend market.fundingShortPercentPerHour with
    | none => none
    | some payback =>
        if payback > cfg.maxBreakevenDays * 24 then none
        else
          let sizing := sizingLeverageBps cfg s.risk
          -- margin that is already at the venue is not sent again
          let legs := if source.legs.perpMargin = 0 then ⟨spend, 0⟩
            else splitDeployment (deploymentFor spend sizing) sizing
          some { kind := .deploy, amount := legs.spotNotional + legs.perpMargin,
                 market := some market.ticker, fundedFrom := some source.fundedFrom,
                 legs := some legs }

def deploymentFrom (source : DeploymentSource) : Option Decision :=
  if source.legs.spotNotional = 0 then none
  else (candidates s source.legs.spotNotional).findSome? (openPosition cfg s source)

/-- The next deployment, from whichever source can fund one. -/
def nextDeployment : Option Decision := (deploymentSources cfg s).findSome? (deploymentFrom cfg s)

/-! ### The option list -/

/-- What the stages after the mandate add to the options already there. -/
def discretionary (options : List Decision) : List Decision :=
  let options := options ++ rebalances s ++ (nextDeployment cfg s).toList
  if options.any (·.kind = .hold) then options else options ++ [{ kind := .hold }]

def permittedActions (now : Nat) : List Decision :=
  if s.closeRequested then
    if isFlat s then [{ kind := .hold, forced := true }]
    else [{ kind := .closeAll, forced := true }]
  else
    let owed := redemptionUnwind s now
    -- Inside the urgency window the queue is the only option.
    if owed.any (·.forced) then owed.toList
    else
      -- A retired market waits while another unwind is on the list.
      let options := if owed.isSome then owed.toList else (retiredUnwind cfg s).toList
      match mandateCorrection cfg s with
      | none => discretionary cfg s options
      | some correction =>
          -- A forced correction stands alone, unless it is the one that does nothing.
          if correction.forced ∧ correction.kind ≠ .hold then [correction]
          else discretionary cfg s (options ++ [correction])

end Agent

end LemonMarket
