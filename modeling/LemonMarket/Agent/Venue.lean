import LemonMarket.Agent.Snapshot
import LemonMarket.Lib.Double
import LemonMarket.Lib.Effect

/-!
# LemonMarket.Agent.Venue

**What executing a decision does** (`venue.ts`, and the act stage of `worker.ts`). The
adapter's routines are effects over the activity recorded so far and the USDC handed
back to the vault; they stop with a `VenueFailure` where the source throws, and a
`VenueExecutionError` carries the activity with it.

`Venue` is the world outside for the length of one action: what each market, the
account, the bridge and the vault answer. An answer of `none` or `false` is a call that
throws. A size reaches the venue as the decimal the source formats it to, so orders are
in units of the underlying.

What is asked of an action's order of calls, or of calls that answer differently as it goes
on, is asked of `Agent.Calls`; `Agent.Adapter` relates the two.
-/

namespace LemonMarket

namespace Agent

open Lib
open LemonVault (bps)

/-! ### The world outside -/

/-- One market as the adapter finds it. -/
structure Leg where
  ticker : String
  symbol : String
  perpSymbol : String
  spotTokenDecimals : Nat
  targetWeightBps : Nat
  /-- Spot tokens held, and what a route quotes for selling all of them. -/
  balance : Nat
  sellQuote : Option Nat
  /-- The open short, its entry price, and the venue's figures for the market. -/
  position : ℚ
  entryPrice : Option ℚ
  mark : Option ℚ
  lotSize : Option ℚ
  minOrderSize : Option ℚ
  /-- Whether the venue takes an order of a size. -/
  takesOrder : ℚ → Bool
  /-- Whether a quoted route can be built, and the router approved. -/
  builds : Bool
  approves : Bool
  /-- The tokens a purchase is quoted, and those it delivers. -/
  buyQuote : Nat → Option Nat
  buys : Nat → Option Nat
  /-- Whether a sale has a route, and the USDC it pays. -/
  sellRoute : Nat → Bool
  sells : Nat → Option Nat

structure Venue where
  legs : List Leg
  idleOnBase : Nat
  unallocatedMargin : Option Nat
  availableToWithdraw : Option Nat
  strandedOnSolana : Nat
  registers : Bool
  setsLeverage : Bool
  withdraws : Bool
  toSolana : Nat → Option Nat
  toBase : Nat → Option Nat
  /-- `agentWithdraw` and `agentReturn` of the vault. -/
  drawsDown : Nat → Bool
  takesBack : Nat → Bool

/-! ### Effects of the adapter -/

/-- A row of the activity feed. -/
structure Row where
  kind : ActivityKind
  chain : Chain
  symbol : String
  baseAmount : Nat
  notionalAssets : Nat
  feeAssets : Nat
  deriving Repr, DecidableEq

/-- Why an action stopped. -/
inductive Stop
  | noMarket | noLegs
  | noRoute | leverageRejected | marginUnread | notRegistered | belowMinimum
  | buildFailed | quotedNothing | noLotSize | belowLot | approvalFailed | orderRejected
  | spotBuyFailed | spotSellFailed | nothingPriced
  | crossingFailed | withdrawalRejected | drawdownFailed | returnFailed
  | partlyOpen
  deriving Repr, DecidableEq

/-- An `Error`, or with the activity a `VenueExecutionError`. -/
structure VenueFailure where
  stop : Stop
  activity : Option (List Row)
  deriving Repr, DecidableEq

/-- What an action has done so far. -/
structure Trip where
  activity : List Row := []
  returned : Nat := 0
  deriving Repr, DecidableEq

abbrev Adapter := Effect Trip VenueFailure

def push (row : Row) : Adapter Unit :=
  Effect.update fun t => { t with activity := t.activity ++ [row] }

/-- `throw new Error`. -/
def throwPlain {α : Type} (stop : Stop) : Adapter α := Effect.fail ⟨stop, none⟩

/-- `throw new VenueExecutionError(.., activity)`. -/
def throwExecution {α : Type} (stop : Stop) : Adapter α :=
  Effect.failWith fun t => ⟨stop, some t.activity⟩

/-- The same, unless a condition holds. -/
def orThrow (c : Bool) (stop : Stop) : Adapter Unit := Effect.require c ⟨stop, none⟩

def orThrowExecution (c : Bool) (stop : Stop) : Adapter Unit :=
  if c then pure () else throwExecution stop

/-! ### Sizes -/

def formatUnitsForVenue (raw decimals : Nat) : ℚ := raw / 10 ^ decimals

/-- The venue's quantity grid, in units of `decimals`. -/
def lotUnits (leg : Leg) (decimals : Nat) : Adapter Nat :=
  match leg.lotSize with
  | none => throwPlain .noLotSize
  | some lot =>
      if lot ≤ 0 then throwPlain .noLotSize else pure (round (lot * 10 ^ decimals)).toNat

/-- Down onto the grid. -/
def snapToLot (units lot : Nat) : Nat := if lot = 0 then units else units / lot * lot

/-- A market order, or its rejection. -/
def createMarketOrder (leg : Leg) (units decimals : Nat) : Adapter Unit :=
  orThrow (leg.takesOrder (formatUnitsForVenue units decimals)) .orderRejected

/-! ### Allocating an unwind -/

/-- The smallest slice worth taking out of one market. -/
def minUnwindLegUsdc : Nat := 100000000

/-- A leg as `allocateUnwind` is given it. -/
structure Holding where
  ticker : String
  value : Nat
  targetWeightBps : Nat
  sellable : Bool
  deriving Repr, DecidableEq

/-- The two maps of the allocation, and what is still to be raised. -/
structure Allocation where
  allocated : String → Nat
  capacity : String → Nat
  remaining : Nat

namespace Allocation

def take (a : Allocation) (ticker : String) (amount : Nat) : Allocation where
  allocated := Function.update a.allocated ticker (a.allocated ticker + amount)
  capacity := Function.update a.capacity ticker (a.capacity ticker - amount)
  remaining := a.remaining - amount

/-- The first pass, over the overweight: slices under the floor are skipped. -/
def takeOver (a : Allocation) (excess : Holding × Nat) : Allocation :=
  let amount := min (min a.remaining excess.2) (a.capacity excess.1.ticker)
  if amount < minUnwindLegUsdc then a else a.take excess.1.ticker amount

/-- The second pass, over whatever has capacity. -/
def takeRest (a : Allocation) (leg : Holding) : Allocation :=
  a.take leg.ticker (min a.remaining (a.capacity leg.ticker))

end Allocation

/-- Which markets an unwind comes out of: the overweight first, heaviest first, then the
largest that are left. With nothing remaining a step of either loop takes nothing, which
is where the source breaks out of it. -/
def allocateUnwind (legs : List Holding) (amount : Nat) : List (String × Nat) :=
  let total := (legs.map (·.value)).sum
  if total = 0 ∨ amount = 0 then []
  else
    -- a leg without a price still weighs, and nothing can be raised from it
    let capacity := legs.foldl
      (fun capacity leg =>
        Function.update capacity leg.ticker (if leg.sellable then leg.value else 0))
      (fun _ => 0)
    let start : Allocation := ⟨fun _ => 0, capacity, amount⟩
    let overweight :=
      (((legs.filter (·.sellable)).map fun leg =>
        (leg, leg.value - total * leg.targetWeightBps / bps)).filter
          fun entry => entry.2 > 0).insertionSort fun a b => b.2 ≤ a.2
    let first := overweight.foldl Allocation.takeOver start
    let byRemaining := (legs.filter fun leg => first.capacity leg.ticker > 0).insertionSort
      fun a b => first.capacity b.ticker ≤ first.capacity a.ticker
    let second := byRemaining.foldl Allocation.takeRest first
    (legs.map fun leg => (leg.ticker, second.allocated leg.ticker)).filter fun entry => entry.2 > 0

/-! ### Closing -/

/-- The reduce-only order, and its row. -/
def closeShort (leg : Leg) (perpUnits notionalHint : Nat) : Adapter Unit := do
  createMarketOrder leg perpUnits leg.spotTokenDecimals
  push ⟨.perpClose, .solana, leg.perpSymbol, perpUnits, notionalHint, 0⟩

/-- The sale, and its row. Answers the USDC it paid. -/
def sellSpot (leg : Leg) (sellUnits : Nat) : Adapter Nat :=
  if sellUnits = 0 then pure 0
  else do
    orThrowExecution (leg.sellRoute sellUnits) .noRoute
    -- outside the `try`: plain errors, though the short is closed by now
    orThrow leg.builds .buildFailed
    orThrow leg.approves .approvalFailed
    match leg.sells sellUnits with
    | none => throwExecution .spotSellFailed
    | some proceeds => do
        push ⟨.spotSell, .base, leg.symbol, sellUnits, proceeds, 0⟩
        pure proceeds

/-- Close `closeUnits` of a market: the short first, on the grid, then the spot, up to
what is held. -/
def closeLeg (leg : Leg) (closeUnits notionalHint : Nat) : Adapter Nat := do
  let lot ← lotUnits leg leg.spotTokenDecimals
  let perpUnits := snapToLot closeUnits lot
  Effect.onlyIf (perpUnits ≠ 0) (closeShort leg perpUnits notionalHint)
  sellSpot leg (min closeUnits leg.balance)

/-- Hand USDC back to the vault, and record it. -/
def returnAll (venue : Venue) (amount : Nat) : Adapter Unit :=
  if amount = 0 then pure ()
  else do
    orThrow (venue.takesBack amount) .returnFailed
    Effect.update fun t => { t with returned := t.returned + amount }
    push ⟨.bridgeIn, .base, "USDC", amount, amount, 0⟩

/-- One open position as `retainedMargin` values it: the mark, or the entry price. -/
def retainedNotional (leg : Leg) : Nat :=
  let mark := (leg.mark.orElse fun _ => leg.entryPrice).getD 0
  if |leg.position| ≤ 0 ∨ mark ≤ 0 then 0 else (round (|leg.position| * mark * 1000000)).toNat

/-- The margin to leave behind, above what the venue itself requires. -/
def retainedMargin (venue : Venue) (leverageBps : Nat) : Nat :=
  let notional := (venue.legs.map retainedNotional).sum
  if notional = 0 then 0
  else
    let required := notional * bps / leverageBps
    if required > notional then required - notional else 0

/-- The withdrawal from the venue, and its row. -/
def withdrawMargin (venue : Venue) (withdrawable : Nat) : Adapter Unit := do
  orThrow venue.withdraws .withdrawalRejected
  push ⟨.venueWithdraw, .solana, "USDC", withdrawable, withdrawable, 0⟩

/-- The crossing home, and its row. -/
def bridgeHome (venue : Venue) (crossing : Nat) : Adapter Nat := do
  let landed ← Effect.expect ⟨.crossingFailed, none⟩ (venue.toBase crossing)
  push ⟨.bridgeOut, .solana, "USDC", crossing, crossing, crossing - landed⟩
  pure landed

/-- Bring freed margin back to Base. With `retainForLeverageBps` the surviving position's
buffer stays; with `sweepIdle` what is stranded on Solana comes too. -/
def repatriateMargin (venue : Venue) (sweepIdle : Bool) (retainForLeverageBps : Option Nat) :
    Adapter Nat := do
  let available ← Effect.expect ⟨.marginUnread, none⟩ venue.availableToWithdraw
  let retain := (retainForLeverageBps.map (retainedMargin venue)).getD 0
  let withdrawable := available - retain
  let stranded := if sweepIdle then venue.strandedOnSolana else 0
  if withdrawable = 0 ∧ stranded = 0 then pure 0
  else do
    Effect.onlyIf (withdrawable > 0) (withdrawMargin venue withdrawable)
    bridgeHome venue (withdrawable + stranded)

/-- The part of a leg's tokens that its slice of the unwind is, in doubles: each amount, the
quotient and the product are rounded before the result is cut. What is held and quoted has
256 bits, so nothing overflows. -/
def closeUnits (balance value slice : Nat) : Nat :=
  let fraction :=
    if slice ≥ value then 1 else Double.nearest (Double.nearest slice / Double.nearest value)
  ⌊Double.nearest (Double.nearest balance * fraction)⌋₊

/-- The quotient of 29 and 100 is a little less as a double. -/
example : closeUnits 100000000 100000000 29000000 = 28999999 := by decide +kernel

/-- What a leg's slice is worth, and its units; `none` where the loop moves on. -/
def sliceOf (venue : Venue) (allocation : String × Nat) : Option (Leg × Nat) :=
  (venue.legs.find? fun leg => leg.ticker = allocation.1).bind fun leg =>
    match leg.sellQuote with
    | none => none
    | some value =>
        let units := closeUnits leg.balance value allocation.2
        if value = 0 ∨ units = 0 then none else some (leg, units)

theorem sliceOf_some {venue : Venue} {leg : Leg} {slice : String × Nat} {units : Nat}
    (h : sliceOf venue slice = some (leg, units)) :
    leg ∈ venue.legs ∧ ∃ value, leg.sellQuote = some value ∧ 0 < value := by
  simp only [sliceOf, Option.bind_eq_some_iff] at h
  obtain ⟨found, hfound, h⟩ := h
  split at h
  next => exact absurd h (by simp)
  next value hquote =>
    split at h
    next => exact absurd h (by simp)
    next hsome =>
      obtain ⟨rfl, -⟩ := Prod.mk.inj (Option.some.inj h)
      exact ⟨List.mem_of_find?_eq_some hfound, value, hquote,
        Nat.pos_of_ne_zero fun hzero => hsome (.inl hzero)⟩

/-- The loop over the allocations: what the sales paid. -/
def closeSlices (venue : Venue) : List (String × Nat) → Adapter Nat
  | [] => pure 0
  | allocation :: rest =>
      match sliceOf venue allocation with
      | none => closeSlices venue rest
      | some (leg, units) => do
          let proceeds ← closeLeg leg units allocation.2
          let more ← closeSlices venue rest
          pure (proceeds + more)

def holdings (venue : Venue) : List Holding :=
  venue.legs.map fun leg =>
    ⟨leg.ticker, leg.sellQuote.getD 0, leg.targetWeightBps, leg.sellQuote.isSome⟩

/-- Raise an amount across the markets and return it. The margin comes home if it can. -/
def unwind (venue : Venue) (amount leverageBps : Nat) : Adapter Unit := do
  orThrow (venue.legs.any fun leg => leg.sellQuote.any (· > 0)) .nothingPriced
  let proceeds ← closeSlices venue (allocateUnwind (holdings venue) amount)
  let repatriated ← (repatriateMargin venue false (some leverageBps)).attempt fun _ => pure 0
  returnAll venue (proceeds + repatriated)

/-! ### Opening -/

def marketFor (venue : Venue) (ticker : String) : Adapter Leg :=
  Effect.expect ⟨.noMarket, none⟩ (venue.legs.find? fun leg => leg.ticker = ticker)

/-- The outbound crossing and the deposit at its end, with their two rows. -/
def bridgeMargin (venue : Venue) (amount : Nat) : Adapter Nat := do
  let landed ← Effect.expect ⟨.crossingFailed, none⟩ (venue.toSolana amount)
  push ⟨.bridgeOut, .base, "USDC", amount, amount, amount - landed⟩
  push ⟨.venueDeposit, .solana, "USDC", landed, landed, 0⟩
  pure landed

/-- Flatten a short that has nothing behind it; a failure here is swallowed. -/
def closeNaked (leg : Leg) (units : Nat) : Adapter Unit :=
  Effect.attempt
    (do
      createMarketOrder leg units leg.spotTokenDecimals
      push ⟨.perpClose, .solana, leg.perpSymbol, units, 0, 0⟩)
    fun _ => pure ()

/-- The margin a deployment is sized against: sent now, or already at the venue. -/
def backing (venue : Venue) (perpMargin : Nat) : Adapter Nat :=
  if perpMargin = 0 then Effect.expect ⟨.marginUnread, none⟩ venue.unallocatedMargin
  else bridgeMargin venue perpMargin

/-- The short, and the spot leg bought against it. -/
def openHedge (leg : Leg) (shortUnits spend : Nat) : Adapter Unit := do
  orThrow leg.approves .approvalFailed
  createMarketOrder leg shortUnits leg.spotTokenDecimals
  push ⟨.perpOpen, .solana, leg.perpSymbol, shortUnits, spend, 0⟩
  match leg.buys spend with
  | none => do
      closeNaked leg shortUnits
      throwExecution .spotBuyFailed
  | some received => push ⟨.spotBuy, .base, leg.symbol, received, spend, 0⟩

/-- Margin across, the short sized to what arrived, then the spot leg. -/
def deploy (cfg : Settings) (venue : Venue) (ticker : String) (legs : DeploymentLegs)
    (leverageBps : Nat) : Adapter Unit := do
  let leg ← marketFor venue ticker
  orThrow (leg.buyQuote legs.spotNotional).isSome .noRoute
  let backed ← backing venue legs.perpMargin
  orThrowExecution venue.registers .notRegistered
  orThrow venue.setsLeverage .leverageRejected
  let carriable := backed * leverageBps / bps
  let spend := min carriable legs.spotNotional
  orThrowExecution (spend ≥ cfg.minDeployUsdc) .belowMinimum
  match leg.buyQuote spend with
  | none => throwExecution .noRoute
  | some expectedUnits => do
      orThrow leg.builds .buildFailed
      orThrowExecution (expectedUnits ≠ 0) .quotedNothing
      let lot ← lotUnits leg leg.spotTokenDecimals
      orThrowExecution (snapToLot expectedUnits lot ≠ 0) .belowLot
      openHedge leg (snapToLot expectedUnits lot) spend

def topUpMargin (venue : Venue) (amount : Nat) : Adapter Unit := do
  let _ ← bridgeMargin venue amount
  pure ()

/-! ### The other actions -/

/-- How much of a market's short is open, scaled to 1e18. -/
def perpPosition (leg : Leg) : Nat := (round (|leg.position| * 10 ^ 18)).toNat

/-- Trade the perp leg to the spot leg's size, when the grid and the minimum order allow. -/
def rebalance (venue : Venue) (ticker : String) (targetUnits : Nat) : Adapter Unit := do
  let leg ← marketFor venue ticker
  let delta : Int := targetUnits - perpPosition leg
  if delta = 0 then pure ()
  else do
    let lot ← lotUnits leg 18
    let correction := snapToLot delta.natAbs lot
    let minOrderUsd := leg.minOrderSize.getD 0
    let correctionUsd : ℚ := correction / 10 ^ 18 * leg.mark.getD 0
    if correction = 0 then pure ()
    else if minOrderUsd > 0 ∧ correctionUsd < minOrderUsd then pure ()
    else do
      createMarketOrder leg correction 18
      push ⟨.perpRebalance, .solana, leg.perpSymbol, correction, 0, 0⟩

/-- A 1e18 unit count in a token's own decimals. -/
def fromUnits (units decimals : Nat) : Nat :=
  if decimals = 18 then units
  else if decimals < 18 then units / 10 ^ (18 - decimals)
  else units * 10 ^ (decimals - 18)

/-- One market closed in full. A failure is counted, with the activity it carries. -/
def closeMarket (leg : Leg) : Adapter (Nat × Nat) :=
  let position := fromUnits (perpPosition leg) leg.spotTokenDecimals
  let close : Adapter (Nat × Nat) := do
    let proceeds ← closeLeg leg (max leg.balance position) 0
    pure (0, proceeds)
  if leg.balance = 0 ∧ position = 0 then pure (0, 0)
  else close.attempt fun failure => do
    Effect.update fun t => { t with activity := t.activity ++ failure.activity.getD [] }
    pure (1, 0)

/-- Every market, carrying on past one that fails: how many failed, and what the sales
paid. -/
def closeMarkets : List Leg → Adapter (Nat × Nat)
  | [] => pure (0, 0)
  | leg :: rest => do
      let closed ← closeMarket leg
      let others ← closeMarkets rest
      pure (closed.1 + others.1, closed.2 + others.2)

/-- Everything closed, the margin swept, and the whole Base balance sent home. What could
not be closed is thrown at the end. -/
def closeAll (venue : Venue) : Adapter Unit := do
  let closed ← closeMarkets venue.legs
  let sweep : Adapter (Nat × Nat) := do
    let landed ← repatriateMargin venue true none
    pure (0, landed)
  let swept ← sweep.attempt fun _ => pure (1, 0)
  returnAll venue (venue.idleOnBase + closed.2 + swept.2)
  orThrowExecution (closed.1 + swept.1 = 0) .partlyOpen

/-! ### The act stage of a tick -/

/-- `agentWithdraw` for what the vault funds. -/
def drawDown (venue : Venue) (decision : Decision) : Adapter Unit :=
  orThrow (venue.drawsDown decision.amount) .drawdownFailed

/-- Carry a decision out. A deployment without a source is the vault's, a top-up is only
with one. -/
def execute (cfg : Settings) (venue : Venue) (s : VaultSnapshot) (decision : Decision) :
    Adapter Unit :=
  let sizing := sizingLeverageBps cfg s.risk
  match decision.kind with
  | .deploy => do
      let market ← Effect.expect ⟨.noMarket, none⟩ decision.market
      let legs ← Effect.expect ⟨.noLegs, none⟩ decision.legs
      Effect.onlyIf (decision.fundedFrom ≠ some .agent) (drawDown venue decision)
      deploy cfg venue market legs sizing
  | .topUpMargin => do
      Effect.onlyIf (decision.fundedFrom = some .vault) (drawDown venue decision)
      topUpMargin venue decision.amount
  | .unwind => unwind venue decision.amount sizing
  | .rebalance => do
      let market ← Effect.expect ⟨.noMarket, none⟩ decision.market
      let target ← Effect.expect ⟨.noMarket, none⟩ (s.markets.find? fun m => m.ticker = market)
      rebalance venue market target.spotUnits
  | .closeAll => closeAll venue
  | .hold => pure ()

end Agent

end LemonMarket
