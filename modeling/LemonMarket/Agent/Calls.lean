import LemonMarket.Agent.Venue
import LemonMarket.Lib.History

/-!
# LemonMarket.Agent.Calls

**The adapter, call by call.** The actions of `venue.ts` again, with every call they make
of the world outside made separately: each may fail, may answer what the calls before it
did not lead one to expect, and may fail after doing what it was asked. A `Record` keeps
the calls with their answers beside the activity, so that what was executed and what was
recorded can be compared.

A call that moves a position or money executes *legs*. What identifies a leg in the feed
is its kind and the reference of the call that executed it, and that reference is here the
number of the call.

Where the world is a venue that keeps to its answers, an action is the one of `Agent.Venue`
(`run_alike` in `Agent.Adapter`).
-/

namespace LemonMarket

namespace Agent

namespace Calls

open Lib
open LemonVault (bps)

/-! ### Calls and their answers -/

/-- A market as the adapter is configured with it. -/
structure VenueMarket where
  ticker : String
  symbol : String
  perpSymbol : String
  spotTokenDecimals : Nat
  targetWeightBps : Nat
  deriving Repr, DecidableEq

/-- What the adapter reads of the venue's payloads. -/
structure Account where
  availableToSpend : Option ℚ
  availableToWithdraw : Option ℚ

structure Position where
  symbol : String
  amount : Option ℚ
  entryPrice : Option ℚ

structure Quote where
  symbol : String
  mark : Option ℚ

structure MarketInfo where
  lotSize : Option ℚ
  minOrderSize : Option ℚ

/-- The calls an action makes. `closeLeg` reads balances at the token itself, once for the
tokens it holds and either side of the sale for USDC. -/
inductive Call
  | getRoute (symbol : String) (amountIn : Nat)
  | buildRoute (symbol : String)
  | spotBalance (symbol : String)
  | usdcBalance
  | tokensHeld (symbol : String)
  | usdcBefore
  | usdcAfter
  | allowance (symbol : String)
  | approve (symbol : String) (amount : Nat)
  | swap (leg : ActivityKind) (symbol : String)
  | returnToVault (amount : Int)
  | accountInfo
  | positions
  | prices
  | markets (perpSymbol : String)
  | updateLeverage (perpSymbol : String) (leverage : Nat)
  | order (leg : ActivityKind) (perpSymbol : String) (size : ℚ)
  | requestWithdrawal (amount : Nat)
  | solanaIdleUsdc
  | toSolana (amount : Nat)
  | toBase (amount : Nat)
  deriving DecidableEq

namespace Call

/-- What a call answers with. `none` is no route, no such account and no such market. -/
abbrev Result : Call → Type
  | getRoute _ _ => Option Nat
  | buildRoute _ => Nat
  | spotBalance _ => Nat
  | usdcBalance => Nat
  | tokensHeld _ => Nat
  | usdcBefore => Nat
  | usdcAfter => Nat
  | allowance _ => Nat
  | accountInfo => Option Account
  | positions => Option (List Position)
  | prices => List Quote
  | markets _ => Option MarketInfo
  | solanaIdleUsdc => Nat
  | toSolana _ => Nat
  | toBase _ => Nat
  | _ => Unit

/-- The legs a call executes, in order. -/
def legs : Call → List ActivityKind
  | swap leg _ => [leg]
  | order leg _ _ => [leg]
  | returnToVault _ => [.bridgeIn]
  | requestWithdrawal _ => [.venueWithdraw]
  | toSolana _ => [.bridgeOut, .venueDeposit]
  | toBase _ => [.bridgeOut]
  | _ => []

end Call

/-- How a call ends: with an answer, or in an error, having executed its first few legs. -/
inductive Outcome (α : Type)
  | answered (a : α)
  | failed (executed : Nat)

structure Event where
  call : Call
  outcome : Outcome call.Result

def Event.failed (e : Event) : Bool :=
  match e.outcome with
  | .answered _ => false
  | .failed _ => true

def Event.executed (e : Event) : List ActivityKind :=
  match e.outcome with
  | .answered _ => e.call.legs
  | .failed n => e.call.legs.take n

/-- The world outside: how each call ends, given the calls before it, and how often the
registration can be asked for before its deadline. -/
structure World where
  outcome : List Event → (c : Call) → Outcome c.Result
  registrationPolls : Nat

/-! ### Effects -/

/-- A row of the activity feed. -/
structure Entry where
  kind : ActivityKind
  chain : Chain
  symbol : String
  baseAmount : Int
  notionalAssets : Int
  feeAssets : Int
  txRef : Nat
  deriving Repr, DecidableEq

/-- The leg an entry records. -/
def Entry.leg (entry : Entry) : ActivityKind × Nat := (entry.kind, entry.txRef)

inductive Cause
  | call (c : Call)
  | stop (stop : Stop)
  deriving DecidableEq

/-- An `Error`, or with the activity a `VenueExecutionError`. -/
structure Failure where
  cause : Cause
  activity : Option (List Entry)
  deriving DecidableEq

/-- The calls an action has made, and the activity it has recorded. -/
structure Record where
  trace : List Event := []
  activity : List Entry := []

def Record.saw (r : Record) (e : Event) : Record := { r with trace := r.trace ++ [e] }

/-- The legs that were executed, each under the number of its call. -/
def executed (trace : List Event) : List (ActivityKind × Nat) := numbered Event.executed trace

abbrev Script := Effect Record Failure

def push (entry : Entry) : Script Unit :=
  Effect.update fun r => { r with activity := r.activity ++ [entry] }

def throwPlain {α : Type} (stop : Stop) : Script α := Effect.fail ⟨.stop stop, none⟩

def throwExecution {α : Type} (stop : Stop) : Script α :=
  Effect.failWith fun r => ⟨.stop stop, some r.activity⟩

def orThrow (c : Bool) (stop : Stop) : Script Unit := if c then pure () else throwPlain stop

def orThrowExecution (c : Bool) (stop : Stop) : Script Unit :=
  if c then pure () else throwExecution stop

variable (w : World)

/-- Make a call: its number, and its answer. -/
def send (c : Call) : Script (Nat × c.Result) := fun r =>
  match w.outcome r.trace c with
  | .answered a => (.ok (r.trace.length, a), r.saw ⟨c, .answered a⟩)
  | .failed n => (.error ⟨.call c, none⟩, r.saw ⟨c, .failed n⟩)

def ask (c : Call) : Script c.Result := do
  let sent ← send w c
  pure sent.2

/-! ### Reading -/

def accountOrUnregistered : Script (Option Account) := ask w .accountInfo

/-- Dollars as the venue states them, in USDC. -/
def toUsdc (dollars : Option ℚ) : Nat :=
  if dollars.getD 0 > 0 then (round (dollars.getD 0 * 1000000)).toNat else 0

def unallocatedMargin : Script Nat := do
  let account ← accountOrUnregistered w
  pure (toUsdc (account.bind Account.availableToSpend))

/-- What the spot holding would fetch. A quote that fails is no quote. -/
def spotSellRoute (market : VenueMarket) (balance : Nat) : Script (Option Nat) :=
  if balance = 0 then pure (some 0)
  else Effect.attempt (ask w (.getRoute market.symbol balance)) fun _ => pure none

def perpPosition (market : VenueMarket) : Script Nat := do
  let positions : Option (List Position) ← ask w .positions
  let position := (positions.getD []).find? fun p => p.symbol = market.perpSymbol
  pure (round (|(position.bind Position.amount).getD 0| * 10 ^ 18)).toNat

/-- The lot size a market is listed with, where it can be used. -/
def usableLot (info : Option MarketInfo) : Option ℚ :=
  (info.bind MarketInfo.lotSize).filter fun lot => 0 < lot

def lotUnits (market : VenueMarket) (decimals : Nat) : Script Nat := do
  let info : Option MarketInfo ← ask w (.markets market.perpSymbol)
  match usableLot info with
  | none => throwPlain .noLotSize
  | some lot => pure (round (lot * 10 ^ decimals)).toNat

def minOrderNotionalUsd (market : VenueMarket) : Script ℚ := do
  let info : Option MarketInfo ← ask w (.markets market.perpSymbol)
  pure ((info.bind MarketInfo.minOrderSize).getD 0)

def markPriceUsd (market : VenueMarket) : Script ℚ := do
  let prices : List Quote ← ask w .prices
  let quote := prices.find? fun q => q.symbol = market.perpSymbol
  pure ((quote.bind Quote.mark).getD 0)

/-! ### Trading -/

/-- A market order, and its entry. -/
def createMarketOrder (market : VenueMarket) (leg : ActivityKind) (units decimals notional : Nat) :
    Script Unit := do
  let sent ← send w (.order leg market.perpSymbol (formatUnitsForVenue units decimals))
  push ⟨leg, .solana, market.perpSymbol, units, notional, 0, sent.1⟩

def ensureAllowance (symbol : String) (amount : Nat) : Script Unit := do
  let current : Nat ← ask w (.allowance symbol)
  Effect.onlyIf (current < amount) (do
    let _ ← ask w (.approve symbol amount)
    pure ())

/-- The sale of what a close frees, and its entry. Answers the USDC it paid. -/
def sellSpot (market : VenueMarket) (sellUnits : Nat) : Script Int := do
  let route : Option Nat ← ask w (.getRoute market.symbol sellUnits)
  orThrowExecution route.isSome .noRoute
  let _ ← ask w (.buildRoute market.symbol)
  ensureAllowance w market.symbol sellUnits
  let usdcBefore : Nat ← ask w .usdcBefore
  let sold ← Effect.attempt (send w (.swap .spotSell market.symbol)) fun _ =>
    throwExecution .spotSellFailed
  -- outside the `try`: a read that fails here loses the sale it follows
  let usdcAfter : Nat ← ask w .usdcAfter
  push ⟨.spotSell, .base, market.symbol, sellUnits, usdcAfter - usdcBefore, 0, sold.1⟩
  pure (usdcAfter - usdcBefore)

/-- Close units of a market: the short first, on the grid, then the spot, up to what is
held. -/
def closeLeg (market : VenueMarket) (closeUnits notionalHint : Nat) : Script Int := do
  let lot ← lotUnits w market market.spotTokenDecimals
  let perpUnits := snapToLot closeUnits lot
  Effect.onlyIf (perpUnits ≠ 0)
    (createMarketOrder w market .perpClose perpUnits market.spotTokenDecimals notionalHint)
  let balance : Nat ← ask w (.tokensHeld market.symbol)
  let sellUnits := min closeUnits balance
  if sellUnits = 0 then pure 0 else sellSpot w market sellUnits

/-! ### Moving money -/

/-- Hand USDC back to the vault, and record it. -/
def returnAll (amount : Int) : Script Unit :=
  if amount ≤ 0 then pure ()
  else do
    let sent ← send w (.returnToVault amount)
    push ⟨.bridgeIn, .base, "USDC", amount, amount, 0, sent.1⟩

/-- The outbound crossing and the deposit at its end, with their two entries. -/
def bridgeMargin (amount : Nat) : Script Nat := do
  let sent ← send w (.toSolana amount)
  let landed : Nat := sent.2
  push ⟨.bridgeOut, .base, "USDC", amount, amount, (amount - landed : Nat), sent.1⟩
  push ⟨.venueDeposit, .solana, "USDC", landed, landed, 0, sent.1⟩
  pure landed

variable (venueMarkets : List VenueMarket)

/-- One open position as `retainedMargin` values it. -/
def notionalOf (positions : List Position) (prices : List Quote) (market : VenueMarket) : Nat :=
  match positions.find? fun p => p.symbol = market.perpSymbol with
  | none => 0
  | some position =>
      let size := |position.amount.getD 0|
      let quote := prices.find? fun q => q.symbol = market.perpSymbol
      let mark := ((quote.bind Quote.mark).orElse fun _ => position.entryPrice).getD 0
      if size ≤ 0 ∨ mark ≤ 0 then 0 else (round (size * mark * 1000000)).toNat

/-- The margin to leave behind. A read that fails is no notional. -/
def retainedMargin (leverageBps : Nat) : Script Nat := do
  let positions ← Effect.attempt (ask w .positions) fun _ => pure none
  let prices ← Effect.attempt (ask w .prices) fun _ => pure []
  let notional := (venueMarkets.map (notionalOf (positions.getD []) prices)).sum
  let required := notional * bps / leverageBps
  pure (if notional = 0 then 0 else if required > notional then required - notional else 0)

/-- The withdrawal from the venue, and its entry. -/
def withdrawMargin (withdrawable : Nat) : Script Unit := do
  let sent ← send w (.requestWithdrawal withdrawable)
  push ⟨.venueWithdraw, .solana, "USDC", withdrawable, withdrawable, 0, sent.1⟩

/-- The crossing home, and its entry. -/
def bridgeHome (crossing : Nat) : Script Nat := do
  let sent ← send w (.toBase crossing)
  let landed : Nat := sent.2
  push ⟨.bridgeOut, .solana, "USDC", crossing, crossing, (crossing - landed : Nat), sent.1⟩
  pure landed

/-- What is kept back of the free balance, for the leverage a caller names. -/
def retained (withdrawable : Nat) : Option Nat → Script Nat
  | none => pure 0
  | some leverageBps =>
      if withdrawable > 0 then retainedMargin w venueMarkets leverageBps else pure 0

/-- What lies in the Solana wallet, for a caller that sweeps it. -/
def strandedIdle (sweepIdle : Bool) : Script Nat :=
  if sweepIdle then Effect.attempt (ask w .solanaIdleUsdc) fun _ => pure 0 else pure 0

/-- Bring freed margin back to Base. -/
def repatriateMargin (sweepIdle : Bool) (retainForLeverageBps : Option Nat) : Script Nat := do
  let account ← accountOrUnregistered w
  let available := toUsdc (account.bind Account.availableToWithdraw)
  let retain ← retained w venueMarkets available retainForLeverageBps
  let withdrawable := available - retain
  let stranded ← strandedIdle w sweepIdle
  if withdrawable = 0 ∧ stranded = 0 then pure 0
  else do
    Effect.onlyIf (withdrawable > 0) (withdrawMargin w withdrawable)
    bridgeHome w (withdrawable + stranded)

/-! ### Opening -/

def marketFor (ticker : String) : Script VenueMarket :=
  match venueMarkets.find? fun m => m.ticker = ticker with
  | none => throwPlain .noMarket
  | some market => pure market

/-- Wait for the venue to know the account, as often as the deadline allows. -/
def awaitRegistration : Nat → Script Unit
  | 0 => do
      let account ← accountOrUnregistered w
      orThrowExecution account.isSome .notRegistered
  | polls + 1 => do
      let account ← accountOrUnregistered w
      if account.isSome then pure () else awaitRegistration polls

/-- Flatten a short that has nothing behind it; a failure here is swallowed. -/
def closeNaked (market : VenueMarket) (units : Nat) : Script Unit :=
  Effect.attempt (createMarketOrder w market .perpClose units market.spotTokenDecimals 0)
    fun _ => pure ()

/-- The spot leg, or the short closed again. -/
def buySpot (market : VenueMarket) (shortUnits spend : Nat) : Script Unit := do
  let before : Nat ← ask w (.spotBalance market.symbol)
  let bought ← Effect.attempt (send w (.swap .spotBuy market.symbol)) fun _ => do
    -- the short has nothing behind it
    closeNaked w market shortUnits
    throwExecution .spotBuyFailed
  let after : Nat ← ask w (.spotBalance market.symbol)
  push ⟨.spotBuy, .base, market.symbol, (after : Int) - before, spend, 0, bought.1⟩

/-- The margin a deployment is sized against: sent now, or already at the venue. -/
def backing (perpMargin : Nat) : Script Nat :=
  if perpMargin = 0 then unallocatedMargin w else bridgeMargin w perpMargin

/-- The quote both legs are sized on: the tokens a spend buys. -/
def quoteSpend (market : VenueMarket) (spend : Nat) : Script Nat := do
  let route : Option Nat ← ask w (.getRoute market.symbol spend)
  orThrowExecution route.isSome .noRoute
  let expectedUnits : Nat ← ask w (.buildRoute market.symbol)
  orThrowExecution (expectedUnits ≠ 0) .quotedNothing
  pure expectedUnits

/-- Margin across, the short sized to what arrived, then the spot leg. -/
def deploy (cfg : Settings) (ticker : String) (spotNotional perpMargin leverageBps : Nat) :
    Script Unit := do
  let market ← marketFor venueMarkets ticker
  -- nothing has left Base yet, and the probe's error is a plain one
  let probe : Option Nat ← ask w (.getRoute market.symbol spotNotional)
  orThrow probe.isSome .noRoute
  let backing ← backing w perpMargin
  awaitRegistration w w.registrationPolls
  -- rounded up to a whole leverage, and a plain error after the crossing
  let _ ← ask w (.updateLeverage market.perpSymbol (max 1 ((leverageBps + (bps - 1)) / bps)))
  -- both legs are cut to what the margin that arrived can carry
  let carriable := backing * leverageBps / bps
  let spend := min carriable spotNotional
  orThrowExecution (spend ≥ cfg.minDeployUsdc) .belowMinimum
  let expectedUnits ← quoteSpend w market spend
  let lot ← lotUnits w market market.spotTokenDecimals
  let shortUnits := snapToLot expectedUnits lot
  orThrowExecution (shortUnits ≠ 0) .belowLot
  ensureAllowance w "USDC" spend
  createMarketOrder w market .perpOpen shortUnits market.spotTokenDecimals spend
  buySpot w market shortUnits spend

def topUpMargin (amount : Nat) : Script Unit := do
  let _ ← bridgeMargin w amount
  pure ()

/-! ### Unwinding -/

/-- A leg as an unwind prices it. -/
structure PricedLeg where
  market : VenueMarket
  balance : Nat
  value : Option Nat

def priceLegs : List VenueMarket → Script (List PricedLeg)
  | [] => pure []
  | market :: rest => do
      let balance : Nat ← ask w (.spotBalance market.symbol)
      let value ← spotSellRoute w market balance
      let others ← priceLegs rest
      pure (⟨market, balance, value⟩ :: others)

def PricedLeg.holding (leg : PricedLeg) : Holding :=
  ⟨leg.market.ticker, leg.value.getD 0, leg.market.targetWeightBps, leg.value.isSome⟩

/-- What a leg's slice is, in units; `none` where the loop moves on. -/
def sliceOf (legs : List PricedLeg) (allocation : String × Nat) : Option (VenueMarket × Nat) :=
  (legs.find? fun leg => leg.market.ticker = allocation.1).bind fun leg =>
    match leg.value with
    | none => none
    | some value =>
        let units := closeUnits leg.balance value allocation.2
        if value = 0 ∨ units = 0 then none else some (leg.market, units)

/-- The loop over the allocations: what the sales paid. -/
def closeSlices (legs : List PricedLeg) : List (String × Nat) → Script Int
  | [] => pure 0
  | allocation :: rest =>
      match sliceOf legs allocation with
      | none => closeSlices legs rest
      | some (market, units) => do
          let proceeds ← closeLeg w market units allocation.2
          let more ← closeSlices legs rest
          pure (proceeds + more)

/-- Raise an amount across the markets and return it. The margin comes home if it can. -/
def unwind (amount leverageBps : Nat) : Script Unit := do
  let legs ← priceLegs w venueMarkets
  orThrow (legs.any fun leg => leg.value.any (· > 0)) .nothingPriced
  let proceeds ← closeSlices w legs (allocateUnwind (legs.map PricedLeg.holding) amount)
  -- best effort: the proceeds go home without the margin
  let repatriated ← Effect.attempt (repatriateMargin w venueMarkets false (some leverageBps))
    fun _ => pure 0
  returnAll w (proceeds + repatriated)

/-! ### Closing -/

/-- A market closed in full. A failure is counted, and the activity it carries is added to
what there is. -/
def closeInFull (market : VenueMarket) (closeUnits : Nat) : Script Nat :=
  Effect.attempt (do
      let _ ← closeLeg w market closeUnits 0
      pure 0) fun failure => do
    -- the array a `VenueExecutionError` carries is the one it is pushed onto
    Effect.update fun r => { r with activity := r.activity ++ failure.activity.getD [] }
    pure 1

def closeMarket (market : VenueMarket) : Script Nat := do
  let balance : Nat ← ask w (.spotBalance market.symbol)
  let units ← perpPosition w market
  let position := fromUnits units market.spotTokenDecimals
  if balance = 0 ∧ position = 0 then pure 0
  else closeInFull w market (if balance > position then balance else position)

/-- Every market, one at a time: how many failed. -/
def closeMarkets : List VenueMarket → Script Nat
  | [] => pure 0
  | market :: rest => do
      let failed ← closeMarket w market
      let others ← closeMarkets rest
      pure (failed + others)

/-- The margin account swept: whether that failed. -/
def sweepMargin : Script Nat :=
  Effect.attempt (do
      let _ ← repatriateMargin w venueMarkets true none
      pure 0) fun _ => pure 1

/-- Everything closed, the margin swept, and the whole Base balance sent home. What could
not be closed is thrown at the end. -/
def closeAll : Script Unit := do
  let closing ← closeMarkets w venueMarkets
  let sweeping ← sweepMargin w venueMarkets
  -- the whole balance, not what was raised
  let onBase : Nat ← ask w .usdcBalance
  returnAll w onBase
  orThrowExecution (closing + sweeping = 0) .partlyOpen

/-! ### Rebalancing -/

/-- Trade the perp leg to the spot leg's size, when the grid and the minimum order allow. -/
def rebalance (ticker : String) (targetUnits : Nat) : Script Unit := do
  let market ← marketFor venueMarkets ticker
  let current ← perpPosition w market
  let delta : Int := targetUnits - current
  if delta = 0 then pure ()
  else do
    let lot ← lotUnits w market 18
    let correction := snapToLot delta.natAbs lot
    if correction = 0 then pure ()
    else do
      let minOrderUsd ← minOrderNotionalUsd w market
      let mark ← markPriceUsd w market
      let correctionUsd : ℚ := correction / 10 ^ 18 * mark
      if minOrderUsd > 0 ∧ correctionUsd < minOrderUsd then pure ()
      else createMarketOrder w market .perpRebalance correction 18 0

/-! ### What the worker publishes -/

/-- An action of the adapter, with what the worker calls it with. -/
inductive Action
  | deploy (ticker : String) (spotNotional perpMargin leverageBps : Nat)
  | unwind (amount leverageBps : Nat)
  | topUpMargin (amount : Nat)
  | rebalance (ticker : String) (targetUnits : Nat)
  | closeAll

def run (cfg : Settings) : Action → Script Unit
  | .deploy ticker spotNotional perpMargin leverageBps =>
      deploy w venueMarkets cfg ticker spotNotional perpMargin leverageBps
  | .unwind amount leverageBps => unwind w venueMarkets amount leverageBps
  | .topUpMargin amount => topUpMargin w amount
  | .rebalance ticker targetUnits => rebalance w venueMarkets ticker targetUnits
  | .closeAll => closeAll w venueMarkets

/-- The activity an action returns, or the one its error carries. -/
def published (ended : Except Failure Unit × Record) : List Entry :=
  match ended.1 with
  | .ok _ => ended.2.activity
  | .error failure => failure.activity.getD []

end Calls

end Agent

end LemonMarket
