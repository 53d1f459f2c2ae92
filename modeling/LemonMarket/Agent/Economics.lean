import Mathlib.Algebra.Order.Round
import Mathlib.Data.Rat.Floor
import LemonMarket.Contracts.State

/-!
# LemonMarket.Agent.Economics

**What an action costs to run** (`economics.ts`). A cost has a fixed half (gas,
crossings, the venue's withdrawal fee) and a half proportional to the notional
traded; `economicFloor` turns the first into the smallest amount worth moving and
`breakevenHours` sets the whole against the funding a position earns.

Money is `bigint` in the source and an integer here, with `Int.tdiv` for its
truncating division. A JavaScript `number` that is a price or a percent is an exact
rational; the roundings the source makes explicitly (`Math.round`) are kept, those
of the floating point format are not. The texts of `breakdown` and `reason` are
left out.
-/

namespace LemonMarket

namespace Agent

open LemonVault (bps)

/-! ### Settings -/

/-- What the agent reads from its environment at start. The fields that are
checked there carry the check. -/
structure Settings where
  marginBufferBps : Nat := 300
  minTopUpUsdc : Nat := 5000000
  minDeployUsdc : Nat := 30000000
  baseTxGasUsdc : Nat := 10000
  bridgeCrossingUsdc : Nat := 250000
  actionPayoffMultiple : ℚ := 10
  maxBreakevenDays : ℚ := 30
  marginBuffer_pos : 0 < marginBufferBps := by decide
  marginBuffer_lt : marginBufferBps < bps := by decide
  payoff_pos : 0 < actionPayoffMultiple := by norm_num
  breakeven_pos : 0 < maxBreakevenDays := by norm_num

/-- The agent started with none of its variables set. -/
def Settings.default : Settings := {}

/-! ### The cost of an action -/

/-- The kinds of action `costOf` can price. -/
inductive ActionClass
  | deploy
  | unwind
  | topUp
  | rebalance
  deriving Repr, DecidableEq

/-- Transactions, crossings and venue withdrawals an action commits to. -/
structure Shape where
  baseTxs : Nat
  crossings : Nat
  withdrawals : Nat
  deriving Repr, DecidableEq

def shape : ActionClass → Shape
  | .deploy => ⟨5, 1, 0⟩
  | .unwind => ⟨4, 1, 1⟩
  | .topUp => ⟨4, 1, 0⟩
  | .rebalance => ⟨0, 0, 0⟩

/-- `VENUE_FEES` of `@lemon/core`, percent of notional. -/
def spotTakerPercent : ℚ := 1 / 10

def perpTakerPercent : ℚ := 1 / 10

/-- What the venue and the pool take. -/
structure TradeFrictions where
  spotImpactPercent : ℚ
  spotGasUsdc : Int
  withdrawalFeeUsdc : Int

structure ActionCost where
  totalUsdc : Int
  fixedUsdc : Int
  variableUsdc : Int

/-- A percent of an amount, through hundred-thousandths of a percent. -/
def percentOf (amountUsdc : Int) (percent : ℚ) : Int :=
  if amountUsdc ≤ 0 ∨ percent = 0 then 0
  else (amountUsdc * round (percent * 100000)).tdiv 10000000

def costOf (cfg : Settings) (kind : ActionClass) (notionalUsdc : Int)
    (frictions : TradeFrictions) : ActionCost :=
  let touchesSpot := (shape kind).baseTxs > 0
  let gas := cfg.baseTxGasUsdc * (shape kind).baseTxs +
    if touchesSpot then frictions.spotGasUsdc else 0
  let bridge := cfg.bridgeCrossingUsdc * (shape kind).crossings
  let withdrawal := frictions.withdrawalFeeUsdc * (shape kind).withdrawals
  let fixedUsdc := gas + bridge + withdrawal
  let takerPercent := if touchesSpot then perpTakerPercent + spotTakerPercent else perpTakerPercent
  let impactPercent := if touchesSpot then |frictions.spotImpactPercent| else 0
  let notional := if notionalUsdc > 0 then notionalUsdc else 0
  let variableUsdc := percentOf notional (takerPercent + impactPercent)
  ⟨fixedUsdc + variableUsdc, fixedUsdc, variableUsdc⟩

/-- The smallest amount of an action worth committing to. -/
def economicFloor (cfg : Settings) (cost : ActionCost) : Int :=
  cost.fixedUsdc * max 1 (round cfg.actionPayoffMultiple)

/-- Hours of funding that recover a cost, unless funding never does. -/
def breakevenHours (costUsdc notionalUsdc : Int) (fundingShortPercentPerHour : ℚ) : Option ℚ :=
  if fundingShortPercentPerHour ≤ 0 ∨ notionalUsdc ≤ 0 then none
  else
    let perHourUsdc := percentOf notionalUsdc fundingShortPercentPerHour
    if perHourUsdc ≤ 0 then none else some (costUsdc / perHourUsdc)

end Agent

end LemonMarket
