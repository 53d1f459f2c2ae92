import LemonMarket.Lib.JsString
import LemonMarket.Lib.Number
import Mathlib.Algebra.Field.Rat
import Mathlib.Algebra.Order.Round
import Mathlib.Data.Rat.Floor
import Mathlib.Tactic.FieldSimp
import Mathlib.Tactic.Linarith
import Mathlib.Tactic.Positivity
import Mathlib.Tactic.Ring

/-!
# LemonMarket.Registry.Basis

**What a basis position earns, and a vault that holds one** (`basis.ts`, `vault-yield.ts`). A
position is long a token and short as much of the perp: it earns the funding of the short side on
its notional, and pays for four fills and the pool's impact. `planBasis` prices one,
`computeBasisEconomics` prices a row of the board with it, and `projectVaultApy` a vault.

The board and the projection are the same arithmetic: what a vault is projected to earn is what
its market's row says at the vault's leverage, less what the vault leaves idle and charges
(`projected_as_ranked`). Figures are exact: doubles round the two in different places, so there
they agree up to the last digits.
-/

namespace LemonMarket

namespace Registry

open Lib

def hoursPerYear : ℚ := 24 * 365

inductive AssetClass
  | equity | fx | crypto | rwa | commodity | metal | index | unknown
  deriving Repr, DecidableEq

structure Market where
  symbol : JsString
  base : JsString
  quote : JsString
  assetClass : AssetClass
  maxLeverage : Number
  minPositionUsdc : Number
  openInterest : Number
  availableOpenInterest : Number
  isListed : Bool
  closeOnly : Bool
  isOpen : Bool
  deriving DecidableEq

/-! ### One position -/

/-- Percent an hour, by side; a positive rate is received. -/
structure FundingRates where
  long : ℚ
  short : ℚ
  deriving DecidableEq

structure BasisCosts where
  spotFeePercent : ℚ
  perpFeePercent : ℚ
  spreadPercent : ℚ
  spotBuyImpactPercent : ℚ
  spotSellImpactPercent : ℚ
  gasUsd : ℚ
  deriving DecidableEq

/-- Both legs are crossed on the way in and again on the way out. -/
def roundTripFeePercent (costs : BasisCosts) : ℚ :=
  2 * (costs.spotFeePercent + costs.perpFeePercent) + costs.spreadPercent

def spotTakerPercent : ℚ := 1 / 10
def perpTakerPercent : ℚ := 1 / 10

def defaultCosts : BasisCosts where
  spotFeePercent := spotTakerPercent
  perpFeePercent := perpTakerPercent
  spreadPercent := 0
  spotBuyImpactPercent := 0
  spotSellImpactPercent := 0
  gasUsd := 0

/-- What a plan warns of, with what the text of it says. -/
inductive Warning
  | negativeFunding
  | costsExceedFunding
  | slowToRecover (days : Int)
  | closed (symbol : JsString)
  | noCashMarket
  | belowMinimum (symbol : JsString) (minimum : Number)
  | leverageCap (symbol : JsString) (cap : Number)
  deriving DecidableEq

structure BasisPlan where
  notionalUsd : ℚ
  spotCostUsd : ℚ
  perpCollateralUsd : ℚ
  perpLeverage : ℚ
  totalCapitalUsd : ℚ
  netFundingPerHourPercent : ℚ
  fundingAprPercent : ℚ
  fundingApyPercent : ℚ
  roundTripCostUsd : ℚ
  roundTripCostPercent : ℚ
  breakevenHours : Option ℚ
  netApyPercent : ℚ
  hasPositiveFunding : Bool
  isNetPositive : Bool
  warnings : List Warning
  deriving DecidableEq

def planBasis (notionalUsd perpLeverage : ℚ) (funding : FundingRates) (costs : BasisCosts)
    (market : Market) : BasisPlan :=
  let spotCostUsd := notionalUsd
  let perpCollateralUsd := if perpLeverage > 0 then notionalUsd / perpLeverage else notionalUsd
  let totalCapitalUsd := spotCostUsd + perpCollateralUsd
  -- the position holds the short side
  let netFundingPerHourPercent := funding.short
  let fundingAprPercent := netFundingPerHourPercent * hoursPerYear
  let annualFundingUsd := fundingAprPercent / 100 * notionalUsd
  let feePercent := roundTripFeePercent costs
  let slippagePercent := |costs.spotBuyImpactPercent| + |costs.spotSellImpactPercent|
  let roundTripCostUsd := (feePercent + slippagePercent) / 100 * notionalUsd + costs.gasUsd
  let fundingPerHourUsd := netFundingPerHourPercent / 100 * notionalUsd
  let breakevenHours :=
    if fundingPerHourUsd > 0 then some (roundTripCostUsd / fundingPerHourUsd) else none
  let netApyPercent :=
    if totalCapitalUsd > 0 then (annualFundingUsd - roundTripCostUsd) / totalCapitalUsd * 100
    else 0
  { notionalUsd
    spotCostUsd
    perpCollateralUsd
    perpLeverage
    totalCapitalUsd
    netFundingPerHourPercent
    fundingAprPercent
    fundingApyPercent :=
      if totalCapitalUsd > 0 then annualFundingUsd / totalCapitalUsd * 100 else 0
    roundTripCostUsd
    roundTripCostPercent :=
      if notionalUsd > 0 then roundTripCostUsd / notionalUsd * 100
      else feePercent + slippagePercent
    breakevenHours
    netApyPercent
    hasPositiveFunding := netFundingPerHourPercent > 0
    isNetPositive := netApyPercent > 0
    warnings :=
      (if netFundingPerHourPercent ≤ 0 then [.negativeFunding]
        else if netApyPercent ≤ 0 then [.costsExceedFunding] else []) ++
      (match breakevenHours with
        | some hours => if hours > 24 * 30 then [.slowToRecover (round (hours / 24))] else []
        | none => []) ++
      (if market.isOpen = false then [.closed market.symbol] else []) ++
      (if market.assetClass = .equity then [.noCashMarket] else []) ++
      (if (Number.finite notionalUsd).lt market.minPositionUsdc then
        [.belowMinimum market.symbol market.minPositionUsdc] else []) ++
      (if market.maxLeverage.lt (.finite perpLeverage) then
        [.leverageCap market.symbol market.maxLeverage] else []) }

/-! ### A row of the board -/

def referenceNotionalUsd : ℚ := 1000
def referenceLeverage : ℚ := 2

/-- The spread between the legs, as a percent of spot, where both have a price. -/
def spotPerpBasisPercent (spotPriceUsd perpMarkPrice : Option ℚ) : Option ℚ :=
  match spotPriceUsd, perpMarkPrice with
  | some spot, some mark =>
      if mark = 0 ∨ spot ≤ 0 then none else some ((mark - spot) / spot * 100)
  | _, _ => none

/-- What a row says of its position, in whatever its figures are. -/
structure BasisEconomics (Figure : Type) where
  basisPercent : Option ℚ
  fundingShortPercentPerHour : Figure
  fundingAprPercent : Figure
  fundingApyPercent : Figure
  roundTripCostPercent : Figure
  netApyPercent : Figure
  breakevenDays : Option Figure
  referenceNotionalUsd : ℚ
  referenceLeverage : ℚ
  deriving DecidableEq

def BasisEconomics.map {Figure Figure' : Type} (f : Figure → Figure')
    (economics : BasisEconomics Figure) : BasisEconomics Figure' where
  basisPercent := economics.basisPercent
  fundingShortPercentPerHour := f economics.fundingShortPercentPerHour
  fundingAprPercent := f economics.fundingAprPercent
  fundingApyPercent := f economics.fundingApyPercent
  roundTripCostPercent := f economics.roundTripCostPercent
  netApyPercent := f economics.netApyPercent
  breakevenDays := economics.breakevenDays.map f
  referenceNotionalUsd := economics.referenceNotionalUsd
  referenceLeverage := economics.referenceLeverage

structure BasisEconomicsInput where
  funding : FundingRates
  market : Market
  spotPriceUsd : Option ℚ
  perpMarkPrice : Option ℚ
  spotBuyImpactPercent : Option ℚ
  notionalUsd : Option ℚ := none
  leverage : Option ℚ := none

/-- The costs of a pool with this impact, in and out. -/
def costsOf (impact : ℚ) : BasisCosts :=
  { defaultCosts with spotBuyImpactPercent := impact, spotSellImpactPercent := impact }

def computeBasisEconomics (input : BasisEconomicsInput) : BasisEconomics ℚ :=
  let notionalUsd := input.notionalUsd.getD Registry.referenceNotionalUsd
  let leverage := input.leverage.getD Registry.referenceLeverage
  let plan := planBasis notionalUsd leverage input.funding
    (costsOf (input.spotBuyImpactPercent.getD 0)) input.market
  { basisPercent := spotPerpBasisPercent input.spotPriceUsd input.perpMarkPrice
    fundingShortPercentPerHour := plan.netFundingPerHourPercent
    fundingAprPercent := plan.fundingAprPercent
    fundingApyPercent := plan.fundingApyPercent
    roundTripCostPercent := plan.roundTripCostPercent
    netApyPercent := plan.netApyPercent
    breakevenDays := plan.breakevenHours.map (· / 24)
    referenceNotionalUsd := notionalUsd
    referenceLeverage := leverage }

/-! ### A vault -/

structure VaultYieldInput where
  fundingShortPercentPerHour : ℚ
  leverage : ℚ
  deployedFraction : ℚ
  managementFeeBps : ℚ
  performanceFeeBps : ℚ
  spotImpactPercent : Option ℚ := none
  market : Market
  roundTripsPerYear : Option ℚ := none

structure Assumptions where
  leverage : ℚ
  deployedFraction : ℚ
  managementFeeBps : ℚ
  performanceFeeBps : ℚ
  roundTripsPerYear : ℚ
  spotImpactPercent : ℚ
  deriving DecidableEq

structure VaultYieldProjection where
  fundingAprPercent : ℚ
  grossApyPercent : ℚ
  afterBufferApyPercent : ℚ
  afterCostsApyPercent : ℚ
  afterManagementApyPercent : ℚ
  netApyPercent : ℚ
  roundTripDragPercent : ℚ
  managementFeePercent : ℚ
  performanceFeeDragPercent : ℚ
  breakevenDays : Option ℚ
  fundingPositive : Bool
  assumptions : Assumptions
  deriving DecidableEq

def clamp (value low high : ℚ) : ℚ := min high (max low value)

def projectVaultApy (input : VaultYieldInput) : VaultYieldProjection :=
  let leverage := if input.leverage > 0 then input.leverage else 1
  let deployedFraction := clamp input.deployedFraction 0 1
  let roundTripsPerYear := input.roundTripsPerYear.getD 1
  let impact := |input.spotImpactPercent.getD 0|
  let plan := planBasis referenceNotionalUsd leverage
    ⟨-input.fundingShortPercentPerHour, input.fundingShortPercentPerHour⟩ (costsOf impact)
    input.market
  let grossApyPercent := plan.fundingApyPercent
  let afterBufferApyPercent := grossApyPercent * deployedFraction
  let roundTripDragPercent :=
    plan.roundTripCostPercent / (1 + 1 / leverage) * roundTripsPerYear * deployedFraction
  let afterCostsApyPercent := afterBufferApyPercent - roundTripDragPercent
  let managementFeePercent := input.managementFeeBps / 100
  let afterManagementApyPercent := afterCostsApyPercent - managementFeePercent
  -- nothing is charged on a loss
  let performanceFeeDragPercent :=
    if afterManagementApyPercent > 0 then
      afterManagementApyPercent * input.performanceFeeBps / (100 * 100)
    else 0
  { fundingAprPercent := plan.fundingAprPercent
    grossApyPercent
    afterBufferApyPercent
    afterCostsApyPercent
    afterManagementApyPercent
    netApyPercent := afterManagementApyPercent - performanceFeeDragPercent
    roundTripDragPercent
    managementFeePercent
    performanceFeeDragPercent
    breakevenDays := plan.breakevenHours.map (· / 24)
    fundingPositive := plan.hasPositiveFunding
    assumptions :=
      { leverage
        deployedFraction
        managementFeeBps := input.managementFeeBps
        performanceFeeBps := input.performanceFeeBps
        roundTripsPerYear
        spotImpactPercent := impact } }

/-! ### What a plan comes to -/

variable {notionalUsd : ℚ} (perpLeverage : ℚ) (funding : FundingRates) (costs : BasisCosts)
  (market : Market)

/-- The capital a position takes for a dollar of notional. -/
def capitalPerNotional (leverage : ℚ) : ℚ := 1 + 1 / (if leverage > 0 then leverage else 1)

theorem capitalPerNotional_pos (leverage : ℚ) : 0 < capitalPerNotional leverage := by
  rw [capitalPerNotional]
  split <;> positivity

theorem totalCapital_eq :
    (planBasis notionalUsd perpLeverage funding costs market).totalCapitalUsd =
      notionalUsd * capitalPerNotional perpLeverage := by
  simp only [planBasis, capitalPerNotional]
  split <;> ring

/-- The yields of a plan are those of its notional, on the capital that goes into it. -/
theorem planBasis_yields (h : 0 < notionalUsd) :
    let plan := planBasis notionalUsd perpLeverage funding costs market
    plan.fundingApyPercent = plan.fundingAprPercent / capitalPerNotional perpLeverage ∧
      plan.netApyPercent =
        (plan.fundingAprPercent - plan.roundTripCostPercent) / capitalPerNotional perpLeverage := by
  have hcapital := capitalPerNotional_pos perpLeverage
  have hpos : notionalUsd * capitalPerNotional perpLeverage > 0 := mul_pos h hcapital
  have htotal : (planBasis notionalUsd perpLeverage funding costs market).totalCapitalUsd =
      notionalUsd * capitalPerNotional perpLeverage :=
    totalCapital_eq perpLeverage funding costs market
  simp only [planBasis] at htotal ⊢
  simp only [htotal, if_pos hpos, if_pos h]
  constructor <;> field_simp

/-- It pays for itself in the hours its funding takes to make up the costs. -/
theorem breakevenHours_eq (h : 0 < notionalUsd) :
    let plan := planBasis notionalUsd perpLeverage funding costs market
    plan.breakevenHours =
      if 0 < funding.short then some (plan.roundTripCostPercent / funding.short) else none := by
  have hiff : funding.short / 100 * notionalUsd > 0 ↔ 0 < funding.short := by
    rw [gt_iff_lt, mul_pos_iff_of_pos_right h]
    constructor <;> intro hpos <;> linarith
  simp only [planBasis, hiff, if_pos h]
  split
  next hpos =>
    congr 1
    field_simp
  next => rfl

/-- A year of it is profitable exactly when it pays for itself within one. -/
theorem netApy_pos_iff (h : 0 < notionalUsd)
    (hcosts : 0 ≤ (planBasis notionalUsd perpLeverage funding costs market).roundTripCostPercent) :
    let plan := planBasis notionalUsd perpLeverage funding costs market
    0 < plan.netApyPercent ↔ ∃ hours ∈ plan.breakevenHours, hours < hoursPerYear := by
  intro plan
  obtain ⟨-, hnet⟩ := planBasis_yields perpLeverage funding costs market h
  have hapr : plan.fundingAprPercent = funding.short * hoursPerYear := rfl
  have hyear : 0 < hoursPerYear := by norm_num [hoursPerYear]
  rw [hnet, div_pos_iff_of_pos_right (capitalPerNotional_pos perpLeverage), sub_pos,
    breakevenHours_eq perpLeverage funding costs market h]
  by_cases hpos : 0 < funding.short
  · simp only [if_pos hpos, Option.mem_some_iff, exists_eq_left', div_lt_iff₀ hpos]
    rw [hapr, mul_comm]
  · simp only [if_neg hpos, Option.mem_def, reduceCtorEq, false_and, exists_false, iff_false,
      not_lt]
    refine le_trans ?_ hcosts
    rw [hapr]
    exact mul_nonpos_of_nonpos_of_nonneg (not_lt.mp hpos) hyear.le

theorem costsOf_nonneg (impact : ℚ) (h : 0 < notionalUsd) : 0 ≤
    (planBasis notionalUsd perpLeverage funding (costsOf impact) market).roundTripCostPercent := by
  simp only [planBasis, if_pos h, roundTripFeePercent, costsOf, defaultCosts, spotTakerPercent,
    perpTakerPercent]
  positivity

/-! ### The projection of a vault -/

/-- The plan that a vault's market is priced by, at the vault's leverage. -/
def VaultYieldInput.plan (input : VaultYieldInput) : BasisPlan :=
  planBasis referenceNotionalUsd input.leverage
    ⟨-input.fundingShortPercentPerHour, input.fundingShortPercentPerHour⟩
    (costsOf (input.spotImpactPercent.getD 0)) input.market

/-- The row of a vault's market, at the vault's leverage. -/
def VaultYieldInput.row (input : VaultYieldInput) (spotPriceUsd perpMarkPrice : Option ℚ) :
    BasisEconomics ℚ :=
  computeBasisEconomics
    { funding := ⟨-input.fundingShortPercentPerHour, input.fundingShortPercentPerHour⟩
      market := input.market
      spotPriceUsd
      perpMarkPrice
      spotBuyImpactPercent := input.spotImpactPercent
      leverage := some input.leverage }

/-- What is left of a yield when the performance fee has been taken off it. -/
def kept (performanceFeeBps yield : ℚ) : ℚ :=
  if 0 < yield then yield - yield * performanceFeeBps / (100 * 100) else yield

/-- Two vaults with the same terms, which trade in and out once a year. -/
structure SameTerms (a b : VaultYieldInput) : Prop where
  deployed : a.deployedFraction = b.deployedFraction
  management : a.managementFeeBps = b.managementFeeBps
  performance : a.performanceFeeBps = b.performanceFeeBps
  once : a.roundTripsPerYear.getD 1 = 1
  once' : b.roundTripsPerYear.getD 1 = 1

variable {performanceFeeBps x : ℚ}

theorem referenceNotional_pos : 0 < referenceNotionalUsd := by norm_num [referenceNotionalUsd]

theorem kept_pos_iff (h : performanceFeeBps < 10000) : 0 < kept performanceFeeBps x ↔ 0 < x := by
  rw [kept]
  split
  next hx => exact iff_of_true (by nlinarith) hx
  next => rfl

theorem kept_strictMono (h : performanceFeeBps < 10000) : StrictMono (kept performanceFeeBps) := by
  intro x y hxy
  by_cases hx : 0 < x
  · have hy : 0 < y := hx.trans hxy
    rw [kept, kept, if_pos hx, if_pos hy]
    nlinarith
  · by_cases hy : 0 < y
    · calc kept performanceFeeBps x = x := if_neg hx
        _ ≤ 0 := not_lt.mp hx
        _ < kept performanceFeeBps y := (kept_pos_iff h).mpr hy
    · rw [kept, kept, if_neg hx, if_neg hy]
      exact hxy

/-- A leverage of nothing is taken as one, in the plan as in the projection. -/
theorem planBasis_leverage (notionalUsd : ℚ) :
    let plan := planBasis notionalUsd perpLeverage funding costs market
    let plan' :=
      planBasis notionalUsd (if perpLeverage > 0 then perpLeverage else 1) funding costs market
    plan'.fundingApyPercent = plan.fundingApyPercent ∧
      plan'.netApyPercent = plan.netApyPercent ∧
      plan'.roundTripCostPercent = plan.roundTripCostPercent ∧
      plan'.breakevenHours = plan.breakevenHours := by
  by_cases h : perpLeverage > 0
  · simp [h]
  · simp [planBasis, h]

/-- A plan takes impact by its magnitude. -/
theorem planBasis_abs (impact : ℚ) :
    planBasis notionalUsd perpLeverage funding (costsOf |impact|) market =
      planBasis notionalUsd perpLeverage funding (costsOf impact) market := by
  unfold planBasis
  rw [show |(costsOf |impact|).spotBuyImpactPercent| = |(costsOf impact).spotBuyImpactPercent|
      from abs_abs impact,
    show |(costsOf |impact|).spotSellImpactPercent| = |(costsOf impact).spotSellImpactPercent|
      from abs_abs impact]
  rfl

/-- What a projection reads off its plan is what the row does. -/
theorem projection_reads (input : VaultYieldInput) (spotPriceUsd perpMarkPrice : Option ℚ) :
    let p := projectVaultApy input
    let row := input.row spotPriceUsd perpMarkPrice
    p.fundingAprPercent = row.fundingAprPercent ∧ p.grossApyPercent = row.fundingApyPercent ∧
      p.breakevenDays = row.breakevenDays ∧
      p.roundTripDragPercent = row.roundTripCostPercent / capitalPerNotional input.leverage *
        p.assumptions.roundTripsPerYear * p.assumptions.deployedFraction := by
  obtain ⟨hgross, -, hcost, hbreakeven⟩ := planBasis_leverage input.leverage
    ⟨-input.fundingShortPercentPerHour, input.fundingShortPercentPerHour⟩
    (costsOf (input.spotImpactPercent.getD 0)) input.market referenceNotionalUsd
  simp only [projectVaultApy, VaultYieldInput.row, computeBasisEconomics, planBasis_abs,
    Option.getD_some, Option.getD_none, hgross, hcost, hbreakeven, capitalPerNotional]
  exact ⟨rfl, trivial, trivial, trivial⟩

/-- What is left after the costs: the row's funding, less its costs so many times a year, on
what is deployed. -/
theorem afterCosts_eq (input : VaultYieldInput) (spotPriceUsd perpMarkPrice : Option ℚ) :
    let p := projectVaultApy input
    let row := input.row spotPriceUsd perpMarkPrice
    p.afterCostsApyPercent = p.assumptions.deployedFraction * (row.fundingApyPercent -
      p.assumptions.roundTripsPerYear * (row.fundingApyPercent - row.netApyPercent)) := by
  intro p row
  obtain ⟨-, hgross, -, hdrag⟩ := projection_reads input spotPriceUsd perpMarkPrice
  obtain ⟨hfunding, hnet⟩ := planBasis_yields input.leverage
    ⟨-input.fundingShortPercentPerHour, input.fundingShortPercentPerHour⟩
    (costsOf (input.spotImpactPercent.getD 0)) input.market referenceNotional_pos
  have hcost : row.fundingApyPercent - row.netApyPercent =
      row.roundTripCostPercent / capitalPerNotional input.leverage := by
    have hfunding : row.fundingApyPercent =
        row.fundingAprPercent / capitalPerNotional input.leverage := hfunding
    have hnet : row.netApyPercent = (row.fundingAprPercent - row.roundTripCostPercent) /
        capitalPerNotional input.leverage := hnet
    rw [hfunding, hnet]
    ring
  calc p.afterCostsApyPercent
      = p.grossApyPercent * p.assumptions.deployedFraction - p.roundTripDragPercent := rfl
    _ = _ := by
      rw [hgross, hdrag, hcost]
      ring

theorem netApy_eq (input : VaultYieldInput) : (projectVaultApy input).netApyPercent =
    kept input.performanceFeeBps
      ((projectVaultApy input).afterCostsApyPercent - input.managementFeeBps / 100) := by
  generalize hyield : (projectVaultApy input).afterCostsApyPercent - input.managementFeeBps / 100 =
    yield
  have hdrag : (projectVaultApy input).performanceFeeDragPercent =
      if yield > 0 then yield * input.performanceFeeBps / (100 * 100) else 0 := by
    rw [← hyield]
    rfl
  calc (projectVaultApy input).netApyPercent
      = yield - (projectVaultApy input).performanceFeeDragPercent := by
        rw [← hyield]
        rfl
    _ = kept input.performanceFeeBps yield := by
        rw [hdrag, kept]
        split
        next => rfl
        next => exact sub_zero yield

/-- **A vault is projected as its market is ranked.** A vault that trades in and out once a year
is projected to earn what its market's row says at the vault's leverage, on what it deploys, less
the management fee, and of a gain less the performance fee. So it earns exactly where the row
pays for the fee, the row is positive exactly where the position pays for itself within the
year, and two vaults on the same terms are projected in the order of their markets' rows. -/
theorem projected_as_ranked {a b : VaultYieldInput} (hterms : SameTerms a b)
    (hdeployed : 0 < a.deployedFraction) (hperformance : a.performanceFeeBps < 10000)
    (spotPriceUsd perpMarkPrice spotPriceUsd' perpMarkPrice' : Option ℚ) :
    let p := projectVaultApy a
    let row := a.row spotPriceUsd perpMarkPrice
    p.netApyPercent = kept a.performanceFeeBps
        (p.assumptions.deployedFraction * row.netApyPercent - a.managementFeeBps / 100) ∧
      (0 < p.netApyPercent ↔
        a.managementFeeBps / 100 < p.assumptions.deployedFraction * row.netApyPercent) ∧
      (0 < row.netApyPercent ↔ ∃ days ∈ p.breakevenDays, days < 365) ∧
      (p.netApyPercent ≤ (projectVaultApy b).netApyPercent ↔
        row.netApyPercent ≤ (b.row spotPriceUsd' perpMarkPrice').netApyPercent) := by
  intro p row
  -- with one round trip a year both count the same costs
  have hnet : ∀ (input : VaultYieldInput) (spot mark : Option ℚ),
      input.roundTripsPerYear.getD 1 = 1 → (projectVaultApy input).netApyPercent =
        kept input.performanceFeeBps (clamp input.deployedFraction 0 1 *
          (input.row spot mark).netApyPercent - input.managementFeeBps / 100) := by
    intro input spot mark honce
    have htrips : (projectVaultApy input).assumptions.roundTripsPerYear = 1 := honce
    rw [netApy_eq, afterCosts_eq input spot mark, htrips, one_mul, sub_sub_cancel]
    rfl
  -- the row is positive where the funding of a year outweighs what it costs to trade
  have hdays : 0 < row.netApyPercent ↔ ∃ days ∈ p.breakevenDays, days < 365 := by
    obtain ⟨-, -, hbreakeven, -⟩ := projection_reads a spotPriceUsd perpMarkPrice
    have hpositive := netApy_pos_iff a.leverage
      ⟨-a.fundingShortPercentPerHour, a.fundingShortPercentPerHour⟩
      (costsOf (a.spotImpactPercent.getD 0)) a.market referenceNotional_pos
      (costsOf_nonneg _ _ _ _ referenceNotional_pos)
    have hrow : row.breakevenDays = a.plan.breakevenHours.map (· / 24) := rfl
    refine hpositive.trans ?_
    rw [hbreakeven, hrow]
    simp only [Option.mem_map, exists_exists_and_eq_and]
    refine exists_congr fun hours => and_congr_right fun _ => ?_
    rw [div_lt_iff₀ (by norm_num), hoursPerYear]
    norm_num
  have hmine := hnet a spotPriceUsd perpMarkPrice hterms.once
  have htheirs := hnet b spotPriceUsd' perpMarkPrice' hterms.once'
  rw [← hterms.deployed, ← hterms.management, ← hterms.performance] at htheirs
  have hfraction : 0 < clamp a.deployedFraction 0 1 := by
    rw [clamp]
    exact lt_min one_pos (lt_max_of_lt_right hdeployed)
  refine ⟨hmine, ?_, hdays, ?_⟩
  · rw [hmine, kept_pos_iff hperformance, sub_pos]
    rfl
  · rw [hmine, htheirs, (kept_strictMono hperformance).le_iff_le, sub_le_sub_iff_right,
      mul_le_mul_iff_right₀ hfraction]

namespace Test

/-- Tokenized equities, as the venue lists them. -/
def equity : Market where
  symbol := js "NVDA/USD"
  base := js "NVDA"
  quote := js "USD"
  assetClass := .equity
  maxLeverage := .finite 5
  minPositionUsdc := .finite 100
  openInterest := .finite 86842
  availableOpenInterest := .finite 1491263
  isListed := true
  closeOnly := false
  isOpen := true

/-- A vault on the conservative terms, at a rate of so many millionths of a percent an hour. -/
def conservative (rate : ℚ) : VaultYieldInput where
  fundingShortPercentPerHour := rate / 1000000
  leverage := 1
  deployedFraction := 9 / 10
  managementFeeBps := 200
  performanceFeeBps := 2000
  market := equity

/-- The same vault at two rates: at the better one it earns, and no less. -/
theorem projected_as_ranked_conservative :
    0 < (projectVaultApy (conservative 1000)).netApyPercent ∧
      (projectVaultApy (conservative 500)).netApyPercent ≤
        (projectVaultApy (conservative 1000)).netApyPercent := by
  obtain ⟨-, hpositive, -, -⟩ := projected_as_ranked
    (a := conservative 1000) (b := conservative 500) ⟨rfl, rfl, rfl, rfl, rfl⟩ (by decide +kernel)
    (by decide +kernel) none none none none
  obtain ⟨-, -, -, hranked⟩ := projected_as_ranked
    (a := conservative 500) (b := conservative 1000) ⟨rfl, rfl, rfl, rfl, rfl⟩ (by decide +kernel)
    (by decide +kernel) none none none none
  exact ⟨hpositive.mpr (by decide +kernel), hranked.mpr (by decide +kernel)⟩

end Test

end Registry

end LemonMarket
