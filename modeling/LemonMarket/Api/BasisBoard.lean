import LemonMarket.Lib.Double
import LemonMarket.Registry.Pairing

/-!
# LemonMarket.Api.BasisBoard

**The board** (`markets.ts`, `spot.ts`, `basis-markets.ts`): the registry's tokens joined with the
venue's catalog and the last routability probe. The catalog is read twice, once for pairing the
tokens and once for the markets they are joined with, and may have been refreshed in between.

A token is on the board or among the unpaired, and a row is of a market on its own underlying; the
rows that can be entered come first, by what they earn net (`board_complete`).

What the venue and the probe answer may be no number. Such a figure blocks nothing, and a row
whose net figure is none compares the same with any other, so that a board with one on it is in
some order only. Finite figures are exact.
-/

namespace LemonMarket

namespace Api

namespace BasisBoard

open Lib NumberText NearMpc Registry

/-! ### The legs -/

structure MarketWithEconomics extends Market where
  fundingLongPercentPerHour : Number
  fundingShortPercentPerHour : Number
  pacifica : PacificaMarket
  deriving DecidableEq

/-- A market of the venue, as the app speaks of it: its rate is what longs pay. -/
def toShared (market : PacificaMarket) : MarketWithEconomics where
  symbol := market.symbol
  base := market.base
  quote := market.quote
  assetClass := market.assetClass
  maxLeverage := market.maxLeverage
  minPositionUsdc := market.minOrderSize
  openInterest := market.openInterest
  availableOpenInterest := (Number.finite 0).max (market.maxOrderSize - market.openInterest)
  isListed := true
  closeOnly := false
  isOpen := true
  fundingLongPercentPerHour := -(market.fundingRate * .finite 100)
  fundingShortPercentPerHour := market.fundingRate * .finite 100
  pacifica := market

/-- A token with what the last probe of it found. -/
structure SpotToken extends StockToken where
  buyable : Bool
  sellable : Bool
  buyPriceImpactPercent : Option Number
  spotPriceUsd : Option ℚ
  probeFailed : Bool
  routabilityCheckedAt : Option Nat
  deriving DecidableEq

/-- The tokens, paired with the markets of a reading, as the probes there are found them. -/
def getSpotTokens (casing : Casing) (markets : List PacificaMarket) (seeds : List SpotTokenSeed)
    (routability : Option (List TokenRoutability)) : List SpotToken :=
  (pairTokensWithMarkets casing markets seeds).map fun token =>
    let probe := lastWith TokenRoutability.symbol (routability.getD []) token.symbol
    { token with
      buyable := (probe.map (·.buyable)).getD false
      sellable := (probe.map (·.sellable)).getD false
      buyPriceImpactPercent := probe.bind (·.buyPriceImpactPercent)
      spotPriceUsd := probe.bind (·.spotPriceUsd)
      probeFailed := (probe.map (·.probeFailed)).getD false
      routabilityCheckedAt := probe.map (·.checkedAt) }

/-! ### A row -/

/-- Why a pair cannot be entered, with what the text of it says. -/
inductive Blocker
  | probeFailed
  | noRoute (symbol : JsString)
  | noExit (symbol : JsString)
  | noLiquidity (symbol : JsString) (impactPercent : Number)
  | notAccepting (symbol : JsString)
  | noMark (symbol : JsString)
  | noHeadroom (symbol : JsString)
  | priceDivergence (spot perp : JsString) (percent : ℚ)
  deriving DecidableEq

def maxProbeImpactPercent : ℚ := 10
def maxPriceDivergencePercent : ℚ := 5

def blockersFor (token : SpotToken) (market : MarketWithEconomics) : List Blocker :=
  (if token.probeFailed then [.probeFailed]
    else if !token.buyable then [.noRoute token.symbol]
    else if !token.sellable then [.noExit token.symbol]
    else []) ++
  (match token.buyPriceImpactPercent with
    | some impact =>
        if token.buyable && (Number.finite maxProbeImpactPercent).lt impact.abs then
          [.noLiquidity token.symbol impact.abs]
        else []
    | none => []) ++
  (if !market.isListed || market.closeOnly then [.notAccepting market.symbol] else []) ++
  (if market.pacifica.markPrice = none then [.noMark market.symbol] else []) ++
  (if market.availableOpenInterest.le (.finite 0) then [.noHeadroom market.symbol] else []) ++
  (match spotPerpBasisPercent token.spotPriceUsd market.pacifica.markPrice with
    | some divergence =>
        if |divergence| > maxPriceDivergencePercent then
          [.priceDivergence token.symbol market.symbol |divergence|]
        else []
    | none => [])

/-- `computeBasisEconomics` for the board, of a rate and an impact that may be no numbers. -/
def economicsOf (fundingShort : Number) (spotPriceUsd perpMarkPrice : Option ℚ)
    (spotBuyImpactPercent : Option Number) : BasisEconomics Number :=
  let notionalUsd : Number := .finite referenceNotionalUsd
  let totalCapitalUsd := notionalUsd + notionalUsd / .finite referenceLeverage
  let impact := spotBuyImpactPercent.getD (.finite 0)
  let fundingAprPercent := fundingShort * .finite hoursPerYear
  let annualFundingUsd := fundingAprPercent / .finite 100 * notionalUsd
  let feePercent : Number := .finite (roundTripFeePercent defaultCosts)
  let slippagePercent := impact.abs + impact.abs
  let roundTripCostUsd := (feePercent + slippagePercent) / .finite 100 * notionalUsd + .finite 0
  let fundingPerHourUsd := fundingShort / .finite 100 * notionalUsd
  { basisPercent := spotPerpBasisPercent spotPriceUsd perpMarkPrice
    fundingShortPercentPerHour := fundingShort
    fundingAprPercent
    fundingApyPercent := annualFundingUsd / totalCapitalUsd * .finite 100
    roundTripCostPercent := roundTripCostUsd / notionalUsd * .finite 100
    netApyPercent := (annualFundingUsd - roundTripCostUsd) / totalCapitalUsd * .finite 100
    breakevenDays :=
      if (Number.finite 0).lt fundingPerHourUsd then
        some (roundTripCostUsd / fundingPerHourUsd / .finite 24)
      else none
    referenceNotionalUsd
    referenceLeverage }

structure SpotLeg where
  symbol : JsString
  address : JsString
  decimals : Nat
  priceUsd : Option ℚ
  buyable : Bool
  sellable : Bool
  priceImpactPercent : Option Number
  probeFailed : Bool
  checkedAt : Option Nat
  deriving DecidableEq

structure PerpLeg where
  symbol : JsString
  pacificaSymbol : JsString
  markPrice : Option ℚ
  maxLeverage : Number
  minPositionUsdc : Number
  lotSize : Number
  tickSize : Number
  openInterest : Number
  availableOpenInterest : Number
  isOpen : Bool
  fundingShortPercentPerHour : Number
  fundingLongPercentPerHour : Number
  deriving DecidableEq

structure BasisMarket where
  id : JsString
  ticker : JsString
  name : JsString
  isEquity : Bool
  spot : SpotLeg
  perp : PerpLeg
  economics : BasisEconomics Number
  blockers : List Blocker
  deriving DecidableEq

def toBasisMarket (casing : Casing) (token : SpotToken) (market : MarketWithEconomics) :
    BasisMarket where
  id := casing.toUpperCase token.ticker
  ticker := token.ticker
  name := token.name
  isEquity := market.assetClass = .equity
  spot :=
    { symbol := token.symbol
      address := token.address
      decimals := token.decimals
      priceUsd := token.spotPriceUsd
      buyable := token.buyable
      sellable := token.sellable
      priceImpactPercent := token.buyPriceImpactPercent
      probeFailed := token.probeFailed
      checkedAt := token.routabilityCheckedAt }
  perp :=
    { symbol := market.symbol
      pacificaSymbol := market.pacifica.pacificaSymbol
      markPrice := market.pacifica.markPrice
      maxLeverage := market.maxLeverage
      minPositionUsdc := market.minPositionUsdc
      lotSize := market.pacifica.lotSize
      tickSize := market.pacifica.tickSize
      openInterest := market.openInterest
      availableOpenInterest := market.availableOpenInterest
      isOpen := market.isOpen
      fundingShortPercentPerHour := market.fundingShortPercentPerHour
      fundingLongPercentPerHour := market.fundingLongPercentPerHour }
  economics := economicsOf market.fundingShortPercentPerHour token.spotPriceUsd
    market.pacifica.markPrice token.buyPriceImpactPercent
  blockers := blockersFor token market

/-! ### The list -/

/-- What the venue answered. -/
structure Reading where
  info : List PacificaMarketInfo
  prices : List PacificaPrice

structure UnpairedSpotAsset where
  symbol : JsString
  ticker : JsString
  name : JsString
  deriving DecidableEq

structure BasisMarketList where
  markets : List BasisMarket
  unpaired : List UnpairedSpotAsset
  routabilityKnown : Bool

/-- The comparison the rows are sorted by: the blocked last, then what is earned net. -/
def compareRows (a b : BasisMarket) : Number :=
  let blocked : ℚ :=
    (if a.blockers.length > 0 then 1 else 0) - (if b.blockers.length > 0 then 1 else 0)
  if blocked ≠ 0 then .finite blocked
  else b.economics.netApyPercent - a.economics.netApyPercent

section

variable (casing : Casing) (sorting : Sorting) (localeCompare : JsString → JsString → Number)

def Reading.markets (r : Reading) : List PacificaMarket := joinMarkets casing r.info r.prices

/-- The market a token is joined with. -/
def marketOf (listed : Reading) (token : SpotToken) : Option MarketWithEconomics :=
  token.perpSymbol.bind fun symbol =>
    lastWith (·.symbol) ((listed.markets casing).map toShared) symbol

def rowOf (listed : Reading) (token : SpotToken) : Option BasisMarket :=
  (marketOf casing listed token).map (toBasisMarket casing token)

def unpairedOf (token : SpotToken) : UnpairedSpotAsset := ⟨token.symbol, token.ticker, token.name⟩

/-- `listBasisMarkets`, with the reading the tokens were paired with, and the one their markets
are looked up in. -/
def listBasisMarkets (paired listed : Reading) (seeds : List SpotTokenSeed)
    (routability : Option (List TokenRoutability)) : BasisMarketList :=
  let tokens := getSpotTokens casing (paired.markets casing) seeds routability
  { markets := sorting.sort compareRows (tokens.filterMap (rowOf casing listed))
    unpaired := sorting.sort (fun a b => localeCompare a.ticker b.ticker)
      ((tokens.filter fun token => (marketOf casing listed token).isNone).map unpairedOf)
    routabilityKnown := routability.isSome }

end

/-! ### What is on the board -/

variable {casing : Casing} {paired listed : Reading} {seeds : List SpotTokenSeed}
  {routability : Option (List TokenRoutability)} {token : SpotToken} {market : MarketWithEconomics}
  {row : BasisMarket}

/-- What a token is listed as, on the board or off it. -/
def assetOf (seed : SpotTokenSeed) : UnpairedSpotAsset := ⟨seed.symbol, seed.ticker, seed.name⟩

def BasisMarket.asset (row : BasisMarket) : UnpairedSpotAsset :=
  ⟨row.spot.symbol, row.ticker, row.name⟩

/-- Both legs of a row can be traded, out as well as in, at prices that go together, and neither
is known to be short of depth. -/
structure Enterable (row : BasisMarket) : Prop where
  probed : row.spot.probeFailed = false
  buyable : row.spot.buyable = true
  sellable : row.spot.sellable = true
  deep : ∀ impact ∈ row.spot.priceImpactPercent,
    (Number.finite maxProbeImpactPercent).lt impact.abs = false
  quoted : row.perp.markPrice.isSome
  headroom : row.perp.availableOpenInterest.le (.finite 0) = false
  agreed : ∀ basis ∈ row.economics.basisPercent, |basis| ≤ maxPriceDivergencePercent

theorem mem_getSpotTokens {markets : List PacificaMarket}
    (h : token ∈ getSpotTokens casing markets seeds routability) :
    token.toSpotTokenSeed ∈ seeds ∧
      token.perpSymbol = (resolveMarket casing markets token.ticker).map (·.symbol) := by
  obtain ⟨stock, hstock, rfl⟩ := List.mem_map.mp h
  obtain ⟨seed, hseed, rfl⟩ := List.mem_map.mp hstock
  exact ⟨hseed, rfl⟩

/-- The tokens are the seeds, in order. -/
theorem map_getSpotTokens (casing : Casing) (markets : List PacificaMarket)
    (seeds : List SpotTokenSeed) (routability : Option (List TokenRoutability)) :
    (getSpotTokens casing markets seeds routability).map (·.toSpotTokenSeed) = seeds := by
  simp [getSpotTokens, pairTokensWithMarkets, Function.comp_def]

theorem exists_token {markets : List PacificaMarket} {seed : SpotTokenSeed} (h : seed ∈ seeds) :
    ∃ token ∈ getSpotTokens casing markets seeds routability, token.toSpotTokenSeed = seed := by
  rw [← map_getSpotTokens casing markets seeds routability] at h
  exact List.mem_map.mp h

theorem marketOf_some (h : marketOf casing listed token = some market) :
    token.perpSymbol = some market.symbol ∧
      ∃ i ∈ listed.info, market = toShared (joined casing listed.prices i) := by
  obtain ⟨symbol, hsymbol, hlast⟩ := Option.bind_eq_some_iff.mp h
  obtain ⟨hmem, rfl⟩ := lastWith_some hlast
  obtain ⟨m, hm, rfl⟩ := List.mem_map.mp hmem
  obtain ⟨i, hi, rfl⟩ := List.mem_map.mp hm
  exact ⟨hsymbol, i, hi, rfl⟩

/-- A token is joined with a market on its own underlying, whichever reading it was paired by. -/
theorem marketOf_hedges {markets : List PacificaMarket} (hshown : ∀ m ∈ markets, Shown casing m)
    (htoken : token ∈ getSpotTokens casing markets seeds routability)
    (h : marketOf casing listed token = some market) : ∃ i ∈ listed.info,
      market = toShared (joined casing listed.prices i) ∧
        Hedges casing token.ticker (joined casing listed.prices i) := by
  obtain ⟨hsymbol, i, hi, rfl⟩ := marketOf_some h
  obtain ⟨-, hperp⟩ := mem_getSpotTokens htoken
  obtain ⟨m, hresolved, hsame⟩ := Option.map_eq_some_iff.mp (hperp.symm.trans hsymbol)
  obtain ⟨hm, hhedges⟩ := resolveMarket_some hresolved
  obtain ⟨hbase, hquote⟩ := shown_eq (hshown m hm)
    (shown_of_mem (List.mem_map_of_mem hi) : Shown casing (joined casing listed.prices i)) hsame
  exact ⟨i, hi, rfl, hhedges.of_same hbase hquote⟩

/-- With one reading a token is left out exactly when no market is on its underlying. -/
theorem marketOf_none (hinfo : paired.info = listed.info)
    (htoken : token ∈ getSpotTokens casing (paired.markets casing) seeds routability) :
    marketOf casing listed token = none ↔
      ∀ i ∈ listed.info, ¬ Hedges casing token.ticker (joined casing listed.prices i) := by
  obtain ⟨-, hperp⟩ := mem_getSpotTokens htoken
  constructor
  · intro hnone i hi hhedges
    have hmem : joined casing paired.prices i ∈ paired.markets casing :=
      List.mem_map_of_mem (hinfo ▸ hi)
    cases hresolved : resolveMarket casing (paired.markets casing) token.ticker with
    | none => exact resolveMarket_none.mp hresolved _ hmem (hhedges.of_same rfl rfl)
    | some m =>
        -- a market resolved from the one reading is in the other under the same symbol
        obtain ⟨hm, -⟩ := resolveMarket_some hresolved
        obtain ⟨j, hj, rfl⟩ := List.mem_map.mp hm
        rw [hresolved] at hperp
        have hfound : (lastWith (·.symbol) ((listed.markets casing).map toShared)
            (joined casing paired.prices j).symbol).isSome :=
          lastWith_isSome.mpr ⟨toShared (joined casing listed.prices j),
            List.mem_map_of_mem (List.mem_map_of_mem (hinfo ▸ hj)), rfl⟩
        rw [marketOf, hperp, Option.map_some, Option.bind_some] at hnone
        rw [hnone] at hfound
        cases hfound
  · intro hno
    have hresolved : resolveMarket casing (paired.markets casing) token.ticker = none := by
      refine resolveMarket_none.mpr fun m hm hhedges => ?_
      obtain ⟨i, hi, rfl⟩ := List.mem_map.mp hm
      exact hno i (hinfo ▸ hi) (hhedges.of_same rfl rfl)
    rw [marketOf, hperp, hresolved]
    rfl

/-- A row has no blockers exactly when what it publishes can be entered. -/
theorem blockers_eq_nil_iff {m : PacificaMarket} :
    (toBasisMarket casing token (toShared m)).blockers = [] ↔
      Enterable (toBasisMarket casing token (toShared m)) := by
  have hleg : (if token.probeFailed then [Blocker.probeFailed]
      else if !token.buyable then [.noRoute token.symbol]
      else if !token.sellable then [.noExit token.symbol] else []) = [] ↔
      token.probeFailed = false ∧ token.buyable = true ∧ token.sellable = true := by
    cases token.probeFailed <;> cases token.buyable <;> cases token.sellable <;> simp
  constructor
  · intro h
    simp only [toBasisMarket, blockersFor, List.append_eq_nil_iff] at h
    obtain ⟨⟨⟨⟨⟨hspot, himpact⟩, -⟩, hmark⟩, hroom⟩, hdivergence⟩ := h
    obtain ⟨hprobed, hbuyable, hsellable⟩ := hleg.mp hspot
    -- the impact, the mark, the room and the basis: each blocker not raised rules one thing out
    refine ⟨hprobed, hbuyable, hsellable, ?_, ?_, ?_, ?_⟩
    · intro impact hsome
      have hsome : token.buyPriceImpactPercent = some impact := hsome
      rw [hsome] at himpact
      by_contra hdeep
      simp [hbuyable, hdeep] at himpact
    · show m.markPrice.isSome
      by_contra hnone
      simp [toShared, Option.not_isSome_iff_eq_none.mp hnone] at hmark
    · show (toShared m).availableOpenInterest.le (.finite 0) = false
      by_contra hfull
      simp [hfull] at hroom
    · intro basis hsome
      have hsome : spotPerpBasisPercent token.spotPriceUsd m.markPrice = some basis := hsome
      simp only [toShared, hsome] at hdivergence
      by_contra hfar
      simp [not_le.mp hfar] at hdivergence
  · intro h
    have hmark : m.markPrice ≠ none := Option.isSome_iff_ne_none.mp h.quoted
    have hroom : ¬ (toShared m).availableOpenInterest.le (.finite 0) = true := by
      rw [show (toShared m).availableOpenInterest.le (.finite 0) = false from h.headroom]
      exact Bool.false_ne_true
    simp only [toBasisMarket, blockersFor, List.append_eq_nil_iff]
    refine ⟨⟨⟨⟨⟨hleg.mpr ⟨h.probed, h.buyable, h.sellable⟩, ?_⟩, rfl⟩, if_neg hmark⟩,
      if_neg hroom⟩, ?_⟩
    · split
      next impact hsome =>
        rw [h.deep impact hsome, Bool.and_false]
        rfl
      next => rfl
    · split
      next basis hsome => exact if_neg (not_lt.mpr (h.agreed basis hsome))
      next => rfl

/-- The figures of a row that are numbers are those of a plan. -/
theorem economicsOf_finite (funding : FundingRates) (market : Market)
    (spotPriceUsd perpMarkPrice impact : Option ℚ) :
    economicsOf (.finite funding.short) spotPriceUsd perpMarkPrice (impact.map .finite) =
      (computeBasisEconomics
        { funding, market, spotPriceUsd, perpMarkPrice, spotBuyImpactPercent := impact }).map
          .finite := by
  have hcapital : (1000 + 1000 / 2 : ℚ) = 1500 := by norm_num
  have hhours : funding.short > 0 → funding.short / 100 * 1000 ≠ 0 :=
    fun h => mul_ne_zero (div_pos h (by norm_num)).ne' (by norm_num)
  -- a pool without an impact is one of no impact
  cases impact <;> by_cases h : funding.short > 0 <;>
    simp [economicsOf, computeBasisEconomics, BasisEconomics.map, planBasis, Number.finite_div,
      referenceNotionalUsd, referenceLeverage, hoursPerYear, roundTripFeePercent, costsOf,
      defaultCosts, hcapital, h, hhours]

/-- A net figure is no number where the impact is none, or where an infinite rate is to pay for
an infinite impact. -/
theorem netApyPercent_eq_nan_iff {m : PacificaMarket} (h : m.fundingRate ≠ .nan) :
    (toBasisMarket casing token (toShared m)).economics.netApyPercent = .nan ↔
      token.buyPriceImpactPercent = some .nan ∨
        (toShared m).fundingShortPercentPerHour = .infinite false ∧
          ∃ negative, token.buyPriceImpactPercent = some (.infinite negative) := by
  have hrate : (toShared m).fundingShortPercentPerHour ≠ .nan := by
    show m.fundingRate * .finite 100 ≠ .nan
    cases hm : m.fundingRate with
    | finite rate => simp
    | infinite negative => simp [Number.infinite_mul_finite]
    | nan => exact absurd hm h
  change (economicsOf (toShared m).fundingShortPercentPerHour token.spotPriceUsd m.markPrice
    token.buyPriceImpactPercent).netApyPercent = .nan ↔ _
  generalize (toShared m).fundingShortPercentPerHour = short at hrate ⊢
  generalize token.buyPriceImpactPercent = impact
  have hcapital : (1000 + 1000 / 2 : ℚ) = 1500 := by norm_num
  rcases short with rate | (_ | _) | _
  case nan => exact absurd rfl hrate
  all_goals
    rcases impact with _ | (impact | negative | _) <;>
      simp [economicsOf, Number.finite_div, Number.infinite_mul_finite,
        Number.infinite_div_finite, Number.abs, referenceNotionalUsd, referenceLeverage,
        hoursPerYear, hcapital]

/-- What the comparison goes by, where the net figures are numbers. -/
def rank (row : BasisMarket) : ℕ ×ₗ Numberᵒᵈ :=
  toLex (if row.blockers = [] then 0 else 1, OrderDual.toDual row.economics.netApyPercent)

/-- The comparison is by rank, one way and the other. -/
theorem compareRows_iff {a b : BasisMarket} (ha : a.economics.netApyPercent ≠ .nan)
    (hb : b.economics.netApyPercent ≠ .nan) :
    (After compareRows a b ↔ rank b < rank a) ∧
      ((compareRows a b).lt (.finite 0) = true ↔ rank a < rank b) := by
  simp only [After, compareRows, rank, Prod.Lex.toLex_lt_toLex, List.length_pos_iff]
  by_cases ha' : a.blockers = [] <;> by_cases hb' : b.blockers = [] <;>
    simp [ha', hb', Number.sub_pos_iff hb ha, Number.sub_neg_iff hb ha]

/-- One row comes before another on the board: it can be entered if the other can, and where
both can, or neither, it earns no less. -/
theorem rank_le_iff {a b : BasisMarket} (ha : a.economics.netApyPercent ≠ .nan) :
    rank a ≤ rank b ↔ (b.blockers = [] → a.blockers = []) ∧
      ((a.blockers = [] ↔ b.blockers = []) →
        b.economics.netApyPercent.le a.economics.netApyPercent = true) := by
  have hle : b.economics.netApyPercent ≤ a.economics.netApyPercent ↔
      b.economics.netApyPercent.le a.economics.netApyPercent = true :=
    Number.le_iff.trans (or_iff_right ha)
  simp only [rank, Prod.Lex.toLex_le_toLex, OrderDual.toDual_le_toDual, hle]
  by_cases ha' : a.blockers = [] <;> by_cases hb' : b.blockers = [] <;> simp [ha', hb']

section

variable (casing : Casing) (sorting : Sorting) (localeCompare : JsString → JsString → Number)
  (paired listed : Reading) (seeds : List SpotTokenSeed)
  (routability : Option (List TokenRoutability))

theorem markets_perm :
    (listBasisMarkets casing sorting localeCompare paired listed seeds routability).markets.Perm
      ((getSpotTokens casing (paired.markets casing) seeds routability).filterMap
        (rowOf casing listed)) :=
  sorting.perm _ _

theorem unpaired_perm :
    (listBasisMarkets casing sorting localeCompare paired listed seeds routability).unpaired.Perm
      (((getSpotTokens casing (paired.markets casing) seeds routability).filter fun token =>
        (marketOf casing listed token).isNone).map unpairedOf) :=
  sorting.perm _ _

/-- Each token is on the board or off it. -/
theorem assets_perm :
    let board := listBasisMarkets casing sorting localeCompare paired listed seeds routability
    (board.markets.map BasisMarket.asset ++ board.unpaired).Perm (seeds.map assetOf) := by
  intro board
  let tokens := getSpotTokens casing (paired.markets casing) seeds routability
  have hjoin := join_perm (rowOf casing listed) BasisMarket.asset unpairedOf tokens
    fun token _ row hrow => by
      obtain ⟨market, -, rfl⟩ := Option.map_eq_some_iff.mp hrow
      rfl
  have hnone : ∀ token, (rowOf casing listed token).isNone =
      (marketOf casing listed token).isNone := fun token => by
    rw [rowOf, Option.isNone_map]
  have hlisted : tokens.map unpairedOf = seeds.map assetOf := by
    conv_rhs => rw [← map_getSpotTokens casing (paired.markets casing) seeds routability,
      List.map_map]
    rfl
  simp only [hnone] at hjoin
  rw [hlisted] at hjoin
  have hmarkets := markets_perm casing sorting localeCompare paired listed seeds routability
  have hunpaired := unpaired_perm casing sorting localeCompare paired listed seeds routability
  exact ((hmarkets.map _).append hunpaired).trans hjoin

variable {casing sorting localeCompare paired listed seeds routability}

/-- A row is of a token and a market on it. -/
theorem row_of_mem
    (h : row ∈
      (listBasisMarkets casing sorting localeCompare paired listed seeds routability).markets) :
    ∃ token ∈ getSpotTokens casing (paired.markets casing) seeds routability,
      ∃ i ∈ listed.info, Hedges casing token.ticker (joined casing listed.prices i) ∧
        row = toBasisMarket casing token (toShared (joined casing listed.prices i)) := by
  have hmarkets := markets_perm casing sorting localeCompare paired listed seeds routability
  obtain ⟨token, htoken, hof⟩ := List.mem_filterMap.mp (hmarkets.mem_iff.mp h)
  obtain ⟨market, hmarket, rfl⟩ := Option.map_eq_some_iff.mp hof
  obtain ⟨i, hi, rfl, hhedges⟩ := marketOf_hedges (fun m hm => shown_of_mem hm) htoken hmarket
  exact ⟨token, htoken, i, hi, hhedges, rfl⟩

/-- With one reading what is off the board has no market. -/
theorem mem_unpaired_iff (hinfo : paired.info = listed.info) {asset : UnpairedSpotAsset} :
    asset ∈
        (listBasisMarkets casing sorting localeCompare paired listed seeds routability).unpaired ↔
      ∃ seed ∈ seeds, assetOf seed = asset ∧
        ∀ i ∈ listed.info, ¬ Hedges casing seed.ticker (joined casing listed.prices i) := by
  have hunpaired := unpaired_perm casing sorting localeCompare paired listed seeds routability
  rw [hunpaired.mem_iff, List.mem_map]
  constructor
  · rintro ⟨token, htoken, rfl⟩
    obtain ⟨htoken, hnone⟩ := List.mem_filter.mp htoken
    obtain ⟨hseed, -⟩ := mem_getSpotTokens htoken
    exact ⟨token.toSpotTokenSeed, hseed, rfl,
      (marketOf_none hinfo htoken).mp (Option.isNone_iff_eq_none.mp hnone)⟩
  · rintro ⟨seed, hseed, rfl, hno⟩
    obtain ⟨token, htoken, rfl⟩ := exists_token hseed
    exact ⟨token, List.mem_filter.mpr ⟨htoken,
      Option.isNone_iff_eq_none.mpr ((marketOf_none hinfo htoken).mpr hno)⟩, rfl⟩

end

/-- **The board is complete, paired, honest and ranked.** Whatever the venue and the probe
answered, and whether or not the catalog was refreshed between its two readings: each token is
on the board or among the unpaired, once each; a row joins a token with a market quoted in USD
on its own ticker, or on the other name of its company; a row shows no blocker exactly where
what it publishes can be entered; its net figure is a number but where the impact is none, or
where an infinite rate is to pay for an infinite impact; and where every net figure is a number
the rows that can be entered come first, each no worse than the next. With one reading, a token
is unpaired exactly where no market is on it. -/
theorem board_complete (casing : Casing) (sorting : Sorting)
    (localeCompare : JsString → JsString → Number) (paired listed : Reading)
    (seeds : List SpotTokenSeed) (routability : Option (List TokenRoutability)) :
    let board := listBasisMarkets casing sorting localeCompare paired listed seeds routability
    (board.markets.map BasisMarket.asset ++ board.unpaired).Perm (seeds.map assetOf) ∧
      (∀ row ∈ board.markets,
        (∃ seed ∈ seeds, assetOf seed = row.asset ∧ row.spot.address = seed.address ∧
          row.spot.decimals = seed.decimals ∧ ∃ i ∈ listed.info,
            row.perp.pacificaSymbol = i.symbol ∧
              Hedges casing seed.ticker (joined casing listed.prices i)) ∧
        (row.blockers = [] ↔ Enterable row) ∧
        (row.economics.netApyPercent = .nan ↔ row.spot.priceImpactPercent = some .nan ∨
          row.perp.fundingShortPercentPerHour = .infinite false ∧
            ∃ negative, row.spot.priceImpactPercent = some (.infinite negative))) ∧
      ((∀ row ∈ board.markets, row.economics.netApyPercent ≠ .nan) →
        board.markets.Pairwise fun a b => (b.blockers = [] → a.blockers = []) ∧
          ((a.blockers = [] ↔ b.blockers = []) →
            b.economics.netApyPercent.le a.economics.netApyPercent = true)) ∧
      (paired.info = listed.info → ∀ asset, asset ∈ board.unpaired ↔ ∃ seed ∈ seeds,
        assetOf seed = asset ∧
          ∀ i ∈ listed.info, ¬ Hedges casing seed.ticker (joined casing listed.prices i)) := by
  intro board
  refine ⟨assets_perm casing sorting localeCompare paired listed seeds routability, ?_, ?_, ?_⟩
  · intro row hrow
    obtain ⟨token, htoken, i, hi, hhedges, rfl⟩ := row_of_mem hrow
    obtain ⟨hseed, -⟩ := mem_getSpotTokens htoken
    exact ⟨⟨token.toSpotTokenSeed, hseed, rfl, rfl, rfl, i, hi, rfl, hhedges⟩,
      blockers_eq_nil_iff, netApyPercent_eq_nan_iff (Number.orZero_ne_nan _)⟩
  · intro hnumbers
    have hperm := markets_perm casing sorting localeCompare paired listed seeds routability
    let rows := (getSpotTokens casing (paired.markets casing) seeds routability).filterMap
      (rowOf casing listed)
    have hnumber : ∀ row ∈ rows, row.economics.netApyPercent ≠ .nan :=
      fun row hrow => hnumbers row (hperm.mem_iff.mpr hrow)
    have hsorted := sorting.pairwise_rank rank
      (fun a ha b hb => (compareRows_iff (hnumber a ha) (hnumber b hb)).1)
      (fun a ha b hb => (compareRows_iff (hnumber a ha) (hnumber b hb)).2)
    exact hsorted.imp_of_mem fun ha _ hab => (rank_le_iff (hnumbers _ ha)).mp hab
  · exact fun hinfo asset => mem_unpaired_iff hinfo

namespace Test

def seed (symbol ticker : String) : SpotTokenSeed := ⟨⟨js symbol, [], 8⟩, js ticker, js ticker⟩

/-- A listing with room for a hundred dollars, and its price. -/
def listing (symbol : String) (rate mark : ℚ) : PacificaMarketInfo × PacificaPrice :=
  (⟨js symbol, .finite (1 / 100), .finite (1 / 1000), .finite 5, .finite 10, .finite 100,
    .finite rate⟩, ⟨js symbol, .finite mark, .finite 0⟩)

def probe (symbol : String) (spot : ℚ) (impact : Number) : TokenRoutability where
  symbol := js symbol
  buyable := true
  sellable := true
  buyPriceImpactPercent := some impact
  spotPriceUsd := some spot
  probeFailed := false
  checkedAt := 0

def reading : Reading where
  info := [(listing "NVDA" (1 / 1000000) 100).1, (listing "GOOG" (1 / 100000) 200).1]
  prices := [(listing "NVDA" (1 / 1000000) 100).2, (listing "GOOG" (1 / 100000) 200).2]

/-- A token under the other name of its company, one with no market, and one with. -/
def listedTokens : List SpotTokenSeed :=
  [seed "NVDAc" "NVDA", seed "AERO" "AERO", seed "GOOGLc" "GOOGL"]

def probes (impact : Number) : List TokenRoutability :=
  [probe "NVDAc" 100 impact, probe "GOOGLc" 201 (.finite 0)]

def board (impact : Number) : BasisMarketList :=
  listBasisMarkets .ascii .insertion (fun _ _ => .finite 0) reading reading listedTokens
    (some (probes impact))

/-- Of the two that are paired the better comes first, and the third has no market. -/
theorem board_complete_three :
    (board (.finite 0)).markets.Pairwise (fun a b => (b.blockers = [] → a.blockers = []) ∧
      ((a.blockers = [] ↔ b.blockers = []) →
        b.economics.netApyPercent.le a.economics.netApyPercent = true)) ∧
      (board (.finite 0)).markets.map (·.perp.symbol) = [js "GOOG/USD", js "NVDA/USD"] ∧
      (∀ i ∈ reading.info, ¬ Hedges .ascii (js "AERO") (joined .ascii reading.prices i)) ∧
      (board (.finite 0)).unpaired = [assetOf (seed "AERO" "AERO")] := by
  obtain ⟨-, -, hranked, hunpaired⟩ := board_complete .ascii .insertion (fun _ _ => .finite 0)
    reading reading listedTokens (some (probes (.finite 0)))
  have hnumbers : ∀ row ∈ (board (.finite 0)).markets, row.economics.netApyPercent ≠ .nan := by
    decide +kernel
  have hlist : (board (.finite 0)).unpaired = [assetOf (seed "AERO" "AERO")] := by decide +kernel
  obtain ⟨other, hother, hasset, hno⟩ := (hunpaired rfl (assetOf (seed "AERO" "AERO"))).mp
    (show _ ∈ (board (.finite 0)).unpaired from hlist ▸ List.mem_singleton.mpr rfl)
  have hticker : other.ticker = js "AERO" := congrArg UnpairedSpotAsset.ticker hasset
  exact ⟨hranked hnumbers, by decide +kernel, fun i hi => hticker ▸ hno i hi, hlist⟩

-- an impact that is no number does not block its row, which then earns no number
example : ∃ row ∈ (board .nan).markets, row.perp.symbol = js "NVDA/USD" ∧ row.blockers = [] ∧
    row.economics.netApyPercent = .nan := by
  decide +kernel

end Test

end BasisBoard

end Api

end LemonMarket
