import LemonMarket.Lib.Join
import LemonMarket.NearMpc.Paths
import LemonMarket.Registry.Basis
import LemonMarket.Registry.Routability

/-!
# LemonMarket.Registry.Pairing

**The venue's catalog, and the tokens its markets are paired with** (`catalog.ts`, `pairing.ts`).
The venue names a market by what underlies it; here it is a pair, and a token is paired with the
market of its ticker, or of the other name of the same company, that is quoted in USD.

A pair is paired by its name alone: two markets that show the same one have the same base and
quote (`shown_eq`), so it does not matter which of them a name is looked up to.
-/

namespace LemonMarket

namespace Registry

open Lib NumberText NearMpc

/-! ### The catalog -/

/-- The symbols shaped like a currency pair. -/
def fxSymbols : List JsString := [js "EURUSD", js "USDJPY"]

def equities : List JsString :=
  [js "NVDA", js "TSLA", js "GOOGL", js "MSTR", js "PLTR", js "HOOD", js "CRCL", js "MU",
   js "SNDK", js "SAMSUNG", js "SKHYNIX", js "SPCX", js "BP", js "LIT", js "MEGA"]

def metals : List JsString := [js "XAU", js "XAG", js "PAXG", js "PLATINUM", js "COPPER"]
def commodities : List JsString := [js "CL", js "NATGAS", js "URNM", js "DRAM", js "CHIP"]
def indices : List JsString := [js "SP500"]

/-- A market of `/info`, with what `Number` makes of its figures. -/
structure PacificaMarketInfo where
  symbol : JsString
  tickSize : Number
  lotSize : Number
  maxLeverage : Number
  minOrderSize : Number
  maxOrderSize : Number
  fundingRate : Number
  deriving DecidableEq

/-- A row of `/info/prices`, with what `Number` makes of its figures. -/
structure PacificaPrice where
  symbol : JsString
  mark : Number
  openInterest : Number
  deriving DecidableEq

/-- A market with its live price. -/
structure PacificaMarket where
  symbol : JsString
  pacificaSymbol : JsString
  base : JsString
  quote : JsString
  assetClass : AssetClass
  maxLeverage : Number
  tickSize : Number
  lotSize : Number
  minOrderSize : Number
  maxOrderSize : Number
  markPrice : Option ℚ
  fundingRate : Number
  openInterest : Number
  deriving DecidableEq

/-- `replace`, of the first unit of a kind. -/
def replaceFirst (s : JsString) (old new : CodeUnit) : JsString :=
  match s with
  | [] => []
  | c :: rest => if c = old then new :: rest else c :: replaceFirst rest old new

/-- The two sides of a pair. -/
def sides (display : JsString) : JsString × JsString :=
  let parts := display.splitOn (unit '/')
  (parts[0]?.getD [], parts[1]?.getD (js "USD"))

section

variable (casing : Casing)

def classifyPacificaSymbol (symbol : JsString) : AssetClass :=
  let upper := casing.toUpperCase symbol
  if fxSymbols.contains upper then .fx
  else if equities.contains upper then .equity
  else if metals.contains upper then .metal
  else if commodities.contains upper then .commodity
  else if indices.contains upper then .index
  else .crypto

def toDisplaySymbol (symbol : JsString) : JsString :=
  let upper := casing.toUpperCase symbol
  if upper.contains (unit '-') then replaceFirst upper (unit '-') (unit '/')
  else if fxSymbols.contains upper then upper.take 3 ++ unit '/' :: upper.drop 3
  else upper ++ js "/USD"

/-- One market of the join. -/
def joined (prices : List PacificaPrice) (market : PacificaMarketInfo) : PacificaMarket :=
  let price := lastWith PacificaPrice.symbol prices market.symbol
  let display := toDisplaySymbol casing market.symbol
  { symbol := display
    pacificaSymbol := market.symbol
    base := (sides display).1
    quote := (sides display).2
    assetClass := classifyPacificaSymbol casing market.symbol
    maxLeverage := market.maxLeverage
    tickSize := market.tickSize
    lotSize := market.lotSize
    minOrderSize := market.minOrderSize
    maxOrderSize := market.maxOrderSize
    markPrice := price.bind (·.mark.finite?)
    fundingRate := market.fundingRate.orZero
    openInterest := (price.map (·.openInterest.orZero)).getD (.finite 0) }

def joinMarkets (info : List PacificaMarketInfo) (prices : List PacificaPrice) :
    List PacificaMarket :=
  info.map (joined casing prices)

/-! ### Pairing -/

/-- A token of the registry, with what it is listed under. -/
structure SpotTokenSeed extends StockTokenSeed where
  ticker : JsString
  name : JsString
  deriving DecidableEq

/-- A token with the pair it is hedged on, if there is one. -/
structure StockToken extends SpotTokenSeed where
  perpSymbol : Option JsString
  deriving DecidableEq

/-- The other names of a company. -/
def tickerAliases (ticker : JsString) : List JsString :=
  if ticker = js "GOOGL" then [js "GOOG"]
  else if ticker = js "GOOG" then [js "GOOGL"]
  else []

/-- A market is the one quoted in USD on a ticker. -/
def isOn (ticker : JsString) (market : PacificaMarket) : Bool :=
  casing.toUpperCase market.base = casing.toUpperCase (trim ticker) ∧ market.quote = js "USD"

def findMarketByTicker (markets : List PacificaMarket) (ticker : JsString) :
    Option PacificaMarket :=
  markets.find? (isOn casing ticker)

/-- The names a ticker's market is looked for under, in order. -/
def namesOf (ticker : JsString) : List JsString :=
  ticker :: tickerAliases (casing.toUpperCase ticker)

def resolveMarket (markets : List PacificaMarket) (ticker : JsString) : Option PacificaMarket :=
  (namesOf casing ticker).findSome? (findMarketByTicker casing markets)

def pairTokensWithMarkets (markets : List PacificaMarket) (tokens : List SpotTokenSeed) :
    List StockToken :=
  tokens.map fun token =>
    { token with perpSymbol := (resolveMarket casing markets token.ticker).map (·.symbol) }

end

/-! ### What is paired -/

variable {casing : Casing} {info : List PacificaMarketInfo} {prices : List PacificaPrice}
  {markets : List PacificaMarket} {ticker : JsString} {m m' : PacificaMarket}

/-- A market of the catalog goes by its name. -/
structure Shown (casing : Casing) (m : PacificaMarket) : Prop where
  symbol : m.symbol = toDisplaySymbol casing m.pacificaSymbol
  base : m.base = (sides m.symbol).1
  quote : m.quote = (sides m.symbol).2

theorem shown_of_mem (h : m ∈ joinMarkets casing info prices) : Shown casing m := by
  obtain ⟨i, -, rfl⟩ := List.mem_map.mp h
  exact ⟨rfl, rfl, rfl⟩

/-- Two markets with one name are on the same thing. -/
theorem shown_eq (hm : Shown casing m) (hm' : Shown casing m') (h : m.symbol = m'.symbol) :
    m.base = m'.base ∧ m.quote = m'.quote := by
  rw [hm.base, hm'.base, hm.quote, hm'.quote, h]
  exact ⟨rfl, rfl⟩

/-- A market a ticker can be hedged on: it is quoted in USD, on the ticker or on another name of
the company. -/
def Hedges (casing : Casing) (ticker : JsString) (m : PacificaMarket) : Prop :=
  ∃ name ∈ namesOf casing ticker, isOn casing name m = true

theorem Hedges.of_same (h : Hedges casing ticker m) (hbase : m.base = m'.base)
    (hquote : m.quote = m'.quote) : Hedges casing ticker m' := by
  obtain ⟨name, hname, hon⟩ := h
  refine ⟨name, hname, ?_⟩
  rwa [isOn, ← hbase, ← hquote]

theorem resolveMarket_some (h : resolveMarket casing markets ticker = some m) :
    m ∈ markets ∧ Hedges casing ticker m := by
  obtain ⟨name, hname, hfound⟩ := List.exists_of_findSome?_eq_some h
  exact ⟨List.mem_of_find?_eq_some hfound, name, hname, List.find?_some hfound⟩

theorem resolveMarket_none :
    resolveMarket casing markets ticker = none ↔ ∀ m ∈ markets, ¬ Hedges casing ticker m := by
  simp only [resolveMarket, List.findSome?_eq_none_iff, findMarketByTicker, List.find?_eq_none,
    Hedges, not_exists, not_and]
  exact ⟨fun h m hm name hname => h name hname m hm, fun h name hname m hm => h m hm name hname⟩

/-- The ticker itself goes before its other names. -/
theorem resolveMarket_direct (h : ∃ m ∈ markets, isOn casing ticker m = true) :
    resolveMarket casing markets ticker = findMarketByTicker casing markets ticker := by
  obtain ⟨m, hm⟩ := Option.isSome_iff_exists.mp (List.find?_isSome.mpr h)
  rw [resolveMarket, namesOf, List.findSome?_cons, findMarketByTicker, hm]

end Registry

end LemonMarket
