import LemonMarket.Agent.Report
import LemonMarket.Agent.Bridge

/-!
# LemonMarket.Api.LivePosition

**What the live page says a vault is worth** (`readLivePosition`), beside what the agent
says (`observe` and `value`). The agent adds up every market the vault has a row for, the
account's equity, its USDC on both chains and what is between them, and refuses when a leg
it holds has no price. The page adds up the founding market's leg, the equity, the USDC on
Base and what is between the chains, and refuses when one of its two legs could not be
read.

So the page leaves out the other markets and the USDC on Solana, and it counts a balance or
a transfer list it could not read as zero. `observed_iff` says what follows: where it does
not refuse, it is right exactly if all that comes to what the agent does not count either.

The texts of the notes, and the fields of the legs that no total reads, are left out. So is
`getVault`: without a vault there is no page.
-/

namespace LemonMarket.Api

open Lib Agent
open Agent.Bridge (TransferStatus)

/-! ### The configuration and the venues -/

/-- The founding market's columns of a `VaultConfig`. -/
structure VaultConfigRecord where
  ticker : String
  spotTokenAddress : String
  spotTokenDecimals : Nat
  deriving DecidableEq, Repr

/-- A `VaultMarket` row. A market that is retired keeps its row. -/
structure VaultMarket where
  ticker : String
  spotTokenAddress : String
  deriving DecidableEq, Repr

/-- A token of the curated registry. -/
structure RegistryToken where
  address : String
  decimals : Nat
  deriving DecidableEq, Repr

/-- What is configured of a vault: its record, its market rows, and the registry's token for
its ticker. -/
structure VaultConfiguration where
  record : Option VaultConfigRecord
  markets : List VaultMarket
  seed : Option RegistryToken
  deriving DecidableEq, Repr

/-- A `BridgeTransfer` row. -/
structure BridgeTransfer where
  amountUsdc : Nat
  status : TransferStatus
  deriving DecidableEq, Repr

/-- The venues at one moment: the agent's balance of a token and what selling all of it
would clear, if anything; its account's equity, if the venue has an account for it; its
notional there; its USDC on either chain; and the transfers on record. -/
structure Venues where
  balance : String → Nat
  sellQuote : String → Option Nat
  accountEquity : Option ℚ
  perpNotionalUsdc : Nat
  usdcOnBase : Nat
  usdcOnSolana : Nat
  transfers : List BridgeTransfer

/-- `status: { in: ["PENDING", "SENT"] }`. -/
def inFlightTotal (rows : List BridgeTransfer) : Nat :=
  rowsTotal (fun row => row.status == .pending || row.status == .sent) (·.amountUsdc) rows

/-- A venue's dollars as USDC units. -/
def usdcOf (usd : ℚ) : Int := round (usd * 1000000)

/-! ### The agent -/

/-- The markets a vault is traded in: its rows, or the founding market seeded from its
record. Their order decides nothing here. -/
def vaultMarkets (c : VaultConfiguration) : List VaultMarket :=
  if c.markets.length > 0 then c.markets
  else (c.record.map fun record => ⟨record.ticker, record.spotTokenAddress⟩).toList

/-- What one market's whole holding would fetch. -/
def spotSellRoute (w : Venues) (token : String) : Option Nat :=
  if w.balance token = 0 then some 0 else w.sellQuote token

/-- What `observe` hands to `value`, every read answered. -/
def valuationInputs (c : VaultConfiguration) (w : Venues) : ValuationInputs where
  legs := (vaultMarkets c).map fun market =>
    ⟨market.ticker, w.balance market.spotTokenAddress, spotSellRoute w market.spotTokenAddress⟩
  perpEquityUsdc := usdcOf (w.accountEquity.getD 0)
  perpNotionalUsdc := w.perpNotionalUsdc
  idleAtAgentUsdc := w.usdcOnBase + w.usdcOnSolana
  inFlightUsdc := inFlightTotal w.transfers

/-- The agent's valuation, of a vault it has a record for. -/
def agentValuation (c : VaultConfiguration) (w : Venues) : Option Int :=
  match c.record with
  | none => none
  | some _ => (value (valuationInputs c w)).toOption.map (·.deployedAssets)

/-! ### The page -/

/-- Which of the page's reads are answered. `wallet` is whether the agent's Solana address
is resolved: it is the one that pairs with the vault's agent, or none. -/
structure Reads where
  record : Bool := true
  wallet : Bool := true
  spotBalance : Bool := true
  spotRoute : Bool := true
  venue : Bool := true
  agentUsdc : Bool := true
  inFlight : Bool := true
  deriving DecidableEq, Repr

/-- The spot leg the page reads: its token and what it is worth. -/
structure FoundingLeg where
  token : Option String
  valueUsd : Option Nat
  deriving DecidableEq, Repr

/-- The record, as far as it could be read. -/
def recordRead (r : Reads) (c : VaultConfiguration) : Option VaultConfigRecord :=
  if r.record then c.record else none

/-- The founding token: the record's, or the registry's for the ticker. -/
def foundingToken (r : Reads) (c : VaultConfiguration) : Option String :=
  ((recordRead r c).map (·.spotTokenAddress)).or (c.seed.map (·.address))

def foundingDecimals (r : Reads) (c : VaultConfiguration) : Option Nat :=
  ((recordRead r c).map (·.spotTokenDecimals)).or (c.seed.map (·.decimals))

def readSpotLeg (r : Reads) (c : VaultConfiguration) (w : Venues) : FoundingLeg :=
  match foundingToken r c, foundingDecimals r c with
  | some token, some _ =>
      if !r.spotBalance then ⟨some token, none⟩
      else if w.balance token = 0 then ⟨some token, some 0⟩
      else if !r.spotRoute then ⟨some token, none⟩
      else ⟨some token, w.sellQuote token⟩
  | _, _ => ⟨none, none⟩

/-- The account's equity, through `readVenue` and `perpLegFrom`: an account the venue has
never seen is an error of the read. -/
def readMargin (r : Reads) (w : Venues) : Option ℚ :=
  if r.wallet && r.venue then w.accountEquity else none

def readAgentUsdc (r : Reads) (w : Venues) : Nat := if r.agentUsdc then w.usdcOnBase else 0

def readInFlight (r : Reads) (w : Venues) : Nat :=
  if r.inFlight then inFlightTotal w.transfers else 0

/-- Add the legs up, or refuse. -/
def combine (spotUsd : Option Nat) (marginUsd : Option ℚ) (idle : Nat) : Option Int :=
  match spotUsd, marginUsd with
  | some spot, some margin => some (spot + usdcOf margin + idle)
  | _, _ => none

theorem combine_of_no_spot (marginUsd : Option ℚ) (idle : Nat) :
    combine none marginUsd idle = none := by
  cases marginUsd <;> rfl

theorem combine_of_no_margin (spotUsd : Option Nat) (idle : Nat) :
    combine spotUsd none idle = none := by
  cases spotUsd <;> rfl

/-- The totals of the page. -/
structure LivePosition where
  idleAtAgentUsd : Nat
  observedValueUsd : Option Int
  reportedDeployedUsd : Nat
  discrepancyUsd : Option Int
  deriving DecidableEq, Repr

def readLivePosition (r : Reads) (c : VaultConfiguration) (w : Venues) (deployedAssets : Nat) :
    LivePosition :=
  let idle := readAgentUsdc r w
  let observed :=
    combine (readSpotLeg r c w).valueUsd (readMargin r w) (idle + readInFlight r w)
  { idleAtAgentUsd := idle
    observedValueUsd := observed
    reportedDeployedUsd := deployedAssets
    discrepancyUsd := observed.map fun value => deployedAssets - value }

/-! ### Where they agree -/

variable {r : Reads} {c : VaultConfiguration} {w : Venues} {token : String}

/-- The tokens of the markets the agent values. -/
def agentTokens (c : VaultConfiguration) : List String :=
  (vaultMarkets c).map (·.spotTokenAddress)

/-- What a holding is worth, and nothing where it has no price. -/
def worth (w : Venues) (token : String) : Nat := (spotSellRoute w token).getD 0

/-- The agent can price a vault: it has a record, and a price for every leg it holds. -/
def Priced (c : VaultConfiguration) (w : Venues) : Prop :=
  c.record.isSome ∧
    ∀ token ∈ agentTokens c, w.balance token = 0 ∨ (w.sellQuote token).isSome

/-- The page can read the spot leg of a token. -/
def SpotReadable (r : Reads) (w : Venues) (token : String) : Prop :=
  r.spotBalance ∧ (w.balance token = 0 ∨ r.spotRoute ∧ (w.sellQuote token).isSome)

/-- The page can read both of its legs. -/
def Readable (r : Reads) (c : VaultConfiguration) (w : Venues) : Prop :=
  (∃ token, foundingToken r c = some token ∧ SpotReadable r w token) ∧
    r.wallet ∧ r.venue ∧ w.accountEquity.isSome

/-- What the agent counts and the page, of this founding token, does not. -/
def leftOut (r : Reads) (c : VaultConfiguration) (w : Venues) (token : String) : Nat :=
  (((agentTokens c).erase token).map (worth w)).sum + w.usdcOnSolana +
    (if r.agentUsdc then 0 else w.usdcOnBase) +
    (if r.inFlight then 0 else inFlightTotal w.transfers)

/-- What the page counts of its founding token and the agent does not. -/
def countedAlone (c : VaultConfiguration) (w : Venues) (token : String) : Nat :=
  if token ∈ agentTokens c then 0 else worth w token

theorem spotSellRoute_isSome :
    (spotSellRoute w token).isSome ↔ w.balance token = 0 ∨ (w.sellQuote token).isSome := by
  rw [spotSellRoute]
  split
  next hnone => simp [hnone]
  next hheld => simp [hheld]

/-- The agent's valuation is everything, where every leg has its price. -/
theorem agentValuation_eq (h : Priced c w) : agentValuation c w =
    some (((agentTokens c).map (worth w)).sum + usdcOf (w.accountEquity.getD 0) +
      (w.usdcOnBase + w.usdcOnSolana : Nat) + inFlightTotal w.transfers) := by
  obtain ⟨hrecord, hlegs⟩ := h
  obtain ⟨record, hrecord⟩ := Option.isSome_iff_exists.mp hrecord
  have hanswers : ∀ leg ∈ (valuationInputs c w).legs,
      leg.spotTokenBalance = 0 ∨ leg.spotSellQuoteUsdc.isSome := by
    intro leg hleg
    obtain ⟨market, hmarket, rfl⟩ := List.mem_map.mp hleg
    exact .inr (spotSellRoute_isSome.mpr (hlegs _ (List.mem_map_of_mem hmarket)))
  obtain ⟨valuation, hvalue⟩ := value_answers_iff.mpr hanswers
  have hspot : (valuationInputs c w).spot = ((agentTokens c).map (worth w)).sum := by
    simp only [ValuationInputs.spot, valuationInputs, agentTokens, List.map_map]
    rfl
  simp only [agentValuation, hrecord, hvalue, Except.toOption, Option.map_some]
  rw [(value_ok hvalue).1, hspot]
  rfl

theorem agentValuation_of_not_priced (h : ¬ Priced c w) : agentValuation c w = none := by
  rw [agentValuation]
  cases hrecord : c.record with
  | none => rfl
  | some record =>
      have hunpriced : ¬ ∃ valuation, value (valuationInputs c w) = .ok valuation := by
        rw [value_answers_iff]
        intro hlegs
        refine h ⟨by rw [hrecord]; rfl, ?_⟩
        intro token htoken
        obtain ⟨market, hmarket, rfl⟩ := List.mem_map.mp htoken
        exact (hlegs _ (List.mem_map_of_mem hmarket)).elim .inl spotSellRoute_isSome.mp
      cases hvalue : value (valuationInputs c w) with
      | error tickers => rfl
      | ok valuation => exact absurd ⟨valuation, hvalue⟩ hunpriced

/-- A token that is known has its decimals with it. -/
theorem foundingDecimals_of_token (h : foundingToken r c = some token) :
    ∃ decimals, foundingDecimals r c = some decimals := by
  rw [foundingToken] at h
  rw [foundingDecimals]
  cases hrecord : recordRead r c with
  | some record => exact ⟨record.spotTokenDecimals, rfl⟩
  | none =>
      rw [hrecord] at h
      cases hseed : c.seed with
      | some seed => exact ⟨seed.decimals, rfl⟩
      | none => simp [hseed] at h

/-- The page's spot leg is worth what the agent says of its token, -/
theorem readSpotLeg_of_readable (htoken : foundingToken r c = some token)
    (hread : SpotReadable r w token) :
    (readSpotLeg r c w).valueUsd = some (worth w token) := by
  obtain ⟨decimals, hdecimals⟩ := foundingDecimals_of_token htoken
  obtain ⟨hbalance, hpriced⟩ := hread
  simp only [readSpotLeg, htoken, hdecimals, hbalance, Bool.not_true, Bool.false_eq_true, if_false,
    worth, spotSellRoute]
  by_cases hnone : w.balance token = 0
  · simp [hnone]
  · obtain ⟨hroute, hquote⟩ := hpriced.resolve_left hnone
    obtain ⟨quote, hquote⟩ := Option.isSome_iff_exists.mp hquote
    simp [hnone, hroute, hquote]

/-- and without that it has no value. -/
theorem readSpotLeg_of_not_readable (htoken : foundingToken r c = some token)
    (hread : ¬ SpotReadable r w token) : (readSpotLeg r c w).valueUsd = none := by
  obtain ⟨decimals, hdecimals⟩ := foundingDecimals_of_token htoken
  simp only [readSpotLeg, htoken, hdecimals]
  split_ifs with hbalance hnone hroute
  · rfl
  · exact absurd ⟨by simpa using hbalance, .inl hnone⟩ hread
  · rfl
  · cases hquote : w.sellQuote token with
    | none => rfl
    | some quote =>
        exact absurd ⟨by simpa using hbalance, .inr ⟨by simpa using hroute, by simp [hquote]⟩⟩ hread

/-- The page answers when both its legs can be read. -/
theorem observed_of_readable (deployedAssets : Nat) (htoken : foundingToken r c = some token)
    (hread : SpotReadable r w token) (hvenue : r.wallet ∧ r.venue) {equity : ℚ}
    (hequity : w.accountEquity = some equity) :
    (readLivePosition r c w deployedAssets).observedValueUsd =
      some (worth w token + usdcOf equity + (readAgentUsdc r w + readInFlight r w : Nat)) := by
  simp only [readLivePosition, readSpotLeg_of_readable htoken hread, readMargin, hvenue.1, hvenue.2,
    Bool.and_self, if_true, hequity, combine]

/-- And only then. -/
theorem observed_of_not_readable (deployedAssets : Nat) (h : ¬ Readable r c w) :
    (readLivePosition r c w deployedAssets).observedValueUsd = none := by
  simp only [readLivePosition]
  -- one of the two legs has no value
  have hspot : (readSpotLeg r c w).valueUsd = none ∨ readMargin r w = none := by
    cases htoken : foundingToken r c with
    | none => exact .inl (by simp only [readSpotLeg, htoken])
    | some token =>
        by_cases hread : SpotReadable r w token
        · right
          rw [readMargin]
          split
          next hvenue =>
            cases hequity : w.accountEquity with
            | none => rfl
            | some equity =>
                obtain ⟨hwallet, hreached⟩ := Bool.and_eq_true_iff.mp hvenue
                exact absurd ⟨⟨token, htoken, hread⟩, hwallet, hreached, by simp [hequity]⟩ h
          next => rfl
        · exact .inl (readSpotLeg_of_not_readable htoken hread)
  rcases hspot with hspot | hmargin
  · rw [hspot, combine_of_no_spot]
  · rw [hmargin, combine_of_no_margin]

/-- What the agent adds up is what the page's token is worth and the rest. -/
theorem sum_worth (c : VaultConfiguration) (w : Venues) (token : String) :
    ((agentTokens c).map (worth w)).sum + countedAlone c w token =
      worth w token + (((agentTokens c).erase token).map (worth w)).sum := by
  rw [countedAlone]
  split
  next hmem =>
    rw [((List.perm_cons_erase hmem).map _).sum_eq, List.map_cons, List.sum_cons, add_zero]
  next hmem => rw [List.erase_of_not_mem hmem, Nat.add_comm]

/-- **When the page is right.** The observed value is nothing, or what the agent values the
vault at, exactly if one of the page's two legs cannot be read, or the agent can price the
vault and what the page leaves out comes to what it counts alone. -/
theorem observed_iff (deployedAssets : Nat) :
    ((readLivePosition r c w deployedAssets).observedValueUsd = none ∨
        (readLivePosition r c w deployedAssets).observedValueUsd = agentValuation c w) ↔
      ¬ Readable r c w ∨ Priced c w ∧ ∀ token, foundingToken r c = some token →
        leftOut r c w token = countedAlone c w token := by
  by_cases hread : Readable r c w
  · obtain ⟨⟨token, htoken, hspot⟩, hwallet, hvenue, hequity⟩ := hread
    obtain ⟨equity, hequity⟩ := Option.isSome_iff_exists.mp hequity
    have hread : Readable r c w := ⟨⟨token, htoken, hspot⟩, hwallet, hvenue, by simp [hequity]⟩
    have hobserved := observed_of_readable deployedAssets htoken hspot ⟨hwallet, hvenue⟩ hequity
    rw [hobserved]
    by_cases hpriced : Priced c w
    -- both sides are sums; the token the page shows is in both, and cancels
    · have hsum := sum_worth c w token
      have husdc : readAgentUsdc r w + (if r.agentUsdc then 0 else w.usdcOnBase) =
          w.usdcOnBase := by
        rw [readAgentUsdc]
        split <;> omega
      have hinFlight : readInFlight r w + (if r.inFlight then 0 else inFlightTotal w.transfers) =
          inFlightTotal w.transfers := by
        rw [readInFlight]
        split <;> omega
      have hsame : (worth w token + usdcOf equity + (readAgentUsdc r w + readInFlight r w : Nat) :
            Int) = ((agentTokens c).map (worth w)).sum + usdcOf equity +
              (w.usdcOnBase + w.usdcOnSolana : Nat) + inFlightTotal w.transfers ↔
          leftOut r c w token = countedAlone c w token := by
        rw [leftOut]
        omega
      rw [agentValuation_eq hpriced, hequity, Option.getD_some, Option.some.injEq, hsame, htoken]
      simp [hread, hpriced]
    · rw [agentValuation_of_not_priced hpriced]
      simp [hread, hpriced]
  · exact iff_of_true (.inl (observed_of_not_readable deployedAssets hread)) (.inl hread)

/-- What a NAV reported at the agent's own figure shows on the page: nothing, or no
discrepancy, where the page is right. -/
theorem honest_discrepancy_iff {deployedAssets : Nat}
    (hhonest : agentValuation c w = some (deployedAssets : Int)) :
    (readLivePosition r c w deployedAssets).discrepancyUsd.getD 0 = 0 ↔
      (readLivePosition r c w deployedAssets).observedValueUsd = none ∨
        (readLivePosition r c w deployedAssets).observedValueUsd = agentValuation c w := by
  have hshown : (readLivePosition r c w deployedAssets).discrepancyUsd =
      (readLivePosition r c w deployedAssets).observedValueUsd.map
        fun observed => (deployedAssets : Int) - observed := rfl
  rw [hshown, hhonest]
  cases (readLivePosition r c w deployedAssets).observedValueUsd with
  | none => simp
  | some observed =>
      simp only [Option.map_some, Option.getD_some, reduceCtorEq, false_or, Option.some.injEq]
      omega

/-- A vault of two markets, the first of them its founding one. -/
def twoMarketVault : VaultConfiguration where
  record := some ⟨"NVDA", "0xnvda", 18⟩
  markets := [⟨"NVDA", "0xnvda"⟩, ⟨"TSLA", "0xtsla"⟩]
  seed := none

/-- A hundred USDC of each, and two hundred of equity. -/
def hundredEach : Venues where
  balance _ := 10 ^ 18
  sellQuote _ := some (100 * 10 ^ 6)
  accountEquity := some 200
  perpNotionalUsdc := 200 * 10 ^ 6
  usdcOnBase := 0
  usdcOnSolana := 0
  transfers := []

/-- With everything read, the second market is missing from the page. -/
theorem observed_without_second_market :
    ¬ ∀ (r : Reads) (c : VaultConfiguration) (w : Venues) (deployedAssets : Nat),
      (readLivePosition r c w deployedAssets).observedValueUsd = none ∨
        (readLivePosition r c w deployedAssets).observedValueUsd = agentValuation c w := by
  intro h
  have hvalued : agentValuation twoMarketVault hundredEach = some (400 * 10 ^ 6) := by
    decide +kernel
  have hobserved : (readLivePosition {} twoMarketVault hundredEach 0).observedValueUsd =
      some (300 * 10 ^ 6) := by
    decide +kernel
  have hright := h {} twoMarketVault hundredEach 0
  rw [hobserved, hvalued] at hright
  exact absurd hright (by decide)

end LemonMarket.Api
