import LemonMarket.Lib.Batch
import LemonMarket.Lib.Run
import Mathlib.Algebra.Field.Rat
import Mathlib.Data.List.Sort

/-!
# LemonMarket.Api.VaultMarkets

**Setting the markets a vault runs** (`setVaultMarkets`, and the `vaultMarkets` it shares with
the agent). A set of tickers and weights is checked and paired with the curated board; the
rows are seeded if there are none and then read; and one transaction writes the rows that
are named and disables those it read enabled that are not.

Each statement is atomic, the transaction included, and any number of calls may be between
two of theirs at once: what a call read may be out of date when it writes.
-/

namespace LemonMarket.Api

namespace VaultMarkets

open Lib

/-! ### Rows -/

/-- The spot token and the perp of a market. -/
structure Pairing where
  spotTokenAddress : String
  spotTokenDecimals : Nat
  spotTokenSymbol : String
  perpSymbol : String
  deriving DecidableEq, Repr

/-- A `VaultMarket` row. Its ticker is its key among those of the vault. -/
structure MarketRow where
  pairing : Pairing
  targetWeightBps : Int
  enabled : Bool := true
  seeded : Bool := false
  deriving DecidableEq, Repr

abbrev Rows := Table String MarketRow

/-- The founding market's columns of a `VaultConfig`. -/
structure VaultConfig where
  ticker : String
  pairing : Pairing
  deriving DecidableEq, Repr

/-- A row as it is answered with: a disabled market's target is zero. -/
structure VaultMarketConfig where
  ticker : String
  pairing : Pairing
  targetWeightBps : Int
  enabled : Bool
  seeded : Bool
  deriving DecidableEq, Repr

/-- What the language does with strings. -/
structure Strings where
  trim : String → String
  toUpperCase : String → String
  toLowerCase : String → String
  localeCompare : String → String → Ordering

def fullWeightBps : Int := 10000

def toConfig (ticker : String) (row : MarketRow) : VaultMarketConfig where
  ticker := ticker
  pairing := row.pairing
  targetWeightBps := if row.enabled then row.targetWeightBps else 0
  enabled := row.enabled
  seeded := row.seeded

/-- Enabled first, then the heavier, then by ticker: whether `a` may stand before `b`. -/
def byPrecedence (strings : Strings) (a b : VaultMarketConfig) : Bool :=
  if a.enabled ≠ b.enabled then a.enabled
  else if a.targetWeightBps ≠ b.targetWeightBps then b.targetWeightBps ≤ a.targetWeightBps
  else strings.localeCompare a.ticker b.ticker ≠ .gt

def listing (strings : Strings) (rows : Rows) : List VaultMarketConfig :=
  (rows.rows.map fun row => toConfig row.1 row.2).insertionSort fun a b => byPrecedence strings a b

/-- The row a vault's own columns describe. -/
def foundingRow (config : VaultConfig) : MarketRow where
  pairing := config.pairing
  targetWeightBps := fullWeightBps
  seeded := true

/-- Write the founding market as a row, unless there is one. -/
def seedFoundingMarket (config : VaultConfig) (rows : Rows) : Rows :=
  rows.upsert config.ticker (foundingRow config) id

/-! ### Requests -/

/-- A market of a request. -/
structure Requested where
  ticker : String
  targetWeightBps : ℚ
  deriving DecidableEq, Repr

/-- A market of the curated board. -/
structure Listed where
  ticker : String
  blockers : List String
  pairing : Pairing
  deriving DecidableEq, Repr

/-- A requested market with its listing. -/
structure Resolved where
  ticker : String
  targetWeightBps : ℚ
  listed : Listed
  deriving DecidableEq, Repr

structure AdminError where
  message : String
  status : Nat := 400
  deriving DecidableEq, Repr

variable (strings : Strings)

/-- Whole basis points as a percentage with two decimals. -/
def percent (bps : ℚ) : String :=
  let cents := bps.num % 100
  toString (bps.num / 100) ++ (if cents < 10 then ".0" else ".") ++ toString cents

/-- The loop over a proposed set, with the tickers it has seen. -/
def checkMarkets (seen : List String) : List Requested → Option String
  | [] => none
  | market :: rest =>
      let ticker := strings.toUpperCase market.ticker
      if ticker ∈ seen then some (ticker ++ " is listed twice.")
      else if market.targetWeightBps.den ≠ 1 ∨ market.targetWeightBps ≤ 0 then
        some (ticker ++ " needs a positive weight. Remove it instead of weighting it at zero.")
      else checkMarkets (ticker :: seen) rest

/-- Why a proposed set cannot be used, or null. -/
def validateWeights (markets : List Requested) : Option String :=
  if markets = [] then
    some ("A vault needs at least one market. To stop it trading, close its positions or " ++
      "stand the agent down.")
  else
    match checkMarkets strings [] markets with
    | some reason => some reason
    | none =>
        let total : ℚ := (markets.map (·.targetWeightBps)).sum
        if total ≠ fullWeightBps then
          some ("The weights add up to " ++ percent total ++
            "%, and they have to add up to 100%.")
        else none

/-- A requested market's pairing, where the board lists one that can be traded. -/
def resolveMarket (board : List Listed) (market : Requested) : Except AdminError Resolved :=
  match board.find? fun listed => strings.toUpperCase listed.ticker = market.ticker with
  | none => .error ⟨market.ticker ++ " is not a listed basis market, so there is no curated " ++
      "pairing for it. A vault's agent must never resolve a token from a ticker.", 400⟩
  | some listed =>
      match listed.blockers with
      | [] => .ok ⟨market.ticker, market.targetWeightBps, listed⟩
      | blocker :: _ => .error ⟨market.ticker ++ " cannot be traded right now: " ++ blocker ++
          ". Adding it would give the vault a market it can take capital for and not deploy.",
          400⟩

/-- All of them, or the error of the first that has none. -/
def resolve (board : List Listed) : List Requested → Except AdminError (List Resolved)
  | [] => .ok []
  | market :: rest => do
      let first ← resolveMarket strings board market
      let others ← resolve board rest
      pure (first :: others)

/-- The row a resolved market is written as. -/
def Resolved.row (market : Resolved) : MarketRow where
  pairing := { market.listed.pairing with
    spotTokenAddress := strings.toLowerCase market.listed.pairing.spotTokenAddress }
  targetWeightBps := market.targetWeightBps.num

/-- Re-resolved on every write rather than left as it was. -/
def Resolved.onConflict (market : Resolved) (row : MarketRow) : MarketRow :=
  { row with
    targetWeightBps := market.targetWeightBps.num
    enabled := true
    seeded := false
    pairing := (market.row strings).pairing }

def MarketRow.disabled (row : MarketRow) : MarketRow := { row with enabled := false }

/-- The rows read enabled that the request does not name. -/
def dropped (existing : Rows) (resolved : List Resolved) : List String :=
  (existing.rows.filter fun row =>
    row.1 ∉ resolved.map Resolved.ticker ∧ row.2.enabled).map Prod.fst

/-- The transaction: the named rows written, the dropped ones disabled. There is no result
where a row to disable is gone. -/
def commit (rows : Rows) (resolved : List Resolved) (existing : Rows) : Option Rows :=
  (rows.upsertAll resolved Resolved.ticker (Resolved.row strings)
    (Resolved.onConflict strings)).updateAll (dropped existing resolved) MarketRow.disabled

/-! ### Calls -/

/-- What a call asks for. -/
inductive Request where
  | vaultMarkets
  | listVaultMarkets (address : String)
  | setVaultMarkets (address : String) (markets : List Requested)
  | seedFoundingMarket
  deriving DecidableEq, Repr

/-- Why a call throws: with an `AdminError`, or passing another one on. -/
inductive Thrown where
  | admin (error : AdminError)
  | other
  deriving DecidableEq, Repr

/-- Where a call stands: the statement that is next. A read of the rows may be on the way to
a diff, with the markets resolved so far, or to the answer. -/
inductive Progress where
  | called
  | resolving (requested : List Requested)
  | reading (next : Option (List Resolved))
  | configuring (next : Option (List Resolved))
  | seeding (config : VaultConfig) (next : Option (List Resolved))
  | diffing (resolved : List Resolved)
  | writing (resolved : List Resolved) (existing : Rows)
  | returned (markets : List VaultMarketConfig)
  | threw (error : Thrown)

/-- A vault as its calls find it: how strings behave, its configuration, and what each call
asks for. -/
structure Vault where
  strings : Strings
  config : Option VaultConfig
  request : Nat → Request

/-- The rows of the vault, and the calls about it. -/
structure MarketsState where
  rows : Rows
  calls : Nat → Progress

def MarketsState.setCall (s : MarketsState) (i : Nat) (p : Progress) : MarketsState :=
  { s with calls := Function.update s.calls i p }

/-- The statements of the calls, by the call that takes them. `fail` is one that throws. -/
inductive MarketsAct where
  | call (i : Nat)
  | resolve (i : Nat) (board : List Listed)
  | read (i : Nat)
  | configure (i : Nat)
  | seed (i : Nat)
  | diff (i : Nat)
  | write (i : Nat)
  | fail (i : Nat)

/-- Refuse a vault without a configuration. -/
def assertConfigured (config : Option VaultConfig) (address : String) : Option AdminError :=
  match config with
  | some _ => none
  | none => some
      { message := "No venue configuration exists for " ++ address ++ ". The vault is deployed " ++
          "and holding funds, but it was created outside this dashboard — record its spot " ++
          "token and perp symbol before an agent can trade it."
        status := 409 }

/-- What a call does first: its checks, and the read of the configuration they start with. -/
def begin (vault : Vault) : Request → Progress
  | .vaultMarkets => .reading none
  | .listVaultMarkets address =>
      match assertConfigured vault.config address with
      | some error => .threw (.admin error)
      | none => .reading none
  | .setVaultMarkets address markets =>
      match assertConfigured vault.config (vault.strings.toLowerCase address) with
      | some error => .threw (.admin error)
      | none =>
          let requested := markets.map fun market =>
            { market with
              ticker := vault.strings.toUpperCase (vault.strings.trim market.ticker) }
          match validateWeights vault.strings requested with
          | some invalid => .threw (.admin { message := invalid })
          | none => .resolving requested
  | .seedFoundingMarket =>
      match vault.config with
      | some config => .seeding config none
      | none => .threw .other

/-- On from `vaultMarkets`: to the diff, or with the answer. -/
def proceed (next : Option (List Resolved)) (answer : List VaultMarketConfig) : Progress :=
  match next with
  | some resolved => .diffing resolved
  | none => .returned answer

/-- The rows as a write leaves them, if it goes through. -/
def MarketsState.wrote (s : MarketsState) (i : Nat) (rows : Option Rows) : MarketsState :=
  match rows with
  | some rows => { s.setCall i (.reading none) with rows := rows }
  | none => s.setCall i (.threw .other)

/-- One statement of one call. -/
def step (vault : Vault) (s : MarketsState) : MarketsAct → Option MarketsState
  | .call i =>
      match s.calls i with
      | .called => some (s.setCall i (begin vault (vault.request i)))
      | _ => none
  | .resolve i board =>
      match s.calls i with
      | .resolving requested =>
          match resolve vault.strings board requested with
          | .error error => some (s.setCall i (.threw (.admin error)))
          | .ok resolved => some (s.setCall i (.reading (some resolved)))
      | _ => none
  | .read i =>
      match s.calls i with
      | .reading next =>
          if s.rows.rows = [] then some (s.setCall i (.configuring next))
          else some (s.setCall i (proceed next (listing vault.strings s.rows)))
      | _ => none
  | .configure i =>
      match s.calls i with
      | .configuring next =>
          match vault.config with
          | none => some (s.setCall i (proceed next []))
          | some config => some (s.setCall i (.seeding config next))
      | _ => none
  | .seed i =>
      match s.calls i with
      | .seeding config next =>
          let rows := seedFoundingMarket config s.rows
          let answer := ((rows.lookup config.ticker).map (toConfig config.ticker)).toList
          some { s.setCall i (proceed next answer) with rows := rows }
      | _ => none
  | .diff i =>
      match s.calls i with
      | .diffing resolved => some (s.setCall i (.writing resolved s.rows))
      | _ => none
  | .write i =>
      match s.calls i with
      | .writing resolved existing =>
          some (s.wrote i (commit vault.strings s.rows resolved existing))
      | _ => none
  | .fail i =>
      match s.calls i with
      | .returned _ => none
      | .threw _ => none
      | _ => some (s.setCall i (.threw .other))

variable {vault : Vault} {s s' : MarketsState} {i : Nat}

@[simp] theorem setCall_self (s : MarketsState) (i : Nat) (p : Progress) :
    (s.setCall i p).calls i = p := by
  simp [MarketsState.setCall]

theorem setCall_of_ne {j : Nat} {p : Progress} (h : j ≠ i) :
    (s.setCall i p).calls j = s.calls j := by
  simp [MarketsState.setCall, h]

/-! ### What a statement can do -/

theorem call_some (h : step vault s (.call i) = some s') :
    s.calls i = .called ∧ s' = s.setCall i (begin vault (vault.request i)) := by
  simp only [step] at h
  split at h
  next hcalled => exact ⟨hcalled, (Option.some.inj h).symm⟩
  next => cases h

theorem resolve_some {board : List Listed} (h : step vault s (.resolve i board) = some s') :
    ∃ requested, s.calls i = .resolving requested ∧
      ((∃ error, s' = s.setCall i (.threw (.admin error))) ∨
        ∃ resolved, resolve vault.strings board requested = .ok resolved ∧
          s' = s.setCall i (.reading (some resolved))) := by
  simp only [step] at h
  split at h
  next requested hrequested =>
    split at h
    next error _ => exact ⟨requested, hrequested, .inl ⟨error, (Option.some.inj h).symm⟩⟩
    next resolved hresolved =>
      exact ⟨requested, hrequested, .inr ⟨resolved, hresolved, (Option.some.inj h).symm⟩⟩
  next => cases h

theorem read_some (h : step vault s (.read i) = some s') :
    ∃ next, s.calls i = .reading next ∧
      (s.rows.rows = [] ∧ s' = s.setCall i (.configuring next) ∨
        s.rows.rows ≠ [] ∧ s' = s.setCall i (proceed next (listing vault.strings s.rows))) := by
  simp only [step] at h
  split at h
  next next hnext =>
    split at h
    next hempty => exact ⟨next, hnext, .inl ⟨hempty, (Option.some.inj h).symm⟩⟩
    next hsome => exact ⟨next, hnext, .inr ⟨hsome, (Option.some.inj h).symm⟩⟩
  next => cases h

theorem configure_some (h : step vault s (.configure i) = some s') :
    ∃ next, s.calls i = .configuring next ∧
      (vault.config = none ∧ s' = s.setCall i (proceed next []) ∨
        ∃ config, vault.config = some config ∧ s' = s.setCall i (.seeding config next)) := by
  simp only [step] at h
  split at h
  next next hnext =>
    split at h
    next hnone => exact ⟨next, hnext, .inl ⟨hnone, (Option.some.inj h).symm⟩⟩
    next config hconfig =>
      exact ⟨next, hnext, .inr ⟨config, hconfig, (Option.some.inj h).symm⟩⟩
  next => cases h

theorem seed_some (h : step vault s (.seed i) = some s') :
    ∃ config next answer, s.calls i = .seeding config next ∧
      s' = { s.setCall i (proceed next answer) with rows := seedFoundingMarket config s.rows } := by
  simp only [step] at h
  split at h
  next config next hseeding => exact ⟨config, next, _, hseeding, (Option.some.inj h).symm⟩
  next => cases h

theorem diff_some (h : step vault s (.diff i) = some s') :
    ∃ resolved, s.calls i = .diffing resolved ∧
      s' = s.setCall i (.writing resolved s.rows) := by
  simp only [step] at h
  split at h
  next resolved hresolved => exact ⟨resolved, hresolved, (Option.some.inj h).symm⟩
  next => cases h

theorem write_some (h : step vault s (.write i) = some s') :
    ∃ resolved existing, s.calls i = .writing resolved existing ∧
      s' = s.wrote i (commit vault.strings s.rows resolved existing) := by
  simp only [step] at h
  split at h
  next resolved existing hwriting =>
    exact ⟨resolved, existing, hwriting, (Option.some.inj h).symm⟩
  next => cases h

theorem fail_some (h : step vault s (.fail i) = some s') :
    s' = s.setCall i (.threw .other) := by
  simp only [step] at h
  split at h
  next => cases h
  next => cases h
  next => exact (Option.some.inj h).symm

end VaultMarkets

end LemonMarket.Api
