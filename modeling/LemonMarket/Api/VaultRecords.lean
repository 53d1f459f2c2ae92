import LemonMarket.Contracts.Registry
import LemonMarket.NearMpc.Paths

/-!
# LemonMarket.Api.VaultRecords

**Recording the vaults that are deployed** (`services/admin.ts`). A vault is prepared by the
server, deployed by an admin's own wallet, and recorded by the server again; the steps are
apart, anything may happen between them, and any number of requests may be under way. What holds
them together is that the server asks the chain, and that the table of configurations has a
unique address, path and wallet for each row.

`recorded_matches_chain` is what comes of it: whatever the order of the steps, a row at a
deployed vault describes that vault, from then on, and so the wallet an agent derives from the
row is the one the vault names.

The rows are the server's alone: the script that backfills them on a deploy, and deletes those of
vaults the chain no longer has, is left out.
-/

namespace LemonMarket

namespace Api

namespace VaultRecords

open Lib NumberText NearMpc

/-- What the server computes with and did not write: the case of texts, the hash of a ticker,
and the accounts a path controls. -/
structure Services where
  casing : Casing
  keccak256 : JsString → MarketId
  evmAddress : JsString → Address
  solanaAddress : JsString → JsString
  nearMpc : Bool

inductive ConsoleError
  | admin (message : JsString) (status : Nat)
  /-- An error of a function called, or of the database. -/
  | other (message : JsString)
  deriving DecidableEq

def tickerUnits : JsString := upperLetters ++ digits ++ js ".-"

/-- `/^[A-Z0-9.-]{1,16}$/` -/
def isTicker (s : JsString) : Bool :=
  1 ≤ s.length ∧ s.length ≤ 16 ∧ s.all tickerUnits.contains = true

structure PreparedVault where
  ticker : JsString
  tier : Tier
  marketId : MarketId
  agentPath : JsString
  agentEvmAddress : Address
  agentSolanaAddress : JsString
  name : JsString
  symbol : JsString
  targetLeverageBps : ℚ
  maxLeverageBps : ℚ
  deriving DecidableEq

inductive AssetClass
  | crypto | equity | rwa | fx | commodity | metal | index | unknown
  deriving Repr, DecidableEq

/-- A row of the table of configurations. -/
structure VaultConfig where
  address : Address
  ticker : JsString
  riskTier : Tier
  agentPath : JsString
  agentEvmAddress : Address
  agentSolanaAddress : JsString
  spotTokenAddress : Address
  spotTokenDecimals : Nat
  spotTokenSymbol : JsString
  perpSymbol : JsString
  assetClass : AssetClass
  createdBy : Address
  agentEnabled : Bool := true
  closeRequestedAt : Option Nat := none
  closeRequestedBy : Option Address := none
  closeReason : Option JsString := none
  closeCompletedAt : Option Nat := none
  deriving DecidableEq

/-- The body of a request to record a vault. -/
structure RecordRequest where
  address : Address
  ticker : JsString
  tier : Tier
  spotTokenAddress : Address
  spotTokenDecimals : Nat
  spotTokenSymbol : JsString
  perpSymbol : JsString
  assetClass : Option JsString
  deriving DecidableEq

/-- A row of the table of markets, as far as the recording writes it. -/
structure VaultMarket where
  vaultAddress : Address
  ticker : JsString
  spotTokenAddress : Address
  spotTokenDecimals : Nat
  spotTokenSymbol : JsString
  perpSymbol : JsString
  targetWeightBps : Nat
  deriving DecidableEq

section

variable (services : Services)

/-- Unrecognised values become `UNKNOWN` rather than being rejected. -/
def toVaultAssetClass (value : Option JsString) : AssetClass :=
  let upper := services.casing.toUpperCase (value.getD [])
  if upper = js "CRYPTO" then .crypto
  else if upper = js "EQUITY" then .equity
  else if upper = js "RWA" then .rwa
  else if upper = js "FX" then .fx
  else if upper = js "COMMODITY" then .commodity
  else if upper = js "METAL" then .metal
  else if upper = js "INDEX" then .index
  else .unknown

def addressText (a : Address) : JsString :=
  js "0x" ++
    padStart ((Nat.digits 16 a.val).reverse.map fun d => unit (Nat.digitChar d)) 40 (digit 0)

def alreadyExists (tier : Tier) (ticker : JsString) (existing : VaultConfig) : JsString :=
  js "A " ++ tier.text ++ js " vault for " ++ ticker ++ js " already exists at " ++
    addressText existing.address ++ js ". One market and tier gets one vault, and one agent."

/-- What a new vault would be. -/
def proposal (ticker : JsString) (tier : Tier) (agentPath : JsString)
    (targetLeverageBps maxLeverageBps : ℚ) : PreparedVault where
  ticker
  tier
  marketId := services.keccak256 ticker
  agentPath
  agentEvmAddress := services.evmAddress agentPath
  agentSolanaAddress := services.solanaAddress agentPath
  name := js "Lemon " ++ ticker ++ js " Basis " ++
    (if tier = .conservative then js "Conservative" else js "Leveraged")
  symbol := js "lm" ++ ticker ++ (if tier = .conservative then js "C" else js "L")
  targetLeverageBps
  maxLeverageBps

/-- `prepareVault`, on the rows there are. -/
def prepareVault (configs : List VaultConfig) (ticker : JsString) (tier : Tier)
    (targetLeverageBps maxLeverageBps : Option ℚ) : Except ConsoleError PreparedVault := do
  revertIf (services.nearMpc = false)
    (.admin (js ("NEAR chain signatures are not configured, so an agent wallet cannot be " ++
      "derived. Set NEAR_ACCOUNT_ID and NEAR_PRIVATE_KEY.")) 503)
  let upper := services.casing.toUpperCase (trim ticker)
  revertIf (isTicker upper = false)
    (.admin (js "\"" ++ ticker ++ js "\" is not a usable ticker.") 400)
  let target := if tier = .conservative then 10000 else targetLeverageBps.getD 20000
  let max := if tier = .conservative then 10000 else maxLeverageBps.getD 30000
  revertIf (tier ≠ .conservative ∧ (target ≤ 10000 ∨ max > 30000))
    (.admin (js ("A leveraged vault must target above 1x and may not exceed 3x. A vault " ++
      "that sits at 1x is the conservative product under a riskier label.")) 400)
  revertIf (max < target) (.admin (js "The leverage ceiling cannot be below the target.") 400)
  let agentPath ← (agentDerivationPath services.casing upper tier).mapError .other
  match configs.find? fun row => row.agentPath = agentPath with
  | some existing => .error (.admin (alreadyExists tier upper existing) 409)
  | none => .ok (proposal services upper tier agentPath target max)

/-- What reading `marketId` and `agentWallet` off an address gave, if it gave anything. -/
abbrev Reading := Option (MarketId × Address)

/-- `assertVaultMatches`. -/
def assertVaultMatches (address : Address) (prepared : PreparedVault) (reading : Reading) :
    Except ConsoleError Unit :=
  match reading with
  | none => .error (.admin (js "No vault could be read at " ++ addressText address ++
      js ". Nothing was recorded — check the transaction landed before retrying.") 409)
  | some (marketId, agentWallet) =>
      if marketId ≠ services.keccak256 prepared.ticker then
        .error (.admin (js "The vault at " ++ addressText address ++ js " is not the " ++
          prepared.ticker ++ js " vault — its marketId does not match. Nothing was recorded, " ++
          js "which is deliberate: an agent reads this configuration and would have traded " ++
          prepared.ticker ++ js " with that vault's capital.") 409)
      else if agentWallet ≠ prepared.agentEvmAddress then
        .error (.admin (js "The vault at " ++ addressText address ++
          js " names a different agent wallet than the one derived for " ++ prepared.ticker ++
          js ". Nothing was recorded.") 409)
      else .ok ()

/-- The row a vault is recorded as. -/
def configRow (request : RecordRequest) (prepared : PreparedVault) (createdBy : Address) :
    VaultConfig where
  address := request.address
  ticker := prepared.ticker
  riskTier := prepared.tier
  agentPath := prepared.agentPath
  agentEvmAddress := prepared.agentEvmAddress
  agentSolanaAddress := prepared.agentSolanaAddress
  spotTokenAddress := request.spotTokenAddress
  spotTokenDecimals := request.spotTokenDecimals
  spotTokenSymbol := request.spotTokenSymbol
  perpSymbol := request.perpSymbol
  assetClass := toVaultAssetClass services request.assetClass
  createdBy

/-- The founding market's row. -/
def marketRow (request : RecordRequest) (prepared : PreparedVault) : VaultMarket where
  vaultAddress := request.address
  ticker := prepared.ticker
  spotTokenAddress := request.spotTokenAddress
  spotTokenDecimals := request.spotTokenDecimals
  spotTokenSymbol := request.spotTokenSymbol
  perpSymbol := request.perpSymbol
  targetWeightBps := 10000

/-- Two rows the table cannot both hold. -/
def clash (a b : VaultConfig) : Bool :=
  a.address = b.address ∨ a.agentPath = b.agentPath ∨ a.agentEvmAddress = b.agentEvmAddress ∨
    a.agentSolanaAddress = b.agentSolanaAddress

/-- `agentWalletFor`: the wallet of a path, if it is the one expected. -/
def agentWalletFor (path : JsString) (expectedAddress : Option Address) :
    Except JsString (Address × JsString) :=
  match expectedAddress with
  | some expected =>
      if services.evmAddress path ≠ expected then
        .error (js "Derivation path \"" ++ path ++ js "\" gives " ++
          addressText (services.evmAddress path) ++ js ", but the vault names " ++
          addressText expected ++ js " as its agent. The vault's agent address is immutable, " ++
          js "so this path cannot sign for it — check NEAR_ACCOUNT_ID, which is an input to " ++
          js "derivation.")
      else .ok (services.evmAddress path, services.solanaAddress path)
  | none => .ok (services.evmAddress path, services.solanaAddress path)

/-! ### The server and the chain -/

/-- How far a request to record has come. -/
inductive Progress
  /-- It is from an admin. -/
  | asked
  /-- The admin may create vaults. -/
  | permitted
  | prepared (vault : PreparedVault)
  | matched (vault : PreparedVault)
  | recorded
  | failed (error : ConsoleError)
  deriving DecidableEq

/-- A request under way, and the admin it is from. -/
structure Recording where
  request : RecordRequest
  by' : Address
  progress : Progress
  deriving DecidableEq

/-- The chain, the admins with whether they may create vaults, the tables, and the requests. -/
structure Console where
  chain : Platform
  admins : Address → Option Bool
  configs : List VaultConfig
  markets : List VaultMarket
  recordings : List Recording

inductive ConsoleStep
  | chain (tx : PlatformTx)
  | setAdmin (address : Address) (canCreateVaults : Option Bool)
  | record (admin : Option Address) (request : RecordRequest)
  | permit (k : Nat)
  | prepare (k : Nat)
  | check (k : Nat) (reading : Reading)
  | write (k : Nat)
  | setAgentEnabled (address : Address) (enabled : Bool)
  | closeOrder (address : Address) (reason : Option JsString) (admin : Address) (now : Nat)
  | liftCloseOrder (address : Address)
  /-- The agent found the vault flat. -/
  | closeSatisfied (address : Address) (now : Nat)

/-- `assertAdmin`, which `assertCanCreateVaults` begins with. -/
def assertAdmin (admins : Address → Option Bool) (admin : Option Address) :
    Except ConsoleError Address :=
  match admin with
  | none => .error (.admin (js "Sign in to reach the admin dashboard.") 401)
  | some address =>
      if (admins address).isSome then .ok address else .error (.admin (js "Not found") 404)

/-- The rest of `assertCanCreateVaults`, which reads the table of admins again. -/
def assertMayCreate (admins : Address → Option Bool) (address : Address) :
    Except ConsoleError Unit :=
  if (admins address).getD false then .ok ()
  else .error (.admin (js "This admin account cannot create vaults.") 403)

def setAgentEnabled (enabled : Bool) (row : VaultConfig) : VaultConfig :=
  { row with agentEnabled := enabled }

/-- `setCloseOrder`, to close. -/
def closeOrder (reason : Option JsString) (admin : Address) (now : Nat) (row : VaultConfig) :
    VaultConfig :=
  { row with
    closeRequestedAt := some now
    closeRequestedBy := some admin
    closeReason := (reason.map trim).bind fun text => if text = [] then none else some text
    closeCompletedAt := none }

/-- `setCloseOrder`, to lift the order. The reason survives. -/
def liftCloseOrder (row : VaultConfig) : VaultConfig :=
  { row with closeRequestedAt := none, closeRequestedBy := none, closeCompletedAt := none }

/-- `recordCloseSatisfied`, of the agent. -/
def closeSatisfied (now : Nat) (row : VaultConfig) : VaultConfig :=
  if row.closeCompletedAt = none then { row with closeCompletedAt := some now } else row

/-- Change the row of a vault. -/
def Console.onRow (s : Console) (address : Address) (f : VaultConfig → VaultConfig) : Console :=
  { s with configs := s.configs.map fun row => if row.address = address then f row else row }

def Console.moved (s : Console) (k : Nat) (recording : Recording) : Console :=
  { s with recordings := s.recordings.set k recording }

/-- What a read of the vault at an address can give: what the vault there says, or nothing;
where there is none, nothing, unless another's contract is there. It is two calls, of what a
vault never changes, so that of the later one answers both. -/
def mayRead (foreign : Address → Bool) (chain : Platform) (address : Address) :
    Reading → Bool
  | none => true
  | some (marketId, agentWallet) =>
      match chain.vaults address with
      | some c => c.marketId = marketId ∧ c.code.agentWallet.val = agentWallet
      | none => foreign address

/-- One step. `foreign` are the addresses of other people's contracts; the chain deploys no
vault at one. -/
def next (foreign : Address → Bool) (s : Console) : ConsoleStep → Option Console
  | .chain tx =>
      if tx.call.created.all fun vault => !foreign vault then
        (s.chain.next tx).map fun chain => { s with chain }
      else none
  | .setAdmin address canCreateVaults =>
      some { s with admins := Function.update s.admins address canCreateVaults }
  | .record admin request =>
      match assertAdmin s.admins admin with
      | .ok by' => some { s with recordings := s.recordings ++ [⟨request, by', .asked⟩] }
      | .error _ => some s
  | .permit k =>
      match s.recordings[k]? with
      | some ⟨request, by', .asked⟩ =>
          match assertMayCreate s.admins by' with
          | .ok () => some (s.moved k ⟨request, by', .permitted⟩)
          | .error e => some (s.moved k ⟨request, by', .failed e⟩)
      | _ => none
  | .prepare k =>
      match s.recordings[k]? with
      | some ⟨request, by', .permitted⟩ =>
          match prepareVault services s.configs request.ticker request.tier none none with
          | .ok vault => some (s.moved k ⟨request, by', .prepared vault⟩)
          | .error e => some (s.moved k ⟨request, by', .failed e⟩)
      | _ => none
  | .check k reading =>
      match s.recordings[k]? with
      | some ⟨request, by', .prepared vault⟩ =>
          if mayRead foreign s.chain request.address reading then
            match assertVaultMatches services request.address vault reading with
            | .ok () => some (s.moved k ⟨request, by', .matched vault⟩)
            | .error e => some (s.moved k ⟨request, by', .failed e⟩)
          else none
      | _ => none
  | .write k =>
      match s.recordings[k]? with
      | some ⟨request, by', .matched vault⟩ =>
          let row := configRow services request vault by'
          if s.configs.any (clash row) ||
              s.markets.any (fun m => m.vaultAddress = row.address ∧ m.ticker = row.ticker) then
            some (s.moved k ⟨request, by', .failed (.other (js "Unique constraint failed"))⟩)
          else some { s.moved k ⟨request, by', .recorded⟩ with
            configs := s.configs ++ [row]
            markets := s.markets ++ [marketRow request vault] }
      | _ => none
  | .setAgentEnabled address enabled => some (s.onRow address (setAgentEnabled enabled))
  | .closeOrder address reason admin now => some (s.onRow address (closeOrder reason admin now))
  | .liftCloseOrder address => some (s.onRow address liftCloseOrder)
  | .closeSatisfied address now => some (s.onRow address (closeSatisfied now))

end

/-! ### What holds of a row -/

section

variable {services : Services} {foreign : Address → Bool} {p q : Platform} {s s' : Console}

/-- A path is that of a ticker and a tier, and two wallets are those of the path. -/
structure Derived (services : Services) (ticker : JsString) (tier : Tier) (agentPath : JsString)
    (evm : Address) (solana : JsString) : Prop where
  usable : isTicker ticker = true
  path : agentDerivationPath services.casing ticker tier = .ok agentPath
  evm : evm = services.evmAddress agentPath
  solana : solana = services.solanaAddress agentPath

/-- The vault at an address, if one is there, is for this ticker and names this wallet. -/
def Names (services : Services) (foreign : Address → Bool) (p : Platform) (address : Address)
    (ticker : JsString) (wallet : Address) : Prop :=
  match p.vaults address with
  | some c => c.marketId = services.keccak256 ticker ∧ c.code.agentWallet.val = wallet
  | none => foreign address = true

theorem isTicker_chars {ticker : JsString} (h : isTicker ticker = true) :
    1 ≤ ticker.length ∧ ticker.length ≤ 16 ∧ ∀ c ∈ ticker, c ∈ tickerUnits := by
  simpa only [isTicker, decide_eq_true_eq, List.all_eq_true, List.contains_iff_mem] using h

/-- The lower case of a ticker's unit is one that a market's identity may have. -/
theorem tickerUnits_plain {c : CodeUnit} (h : c ∈ tickerUnits) : c.val < 128 ∧ isSpace c = false ∧
    asciiLower c ∈ lowerLetters ++ digits ++ js "._-" := by
  have hall : (tickerUnits.all fun c => c.val < 128 && !isSpace c &&
      decide (asciiLower c ∈ lowerLetters ++ digits ++ js "._-")) = true := by decide
  have hc := List.all_eq_true.mp hall c h
  simp only [Bool.and_eq_true, decide_eq_true_eq, Bool.not_eq_true'] at hc
  exact ⟨hc.1.1, hc.1.2, hc.2⟩

set_option maxRecDepth 4000 in
/-- It tells them apart. -/
theorem tickerUnits_nodup : (tickerUnits.map asciiLower).Nodup := by
  decide

/-- Texts of units that a function tells apart are told apart. -/
theorem map_inj_on {s t units : JsString} {f : CodeUnit → CodeUnit} (hf : (units.map f).Nodup)
    (hs : ∀ c ∈ s, c ∈ units) (ht : ∀ c ∈ t, c ∈ units) (h : s.map f = t.map f) : s = t := by
  induction s generalizing t with
  | nil => exact (List.map_eq_nil_iff.mp h.symm).symm
  | cons c s ih =>
      cases t with
      | nil => cases h
      | cons d t =>
          obtain ⟨hhead, htail⟩ := List.cons.inj h
          rw [List.inj_on_of_nodup_map hf (hs c (List.mem_cons_self ..))
            (ht d (List.mem_cons_self ..)) hhead]
          rw [ih (fun c hc => hs c (List.mem_cons_of_mem _ hc))
            (fun c hc => ht c (List.mem_cons_of_mem _ hc)) htail]

theorem normalised_ticker (casing : Casing) {ticker : JsString} (h : isTicker ticker = true) :
    normalised casing ticker = ticker.map asciiLower := by
  obtain ⟨-, -, hchars⟩ := isTicker_chars h
  have hspace : ∀ c ∈ ticker, isSpace c = false := fun c hc => (tickerUnits_plain (hchars c hc)).2.1
  have hascii : isAscii ticker = true := by
    refine List.all_eq_true.mpr fun c hc => ?_
    simpa using (tickerUnits_plain (hchars c hc)).1
  rw [normalised, trim_eq_self hspace, casing.lower_ascii ticker hascii]

/-- A ticker always has a path. -/
theorem path_of_ticker (casing : Casing) {ticker : JsString} (h : isTicker ticker = true)
    (tier : Tier) : ∃ path, agentDerivationPath casing ticker tier = .ok path := by
  obtain ⟨hpos, hle, hchars⟩ := isTicker_chars h
  have hid : isMarketId (normalised casing ticker) = true := by
    rw [normalised_ticker casing h]
    simp only [isMarketId, List.length_map, decide_eq_true_eq]
    refine ⟨hpos, by omega, List.all_eq_true.mpr fun c hc => ?_⟩
    obtain ⟨d, hd, rfl⟩ := List.mem_map.mp hc
    simpa using (tickerUnits_plain (hchars d hd)).2.2
  exact ⟨_, if_pos hid⟩

/-- Different tickers, or tiers, have different paths. -/
theorem path_inj (casing : Casing) {ticker ticker' path : JsString} {tier tier' : Tier}
    (h : isTicker ticker = true) (h' : isTicker ticker' = true)
    (hpath : agentDerivationPath casing ticker tier = .ok path)
    (hpath' : agentDerivationPath casing ticker' tier' = .ok path) :
    ticker = ticker' ∧ tier = tier' := by
  have hsame := (path_eq_iff (.agent ticker tier) (.agent ticker' tier') hpath hpath').mp rfl
  simp only [PathRequest.identity, normalised_ticker casing h, normalised_ticker casing h',
    PathRequest.agent.injEq] at hsame
  obtain ⟨-, -, hchars⟩ := isTicker_chars h
  obtain ⟨-, -, hchars'⟩ := isTicker_chars h'
  exact ⟨map_inj_on tickerUnits_nodup hchars hchars' hsame.1, hsame.2⟩

theorem prepareVault_ok {configs : List VaultConfig} {ticker : JsString} {tier : Tier}
    {target max : Option ℚ} {v : PreparedVault}
    (h : prepareVault services configs ticker tier target max = .ok v) :
    Derived services v.ticker v.tier v.agentPath v.agentEvmAddress v.agentSolanaAddress := by
  simp only [prepareVault, bind_eq_ok, revertIf_eq_ok, mapError_eq_ok] at h
  obtain ⟨-, -, -, hticker, -, -, -, -, path, hpath, h⟩ := h
  split at h
  next => cases h
  next =>
    obtain rfl := Except.ok.inj h
    exact ⟨by simpa [proposal] using hticker, hpath, rfl, rfl⟩

/-- A vault can be prepared unless its ticker and tier have a row. -/
theorem prepareVault_iff {configs : List VaultConfig} (hrows : ∀ row ∈ configs,
      Derived services row.ticker row.riskTier row.agentPath row.agentEvmAddress
        row.agentSolanaAddress)
    {ticker : JsString} (hnear : services.nearMpc = true)
    (hticker : isTicker (services.casing.toUpperCase (trim ticker)) = true) (tier : Tier) :
    (∃ v, prepareVault services configs ticker tier none none = .ok v) ↔
      ∀ row ∈ configs, ¬ (row.ticker = services.casing.toUpperCase (trim ticker) ∧
        row.riskTier = tier) := by
  obtain ⟨path, hpath⟩ := path_of_ticker services.casing hticker tier
  have hfind : (configs.find? fun row => row.agentPath = path) = none ↔
      ∀ row ∈ configs, ¬ (row.ticker = services.casing.toUpperCase (trim ticker) ∧
        row.riskTier = tier) := by
    rw [List.find?_eq_none]
    refine forall₂_congr fun row hrow => not_congr ?_
    rw [decide_eq_true_eq]
    -- a path is a ticker and a tier, so the row found is the one of both
    constructor
    · rintro rfl
      exact path_inj services.casing (hrows row hrow).usable hticker (hrows row hrow).path hpath
    · rintro ⟨hsame, rfl⟩
      have hrow := (hrows row hrow).path
      rw [hsame, hpath] at hrow
      exact (Except.ok.inj hrow).symm
  rw [← hfind]
  simp only [prepareVault, bind_eq_ok, revertIf_eq_ok, mapError_eq_ok]
  constructor
  -- the last check is the one on the row
  · rintro ⟨v, -, -, -, -, -, -, -, -, path', hpath', h⟩
    obtain rfl := Except.ok.inj (hpath.symm.trans hpath')
    split at h
    next => cases h
    next hnone => exact hnone
  · intro hnone
    refine ⟨proposal services (services.casing.toUpperCase (trim ticker)) tier path
      (if tier = .conservative then 10000 else 20000)
      (if tier = .conservative then 10000 else 30000),
      (), by simp [hnear], (), by simp [hticker], (), ?_, (), ?_, path, hpath, ?_⟩
    · rintro ⟨htier, hbounds⟩
      rw [if_neg htier, if_neg htier] at hbounds
      norm_num at hbounds
    · split <;> norm_num
    · rw [hnone]
      rfl

theorem assertVaultMatches_ok {address : Address} {v : PreparedVault} {reading : Reading}
    {u : Unit} (h : assertVaultMatches services address v reading = .ok u) :
    reading = some (services.keccak256 v.ticker, v.agentEvmAddress) := by
  unfold assertVaultMatches at h
  split at h
  next => cases h
  next marketId wallet =>
    split at h
    next => cases h
    next hmarket =>
      split at h
      next => cases h
      next hwallet => rw [not_not.mp hmarket, not_not.mp hwallet]

/-- What was read off an address holds there. -/
theorem names_of_read {address : Address} {ticker : JsString} {wallet : Address}
    (h : mayRead foreign p address (some (services.keccak256 ticker, wallet)) = true) :
    Names services foreign p address ticker wallet := by
  unfold Names
  simp only [mayRead] at h
  cases hc : p.vaults address with
  | some c => simpa [hc] using h
  | none => simpa [hc] using h

/-- A vault stays what it is, and nothing comes to be where others' contracts are. -/
theorem Names.next {address wallet : Address} {ticker : JsString} {tx : PlatformTx}
    (h : Names services foreign p address ticker wallet) (hp : p.Reachable)
    (hforeign : ∀ vault, tx.call.created = some vault → foreign vault = false)
    (hn : p.next tx = some q) : Names services foreign q address ticker wallet := by
  obtain ⟨-, hextends⟩ := hp.registered.next hp.wired hn
  unfold Names at h ⊢
  cases hc : p.vaults address with
  | some c =>
      rw [hc] at h
      obtain ⟨c', hc', hcode, hmarket⟩ := hextends.code address c hc
      rw [hc']
      show c'.marketId = _ ∧ c'.code.agentWallet.val = wallet
      rw [hmarket, hcode]
      exact h
  | none =>
      rw [hc] at h
      cases hc' : q.vaults address with
      | none => exact h
      | some c' =>
          obtain ⟨vault, hcreated, rfl⟩ := Platform.created_of_new hn hc hc'
          rw [hforeign vault hcreated] at h
          cases h

/-- The columns a row is known by, which nothing changes. -/
def VaultConfig.identity (row : VaultConfig) :
    Address × JsString × Tier × JsString × Address × JsString × Address :=
  (row.address, row.ticker, row.riskTier, row.agentPath, row.agentEvmAddress,
    row.agentSolanaAddress, row.createdBy)

/-- What holds of a row. `asked` are the admins who have asked for a vault to be recorded and
were found to be able to create one, with its address. -/
def RowSound (services : Services) (foreign : Address → Bool) (asked : Address → Address → Prop)
    (p : Platform) (markets : List VaultMarket) (row : VaultConfig) : Prop :=
  asked row.createdBy row.address ∧
    Derived services row.ticker row.riskTier row.agentPath row.agentEvmAddress
      row.agentSolanaAddress ∧
    Names services foreign p row.address row.ticker row.agentEvmAddress ∧
    ∃ m ∈ markets, m.vaultAddress = row.address ∧ m.ticker = row.ticker

/-- What holds of a request, as far as it has come. -/
def ProgressSound (services : Services) (foreign : Address → Bool) (asked : Prop) (p : Platform)
    (address : Address) : Progress → Prop
  | .permitted => asked
  | .prepared v => asked ∧
      Derived services v.ticker v.tier v.agentPath v.agentEvmAddress v.agentSolanaAddress
  | .matched v => asked ∧
      Derived services v.ticker v.tier v.agentPath v.agentEvmAddress v.agentSolanaAddress ∧
        Names services foreign p address v.ticker v.agentEvmAddress
  | _ => True

/-- **What every step keeps.** `requested` are the admins who have asked for a vault to be
recorded. -/
structure Sound (services : Services) (foreign : Address → Bool)
    (requested asked : Address → Address → Prop) (s : Console) : Prop where
  chain : s.chain.Reachable
  rows : ∀ row ∈ s.configs, RowSound services foreign asked s.chain s.markets row
  recordings : ∀ r ∈ s.recordings, requested r.by' r.request.address ∧
    ProgressSound services foreign (asked r.by' r.request.address) s.chain r.request.address
      r.progress
  apart : s.configs.Pairwise fun a b => clash a b = false

variable {requested requested' asked asked' : Address → Address → Prop}

theorem ProgressSound.mono {may may' : Prop} {address : Address} {progress : Progress}
    (h : ProgressSound services foreign may p address progress) (hmore : may → may') :
    ProgressSound services foreign may' p address progress := by
  cases progress with
  | permitted => exact hmore h
  | prepared v => exact ⟨hmore h.1, h.2⟩
  | matched v => exact ⟨hmore h.1, h.2⟩
  | asked => trivial
  | recorded => trivial
  | failed e => trivial

theorem Sound.mono (h : Sound services foreign requested asked s)
    (hrequested : ∀ admin address, requested admin address → requested' admin address)
    (hasked : ∀ admin address, asked admin address → asked' admin address) :
    Sound services foreign requested' asked' s where
  chain := h.chain
  rows row hrow := ⟨hasked _ _ (h.rows row hrow).1, (h.rows row hrow).2⟩
  recordings r hr :=
    ⟨hrequested _ _ (h.recordings r hr).1, (h.recordings r hr).2.mono (hasked _ _)⟩
  apart := h.apart

theorem RowSound.of_identity {markets : List VaultMarket} {row row' : VaultConfig}
    (h : RowSound services foreign asked p markets row) (hsame : row'.identity = row.identity) :
    RowSound services foreign asked p markets row' := by
  simp only [VaultConfig.identity, Prod.mk.injEq] at hsame
  obtain ⟨haddress, hticker, htier, hpath, hevm, hsolana, hadmin⟩ := hsame
  unfold RowSound
  rw [haddress, hticker, htier, hpath, hevm, hsolana, hadmin]
  exact h

theorem clash_of_identity {a a' b b' : VaultConfig} (ha : a'.identity = a.identity)
    (hb : b'.identity = b.identity) : clash a' b' = clash a b := by
  simp only [VaultConfig.identity, Prod.mk.injEq] at ha hb
  unfold clash
  rw [ha.1, ha.2.2.2.1, ha.2.2.2.2.1, ha.2.2.2.2.2.1, hb.1, hb.2.2.2.1, hb.2.2.2.2.1,
    hb.2.2.2.2.2.1]

/-- A change of the other columns. -/
theorem Sound.onRow (h : Sound services foreign requested asked s) (address : Address)
    {f : VaultConfig → VaultConfig} (hf : ∀ row, (f row).identity = row.identity) :
    Sound services foreign requested asked (s.onRow address f) := by
  have hsame : ∀ row : VaultConfig,
      (if row.address = address then f row else row).identity = row.identity := by
    intro row
    split
    · exact hf row
    · rfl
  refine ⟨h.chain, ?_, h.recordings, ?_⟩
  · intro row' hrow'
    obtain ⟨row, hrow, rfl⟩ := List.mem_map.mp hrow'
    exact (h.rows row hrow).of_identity (hsame row)
  · refine List.pairwise_map.mpr (h.apart.imp fun {a b} hab => ?_)
    rw [clash_of_identity (hsame a) (hsame b), hab]

/-- A request moves on. -/
theorem Sound.moved (h : Sound services foreign requested asked s) {k : Nat}
    {request : RecordRequest} {by' : Address} {progress progress' : Progress}
    (hk : s.recordings[k]? = some ⟨request, by', progress⟩)
    (hnow : ProgressSound services foreign (asked by' request.address) s.chain request.address
      progress') :
    Sound services foreign requested asked (s.moved k ⟨request, by', progress'⟩) := by
  refine ⟨h.chain, h.rows, ?_, h.apart⟩
  intro other hother
  rcases List.mem_or_eq_of_mem_set hother with hother | rfl
  · exact h.recordings other hother
  · exact ⟨(h.recordings _ (List.mem_of_getElem? hk)).1, hnow⟩

/-- The chain moves on. -/
theorem Sound.onChain (h : Sound services foreign requested asked s) {tx : PlatformTx}
    (hforeign : ∀ vault, tx.call.created = some vault → foreign vault = false)
    (hn : s.chain.next tx = some q) :
    Sound services foreign requested asked { s with chain := q } := by
  have hnames : ∀ {address ticker wallet},
      Names services foreign s.chain address ticker wallet →
        Names services foreign q address ticker wallet :=
    fun hold => hold.next h.chain hforeign hn
  refine ⟨?_, ?_, ?_, h.apart⟩
  · obtain ⟨p₀, tr, hgen, hrun⟩ := h.chain
    exact ⟨p₀, _, hgen, .snoc hrun hn⟩
  · intro row hrow
    obtain ⟨hasked, hderived, hold, hfounding⟩ := h.rows row hrow
    exact ⟨hasked, hderived, hnames hold, hfounding⟩
  · intro r hr
    obtain ⟨hasked, hold⟩ := h.recordings r hr
    refine ⟨hasked, ?_⟩
    cases hprogress : r.progress with
    | matched v =>
        rw [hprogress] at hold
        exact ⟨hold.1, hold.2.1, hnames hold.2.2⟩
    | _ => rwa [hprogress] at hold

/-- An admin asks for the vault at an address to be recorded. -/
def Requests (step : ConsoleStep) (admin address : Address) : Prop :=
  ∃ request, step = .record (some admin) request ∧ request.address = address

/-- The admin of a request for the vault at an address is found to be able to create vaults. -/
def Permits (s : Console) (step : ConsoleStep) (admin address : Address) : Prop :=
  s.admins admin = some true ∧ ∃ k request, step = .permit k ∧
    s.recordings[k]? = some ⟨request, admin, .asked⟩ ∧ request.address = address

theorem assertAdmin_ok {admins : Address → Option Bool} {admin : Option Address}
    {address : Address} (h : assertAdmin admins admin = .ok address) : admin = some address := by
  unfold assertAdmin at h
  split at h
  next => cases h
  next other =>
    split at h
    next => exact congrArg some (Except.ok.inj h)
    next => cases h

theorem assertMayCreate_ok {admins : Address → Option Bool} {address : Address} {u : Unit}
    (h : assertMayCreate admins address = .ok u) : admins address = some true := by
  unfold assertMayCreate at h
  split at h
  next hmay =>
    cases hadmin : admins address with
    | none => rw [hadmin] at hmay; cases hmay
    | some may => rw [hadmin, Option.getD_some] at hmay; rw [hmay]
  next => cases h

/-- **One step keeps the records true.** -/
theorem Sound.next (h : Sound services foreign requested asked s) {step : ConsoleStep}
    (hn : next services foreign s step = some s') :
    Sound services foreign
      (fun admin address => requested admin address ∨ Requests step admin address)
      (fun admin address => asked admin address ∨
        requested admin address ∧ Permits s step admin address) s' := by
  have hmore : Sound services foreign
      (fun admin address => requested admin address ∨ Requests step admin address)
      (fun admin address => asked admin address ∨
        requested admin address ∧ Permits s step admin address) s :=
    h.mono (fun _ _ => .inl) fun _ _ => .inl
  cases step with
  -- outside the console: only the deployment of a vault could concern its rows
  | chain tx =>
      simp only [VaultRecords.next] at hn
      split at hn
      next hcreated =>
        obtain ⟨q, hq, rfl⟩ := Option.map_eq_some_iff.mp hn
        refine hmore.onChain ?_ hq
        intro vault hvault
        simpa [hvault] using hcreated
      next => cases hn
  | setAdmin address canCreateVaults =>
      obtain rfl := Option.some.inj hn
      exact ⟨hmore.chain, hmore.rows, hmore.recordings, hmore.apart⟩
  | record admin request =>
      simp only [VaultRecords.next] at hn
      split at hn
      next by' hadmin =>
        obtain rfl := Option.some.inj hn
        obtain rfl := assertAdmin_ok hadmin
        refine ⟨hmore.chain, hmore.rows, ?_, hmore.apart⟩
        intro r hr
        rcases List.mem_append.mp hr with hr | hr
        · exact hmore.recordings r hr
        · rw [List.mem_singleton.mp hr]
          exact ⟨.inr ⟨request, rfl, rfl⟩, trivial⟩
      next =>
        obtain rfl := Option.some.inj hn
        exact hmore
  -- the stages of a request: what it has shown so far stands in its progress
  | permit k =>
      simp only [VaultRecords.next] at hn
      split at hn
      next request by' hk =>
        have hrequested := (h.recordings _ (List.mem_of_getElem? hk)).1
        split at hn
        next hmay =>
          obtain rfl := Option.some.inj hn
          exact hmore.moved hk
            (.inr ⟨hrequested, assertMayCreate_ok hmay, k, request, rfl, hk, rfl⟩)
        next =>
          obtain rfl := Option.some.inj hn
          exact hmore.moved hk trivial
      next => cases hn
  | prepare k =>
      simp only [VaultRecords.next] at hn
      split at hn
      next request by' hk =>
        have hasked := (hmore.recordings _ (List.mem_of_getElem? hk)).2
        split at hn
        next v hv =>
          obtain rfl := Option.some.inj hn
          exact hmore.moved hk ⟨hasked, prepareVault_ok hv⟩
        next =>
          obtain rfl := Option.some.inj hn
          exact hmore.moved hk trivial
      next => cases hn
  | check k reading =>
      simp only [VaultRecords.next] at hn
      split at hn
      next request by' v hk =>
        have hv := (hmore.recordings _ (List.mem_of_getElem? hk)).2
        split at hn
        next hread =>
          split at hn
          next hmatches =>
            obtain rfl := Option.some.inj hn
            rw [assertVaultMatches_ok hmatches] at hread
            exact hmore.moved hk ⟨hv.1, hv.2, names_of_read hread⟩
          next =>
            obtain rfl := Option.some.inj hn
            exact hmore.moved hk trivial
        next => cases hn
      next => cases hn
  | write k =>
      simp only [VaultRecords.next] at hn
      split at hn
      next request by' v hk =>
        obtain ⟨-, hasked, hv⟩ := hmore.recordings _ (List.mem_of_getElem? hk)
        split at hn
        next =>
          obtain rfl := Option.some.inj hn
          exact hmore.moved hk trivial
        next hunique =>
          obtain rfl := Option.some.inj hn
          simp only [Bool.or_eq_true, not_or, Bool.not_eq_true, List.any_eq_false] at hunique
          have hdone : Sound services foreign _ _ (s.moved k ⟨request, by', .recorded⟩) :=
            hmore.moved hk trivial
          -- the insert: its row is derived, and no other has a column of it
          refine ⟨hmore.chain, ?_, hdone.recordings, ?_⟩
          · intro row hrow
            rcases List.mem_append.mp hrow with hrow | hrow
            · obtain ⟨hold, hderived, hnames, m, hm, hfounding⟩ := hmore.rows row hrow
              exact ⟨hold, hderived, hnames, m, List.mem_append_left _ hm, hfounding⟩
            · rw [List.mem_singleton.mp hrow]
              exact ⟨hasked, hv.1, hv.2, _,
                List.mem_append_right _ (List.mem_singleton_self _), rfl, rfl⟩
          · refine List.pairwise_append.mpr ⟨h.apart, List.pairwise_singleton _ _, ?_⟩
            intro a ha b hb
            rw [List.mem_singleton.mp hb]
            have hclash := hunique.1 a ha
            simp only [clash, decide_eq_false_iff_not, not_or] at hclash ⊢
            obtain ⟨h₁, h₂, h₃, h₄⟩ := hclash
            exact ⟨Ne.symm h₁, Ne.symm h₂, Ne.symm h₃, Ne.symm h₄⟩
      next => cases hn
  -- the switches of a row leave what it was derived from alone
  | setAgentEnabled address enabled =>
      obtain rfl := Option.some.inj hn
      exact hmore.onRow address fun row => rfl
  | closeOrder address reason admin now =>
      obtain rfl := Option.some.inj hn
      exact hmore.onRow address fun row => rfl
  | liftCloseOrder address =>
      obtain rfl := Option.some.inj hn
      exact hmore.onRow address fun row => rfl
  | closeSatisfied address now =>
      obtain rfl := Option.some.inj hn
      refine hmore.onRow address fun row => ?_
      unfold closeSatisfied
      split <;> rfl

/-! ### Whole runs -/

/-- The console as it is set up: a platform, its admins, and empty tables. -/
def start (chain : Platform) (admins : Address → Option Bool) : Console :=
  ⟨chain, admins, [], [], []⟩

/-- Somewhere in a run an admin asked for the vault at an address to be recorded. -/
def RequestedIn (tr : List (Transition Console ConsoleStep)) (admin address : Address) : Prop :=
  ∃ t ∈ tr, Requests t.label admin address

/-- And was found to be able to create vaults, on that request. -/
def AskedIn (tr : List (Transition Console ConsoleStep)) (admin address : Address) : Prop :=
  RequestedIn tr admin address ∧ ∃ t ∈ tr, Permits t.pre t.label admin address

theorem Sound.of_run {admins : Address → Option Bool}
    {tr : List (Transition Console ConsoleStep)} (hp : p.Reachable)
    (h : Run (VaultRecords.next services foreign) (start p admins) tr s) :
    Sound services foreign (RequestedIn tr) (AskedIn tr) s := by
  refine h.history (I := fun tr s => Sound services foreign (RequestedIn tr) (AskedIn tr) s)
    (P := fun _ => True)
    (fun _ _ => trivial) ⟨hp, by simp [start], by simp [start], List.Pairwise.nil⟩ ?_
  intro tr s step s' _ ih hn
  have hlast : (⟨s, step, s'⟩ : Transition Console ConsoleStep) ∈ tr ++ [⟨s, step, s'⟩] :=
    List.mem_append_right _ (List.mem_singleton_self _)
  have hkept : ∀ {admin address}, RequestedIn tr admin address →
      RequestedIn (tr ++ [⟨s, step, s'⟩]) admin address :=
    fun ⟨t, ht, hrequests⟩ => ⟨t, List.mem_append_left _ ht, hrequests⟩
  refine (ih.next hn).mono ?_ ?_
  · rintro admin address (hrequested | hrequests)
    · exact hkept hrequested
    · exact ⟨_, hlast, hrequests⟩
  · rintro admin address (⟨hrequested, t, ht, hpermits⟩ | ⟨hrequested, hpermits⟩)
    · exact ⟨hkept hrequested, t, List.mem_append_left _ ht, hpermits⟩
    · exact ⟨hkept hrequested, _, hlast, hpermits⟩

/-- Rows that clash are one row. -/
theorem Sound.eq_of_clash (h : Sound services foreign requested asked s) {a b : VaultConfig}
    (ha : a ∈ s.configs) (hb : b ∈ s.configs) (hclash : clash a b = true) : a = b := by
  by_contra hne
  have hsymm : Std.Symm fun a b : VaultConfig => clash a b = false := by
    refine ⟨fun a b hab => ?_⟩
    simp only [clash, decide_eq_false_iff_not, not_or] at hab ⊢
    obtain ⟨h₁, h₂, h₃, h₄⟩ := hab
    exact ⟨Ne.symm h₁, Ne.symm h₂, Ne.symm h₃, Ne.symm h₄⟩
  have hapart := h.apart.forall ha hb hne
  rw [hclash] at hapart
  cases hapart

/-- **A recorded vault is the vault on the chain**, whatever the order of the requests, of the
steps of each and of the chain's transactions. A row was asked for by an admin who was found to
be able to create vaults, and has its founding market; its path is that of its ticker and tier,
and the wallet of that path is the one the vault at its address names, so the agent can be
started from it. No two rows share an address, a path, a wallet or a ticker and tier; of one
ticker no two deployed vaults are recorded, whatever their tiers; and a vault can be prepared
exactly when its ticker and tier have no row. -/
theorem recorded_matches_chain {admins : Address → Option Bool}
    {tr : List (Transition Console ConsoleStep)} (hp : p.Reachable)
    (h : Run (VaultRecords.next services foreign) (start p admins) tr s) :
    (∀ row ∈ s.configs, AskedIn tr row.createdBy row.address ∧
      (∃ m ∈ s.markets, m.vaultAddress = row.address ∧ m.ticker = row.ticker) ∧
      agentDerivationPath services.casing row.ticker row.riskTier = .ok row.agentPath ∧
      ∀ c, s.chain.vaults row.address = some c →
        c.marketId = services.keccak256 row.ticker ∧
        s.chain.factory.vaultForMarket (services.keccak256 row.ticker) = row.address ∧
        agentWalletFor services row.agentPath (some c.code.agentWallet) =
          .ok (row.agentEvmAddress, row.agentSolanaAddress)) ∧
    (∀ a ∈ s.configs, ∀ b ∈ s.configs,
      clash a b = true ∨ (a.ticker = b.ticker ∧ a.riskTier = b.riskTier) → a = b) ∧
    (∀ a ∈ s.configs, ∀ b ∈ s.configs, a.ticker = b.ticker →
      (s.chain.vaults a.address).isSome → (s.chain.vaults b.address).isSome → a = b) ∧
    ∀ ticker tier, services.nearMpc = true →
      isTicker (services.casing.toUpperCase (trim ticker)) = true →
      ((∃ v, prepareVault services s.configs ticker tier none none = .ok v) ↔
        ∀ row ∈ s.configs, ¬ (row.ticker = services.casing.toUpperCase (trim ticker) ∧
          row.riskTier = tier)) := by
  have hs := Sound.of_run hp h
  have hreg := hs.chain.registered
  -- what was read off an address when its row was matched is there still
  have hvault : ∀ row ∈ s.configs, ∀ c, s.chain.vaults row.address = some c →
      c.marketId = services.keccak256 row.ticker ∧
        c.code.agentWallet.val = row.agentEvmAddress ∧
        s.chain.factory.vaultForMarket (services.keccak256 row.ticker) = row.address := by
    intro row hrow c hc
    obtain ⟨-, -, hnames, -⟩ := hs.rows row hrow
    simp only [Names, hc] at hnames
    exact ⟨hnames.1, hnames.2, hnames.1 ▸ (hreg.entered _ c hc).1⟩
  refine ⟨?_, ?_, ?_, fun ticker tier hnear hticker =>
    prepareVault_iff (fun row hrow => (hs.rows row hrow).2.1) hnear hticker tier⟩
  · intro row hrow
    obtain ⟨hasked, hderived, -, hfounding⟩ := hs.rows row hrow
    refine ⟨hasked, hfounding, hderived.path, ?_⟩
    intro c hc
    obtain ⟨hmarket, hwallet, hentered⟩ := hvault row hrow c hc
    refine ⟨hmarket, hentered, ?_⟩
    simp only [agentWalletFor, hwallet, ← hderived.evm, ← hderived.solana, ne_eq,
      not_true_eq_false, if_false]
  · rintro a ha b hb (hclash | ⟨hticker, htier⟩)
    · exact hs.eq_of_clash ha hb hclash
    · -- a path is made of the ticker and the tier, and of it there is one row
      refine hs.eq_of_clash ha hb ?_
      obtain ⟨-, hderived, -, -⟩ := hs.rows a ha
      obtain ⟨-, hderived', -, -⟩ := hs.rows b hb
      have hpath : a.agentPath = b.agentPath := by
        have hsame := hderived.path
        rw [hticker, htier, hderived'.path] at hsame
        exact (Except.ok.inj hsame).symm
      simp [clash, hpath]
  · intro a ha b hb hticker hva hvb
    obtain ⟨c, hc⟩ := Option.isSome_iff_exists.mp hva
    obtain ⟨c', hc'⟩ := Option.isSome_iff_exists.mp hvb
    -- the factory's index has one vault for a market, whatever its tier
    refine hs.eq_of_clash ha hb ?_
    have haddress : a.address = b.address := by
      rw [← (hvault a ha c hc).2.2, ← (hvault b hb c' hc').2.2, hticker]
    simp [clash, haddress]

end

namespace Test

def nvdaPath : JsString := js "lemon-vault-v1/conservative/nvda"

/-- The two markets of the launch. -/
def services : Services where
  casing := .ascii
  keccak256 ticker := if ticker = js "NVDA" then 1 else 2
  evmAddress path := if path = nvdaPath then LemonMarket.Test.agent else LemonMarket.Test.agentB
  solanaAddress path := path
  nearMpc := true

def admins (address : Address) : Option Bool :=
  if address = LemonMarket.Test.admin.val then some true else none

def nvda : RecordRequest where
  address := LemonMarket.Test.vault
  ticker := js " nvda"
  tier := .conservative
  spotTokenAddress := 12
  spotTokenDecimals := 8
  spotTokenSymbol := js "NVDAc"
  perpSymbol := js "NVDA"
  assetClass := some (js "equity")

def steps : List ConsoleStep :=
  [.record (some LemonMarket.Test.admin) nvda, .permit 0, .prepare 0,
    .check 0 (some (1, LemonMarket.Test.agent)), .write 0]

theorem steps_isSome : (trace (next services fun _ => false)
    (start LemonMarket.Test.opened admins) steps).isSome := by
  rfl

/-- The vault of the launch, recorded. -/
def recorded : Console := (Option.get _ steps_isSome).2

theorem recorded_run : Run (next services fun _ => false) (start LemonMarket.Test.opened admins)
    (Option.get _ steps_isSome).1 recorded :=
  trace_run (Option.some_get steps_isSome).symm

/-- The agent's wallet is the one the vault names. -/
theorem recorded_matches_chain_nvda :
    recorded.configs.map VaultConfig.address = [LemonMarket.Test.vault.val] ∧
      (recorded.chain.vaults LemonMarket.Test.vault).isSome ∧
      ∀ row ∈ recorded.configs, ∀ c, recorded.chain.vaults row.address = some c →
        agentWalletFor services row.agentPath (some c.code.agentWallet) =
          .ok (row.agentEvmAddress, row.agentSolanaAddress) := by
  obtain ⟨hrows, -⟩ := recorded_matches_chain LemonMarket.Test.opened_reachable recorded_run
  exact ⟨by rfl, by rfl, fun row hrow c hc => ((hrows row hrow).2.2.2 c hc).2.2⟩

end Test

end VaultRecords

end Api

end LemonMarket
