import LemonMarket.Contracts.Runs
import LemonMarket.Lib.Roles

/-!
# LemonMarket.Contracts.Factory

**`VaultFactory`: how a vault comes to exist.** One entry point in two forms, with the
limits of the risk tier or with limits given, and both go through `create`: one vault for
a market, one for an agent, and the vault's own constructor validates the rest. The
templates are stored unvalidated, so a template the constructor refuses fails at the next
creation and not before.

Where `new LemonVault` runs is the environment's choice: the address the chain gives the
vault, the block time and the USDC ledger there are the `Site` of the creation.
-/

namespace LemonMarket

open Lib

/-- The hash of a market's ticker. -/
abbrev MarketId := BitVec 256

inductive FactoryRole
  | defaultAdmin
  | vaultAdmin
  deriving Repr, DecidableEq

inductive FactoryEvent
  | vaultCreated (vault : Address) (marketId : MarketId) (agentWallet : Address)
      (name symbol : String) (tier : RiskTier) (targetLeverageBps maxLeverageBps : Nat)
  | defaultsUpdated (vaultAdmin guardian insuranceFund : Address)
  | defaultLimitsUpdated (tier : RiskTier) (limits : Limits)
  | role (event : RoleEvent FactoryRole Address)
  deriving DecidableEq

inductive FactoryError
  | zeroAddress
  | marketAlreadyVaulted (marketId : MarketId) (vault : Address)
  | agentAlreadyAssigned (agent vault : Address)
  | access (e : RoleError FactoryRole Address)
  /-- A revert of the vault's constructor. -/
  | vault (e : VaultError)
  deriving DecidableEq

/-- The factory: its address and its storage. -/
structure VaultFactory where
  self : NonzeroAddress
  asset : NonzeroAddress
  vaultAdmin : NonzeroAddress
  guardian : NonzeroAddress
  insuranceFund : NonzeroAddress
  defaultLimits : RiskTier → Limits
  vaultForMarket : MarketId → Address
  vaultForAgent : Address → Address
  vaults : List Address
  roles : Roles FactoryRole Address
  log : List FactoryEvent

/-- What a caller asks for, the limits apart. -/
structure NewVault where
  marketId : MarketId
  agentWallet : Address
  name : String
  symbol : String
  risk : RiskProfile
  deriving DecidableEq

/-- Where a creation runs. -/
structure Site where
  vault : NonzeroAddress
  timestamp : Nat
  usdc : Erc20 Address

/-- A vault at its address: the code's immutables, its market apart, and the storage. -/
structure VaultContract where
  code : LemonVault
  marketId : MarketId
  storage : State

/-- The constructor's arguments. -/
structure FactoryParams where
  asset : Address
  admin : Address
  vaultAdmin : Address
  guardian : Address
  insuranceFund : Address
  conservativeLimits : Limits
  leveragedLimits : Limits

namespace VaultFactory

def emit (f : VaultFactory) (e : FactoryEvent) : VaultFactory := { f with log := f.log ++ [e] }

/-- The zero-address checks. -/
def nonzero (a : Address) : Except FactoryError NonzeroAddress :=
  if h : a ≠ 0 then .ok ⟨a, h⟩ else .error .zeroAddress

def onlyRole (f : VaultFactory) (role : FactoryRole) (msg : Msg) : Except FactoryError Unit :=
  (f.roles.require role msg.sender).mapError .access

/-- Write a role table and its events. -/
def putRoles (f : VaultFactory)
    (r : Roles FactoryRole Address × List (RoleEvent FactoryRole Address)) : VaultFactory :=
  { f with roles := r.1, log := f.log ++ r.2.map .role }

/-- The constructor, run by `deployer`. -/
def construct (self : NonzeroAddress) (deployer : Address) (p : FactoryParams) :
    Except FactoryError VaultFactory := do
  let asset ← nonzero p.asset
  revertIf (p.admin = 0) .zeroAddress
  let vaultAdmin ← nonzero p.vaultAdmin
  let guardian ← nonzero p.guardian
  let insuranceFund ← nonzero p.insuranceFund
  let f : VaultFactory :=
    { self, asset, vaultAdmin, guardian, insuranceFund
      defaultLimits := fun tier =>
        match tier with
        | .conservative => p.conservativeLimits
        | .leveraged => p.leveragedLimits
      vaultForMarket := fun _ => 0
      vaultForAgent := fun _ => 0
      vaults := []
      roles := Roles.none
      log := [] }
  let f := f.putRoles (f.roles.grant .defaultAdmin p.admin deployer)
  return f.putRoles (f.roles.grant .vaultAdmin p.admin deployer)

/-- The arguments `_create` builds for the vault's constructor. -/
def initParams (f : VaultFactory) (site : Site) (request : NewVault) (limits : Limits) :
    InitParams where
  deployer := f.self
  self := site.vault
  deployedAt := site.timestamp
  asset := site.usdc
  admin := f.vaultAdmin
  agentWallet := request.agentWallet
  guardian := f.guardian
  insuranceFund := f.insuranceFund
  risk := request.risk
  limits := limits

/-- Enter a new vault. -/
def register (f : VaultFactory) (vault : Address) (request : NewVault) : VaultFactory :=
  { f with
    vaultForMarket := Function.update f.vaultForMarket request.marketId vault
    vaultForAgent := Function.update f.vaultForAgent request.agentWallet vault
    vaults := f.vaults ++ [vault]
    log := f.log ++ [.vaultCreated vault request.marketId request.agentWallet request.name
      request.symbol request.risk.tier request.risk.targetLeverageBps
      request.risk.maxLeverageBps] }

/-- `_create`. -/
def create (f : VaultFactory) (site : Site) (request : NewVault) (limits : Limits) :
    Except FactoryError (VaultContract × VaultFactory) := do
  revertIf (request.agentWallet = 0) .zeroAddress
  let existing := f.vaultForMarket request.marketId
  revertIf (existing ≠ 0) (.marketAlreadyVaulted request.marketId existing)
  let agentsVault := f.vaultForAgent request.agentWallet
  revertIf (agentsVault ≠ 0) (.agentAlreadyAssigned request.agentWallet agentsVault)
  let built ← (LemonMarket.construct (f.initParams site request limits)).mapError .vault
  return (⟨built.1, request.marketId, built.2⟩, f.register site.vault request)

def createVault (msg : Msg) (f : VaultFactory) (site : Site) (request : NewVault) :
    Except FactoryError (VaultContract × VaultFactory) := do
  f.onlyRole .vaultAdmin msg
  f.create site request (f.defaultLimits request.risk.tier)

def createVaultWithLimits (msg : Msg) (f : VaultFactory) (site : Site) (request : NewVault)
    (limits : Limits) : Except FactoryError (VaultContract × VaultFactory) := do
  f.onlyRole .vaultAdmin msg
  f.create site request limits

def vaultCount (f : VaultFactory) : Nat := f.vaults.length

def setDefaults (msg : Msg) (f : VaultFactory) (vaultAdmin guardian insuranceFund : Address) :
    Except FactoryError VaultFactory := do
  f.onlyRole .defaultAdmin msg
  let vaultAdmin ← nonzero vaultAdmin
  let guardian ← nonzero guardian
  let insuranceFund ← nonzero insuranceFund
  let f := { f with vaultAdmin, guardian, insuranceFund }
  return f.emit (.defaultsUpdated vaultAdmin guardian insuranceFund)

/-- Nothing is validated here. -/
def setDefaultLimits (msg : Msg) (f : VaultFactory) (tier : RiskTier) (limits : Limits) :
    Except FactoryError VaultFactory := do
  f.onlyRole .defaultAdmin msg
  let f := { f with defaultLimits := Function.update f.defaultLimits tier limits }
  return f.emit (.defaultLimitsUpdated tier limits)

/-- The calls `AccessControl` adds. -/
def roleCall (msg : Msg) (f : VaultFactory) (call : RoleCall FactoryRole Address) :
    Except FactoryError VaultFactory := do
  let r ← (call.exec .defaultAdmin msg.sender f.roles).mapError .access
  return f.putRoles r

/-! ### What a successful call did -/

variable {f f' : VaultFactory} {msg : Msg} {site : Site} {request : NewVault} {limits : Limits}
  {c : VaultContract}

theorem nonzeroAddress_ok {a : Address} {b : NonzeroAddress}
    (h : LemonVault.nonzeroAddress a = .ok b) : b.val = a := by
  unfold LemonVault.nonzeroAddress at h
  split at h
  · obtain rfl := Except.ok.inj h
    rfl
  · cases h

theorem onlyRole_ok {role : FactoryRole} {u : Unit} (h : f.onlyRole role msg = .ok u) :
    f.roles role msg.sender = true := by
  simpa [onlyRole] using h

theorem create_ok (h : f.create site request limits = .ok (c, f')) :
    request.agentWallet ≠ 0 ∧ f.vaultForMarket request.marketId = 0 ∧
      f.vaultForAgent request.agentWallet = 0 ∧
      LemonMarket.construct (f.initParams site request limits) = .ok (c.code, c.storage) ∧
      f' = f.register site.vault request := by
  simp only [create, bind_eq_ok, revertIf_eq_ok, mapError_eq_ok, pure_eq_ok, Prod.mk.injEq] at h
  obtain ⟨-, hagent, -, hmarket, -, hfree, built, hbuilt, rfl, rfl⟩ := h
  exact ⟨hagent, not_not.mp hmarket, not_not.mp hfree, hbuilt, rfl⟩

theorem create_ok_site (h : f.create site request limits = .ok (c, f')) :
    c.code.self = site.vault ∧ c.code.agentWallet.val = request.agentWallet ∧
      c.marketId = request.marketId := by
  have hmarket : c.marketId = request.marketId := by
    simp only [create, bind_eq_ok, revertIf_eq_ok, mapError_eq_ok, pure_eq_ok, Prod.mk.injEq] at h
    obtain ⟨-, -, -, -, -, -, built, -, rfl, -⟩ := h
    rfl
  obtain ⟨-, -, -, hbuilt, -⟩ := create_ok h
  simp only [LemonMarket.construct, bind_eq_ok, revertIf_eq_ok, pure_eq_ok, Prod.mk.injEq]
    at hbuilt
  obtain ⟨-, -, wallet, hwallet, -, -, -, -, risk, -, -, -, hcode, -⟩ := hbuilt
  rw [← hcode]
  exact ⟨rfl, nonzeroAddress_ok hwallet, hmarket⟩

end VaultFactory

/-! ### Calls -/

/-- The factory's entry points. A creation names the address the chain gives the vault. -/
inductive FactoryCall
  | createVault (vault : NonzeroAddress) (request : NewVault)
  | createVaultWithLimits (vault : NonzeroAddress) (request : NewVault) (limits : Limits)
  | setDefaults (vaultAdmin guardian insuranceFund : Address)
  | setDefaultLimits (tier : RiskTier) (limits : Limits)
  | roles (call : RoleCall FactoryRole Address)
  deriving DecidableEq

/-- The address a call deploys a vault at. -/
def FactoryCall.created : FactoryCall → Option NonzeroAddress
  | .createVault vault _ | .createVaultWithLimits vault _ _ => some vault
  | _ => none

/-- The role call a call is. -/
def FactoryCall.asked : FactoryCall → Option (RoleCall FactoryRole Address)
  | .roles call => some call
  | _ => none

namespace VaultFactory

/-- One external call: what it deploys, if it deploys, and the storage after. -/
def exec (usdc : Erc20 Address) (msg : Msg) (f : VaultFactory) :
    FactoryCall → Except FactoryError (Option VaultContract × VaultFactory)
  | .createVault vault request => do
      let r ← createVault msg f ⟨vault, msg.timestamp, usdc⟩ request
      return (some r.1, r.2)
  | .createVaultWithLimits vault request limits => do
      let r ← createVaultWithLimits msg f ⟨vault, msg.timestamp, usdc⟩ request limits
      return (some r.1, r.2)
  | .setDefaults vaultAdmin guardian insuranceFund =>
      Prod.mk none <$> setDefaults msg f vaultAdmin guardian insuranceFund
  | .setDefaultLimits tier limits => Prod.mk none <$> setDefaultLimits msg f tier limits
  | .roles call => Prod.mk none <$> roleCall msg f call

/-- The vaults a log announces, in order. -/
def announced (log : List FactoryEvent) : List Address :=
  log.filterMap fun e =>
    match e with
    | .vaultCreated vault _ _ _ _ _ _ _ => some vault
    | _ => none

/-- Nothing of the registry was written, and no vault announced. -/
structure SameRegistry (f f' : VaultFactory) : Prop where
  self : f'.self = f.self
  vaultForMarket : f'.vaultForMarket = f.vaultForMarket
  vaultForAgent : f'.vaultForAgent = f.vaultForAgent
  vaults : f'.vaults = f.vaults
  announced : announced f'.log = announced f.log

variable {f f' : VaultFactory} {msg : Msg} {usdc : Erc20 Address}

theorem announced_append (l l' : List FactoryEvent) :
    announced (l ++ l') = announced l ++ announced l' := List.filterMap_append ..

theorem announced_roles (es : List (RoleEvent FactoryRole Address)) :
    announced (es.map .role) = [] := by
  induction es with
  | nil => rfl
  | cons e es ih => exact ih

theorem setDefaults_registry {a b d : Address} (h : f.setDefaults msg a b d = .ok f') :
    SameRegistry f f' ∧ f'.roles = f.roles := by
  simp only [setDefaults, bind_eq_ok, pure_eq_ok] at h
  obtain ⟨-, -, admin, -, guardian, -, fund, -, rfl⟩ := h
  exact ⟨⟨rfl, rfl, rfl, rfl, by simp [emit, announced]⟩, rfl⟩

theorem setDefaultLimits_registry {tier : RiskTier} {limits : Limits}
    (h : f.setDefaultLimits msg tier limits = .ok f') :
    SameRegistry f f' ∧ f'.roles = f.roles := by
  simp only [setDefaultLimits, bind_eq_ok, pure_eq_ok] at h
  obtain ⟨-, -, rfl⟩ := h
  exact ⟨⟨rfl, rfl, rfl, rfl, by simp [emit, announced]⟩, rfl⟩

theorem roleCall_registry {call : RoleCall FactoryRole Address}
    (h : f.roleCall msg call = .ok f') :
    SameRegistry f f' ∧ Roles.After .defaultAdmin msg.sender f.roles (some call) f'.roles := by
  simp only [roleCall, bind_eq_ok, mapError_eq_ok, pure_eq_ok] at h
  obtain ⟨r, hcall, rfl⟩ := h
  refine ⟨⟨rfl, rfl, rfl, rfl, ?_⟩, .called hcall⟩
  rw [putRoles, announced_append, announced_roles, List.append_nil]

/-- A call creates one vault, on a vault admin's authority, or leaves the registry be. -/
theorem exec_ok {call : FactoryCall} {r : Option VaultContract}
    (h : f.exec usdc msg call = .ok (r, f')) :
    (r = none ∧ call.created = none ∧ SameRegistry f f' ∧
        Roles.After .defaultAdmin msg.sender f.roles call.asked f'.roles) ∨
      ∃ c vault request limits, r = some c ∧ call.created = some vault ∧
        f.roles .vaultAdmin msg.sender = true ∧
        f.create ⟨vault, msg.timestamp, usdc⟩ request limits = .ok (c, f') := by
  cases call with
  -- two of the calls create, under limits of the tier or given
  | createVault vault request =>
      simp only [exec, createVault, bind_eq_ok, pure_eq_ok, Prod.mk.injEq] at h
      obtain ⟨⟨c, f₁⟩, ⟨_, hrole, hcreate⟩, rfl, rfl⟩ := h
      exact .inr ⟨c, vault, request, _, rfl, rfl, onlyRole_ok hrole, hcreate⟩
  | createVaultWithLimits vault request limits =>
      simp only [exec, createVaultWithLimits, bind_eq_ok, pure_eq_ok, Prod.mk.injEq] at h
      obtain ⟨⟨c, f₁⟩, ⟨_, hrole, hcreate⟩, rfl, rfl⟩ := h
      exact .inr ⟨c, vault, request, limits, rfl, rfl, onlyRole_ok hrole, hcreate⟩
  -- the others are for vaults to come
  | setDefaults a b d =>
      simp only [exec, map_eq_ok, Prod.mk.injEq] at h
      obtain ⟨f₁, hset, rfl, rfl⟩ := h
      obtain ⟨hsame, hroles⟩ := setDefaults_registry hset
      exact .inl ⟨rfl, rfl, hsame, hroles ▸ .same⟩
  | setDefaultLimits tier limits =>
      simp only [exec, map_eq_ok, Prod.mk.injEq] at h
      obtain ⟨f₁, hset, rfl, rfl⟩ := h
      obtain ⟨hsame, hroles⟩ := setDefaultLimits_registry hset
      exact .inl ⟨rfl, rfl, hsame, hroles ▸ .same⟩
  | roles call =>
      simp only [exec, map_eq_ok, Prod.mk.injEq] at h
      obtain ⟨f₁, hcall, rfl, rfl⟩ := h
      exact .inl ⟨rfl, rfl, roleCall_registry hcall⟩

end VaultFactory

end LemonMarket
