import LemonMarket.Contracts.Factory
import LemonMarket.Contracts.InsuranceFund

/-!
# LemonMarket.Contracts.Platform

**All of the contracts over one USDC ledger.** A `Platform` is the factory, the fund and
every vault the factory has deployed, and a transaction is a call by some account on any
of them or on USDC. The vaults share the ledger: a vault's storage is read with the live
one put in (`view`), and what a call leaves of it is written back for everybody.

Contracts act only inside a transaction, so none of them is a sender. A deployment goes to
an address nobody has acted from, which is what the chain promises of a new contract;
`active` are the accounts that have acted.
-/

namespace LemonMarket

open Lib

inductive FundCall
  | requestExit (vault : Address) (shares : Nat)
  | claimExit (vault : Address) (shares : Nat) (receiver : Address)
  | cover (vault : Address) (amount : Nat)
  | sweep (token : Token) (receiver : Address) (amount : Nat)
  | roles (call : RoleCall FundRole Address)
  deriving DecidableEq

inductive PlatformCall
  | usdc (call : TokenCall)
  | vault (target : Address) (call : Call)
  | factory (call : FactoryCall)
  | fund (call : FundCall)
  deriving DecidableEq

/-- The address a call deploys a vault at. -/
def PlatformCall.created : PlatformCall → Option NonzeroAddress
  | .factory call => call.created
  | _ => none

/-- The vault a call is about: called, or handled by the fund. -/
def PlatformCall.target : PlatformCall → Option Address
  | .vault a _ | .fund (.requestExit a _) | .fund (.claimExit a _ _) | .fund (.cover a _)
  | .fund (.sweep (.shares a) _ _) => some a
  | _ => none

/-- The role call on the factory a call is. -/
def PlatformCall.factoryRoles : PlatformCall → Option (RoleCall FactoryRole Address)
  | .factory call => call.asked
  | _ => none

/-- The role call on the fund a call is. -/
def PlatformCall.fundRoles : PlatformCall → Option (RoleCall FundRole Address)
  | .fund (.roles call) => some call
  | _ => none

inductive PlatformError
  /-- A call to an account with no vault at it. -/
  | noVault (account : Address)
  | usdc (e : Erc20Error Address)
  | vault (e : VaultError)
  | factory (e : FactoryError)
  | fund (e : FundError)
  deriving DecidableEq

structure Platform where
  now : Nat
  usdc : Erc20 Address
  factory : VaultFactory
  fund : InsuranceFund
  vaults : Address → Option VaultContract
  active : List Address

structure PlatformTx where
  msg : Msg
  call : PlatformCall
  deriving DecidableEq

/-- Calls by one account, one after the other in one transaction. -/
def LemonVault.execAll (v : LemonVault) (msg : Msg) : State → List Call → Except VaultError State
  | s, [] => .ok s
  | s, call :: calls => do
      let s ← v.exec msg s call
      execAll v msg s calls

namespace Platform

/-- A vault's storage, over the live ledger. -/
def view (p : Platform) (c : VaultContract) : State := { c.storage with usdc := p.usdc }

/-- Write back what a call left of a vault. -/
def write (p : Platform) (a : Address) (c : VaultContract) (s : State) : Platform :=
  { p with
    usdc := s.usdc
    vaults := Function.update p.vaults a (some { c with storage := s }) }

/-- Put a new contract at its address. -/
def deploy (p : Platform) : Option VaultContract → Platform
  | some c => { p with vaults := Function.update p.vaults c.code.self (some c) }
  | none => p

def contractAt (p : Platform) (a : Address) : Except PlatformError VaultContract :=
  match p.vaults a with
  | some c => .ok c
  | none => .error (.noVault a)

/-- The fund's entry points, on the vault or the token each names. -/
def fundCall (msg : Msg) (p : Platform) : FundCall → Except PlatformError Platform
  | .requestExit a n => do
      let c ← p.contractAt a
      let r ← (p.fund.requestExit msg c.code (p.view c) n).mapError .fund
      return { p.write a c r.1 with fund := r.2 }
  | .claimExit a n receiver => do
      let c ← p.contractAt a
      let r ← (p.fund.claimExit msg c.code (p.view c) n receiver).mapError .fund
      return { p.write a c r.2.1 with fund := r.2.2 }
  | .cover a n => do
      let c ← p.contractAt a
      let r ← (p.fund.cover msg c.code (p.view c) n).mapError .fund
      return { p.write a c r.1 with fund := r.2 }
  | .sweep .usdc receiver n => do
      let r ← (p.fund.sweepUsdc msg p.usdc receiver n).mapError .fund
      return { p with usdc := r.1, fund := r.2 }
  | .sweep (.shares a) receiver n => do
      let c ← p.contractAt a
      let r ← (p.fund.sweepShares msg c.code (p.view c) receiver n).mapError .fund
      return { p.write a c r.1 with fund := r.2 }
  | .roles call => do
      let fund ← (p.fund.roleCall msg call).mapError .fund
      return { p with fund := fund }

def exec (msg : Msg) (p : Platform) : PlatformCall → Except PlatformError Platform
  | .usdc call => do
      let usdc ← (call.exec p.usdc msg.sender).mapError .usdc
      return { p with usdc := usdc }
  | .vault a call => do
      let c ← p.contractAt a
      let s ← (c.code.exec msg (p.view c) call).mapError .vault
      return p.write a c s
  | .factory call => do
      let r ← (p.factory.exec p.usdc msg call).mapError .factory
      return { p.deploy r.1 with factory := r.2 }
  | .fund call => p.fundCall msg call

/-- The accounts no transaction comes from. -/
def isContract (p : Platform) (a : Address) : Bool :=
  a = p.factory.self || a = p.fund.self || (p.vaults a).isSome

/-- Nobody has acted from the address a call deploys to. -/
def unused (p : Platform) (tx : PlatformTx) : Bool :=
  tx.call.created.all fun a => a.val ∉ tx.msg.sender :: p.active

/-- Who has acted by the end of a transaction. -/
def acted (p : Platform) (tx : PlatformTx) : List Address :=
  tx.msg.sender :: (tx.call.created.toList.map Subtype.val ++ p.active)

/-- The end of a transaction from `p` that left `q`: time has passed, and those who acted
have acted. -/
def settle (p : Platform) (tx : PlatformTx) (q : Platform) : Platform :=
  { q with now := tx.msg.timestamp, active := p.acted tx }

/-- The step of one successful transaction. -/
def next (p : Platform) (tx : PlatformTx) : Option Platform :=
  if p.now ≤ tx.msg.timestamp ∧ p.isContract tx.msg.sender = false ∧ p.unused tx = true then
    (p.exec tx.msg tx.call).toOption.map (p.settle tx)
  else none

/-- The factory and the fund as their constructors leave them, before any vault. -/
structure Genesis (p : Platform) : Prop where
  factory : ∃ deployer params, VaultFactory.construct p.factory.self deployer params = .ok p.factory
  fund : ∃ deployer admin treasurer,
    InsuranceFund.construct p.fund.self deployer admin treasurer = .ok p.fund
  vaults : ∀ a, p.vaults a = none
  factoryActive : p.factory.self.val ∈ p.active
  fundActive : p.fund.self.val ∈ p.active
  approved : ∀ a b, p.usdc.allowance a b ≠ 0 → a ∈ p.active
  fundUnapproved : ∀ a, p.usdc.allowance p.fund.self a = 0

def Reachable (p : Platform) : Prop := ∃ p₀ tr, Genesis p₀ ∧ Run next p₀ tr p

/-! ### What one transaction did -/

/-- The calls an entry point of the fund makes on the vault at `a`. -/
inductive OfFund (fund a : Address) : List Call → Prop
  | requestExit {n : Nat} : OfFund fund a [.requestRedeem n fund fund]
  | claimExit {n : Nat} {receiver : Address} : OfFund fund a [.redeem n receiver fund]
  | cover {n : Nat} : OfFund fund a [.usdc (.approve a n), .donate n, .usdc (.approve a 0)]
  | sweep {n : Nat} {receiver : Address} : OfFund fund a [.shares (.transfer receiver n)]

/-- Who calls a vault in a transaction, and with what: the sender with one call, or the fund
on a treasurer's word. -/
inductive MayCall (p : Platform) (msg : Msg) (a : Address) : Address → List Call → Prop
  | sender {call : Call} : MayCall p msg a msg.sender [call]
  | fund {calls : List Call} (treasurer : p.fund.roles .treasurer msg.sender = true)
      (entry : OfFund p.fund.self a calls) : MayCall p msg a p.fund.self calls

/-- Who calls USDC in a transaction, apart from the vaults: the sender, or the fund with a
transfer. -/
inductive MayMove (p : Platform) (msg : Msg) : Address → TokenCall → Prop
  | sender {call : TokenCall} : MayMove p msg msg.sender call
  | fund {receiver : Address} {n : Nat}
      (treasurer : p.fund.roles .treasurer msg.sender = true) :
      MayMove p msg p.fund.self (.transfer receiver n)

/-- What a transaction does to the contracts and the ledger: one call on USDC, calls on one
vault by one account, a creation, or a change of terms and roles alone. -/
inductive Step (p : Platform) (msg : Msg) (call : PlatformCall) : Platform → Prop
  | token {b : Address} {moved : TokenCall} {t : Erc20 Address} {fund : InsuranceFund}
      (target : call.target = none) (created : call.created = none)
      (may : p.MayMove msg b moved) (done : moved.exec p.usdc b = .ok t)
      (self : fund.self = p.fund.self) (roles : fund.roles = p.fund.roles) :
      Step p msg call { p with usdc := t, fund := fund }
  | vault {a b : Address} {c : VaultContract} {calls : List Call} {s : State}
      {fund : InsuranceFund}
      (target : call.target = some a) (created : call.created = none)
      (found : p.vaults a = some c) (may : p.MayCall msg c.code.self b calls)
      (done : c.code.execAll ⟨b, msg.timestamp⟩ (p.view c) calls = .ok s)
      (self : fund.self = p.fund.self) (roles : fund.roles = p.fund.roles) :
      Step p msg call { p.write a c s with fund := fund }
  | create {c : VaultContract} {vault : NonzeroAddress} {request : NewVault} {limits : Limits}
      {factory : VaultFactory}
      (target : call.target = none) (created : call.created = some vault)
      (authority : p.factory.roles .vaultAdmin msg.sender = true)
      (done : p.factory.create ⟨vault, msg.timestamp, p.usdc⟩ request limits =
        .ok (c, factory)) :
      Step p msg call { p.deploy (some c) with factory := factory }
  | terms {factory : VaultFactory} {fund : InsuranceFund}
      (target : call.target = none) (created : call.created = none)
      (registry : VaultFactory.SameRegistry p.factory factory)
      (factoryRoles : Roles.After .defaultAdmin msg.sender p.factory.roles call.factoryRoles
        factory.roles)
      (self : fund.self = p.fund.self)
      (fundRoles : Roles.After .defaultAdmin msg.sender p.fund.roles call.fundRoles fund.roles) :
      Step p msg call { p with factory := factory, fund := fund }

theorem contractAt_ok {p : Platform} {a : Address} {c : VaultContract}
    (h : p.contractAt a = .ok c) : p.vaults a = some c := by
  unfold contractAt at h
  split at h
  next c' hc => rw [hc, Except.ok.inj h]
  next => cases h

variable {p q : Platform} {msg : Msg} {call : PlatformCall} {tx : PlatformTx}

theorem execAll_one {v : LemonVault} {s s' : State} {c : Call} (h : v.exec msg s c = .ok s') :
    v.execAll msg s [c] = .ok s' := by
  rw [LemonVault.execAll, bind_of_ok h]
  rfl

theorem exec_usdc_of_ok {v : LemonVault} {s : State} {c : TokenCall} {t : Erc20 Address}
    (h : c.exec s.usdc msg.sender = .ok t) :
    v.exec msg s (.usdc c) = .ok { s with usdc := t } := by
  rw [LemonVault.exec, h]
  rfl

/-- The three calls of a cover. -/
theorem cover_execAll {f f' : InsuranceFund} {v : LemonVault} {s s' : State} {n : Nat}
    (h : f.cover msg v s n = .ok (s', f')) :
    v.execAll (f.asFund msg) s [.usdc (.approve v.self n), .donate n, .usdc (.approve v.self 0)] =
      .ok s' := by
  obtain ⟨-, -, -, -, t, s₁, u, ht, hdonate, hu, rfl⟩ := InsuranceFund.cover_ok h
  have happrove : v.exec (f.asFund msg) s (.usdc (.approve v.self n)) = .ok { s with usdc := t } :=
    exec_usdc_of_ok ht
  have hgift : v.exec (f.asFund msg) { s with usdc := t } (.donate n) = .ok s₁ := hdonate
  rw [LemonVault.execAll, bind_of_ok happrove, LemonVault.execAll, bind_of_ok hgift]
  exact execAll_one (exec_usdc_of_ok hu)

theorem fundCall_ok {fc : FundCall} (h : p.fundCall msg fc = .ok q) : Step p msg (.fund fc) q := by
  cases fc with
  -- the treasurer has the fund make one call of the vault
  | requestExit a n =>
      simp only [fundCall, bind_eq_ok, mapError_eq_ok, pure_eq_ok] at h
      obtain ⟨c, hc, ⟨s, fund⟩, hcall, rfl⟩ := h
      obtain ⟨htreasurer, hself, hroles, hexec⟩ := InsuranceFund.requestExit_ok hcall
      exact .vault rfl rfl (contractAt_ok hc) (.fund htreasurer .requestExit) (execAll_one hexec)
        hself hroles
  | claimExit a n r =>
      simp only [fundCall, bind_eq_ok, mapError_eq_ok, pure_eq_ok] at h
      obtain ⟨c, hc, ⟨b, s, fund⟩, hcall, rfl⟩ := h
      obtain ⟨htreasurer, hself, hroles, hexec⟩ := InsuranceFund.claimExit_ok hcall
      exact .vault rfl rfl (contractAt_ok hc) (.fund htreasurer .claimExit) (execAll_one hexec)
        hself hroles
  -- a cover makes three: an approval, the gift, and the approval taken back
  | cover a n =>
      simp only [fundCall, bind_eq_ok, mapError_eq_ok, pure_eq_ok] at h
      obtain ⟨c, hc, ⟨s, fund⟩, hcall, rfl⟩ := h
      obtain ⟨htreasurer, hself, hroles, -, -⟩ := InsuranceFund.cover_ok hcall
      exact .vault rfl rfl (contractAt_ok hc) (.fund htreasurer .cover) (cover_execAll hcall)
        hself hroles
  -- a sweep of USDC calls no vault, and one of shares calls theirs
  | sweep token r n =>
      cases token with
      | usdc =>
          simp only [fundCall, bind_eq_ok, mapError_eq_ok, pure_eq_ok] at h
          obtain ⟨⟨t, fund⟩, hcall, rfl⟩ := h
          obtain ⟨htreasurer, hself, hroles, hmove⟩ := InsuranceFund.sweepUsdc_ok hcall
          exact .token rfl rfl (.fund htreasurer) hmove hself hroles
      | shares a =>
          simp only [fundCall, bind_eq_ok, mapError_eq_ok, pure_eq_ok] at h
          obtain ⟨c, hc, ⟨s, fund⟩, hcall, rfl⟩ := h
          obtain ⟨htreasurer, hself, hroles, hexec⟩ := InsuranceFund.sweepShares_ok hcall
          exact .vault rfl rfl (contractAt_ok hc) (.fund htreasurer .sweep) (execAll_one hexec)
            hself hroles
  | roles rc =>
      simp only [fundCall, bind_eq_ok, mapError_eq_ok, pure_eq_ok] at h
      obtain ⟨fund, hcall, rfl⟩ := h
      obtain ⟨hself, hroles⟩ := InsuranceFund.roleCall_ok hcall
      exact .terms rfl rfl ⟨rfl, rfl, rfl, rfl, rfl⟩ .same hself hroles

/-- **Every transaction is a step.** -/
theorem exec_ok (h : p.exec msg call = .ok q) : Step p msg call q := by
  cases call with
  | usdc tc =>
      simp only [exec, bind_eq_ok, mapError_eq_ok, pure_eq_ok] at h
      obtain ⟨t, hmove, rfl⟩ := h
      exact .token rfl rfl .sender hmove rfl rfl
  | vault a vc =>
      simp only [exec, bind_eq_ok, mapError_eq_ok, pure_eq_ok] at h
      obtain ⟨c, hc, s, hexec, rfl⟩ := h
      exact .vault rfl rfl (contractAt_ok hc) .sender (execAll_one hexec) rfl rfl
  | factory fc =>
      simp only [exec, bind_eq_ok, mapError_eq_ok, pure_eq_ok] at h
      obtain ⟨⟨c, factory⟩, hexec, rfl⟩ := h
      rcases VaultFactory.exec_ok hexec with ⟨rfl, hcreated, hsame, hroles⟩ |
        ⟨c, vault, request, limits, rfl, hcreated, hrole, hcreate⟩
      · exact .terms rfl hcreated hsame hroles rfl .same
      · exact .create rfl hcreated hrole hcreate
  | fund fc => exact fundCall_ok h

/-- Taking a successful transaction apart. -/
theorem next_ok (h : p.next tx = some q) :
    p.now ≤ tx.msg.timestamp ∧ p.isContract tx.msg.sender = false ∧
      (∀ a, tx.call.created = some a → a.val ≠ tx.msg.sender ∧ a.val ∉ p.active) ∧
      ∃ q', Step p tx.msg tx.call q' ∧ q = p.settle tx q' := by
  simp only [next] at h
  split at h
  next hguard =>
    simp only [Option.map_eq_some_iff, toOption_eq_some] at h
    obtain ⟨q', hexec, rfl⟩ := h
    refine ⟨hguard.1, hguard.2.1, ?_, q', exec_ok hexec, rfl⟩
    intro a ha
    simpa [unused, ha] using hguard.2.2
  next => cases h

end Platform

/-! ### A platform to run on

The addresses and terms of `VaultFactory.t.sol`: one factory, one fund, and two markets. -/

namespace Test

def factoryAddress : NonzeroAddress := ⟨8, by decide⟩
def agentB : NonzeroAddress := ⟨9, by decide⟩
def vaultB : NonzeroAddress := ⟨10, by decide⟩

def factoryParams : FactoryParams where
  asset := 11
  admin := admin
  vaultAdmin := admin
  guardian := guardian
  insuranceFund := insurance
  conservativeLimits := defaultLimits
  leveragedLimits := defaultLimits

theorem factory_isSome :
    (VaultFactory.construct factoryAddress admin factoryParams).toOption.isSome := by rfl

def factory : VaultFactory := Option.get _ factory_isSome

theorem fund_isSome : (InsuranceFund.construct insurance admin admin admin).toOption.isSome := by
  rfl

def fund : InsuranceFund := Option.get _ fund_isSome

/-- Alice and the fund hold a million USDC each, and nobody has approved anything. -/
def platform : Platform where
  now := LemonVault.year
  usdc := (emptyErc20.issue alice (1000000 * oneUsdc)).issue insurance (1000000 * oneUsdc)
  factory := factory
  fund := fund
  vaults := fun _ => none
  active := [factoryAddress, insurance]

theorem platform_genesis : Platform.Genesis platform where
  factory := ⟨admin, factoryParams, toOption_eq_some.mp (Option.some_get factory_isSome).symm⟩
  fund := ⟨admin, admin, admin, toOption_eq_some.mp (Option.some_get fund_isSome).symm⟩
  vaults _ := rfl
  factoryActive := List.mem_cons_self
  fundActive := List.mem_cons_of_mem _ List.mem_cons_self
  approved _ _ h := absurd rfl h
  fundUnapproved _ := rfl

/-- A call `after` seconds from the start. -/
def platformTx (sender : NonzeroAddress) (after : Nat) (call : PlatformCall) : PlatformTx :=
  ⟨⟨sender, LemonVault.year + after⟩, call⟩

/-- A vault for a market and its agent. -/
def newVault (marketId : MarketId) (agent : NonzeroAddress) : NewVault :=
  ⟨marketId, agent, "", "", conservativeRisk⟩

/-- Two vaults are created. -/
def creations : List PlatformTx :=
  [platformTx admin 0 (.factory (.createVault vault (newVault 1 agent))),
   platformTx admin 0 (.factory (.createVault vaultB (newVault 2 agentB)))]

/-- Alice puts a thousand USDC into the first. -/
def deposits : List PlatformTx :=
  [platformTx alice 0 (.usdc (.approve vault uint256Max)),
   platformTx alice 0 (.vault vault (.deposit (1000 * oneUsdc) alice))]

/-- The fund covers it with a hundred. -/
def coverTx : PlatformTx := platformTx admin 60 (.fund (.cover vault (100 * oneUsdc)))

theorem creations_isSome : (trace Platform.next platform creations).isSome := by rfl

def opened : Platform := (Option.get _ creations_isSome).2

theorem creations_run :
    Run Platform.next platform (Option.get _ creations_isSome).1 opened :=
  trace_run (Option.some_get creations_isSome).symm

theorem opened_reachable : Platform.Reachable opened :=
  ⟨platform, _, platform_genesis, creations_run⟩

theorem deposits_isSome : (trace Platform.next opened deposits).isSome := by rfl

def depositsRun : List (Transition Platform PlatformTx) := (Option.get _ deposits_isSome).1

def invested : Platform := (Option.get _ deposits_isSome).2

theorem deposits_run : Run Platform.next opened depositsRun invested :=
  trace_run (Option.some_get deposits_isSome).symm

theorem deposits_labels : depositsRun.map Transition.label = deposits :=
  trace_labels (Option.some_get deposits_isSome).symm

theorem invested_reachable : Platform.Reachable invested :=
  ⟨platform, _, platform_genesis, creations_run.append deposits_run⟩

theorem cover_isSome : (invested.next coverTx).isSome := by rfl

def launched : Platform := Option.get _ cover_isSome

theorem cover_next : invested.next coverTx = some launched := (Option.some_get _).symm

theorem launched_reachable : Platform.Reachable launched :=
  ⟨platform, _, platform_genesis, .snoc (creations_run.append deposits_run) cover_next⟩

end Test

end LemonMarket
