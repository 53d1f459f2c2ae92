import LemonMarket.Contracts.Custody
import LemonMarket.Lib.Roles

/-!
# LemonMarket.Contracts.InsuranceFund

**`InsuranceFund`: where the fees land.** The fund holds shares and USDC as any account
does, and each of its entry points is one call to a vault or a token in its own name: it
queues and claims redemptions on a depositor's terms, donates USDC to a vault, and sweeps
a token out. All four are the treasurer's.

An entry point is given the vault it is pointed at, with the storage as the call finds it,
and answers with the storage it leaves.
-/

namespace LemonMarket

open Lib

/-- `SafeERC20.forceApprove`: a token that refuses to change a standing approval has it
cleared first. -/
def Erc20.forceApprove (t : Erc20 Address) (owner spender : Address) (value : Nat) :
    Except (Erc20Error Address) (Erc20 Address) :=
  match t.approve owner spender value with
  | .ok t' => .ok t'
  | .error _ => do
      let t ← t.approve owner spender 0
      t.approve owner spender value

theorem Erc20.forceApprove_ok {t t' : Erc20 Address} {owner spender : Address} {value : Nat}
    (h : t.forceApprove owner spender value = .ok t') :
    t.approve owner spender value = .ok t' := by
  unfold forceApprove at h
  split at h
  next t₁ hfirst =>
    obtain rfl := Except.ok.inj h
    exact hfirst
  next e hfirst =>
    -- an approval fails on its two ends alone, so clearing the old one fails as well
    simp only [bind_eq_ok] at h
    obtain ⟨t₁, hclear, -⟩ := h
    simp only [approve, bind_eq_ok, revertIf_eq_ok, pure_eq_ok] at hclear
    obtain ⟨-, howner, -, hspender, -⟩ := hclear
    simp [approve, howner, hspender, revertIf, bind, Except.bind, pure, Except.pure] at hfirst

inductive FundRole
  | defaultAdmin
  | treasurer
  deriving Repr, DecidableEq

/-- A token the fund can be told to sweep: USDC, or the shares of a vault. -/
inductive Token
  | usdc
  | shares (vault : Address)
  deriving Repr, DecidableEq

inductive FundEvent
  | exitRequested (vault : Address) (shares : Nat)
  | exitClaimed (vault : Address) (shares assets : Nat)
  | covered (vault : Address) (amount : Nat)
  | swept (token : Token) (receiver : Address) (amount : Nat)
  | role (event : RoleEvent FundRole Address)
  deriving DecidableEq

inductive FundError
  | zeroAddress
  | zeroAmount
  | access (e : RoleError FundRole Address)
  /-- A revert of the vault called. -/
  | vault (e : VaultError)
  /-- A revert of USDC. -/
  | usdc (e : Erc20Error Address)
  deriving DecidableEq

/-- The fund: its address, its roles and what it emitted. -/
structure InsuranceFund where
  self : NonzeroAddress
  roles : Roles FundRole Address
  log : List FundEvent

namespace InsuranceFund

def emit (f : InsuranceFund) (e : FundEvent) : InsuranceFund := { f with log := f.log ++ [e] }

/-- Write a role table and its events. -/
def putRoles (f : InsuranceFund) (r : Roles FundRole Address × List (RoleEvent FundRole Address)) :
    InsuranceFund :=
  { f with roles := r.1, log := f.log ++ r.2.map .role }

def onlyTreasurer (f : InsuranceFund) (msg : Msg) : Except FundError Unit :=
  (f.roles.require .treasurer msg.sender).mapError .access

/-- The constructor, run by `deployer`. -/
def construct (self : NonzeroAddress) (deployer admin treasurer : Address) :
    Except FundError InsuranceFund := do
  revertIf (admin = 0 ∨ treasurer = 0) .zeroAddress
  let f : InsuranceFund := ⟨self, Roles.none, []⟩
  let f := f.putRoles (f.roles.grant .defaultAdmin admin deployer)
  let f := f.putRoles (f.roles.grant .treasurer admin deployer)
  return f.putRoles (f.roles.grant .treasurer treasurer deployer)

/-- A call the fund makes: it is the caller. -/
def asFund (f : InsuranceFund) (msg : Msg) : Msg := ⟨f.self, msg.timestamp⟩

def requestExit (msg : Msg) (f : InsuranceFund) (v : LemonVault) (s : State) (shares : Nat) :
    Except FundError (State × InsuranceFund) := do
  f.onlyTreasurer msg
  revertIf (shares = 0) .zeroAmount
  let s ← (v.requestRedeem (f.asFund msg) s shares f.self f.self).mapError .vault
  return (s, f.emit (.exitRequested v.self shares))

def claimExit (msg : Msg) (f : InsuranceFund) (v : LemonVault) (s : State) (shares : Nat)
    (receiver : Address) : Except FundError (Nat × State × InsuranceFund) := do
  f.onlyTreasurer msg
  revertIf (receiver = 0) .zeroAddress
  let r ← (v.redeem (f.asFund msg) s shares receiver f.self).mapError .vault
  return (r.1, r.2, f.emit (.exitClaimed v.self shares r.1))

def cover (msg : Msg) (f : InsuranceFund) (v : LemonVault) (s : State) (amount : Nat) :
    Except FundError (State × InsuranceFund) := do
  f.onlyTreasurer msg
  revertIf (amount = 0) .zeroAmount
  let usdc ← (s.usdc.forceApprove f.self v.self amount).mapError .usdc
  let s ← (v.donate (f.asFund msg) { s with usdc := usdc } amount).mapError .vault
  let usdc ← (s.usdc.forceApprove f.self v.self 0).mapError .usdc
  return ({ s with usdc := usdc }, f.emit (.covered v.self amount))

/-- `sweep` of USDC. -/
def sweepUsdc (msg : Msg) (f : InsuranceFund) (usdc : Erc20 Address) (receiver : Address)
    (amount : Nat) : Except FundError (Erc20 Address × InsuranceFund) := do
  f.onlyTreasurer msg
  revertIf (receiver = 0) .zeroAddress
  let usdc ← (usdc.transferBetween f.self receiver amount).mapError .usdc
  return (usdc, f.emit (.swept .usdc receiver amount))

/-- `sweep` of a vault's shares. -/
def sweepShares (msg : Msg) (f : InsuranceFund) (v : LemonVault) (s : State)
    (receiver : Address) (amount : Nat) : Except FundError (State × InsuranceFund) := do
  f.onlyTreasurer msg
  revertIf (receiver = 0) .zeroAddress
  let s ← (v.exec (f.asFund msg) s (.shares (.transfer receiver amount))).mapError .vault
  return (s, f.emit (.swept (.shares v.self) receiver amount))

/-- The calls `AccessControl` adds. -/
def roleCall (msg : Msg) (f : InsuranceFund) (call : RoleCall FundRole Address) :
    Except FundError InsuranceFund := do
  let r ← (call.exec .defaultAdmin msg.sender f.roles).mapError .access
  return f.putRoles r

/-! ### What a successful call did

Each is the treasurer's, and is one to three calls on the vault in the fund's name. -/

variable {f f' : InsuranceFund} {msg : Msg} {v : LemonVault} {s s' : State} {n : Nat}
  {r : Address}

theorem onlyTreasurer_ok {u : Unit} (h : f.onlyTreasurer msg = .ok u) :
    f.roles .treasurer msg.sender = true := by
  simpa [onlyTreasurer] using h

theorem requestExit_ok (h : f.requestExit msg v s n = .ok (s', f')) :
    f.roles .treasurer msg.sender = true ∧ f'.self = f.self ∧ f'.roles = f.roles ∧
      v.exec (f.asFund msg) s (.requestRedeem n f.self f.self) = .ok s' := by
  simp only [requestExit, bind_eq_ok, mapError_eq_ok, pure_eq_ok, Prod.mk.injEq] at h
  obtain ⟨_, htreasurer, -, -, s₁, hqueue, rfl, rfl⟩ := h
  exact ⟨onlyTreasurer_ok htreasurer, rfl, rfl, hqueue⟩

theorem claimExit_ok {a : Nat} (h : f.claimExit msg v s n r = .ok (a, s', f')) :
    f.roles .treasurer msg.sender = true ∧ f'.self = f.self ∧ f'.roles = f.roles ∧
      v.exec (f.asFund msg) s (.redeem n r f.self) = .ok s' := by
  simp only [claimExit, bind_eq_ok, mapError_eq_ok, pure_eq_ok, Prod.mk.injEq] at h
  obtain ⟨_, htreasurer, -, -, ⟨a, s₁⟩, hclaim, rfl, rfl, rfl⟩ := h
  refine ⟨onlyTreasurer_ok htreasurer, rfl, rfl, ?_⟩
  simp only [LemonVault.exec, hclaim]
  rfl

theorem cover_ok (h : f.cover msg v s n = .ok (s', f')) :
    f.roles .treasurer msg.sender = true ∧ f'.self = f.self ∧ f'.roles = f.roles ∧ 0 < n ∧
      ∃ t s₁ u, s.usdc.approve f.self v.self n = .ok t ∧
        v.donate (f.asFund msg) { s with usdc := t } n = .ok s₁ ∧
        s₁.usdc.approve f.self v.self 0 = .ok u ∧ s' = { s₁ with usdc := u } := by
  simp only [cover, bind_eq_ok, revertIf_eq_ok, mapError_eq_ok, pure_eq_ok, Prod.mk.injEq] at h
  obtain ⟨_, htreasurer, -, hn, t, ht, s₁, hdonate, u, hu, rfl, rfl⟩ := h
  exact ⟨onlyTreasurer_ok htreasurer, rfl, rfl, Nat.pos_of_ne_zero hn, t, s₁, u,
    Erc20.forceApprove_ok ht, hdonate, Erc20.forceApprove_ok hu, rfl⟩

theorem sweepUsdc_ok {t u : Erc20 Address} (h : f.sweepUsdc msg t r n = .ok (u, f')) :
    f.roles .treasurer msg.sender = true ∧ f'.self = f.self ∧ f'.roles = f.roles ∧
      (TokenCall.transfer r n).exec t f.self = .ok u := by
  simp only [sweepUsdc, bind_eq_ok, mapError_eq_ok, pure_eq_ok, Prod.mk.injEq] at h
  obtain ⟨_, htreasurer, -, -, t₁, hmove, rfl, rfl⟩ := h
  exact ⟨onlyTreasurer_ok htreasurer, rfl, rfl, hmove⟩

theorem sweepShares_ok (h : f.sweepShares msg v s r n = .ok (s', f')) :
    f.roles .treasurer msg.sender = true ∧ f'.self = f.self ∧ f'.roles = f.roles ∧
      v.exec (f.asFund msg) s (.shares (.transfer r n)) = .ok s' := by
  simp only [sweepShares, bind_eq_ok, mapError_eq_ok, pure_eq_ok, Prod.mk.injEq] at h
  obtain ⟨_, htreasurer, -, -, s₁, hmove, rfl, rfl⟩ := h
  exact ⟨onlyTreasurer_ok htreasurer, rfl, rfl, hmove⟩

theorem roleCall_ok {call : RoleCall FundRole Address} (h : f.roleCall msg call = .ok f') :
    f'.self = f.self ∧ Roles.After .defaultAdmin msg.sender f.roles (some call) f'.roles := by
  simp only [roleCall, bind_eq_ok, mapError_eq_ok, pure_eq_ok] at h
  obtain ⟨r, hcall, rfl⟩ := h
  exact ⟨rfl, .called hcall⟩

end InsuranceFund

end LemonMarket
