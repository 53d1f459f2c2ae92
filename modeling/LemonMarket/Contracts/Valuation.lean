import LemonMarket.Contracts.State

/-!
# LemonMarket.Contracts.Valuation

**What the vault is worth.** The view functions of `LemonVault` and of the
`ERC4626` it derives from: idle and total assets, the conversions with twelve
virtual decimals, the price of one whole share, and staleness. Apart from staleness
they depend on four numbers: the vault's USDC balance, `deployedAssets`,
`claimableAssets` and the share supply.
-/

namespace LemonMarket

open Lib

namespace LemonVault

variable (v : LemonVault) (s : State)

/-- USDC held by the vault. -/
def idleAssets : Nat := s.usdc.balanceOf v.self

def totalAssets : Nat :=
  let gross := v.idleAssets s + s.deployedAssets
  if gross > s.claimableAssets then gross - s.claimableAssets else 0

def freeAssets : Nat :=
  if v.idleAssets s > s.claimableAssets then v.idleAssets s - s.claimableAssets else 0

/-- ERC4626 `_convertToShares` with the vault's decimals offset. -/
def convertToShares (assets : Nat) (r : Rounding) : Nat :=
  mulDiv assets (s.shares.totalSupply + virtualShares) (v.totalAssets s + 1) r

/-- ERC4626 `_convertToAssets`. -/
def convertToAssets (shares : Nat) (r : Rounding) : Nat :=
  mulDiv shares (v.totalAssets s + 1) (s.shares.totalSupply + virtualShares) r

def pricePerShare : Nat := v.convertToAssets s priceUnit .floor

def navIsStale (now : Nat) : Bool := now > s.lastNavReportAt + s.limits.val.maxNavStaleness

/-- `maxDeposit` and `maxMint`, which are one function. -/
def maxDeposit (now : Nat) : Nat :=
  if s.paused || navIsStale s now then 0 else uint256Max

/-! ### Saturation is subtraction -/

theorem totalAssets_eq :
    v.totalAssets s = v.idleAssets s + s.deployedAssets - s.claimableAssets := by
  simp only [totalAssets]
  split <;> omega

theorem freeAssets_eq : v.freeAssets s = v.idleAssets s - s.claimableAssets := by
  simp only [freeAssets]
  split <;> omega

variable {v s} {s' : State}

/-- The mark is no part of the valuation. -/
@[simp] theorem totalAssets_mark (v : LemonVault) (s : State) (pps : Nat) :
    v.totalAssets (s.setMark pps) = v.totalAssets s := rfl

@[simp] theorem pricePerShare_mark (v : LemonVault) (s : State) (pps : Nat) :
    v.pricePerShare (s.setMark pps) = v.pricePerShare s := rfl

/-- Neither is the accrual clock. -/
@[simp] theorem totalAssets_clock (v : LemonVault) (s : State) (now : Nat) :
    v.totalAssets (s.setAccrualClock now) = v.totalAssets s := rfl

@[simp] theorem totalAssets_emit (v : LemonVault) (s : State) (e : Event) :
    v.totalAssets (s.emit e) = v.totalAssets s := rfl

@[simp] theorem pricePerShare_emit (v : LemonVault) (s : State) (e : Event) :
    v.pricePerShare (s.emit e) = v.pricePerShare s := rfl

/-! ### Prices -/

theorem supply_pos (s : State) : 0 < s.shares.totalSupply + virtualShares :=
  Nat.add_pos_right _ virtualShares_pos

/-- Selling shares at the floored price never takes more than they are worth. -/
theorem convertToAssets_mul_le {shares : Nat} :
    v.convertToAssets s shares .floor * (s.shares.totalSupply + virtualShares) ≤
      shares * (v.totalAssets s + 1) :=
  mulDiv_floor_mul_le

/-- Buying shares at the floored rate never gets more than they cost. -/
theorem convertToShares_mul_le {assets : Nat} :
    v.convertToShares s assets .floor * (v.totalAssets s + 1) ≤
      assets * (s.shares.totalSupply + virtualShares) :=
  mulDiv_floor_mul_le

/-- The price quoted upwards covers the shares it buys. -/
theorem le_convertToAssets_ceil_mul {shares : Nat} :
    shares * (v.totalAssets s + 1) ≤
      v.convertToAssets s shares .ceil * (s.shares.totalSupply + virtualShares) :=
  le_mulDiv_ceil_mul (supply_pos s)

/-- The price of a share is a floored quotient. -/
theorem le_pricePerShare_iff {k : Nat} : k ≤ v.pricePerShare s ↔
    k * (s.shares.totalSupply + virtualShares) ≤ priceUnit * (v.totalAssets s + 1) :=
  le_mulDiv_floor_iff (supply_pos s)

theorem pricePerShare_lt_iff {k : Nat} : v.pricePerShare s < k ↔
    priceUnit * (v.totalAssets s + 1) < k * (s.shares.totalSupply + virtualShares) :=
  mulDiv_floor_lt_iff (supply_pos s)

end LemonVault

end LemonMarket
