import LemonMarket.Lib.Guard
import LemonMarket.Lib.Ledger

/-!
# LemonMarket.Contracts.Erc20

**The ERC-20 the vault inherits and the one it holds.** The share token is
OpenZeppelin's `ERC20`, which `LemonVault` derives from; USDC is a standard
ERC-20 (the deployment scripts and tests use the same contract). Both are this
one model: a conserving ledger with allowances, the reverts under the names the
generated ABI gives them.

Amounts are natural numbers. Solidity reverts where a `uint256` would overflow,
so every run of the contract is a run of the model.
-/

namespace LemonMarket

open Lib

/-- `type(uint256).max`. As an allowance it means "unlimited". -/
def uint256Max : Nat := 2 ^ 256 - 1

inductive Erc20Error (α : Type)
  | insufficientBalance (sender : α) (balance needed : Nat)
  | invalidSender (sender : α)
  | invalidReceiver (receiver : α)
  | insufficientAllowance (spender : α) (allowance needed : Nat)
  | invalidApprover (approver : α)
  | invalidSpender (spender : α)
  deriving Repr, DecidableEq

structure Erc20 (α : Type) [Fintype α] where
  ledger : Ledger α
  allowance : α → α → Nat

namespace Erc20

variable {α : Type} [Fintype α]

def balanceOf (t : Erc20 α) (a : α) : Nat := t.ledger.balance a

def totalSupply (t : Erc20 α) : Nat := t.ledger.total

theorem balanceOf_le_totalSupply (t : Erc20 α) (a : α) : t.balanceOf a ≤ t.totalSupply :=
  t.ledger.balance_le_total a

variable [DecidableEq α]

/-- `_update(address(0), to, value)`: the part of `_mint` after its check. -/
def issue (t : Erc20 α) (account : α) (value : Nat) : Erc20 α :=
  { t with ledger := t.ledger.credit account value }

@[simp] theorem issue_totalSupply (t : Erc20 α) (a : α) (n : Nat) :
    (t.issue a n).totalSupply = t.totalSupply + n := rfl

variable [Zero α]

/-- `_mint`. -/
def mint (t : Erc20 α) (account : α) (value : Nat) : Except (Erc20Error α) (Erc20 α) := do
  revertIf (account = 0) (.invalidReceiver 0)
  return t.issue account value

/-- `_burn`. -/
def burn (t : Erc20 α) (account : α) (value : Nat) : Except (Erc20Error α) (Erc20 α) := do
  revertIf (account = 0) (.invalidSender 0)
  if h : value ≤ t.ledger.balance account then
    return { t with ledger := t.ledger.debit account value h }
  else
    throw (.insufficientBalance account (t.ledger.balance account) value)

/-- `_transfer`. -/
def transferBetween (t : Erc20 α) (sender receiver : α) (value : Nat) :
    Except (Erc20Error α) (Erc20 α) := do
  revertIf (sender = 0) (.invalidSender 0)
  revertIf (receiver = 0) (.invalidReceiver 0)
  if h : value ≤ t.ledger.balance sender then
    return { t with ledger := t.ledger.move sender receiver value h }
  else
    throw (.insufficientBalance sender (t.ledger.balance sender) value)

/-- `_approve`. -/
def approve (t : Erc20 α) (owner spender : α) (value : Nat) :
    Except (Erc20Error α) (Erc20 α) := do
  revertIf (owner = 0) (.invalidApprover 0)
  revertIf (spender = 0) (.invalidSpender 0)
  return { t with
    allowance := Function.update t.allowance owner
      (Function.update (t.allowance owner) spender value) }

/-- `_spendAllowance`: an unlimited allowance is not used up. -/
def spendAllowance (t : Erc20 α) (owner spender : α) (value : Nat) :
    Except (Erc20Error α) (Erc20 α) := do
  let current := t.allowance owner spender
  if current < uint256Max then
    revertIf (current < value) (.insufficientAllowance spender current value)
    t.approve owner spender (current - value)
  else
    return t

/-- `transferFrom`, called by `spender`. -/
def transferFrom (t : Erc20 α) (spender sender receiver : α) (value : Nat) :
    Except (Erc20Error α) (Erc20 α) := do
  let t ← t.spendAllowance sender spender value
  t.transferBetween sender receiver value

/-! ### What a successful call did -/

variable {t t' : Erc20 α} {a b c owner spender : α} {n : Nat}

theorem mint_ok (h : t.mint a n = .ok t') : a ≠ 0 ∧ t' = t.issue a n := by
  simp only [mint, bind_eq_ok, revertIf_eq_ok, pure_eq_ok] at h
  obtain ⟨-, ha, rfl⟩ := h
  exact ⟨ha, rfl⟩

theorem burn_ok (h : t.burn a n = .ok t') :
    ∃ hn : n ≤ t.ledger.balance a, t' = { t with ledger := t.ledger.debit a n hn } := by
  simp only [burn, bind_eq_ok, revertIf_eq_ok] at h
  obtain ⟨-, -, h⟩ := h
  split at h
  next hn => exact ⟨hn, (pure_eq_ok.mp h).symm⟩
  next => cases h

theorem burn_totalSupply (h : t.burn a n = .ok t') : t'.totalSupply + n = t.totalSupply := by
  obtain ⟨hn, rfl⟩ := burn_ok h
  exact Nat.sub_add_cancel (Nat.le_trans hn (t.balanceOf_le_totalSupply a))

theorem transferBetween_ok (h : t.transferBetween a b n = .ok t') :
    ∃ hn : n ≤ t.ledger.balance a, t' = { t with ledger := t.ledger.move a b n hn } := by
  simp only [transferBetween, bind_eq_ok, revertIf_eq_ok] at h
  obtain ⟨-, -, -, -, h⟩ := h
  split at h
  next hn => exact ⟨hn, (pure_eq_ok.mp h).symm⟩
  next => cases h

/-- Neither end of a transfer is the null account. -/
theorem transferBetween_nonzero (h : t.transferBetween a b n = .ok t') : a ≠ 0 ∧ b ≠ 0 := by
  simp only [transferBetween, bind_eq_ok, revertIf_eq_ok] at h
  obtain ⟨-, ha, -, hb, -⟩ := h
  exact ⟨ha, hb⟩

/-- A transfer between real accounts that the sender can cover succeeds. -/
theorem transferBetween_of_le (ha : a ≠ 0) (hb : b ≠ 0) (hn : n ≤ t.ledger.balance a) :
    t.transferBetween a b n = .ok { t with ledger := t.ledger.move a b n hn } := by
  rw [transferBetween, bind_of_ok (revertIf_of_not ha), bind_of_ok (revertIf_of_not hb)]
  exact dif_pos hn

theorem approve_ok (h : t.approve owner spender n = .ok t') :
    t' = { t with
      allowance := Function.update t.allowance owner
        (Function.update (t.allowance owner) spender n) } := by
  simp only [approve, bind_eq_ok, revertIf_eq_ok, pure_eq_ok] at h
  obtain ⟨-, -, -, -, rfl⟩ := h
  rfl

/-- Spending an allowance needs it, moves nothing, and raises no allowance. -/
theorem spendAllowance_ok (h : t.spendAllowance owner spender n = .ok t') :
    t'.ledger = t.ledger ∧
      (t.allowance owner spender < uint256Max → n ≤ t.allowance owner spender) ∧
      ∀ x y, t'.allowance x y ≤ t.allowance x y := by
  simp only [spendAllowance] at h
  split at h
  next =>
    simp only [bind_eq_ok, revertIf_eq_ok] at h
    obtain ⟨-, hle, happ⟩ := h
    obtain rfl := approve_ok happ
    refine ⟨rfl, fun _ => by omega, ?_⟩
    intro x y
    by_cases hx : x = owner
    · by_cases hy : y = spender
      · subst hx hy; simp
      · subst hx; simp [hy]
    · simp [hx]
  next hmax =>
    obtain rfl := pure_eq_ok.mp h
    exact ⟨rfl, fun hlt => absurd hlt hmax, fun _ _ => Nat.le_refl _⟩

/-- `transferFrom` moves the tokens and raises no allowance. -/
theorem transferFrom_ok (h : t.transferFrom spender a b n = .ok t') :
    ∃ hn : n ≤ t.ledger.balance a, t'.ledger = t.ledger.move a b n hn ∧
      (t.allowance a spender < uint256Max → n ≤ t.allowance a spender) ∧
      ∀ x y, t'.allowance x y ≤ t.allowance x y := by
  simp only [transferFrom, bind_eq_ok] at h
  obtain ⟨t₁, hspend, hmove⟩ := h
  obtain ⟨hl, hallow, hxy⟩ := spendAllowance_ok hspend
  obtain ⟨hn, rfl⟩ := transferBetween_ok hmove
  simp only [hl] at hn
  exact ⟨hn, by simp only [hl], hallow, hxy⟩

theorem transferFrom_nonzero (h : t.transferFrom spender a b n = .ok t') : a ≠ 0 ∧ b ≠ 0 := by
  simp only [transferFrom, bind_eq_ok] at h
  obtain ⟨t₁, -, hmove⟩ := h
  exact transferBetween_nonzero hmove

end Erc20

end LemonMarket
