import LemonMarket.Contracts.State
import LemonMarket.Lib.Hex

/-!
# LemonMarket.Api.Explorer

**A published reference as a link** (`explorerUrlFor` of `vaults.ts`). A row on Base links
when its reference is the 32 bytes of a hash; one on Solana when it is the 64 bytes of a
signature, which the explorer knows by their base58.
-/

namespace LemonMarket

namespace Api

open Lib

/-- The digits of base 58. -/
def base58Alphabet : Text := "123456789ABCDEFGHJKLMNPQRSTUVWXYZabcdefghijkmnopqrstuvwxyz".toList

/-- The number the bytes are, in base 58, with a `1` before it for each leading zero. -/
def base58Encode (bytes : List UInt8) : Text :=
  List.replicate (bytes.takeWhile fun byte => byte = 0).length '1' ++
    (Nat.digits 58 (Hex.number bytes)).reverse.map fun digit => base58Alphabet.getD digit '1'

/-- The digits of a reference, without their mark. -/
def unmarked (txRef : Text) : Text :=
  if ['0', 'x'].isPrefixOf txRef then txRef.drop 2 else txRef

/-- Turn a raw reference into a link, where its length is one a transaction's would have. -/
def explorerUrlFor (chain : Chain) (txRef : Text) : Option Text :=
  let hex := unmarked txRef
  if hex.length = 0 then none
  else
    match chain with
    | .base =>
        if hex.length = 64 then some ("https://basescan.org/tx/0x".toList ++ hex) else none
    | .solana =>
        if hex.length ≠ 128 then none
        else some ("https://solscan.io/tx/".toList ++ base58Encode (Hex.bytesOf hex))
    | .near => none

variable {hex : Text} {bytes : List UInt8}

@[simp] theorem unmarked_mark : unmarked ('0' :: 'x' :: hex) = hex := rfl

theorem explorerUrlFor_base (h : hex.length = 64) : explorerUrlFor .base ('0' :: 'x' :: hex) =
    some ("https://basescan.org/tx/0x".toList ++ hex) := by
  rw [explorerUrlFor, unmarked_mark]
  show (if hex.length = 0 then none else if hex.length = 64 then some _ else none) = _
  rw [if_neg (by omega), if_pos h]

theorem explorerUrlFor_solana (h : hex.length = 128) :
    explorerUrlFor .solana ('0' :: 'x' :: hex) =
      some ("https://solscan.io/tx/".toList ++ base58Encode (Hex.bytesOf hex)) := by
  rw [explorerUrlFor, unmarked_mark]
  show (if hex.length = 0 then none else if hex.length ≠ 128 then none else some _) = _
  rw [if_neg (by omega), if_neg (not_not.mpr h)]

/-- Any other length has no page on Solana. -/
theorem explorerUrlFor_solana_none (h : hex.length ≠ 128) :
    explorerUrlFor .solana ('0' :: 'x' :: hex) = none := by
  rw [explorerUrlFor, unmarked_mark]
  show (if hex.length = 0 then none else if hex.length ≠ 128 then none else some _) = _
  rw [if_pos h, ite_self]

/-- The bytes of a signature link to its base58: what is read is what was written. -/
theorem explorerUrlFor_signature (h : bytes.length = 64) :
    explorerUrlFor .solana ('0' :: 'x' :: Hex.ofBytes bytes) =
      some ("https://solscan.io/tx/".toList ++ base58Encode bytes) := by
  rw [explorerUrlFor_solana (by rw [Hex.length_ofBytes, h]), Hex.bytesOf_ofBytes]

/-! ### How long base58 is -/

/-- Sixty-four bytes that begin with one above zero have more digits than bytes. -/
theorem lt_length_base58Encode {byte : UInt8} {rest : List UInt8} (hbyte : byte ≠ 0)
    (hrest : rest.length = 63) : 64 < (base58Encode (byte :: rest)).length := by
  have hdigits : 64 < (Nat.digits 58 (Hex.number (byte :: rest))).length := by
    refine Hex.lt_length_digits (by decide) (le_trans ?_ (Hex.le_number hbyte rest))
    rw [hrest]
    norm_num
  rw [base58Encode, List.length_append, List.length_map, List.length_reverse]
  omega

theorem ascii_base58Alphabet {c : Char} (h : c ∈ base58Alphabet) :
    0 < c.toNat ∧ c.toNat < 128 := by
  have hall : base58Alphabet.all (fun c => 0 < c.toNat && c.toNat < 128) = true := by rfl
  have hc := List.all_eq_true.mp hall c h
  rw [Bool.and_eq_true, decide_eq_true_eq, decide_eq_true_eq] at hc
  exact hc

theorem mem_base58Encode {c : Char} (h : c ∈ base58Encode bytes) : c ∈ base58Alphabet := by
  have hone : '1' ∈ base58Alphabet := by decide +kernel
  rcases List.mem_append.mp h with h | h
  · rw [List.eq_of_mem_replicate h]
    exact hone
  · obtain ⟨digit, -, rfl⟩ := List.mem_map.mp h
    rw [List.getD_eq_getElem?_getD]
    cases hdigit : base58Alphabet[digit]? with
    | none => exact hone
    | some c => exact List.mem_of_getElem? hdigit

end Api

end LemonMarket
