import LemonMarket.Lib.NumberText
import Mathlib.Data.Nat.Digits.Lemmas

/-!
# LemonMarket.Lib.Hex

**Bytes as text.** Two hex digits a byte, and what reading such digits back gives; and the
number that bytes are in big-endian order, with how many digits it has in a base.
-/

namespace Lib

/-- Text, as the characters it is made of. -/
abbrev Text := List Char

namespace Hex

/-- A byte in two digits. -/
def ofByte (byte : UInt8) : Text :=
  [Nat.digitChar (byte.toNat / 16), Nat.digitChar (byte.toNat % 16)]

def ofBytes (bytes : List UInt8) : Text := bytes.flatMap ofByte

/-- The value of a hex digit, of either case. -/
def digitValue (c : Char) : Option Nat :=
  if '0' ≤ c ∧ c ≤ '9' then some (c.toNat - '0'.toNat)
  else if 'a' ≤ c ∧ c ≤ 'f' then some (c.toNat - 'a'.toNat + 10)
  else if 'A' ≤ c ∧ c ≤ 'F' then some (c.toNat - 'A'.toNat + 10)
  else none

/-- `parseInt` of a pair: the digits it begins with, which may follow a sign or space; nothing
where there are none. -/
def pairValue (high low : Char) : Int :=
  match digitValue high, digitValue low with
  | some high, some low => 16 * high + low
  | some high, none => high
  | none, some low =>
      if high = '-' then -low else if high = '+' ∨ NumberText.isSpaceChar high then low else 0
  | none, none => 0

/-- Text read two digits at a time. A last digit without a partner is dropped. -/
def bytesOf : Text → List UInt8
  | high :: low :: rest => UInt8.ofInt (pairValue high low) :: bytesOf rest
  | _ => []

@[simp] theorem length_ofBytes (bytes : List UInt8) :
    (ofBytes bytes).length = 2 * bytes.length := by
  induction bytes with
  | nil => rfl
  | cons byte rest ih =>
      show (ofByte byte ++ ofBytes rest).length = 2 * (rest.length + 1)
      rw [List.length_append, ih]
      show 2 + 2 * rest.length = _
      omega

theorem digitValue_digitChar {d : Nat} (hd : d < 16) : digitValue (Nat.digitChar d) = some d := by
  interval_cases d <;> rfl

/-- What was written is read back. -/
theorem bytesOf_ofBytes (bytes : List UInt8) : bytesOf (ofBytes bytes) = bytes := by
  induction bytes with
  | nil => rfl
  | cons byte rest ih =>
      have hbyte : byte.toNat < 256 := byte.toNat_lt
      have hpair : pairValue (Nat.digitChar (byte.toNat / 16)) (Nat.digitChar (byte.toNat % 16)) =
          (byte.toNat : Int) := by
        rw [pairValue, digitValue_digitChar (by omega), digitValue_digitChar (by omega)]
        show (16 * (byte.toNat / 16 : Nat) + (byte.toNat % 16 : Nat) : Int) = byte.toNat
        omega
      show UInt8.ofInt (pairValue _ _) :: bytesOf (ofBytes rest) = byte :: rest
      have hread : UInt8.ofInt (byte.toNat : Int) = byte := by
        rw [UInt8.ofInt, Int.emod_eq_of_lt (by omega) (by omega), Int.toNat_natCast,
          UInt8.ofNat_toNat]
      rw [hpair, ih, hread]

/-- An ASCII character other than the null is one byte other than zero. -/
theorem utf8_ascii {c : Char} (hpos : 0 < c.toNat) (h : c.toNat < 128) :
    ∃ byte, String.utf8EncodeChar c = [byte] ∧ byte ≠ 0 := by
  have hle : c.val.toNat ≤ 127 := Nat.le_of_lt_succ h
  refine ⟨UInt8.ofNat c.toNat, ?_, ?_⟩
  · rw [String.utf8EncodeChar, if_pos hle]
    rfl
  · intro hzero
    have hnat := congrArg UInt8.toNat hzero
    rw [UInt8.toNat_ofNat', Nat.mod_eq_of_lt (by omega)] at hnat
    exact hpos.ne' hnat

/-! ### Bytes as a number -/

/-- The number bytes are, the first the heaviest. -/
def number (bytes : List UInt8) : Nat :=
  bytes.foldl (fun value byte => value * 256 + byte.toNat) 0

theorem le_foldl (bytes : List UInt8) (value : Nat) :
    value * 256 ^ bytes.length ≤
      bytes.foldl (fun value byte => value * 256 + byte.toNat) value := by
  induction bytes generalizing value with
  | nil => simp
  | cons byte rest ih =>
      calc value * 256 ^ (rest.length + 1)
          = value * 256 * 256 ^ rest.length := by rw [pow_succ', mul_assoc]
        _ ≤ (value * 256 + byte.toNat) * 256 ^ rest.length :=
            Nat.mul_le_mul_right _ (Nat.le_add_right _ _)
        _ ≤ _ := ih _

/-- Bytes that begin with one above zero. -/
theorem le_number {byte : UInt8} (hbyte : byte ≠ 0) (rest : List UInt8) :
    256 ^ rest.length ≤ number (byte :: rest) := by
  have hpos : 1 ≤ byte.toNat := by
    refine Nat.one_le_iff_ne_zero.mpr fun hzero => hbyte ?_
    exact UInt8.toNat_inj.mp hzero
  calc 256 ^ rest.length = 1 * 256 ^ rest.length := (one_mul _).symm
    _ ≤ byte.toNat * 256 ^ rest.length := Nat.mul_le_mul_right _ hpos
    _ ≤ number (byte :: rest) := by
        have h := le_foldl rest byte.toNat
        rwa [number, List.foldl_cons, Nat.zero_mul, Nat.zero_add]

/-- A number has more digits than any power of the base that it reaches. -/
theorem lt_length_digits {base n k : Nat} (hbase : 1 < base) (h : base ^ k ≤ n) :
    k < (Nat.digits base n).length :=
  (Nat.pow_lt_pow_iff_right hbase).mp (h.trans_lt (Nat.lt_base_pow_length_digits hbase))

end Hex

end Lib
