import Mathlib.Data.Fin.Basic
import Mathlib.Data.List.DropRight
import Mathlib.Data.Nat.Digits.Defs
import Mathlib.Tactic.IntervalCases
import Mathlib.Tactic.Ring

/-!
# LemonMarket.Lib.JsString

**Text as code units, and the numbers written in it.** `decimal` writes a number and `numeral`
reads digits back, in any base up to sixteen. What is read off two texts in a row is what is read
off each, the first moved up by the length of the second (`numeral_append`).
-/

namespace Lib

abbrev CodeUnit := Fin (2 ^ 16)

/-- A string is its UTF-16 code units, and they are what strings are compared by. -/
abbrev JsString := List CodeUnit

/-- The unit of a plain character. -/
def unit (c : Char) : CodeUnit := Fin.ofNat _ c.toNat

/-- The string a literal of plain characters stands for. -/
def js (literal : String) : JsString := literal.toList.map unit

/-- The value of a hex digit, of either case; sixteen for what is none. -/
def digitValue (c : CodeUnit) : Nat :=
  if 48 ≤ c.val ∧ c.val ≤ 57 then c.val - 48
  else if 97 ≤ c.val ∧ c.val ≤ 102 then c.val - 87
  else if 65 ≤ c.val ∧ c.val ≤ 70 then c.val - 55
  else 16

def isDigit (base : Nat) (c : CodeUnit) : Bool := digitValue c < base

/-- The number a string of digits stands for. -/
def numeral (base : Nat) (digits : JsString) : Nat :=
  digits.foldl (fun n c => base * n + digitValue c) 0

/-- A digit below ten. -/
def digit (d : Nat) : CodeUnit := Fin.ofNat _ (48 + d)

/-- A number in decimal. -/
def decimal (n : Nat) : JsString :=
  if n = 0 then [digit 0] else ((Nat.digits 10 n).map digit).reverse

/-- `padEnd` with one code unit. -/
def padEnd (s : JsString) (length : Nat) (c : CodeUnit) : JsString :=
  s ++ List.replicate (length - s.length) c

/-- `padStart` with one code unit. -/
def padStart (s : JsString) (length : Nat) (c : CodeUnit) : JsString :=
  List.replicate (length - s.length) c ++ s

variable {base : Nat} {s t : JsString} {c : CodeUnit} {n : Nat}

/-! ### Reading -/

theorem numeral_concat (s : JsString) (c : CodeUnit) :
    numeral base (s ++ [c]) = base * numeral base s + digitValue c := by
  rw [numeral, List.foldl_append]
  rfl

theorem numeral_append (s t : JsString) :
    numeral base (s ++ t) = numeral base s * base ^ t.length + numeral base t := by
  induction t using List.reverseRecOn with
  | nil => simp [numeral]
  | append_singleton t c ih =>
      rw [← List.append_assoc, numeral_concat, ih, numeral_concat, List.length_append,
        List.length_singleton, pow_succ]
      ring

theorem numeral_lt (h : ∀ c ∈ s, isDigit base c = true) : numeral base s < base ^ s.length := by
  induction s using List.reverseRecOn with
  | nil => simp [numeral]
  | append_singleton s c ih =>
      have hs := ih fun c hc => h c (List.mem_append_left _ hc)
      have hc : digitValue c < base := by
        simpa [isDigit] using h c (List.mem_append_right _ (List.mem_singleton_self c))
      rw [numeral_concat, List.length_append, List.length_singleton, pow_succ]
      calc base * numeral base s + digitValue c < base * numeral base s + base := by omega
        _ = base * (numeral base s + 1) := by ring
        _ ≤ base * base ^ s.length := Nat.mul_le_mul_left base hs
        _ = base ^ s.length * base := Nat.mul_comm ..

theorem numeral_zeros (k : Nat) : numeral base (List.replicate k (digit 0)) = 0 := by
  induction k with
  | zero => rfl
  | succ k ih =>
      rw [List.replicate_succ', numeral_concat, ih, Nat.mul_zero, Nat.zero_add]
      rfl

/-- Zeros behind multiply. -/
theorem numeral_append_zeros (s : JsString) (k : Nat) :
    numeral base (s ++ List.replicate k (digit 0)) = numeral base s * base ^ k := by
  rw [numeral_append, numeral_zeros, List.length_replicate, Nat.add_zero]

/-- Zeros in front do not count. -/
theorem numeral_padStart (length : Nat) :
    numeral base (padStart s length (digit 0)) = numeral base s := by
  rw [padStart, numeral_append, numeral_zeros, Nat.zero_mul, Nat.zero_add]

theorem le_length_padStart (s : JsString) (length : Nat) (c : CodeUnit) :
    length ≤ (padStart s length c).length := by
  rw [padStart, List.length_append, List.length_replicate]
  omega

/-- Padded with zeros, digits stay digits. -/
theorem isDigit_padStart (h : ∀ c ∈ s, isDigit 10 c = true) (length : Nat) :
    ∀ c ∈ padStart s length (digit 0), isDigit 10 c = true :=
  List.forall_mem_append.mpr ⟨fun _ hc => List.eq_of_mem_replicate hc ▸ rfl, h⟩

/-! ### Writing -/

theorem digitValue_digit (h : n < 10) : digitValue (digit n) = n := by
  interval_cases n <;> rfl

theorem isDigit_digit (h : n < 10) : isDigit 10 (digit n) = true := by
  simpa [isDigit, digitValue_digit h] using h

/-- The last digit of a number, and those before it if there are any. -/
theorem decimal_eq (n : Nat) :
    decimal n = (if n < 10 then [] else decimal (n / 10)) ++ [digit (n % 10)] := by
  by_cases hzero : n = 0
  · subst hzero
    rfl
  · by_cases hten : n < 10
    · rw [decimal, if_neg hzero, if_pos hten, Nat.digits_of_lt 10 n hzero hten,
        Nat.mod_eq_of_lt hten]
      rfl
    · have hrest : n / 10 ≠ 0 := by omega
      rw [decimal, if_neg hzero, if_neg hten, decimal, if_neg hrest,
        Nat.digits_def' (by omega) (Nat.pos_of_ne_zero hzero), List.map_cons, List.reverse_cons]

theorem numeral_decimal (n : Nat) : numeral 10 (decimal n) = n := by
  induction n using Nat.strong_induction_on with
  | _ n ih =>
      rw [decimal_eq, numeral_concat, digitValue_digit (Nat.mod_lt n (by omega))]
      split
      · simp only [numeral, List.foldl_nil]
        omega
      · rw [ih (n / 10) (by omega)]
        omega

theorem isDigit_decimal (n : Nat) : ∀ c ∈ decimal n, isDigit 10 c = true := by
  induction n using Nat.strong_induction_on with
  | _ n ih =>
      rw [decimal_eq]
      intro c hc
      rcases List.mem_append.mp hc with hc | hc
      · split at hc
        · cases hc
        · exact ih (n / 10) (by omega) c hc
      · rw [List.mem_singleton.mp hc]
        exact isDigit_digit (Nat.mod_lt n (by omega))

theorem decimal_ne_nil (n : Nat) : decimal n ≠ [] := by
  rw [decimal_eq]
  simp

/-- A number below a power of ten has no more digits. -/
theorem length_decimal_le {k : Nat} (hk : 0 < k) (h : n < 10 ^ k) : (decimal n).length ≤ k := by
  induction k generalizing n with
  | zero => omega
  | succ k ih =>
      rw [decimal_eq, List.length_append, List.length_singleton]
      split
      · simp
      · have hk : 0 < k := by
          by_contra hzero
          obtain rfl : k = 0 := by omega
          omega
        have hrest := ih hk (n := n / 10) (by rw [pow_succ] at h; omega)
        omega

end Lib
