import LemonMarket.Lib.JsString
import LemonMarket.Lib.Number
import Mathlib.Tactic.FieldSimp
import Mathlib.Tactic.Positivity

/-!
# LemonMarket.Lib.NumberText

**Numbers in text.** `parseNumber` is the grammar a text is read by as a number: decimals with a
sign, a point and an exponent, digits of another radix, and infinity. What it reads is a
`Literal`, whose parts carry their own well-formedness; a text is the text of the literal it is
read as, and the text of a decimal is read as that decimal. `toBigInt` reads the whole numbers
among them.

`toFixed` writes a number with so many decimals. From `10 ^ 21` on it is left to `toString`, which
gives digits and an exponent.
-/

namespace Lib

namespace NumberText

/-! ### Literals -/

/-- The units of space that `trim` takes off. -/
def isSpace (c : CodeUnit) : Bool :=
  (9 ≤ c.val ∧ c.val ≤ 13) ∨ (8192 ≤ c.val ∧ c.val ≤ 8202) ∨
    c.val ∈ [32, 160, 5760, 8232, 8233, 8239, 8287, 12288, 65279]

def trim (s : JsString) : JsString := (s.dropWhile isSpace).rdropWhile isSpace

/-- The same of a character, which takes one unit if it is space. -/
def isSpaceChar (c : Char) : Bool := decide (c.toNat < 2 ^ 16) && isSpace (unit c)

/-- `trim`, of characters. -/
def trimChars (text : List Char) : List Char :=
  (text.dropWhile isSpaceChar).rdropWhile isSpaceChar

inductive Sign
  | none
  | plus
  | minus
  deriving Repr, DecidableEq

namespace Sign

def text : Sign → JsString
  | none => []
  | plus => [unit '+']
  | minus => [unit '-']

def apply {α : Type} [Neg α] : Sign → α → α
  | minus, a => -a
  | _, a => a

end Sign

/-- A text without the sign it begins with. -/
def splitSign : JsString → Sign × JsString
  | [] => (.none, [])
  | c :: rest =>
      if c = unit '+' then (.plus, rest)
      else if c = unit '-' then (.minus, rest)
      else (.none, c :: rest)

structure Exponent where
  mark : CodeUnit
  sign : Sign
  digits : JsString
  mark_eq : mark = unit 'e' ∨ mark = unit 'E'
  isDigit_digits : ∀ c ∈ digits, isDigit 10 c = true
  digits_ne_nil : digits ≠ []

/-- Digits with or without a point among them, and an exponent. -/
@[ext] structure Decimal where
  sign : Sign
  whole : JsString
  /-- What follows the point, if there is one. -/
  fraction : Option JsString
  exponent : Option Exponent
  isDigit_whole : ∀ c ∈ whole, isDigit 10 c = true
  isDigit_fraction : ∀ c ∈ fraction.getD [], isDigit 10 c = true
  some_digit : whole ≠ [] ∨ fraction.getD [] ≠ []

/-- The base a mark after a zero announces. -/
def radixOf (mark : CodeUnit) : Option Nat :=
  if mark = unit 'x' ∨ mark = unit 'X' then some 16
  else if mark = unit 'o' ∨ mark = unit 'O' then some 8
  else if mark = unit 'b' ∨ mark = unit 'B' then some 2
  else none

structure Radix where
  mark : CodeUnit
  base : Nat
  digits : JsString
  radixOf_mark : radixOf mark = some base
  isDigit_digits : ∀ c ∈ digits, isDigit base c = true
  digits_ne_nil : digits ≠ []

inductive Literal
  | empty
  | decimal (m : Decimal)
  | infinity (sign : Sign)
  | radix (r : Radix)

def Exponent.text (e : Exponent) : JsString := e.mark :: (e.sign.text ++ e.digits)

def Exponent.value (e : Exponent) : Int := e.sign.apply (numeral 10 e.digits : Int)

/-- The text of a point and what follows it. -/
def pointed : Option JsString → JsString
  | some digits => unit '.' :: digits
  | none => []

namespace Decimal

def exponentText (m : Decimal) : JsString := (m.exponent.map Exponent.text).getD []

def unsigned (m : Decimal) : JsString := m.whole ++ (pointed m.fraction ++ m.exponentText)

def text (m : Decimal) : JsString := m.sign.text ++ m.unsigned

def exponentValue (m : Decimal) : Int := (m.exponent.map Exponent.value).getD 0

/-- The number its digits stand for, leaving sign and exponent aside. -/
def mantissa (m : Decimal) : ℚ :=
  numeral 10 (m.whole ++ m.fraction.getD []) / 10 ^ (m.fraction.getD []).length

def value (m : Decimal) : ℚ := m.sign.apply (m.mantissa * 10 ^ m.exponentValue)

end Decimal

def Radix.text (r : Radix) : JsString := digit 0 :: r.mark :: r.digits

def Literal.text : Literal → JsString
  | empty => []
  | decimal m => m.text
  | infinity sign => sign.text ++ js "Infinity"
  | radix r => r.text

/-- The number a literal denotes. -/
def Literal.value : Literal → Number
  | empty => .finite 0
  | decimal m => .finite m.value
  | infinity sign => .infinite (sign = .minus)
  | radix r => .finite (numeral r.base r.digits)

/-! ### Reading a literal -/

/-- The digits after a point, and what comes after them. -/
def splitFraction : JsString → Option JsString × JsString
  | [] => (none, [])
  | c :: rest =>
      if c = unit '.' then (some (rest.takeWhile (isDigit 10)), rest.dropWhile (isDigit 10))
      else (none, c :: rest)

/-- An exponent, if there is anything. -/
def parseExponent : JsString → Option (Option Exponent)
  | [] => some none
  | c :: rest =>
      let signed := splitSign rest
      if h : (c = unit 'e' ∨ c = unit 'E') ∧ signed.2.all (isDigit 10) = true ∧
          signed.2 ≠ [] then
        some (some ⟨c, signed.1, signed.2, h.1, List.all_eq_true.mp h.2.1, h.2.2⟩)
      else none

theorem isDigit_splitFraction (s : JsString) :
    ∀ c ∈ (splitFraction s).1.getD [], isDigit 10 c = true := by
  intro c hc
  cases s with
  | nil => cases hc
  | cons d rest =>
      rw [splitFraction] at hc
      split at hc
      · exact List.mem_takeWhile_imp hc
      · cases hc

def parseDecimal (s : JsString) : Option Decimal :=
  let signed := splitSign s
  let whole := signed.2.takeWhile (isDigit 10)
  let rest := splitFraction (signed.2.dropWhile (isDigit 10))
  if h : whole ≠ [] ∨ rest.1.getD [] ≠ [] then
    (parseExponent rest.2).map fun exponent =>
      ⟨signed.1, whole, rest.1, exponent, fun _ => List.mem_takeWhile_imp,
        isDigit_splitFraction _, h⟩
  else none

def parseRadix : JsString → Option Radix
  | zero :: mark :: digits =>
      match hmark : radixOf mark with
      | some base =>
          if h : zero = digit 0 ∧ digits.all (isDigit base) = true ∧ digits ≠ [] then
            some ⟨mark, base, digits, hmark, List.all_eq_true.mp h.2.1, h.2.2⟩
          else none
      | none => none
  | _ => none

/-- What `Number` reads in a text that has no space around it; nothing where it reads `NaN`. -/
def parseNumber (s : JsString) : Option Literal :=
  if s = [] then some .empty
  else
    match parseDecimal s with
    | some m => some (.decimal m)
    | none =>
        if (splitSign s).2 = js "Infinity" then some (.infinity (splitSign s).1)
        else (parseRadix s).map .radix

/-- `BigInt(text)`, which throws for what is no integer. -/
def toBigInt (text : JsString) : Option Int :=
  let s := trim text
  let signed := splitSign s
  if s = [] then some 0
  else if signed.2 ≠ [] ∧ signed.2.all (isDigit 10) = true then
    some (signed.1.apply (numeral 10 signed.2 : Int))
  else (parseRadix s).map fun r => (numeral r.base r.digits : Int)

/-! ### A text is what it is read as -/

variable {s rest : JsString} {c : CodeUnit} {base : Nat}

theorem splitSign_text (s : JsString) : (splitSign s).1.text ++ (splitSign s).2 = s := by
  cases s with
  | nil => rfl
  | cons c rest =>
      rw [splitSign]
      split
      · rename_i hplus
        rw [hplus]
        rfl
      · split
        · rename_i hminus
          rw [hminus]
          rfl
        · rfl

theorem splitFraction_text (s : JsString) :
    pointed (splitFraction s).1 ++ (splitFraction s).2 = s := by
  cases s with
  | nil => rfl
  | cons c rest =>
      by_cases hpoint : c = unit '.'
      · rw [splitFraction, if_pos hpoint, hpoint]
        exact congrArg (unit '.' :: ·) List.takeWhile_append_dropWhile
      · rw [splitFraction, if_neg hpoint]
        rfl

theorem parseExponent_text {exponent : Option Exponent} (h : parseExponent s = some exponent) :
    (exponent.map Exponent.text).getD [] = s := by
  cases s with
  | nil =>
      obtain rfl := Option.some.inj h
      rfl
  | cons c rest =>
      simp only [parseExponent] at h
      split at h
      · obtain rfl := Option.some.inj h
        exact congrArg (c :: ·) (splitSign_text rest)
      · cases h

theorem parseDecimal_text {m : Decimal} (h : parseDecimal s = some m) : m.text = s := by
  rw [parseDecimal] at h
  split at h
  · obtain ⟨exponent, hexponent, rfl⟩ := Option.map_eq_some_iff.mp h
    have hrest := parseExponent_text hexponent
    rw [Decimal.text, Decimal.unsigned, Decimal.exponentText, hrest]
    dsimp only
    rw [splitFraction_text, List.takeWhile_append_dropWhile, splitSign_text]
  · cases h

theorem parseRadix_text {r : Radix} (h : parseRadix s = some r) : r.text = s := by
  rw [parseRadix.eq_def] at h
  split at h
  · rename_i zero mark digits
    split at h
    · split at h
      · rename_i hdigits
        have hzero := hdigits.1
        obtain rfl := Option.some.inj h
        exact congrArg (· :: mark :: digits) hzero.symm
      · cases h
    · cases h
  · cases h

theorem parseNumber_text {l : Literal} (h : parseNumber s = some l) : l.text = s := by
  rw [parseNumber] at h
  split at h
  · rename_i hempty
    obtain rfl := Option.some.inj h
    exact hempty.symm
  · split at h
    · rename_i m hm
      obtain rfl := Option.some.inj h
      exact parseDecimal_text hm
    · split at h
      · rename_i hinfinity
        obtain rfl := Option.some.inj h
        rw [Literal.text, ← hinfinity, splitSign_text]
      · obtain ⟨r, hr, rfl⟩ := Option.map_eq_some_iff.mp h
        exact parseRadix_text hr

/-! ### A decimal is read as it is -/

/-- A unit that is no sign. -/
def isSign (c : CodeUnit) : Bool := c = unit '+' ∨ c = unit '-'

theorem not_isSign_of_isDigit (h : isDigit 10 c = true) : isSign c = false := by
  rw [isSign, decide_eq_false_iff_not]
  rintro (rfl | rfl) <;> exact absurd h (by decide)

theorem splitSign_append (sign : Sign) (h : ∀ c ∈ s.head?, isSign c = false) :
    splitSign (sign.text ++ s) = (sign, s) := by
  cases sign with
  | plus => rfl
  | minus => rfl
  | none =>
      cases s with
      | nil => rfl
      | cons c rest =>
          have hc := h c rfl
          rw [isSign, decide_eq_false_iff_not, not_or] at hc
          rw [Sign.text, List.nil_append, splitSign, if_neg hc.1, if_neg hc.2]

/-- Digits end where something else begins. -/
theorem takeWhile_digits (hs : ∀ c ∈ s, isDigit base c = true)
    (hrest : ∀ c ∈ rest.head?, isDigit base c = false) :
    (s ++ rest).takeWhile (isDigit base) = s ∧ (s ++ rest).dropWhile (isDigit base) = rest := by
  rw [List.takeWhile_append_of_pos hs, List.dropWhile_append_of_pos hs]
  cases rest with
  | nil => simp
  | cons c rest =>
      have hc : ¬ isDigit base c = true := by rw [hrest c rfl]; exact Bool.false_ne_true
      rw [List.takeWhile_cons_of_neg hc, List.dropWhile_cons_of_neg hc, List.append_nil]
      exact ⟨rfl, rfl⟩

theorem Exponent.isDigit_mark (e : Exponent) : isDigit 10 e.mark = false := by
  rcases e.mark_eq with h | h <;> rw [h] <;> rfl

theorem Exponent.mark_ne_point (e : Exponent) : e.mark ≠ unit '.' := by
  rcases e.mark_eq with h | h <;> rw [h] <;> decide

theorem parseExponent_of_text (exponent : Option Exponent) :
    parseExponent ((exponent.map Exponent.text).getD []) = some exponent := by
  cases exponent with
  | none => rfl
  | some e =>
      have hhead : ∀ c ∈ e.digits.head?, isSign c = false := fun c hc =>
        not_isSign_of_isDigit (e.isDigit_digits c (List.mem_of_mem_head? hc))
      have hsigned := splitSign_append e.sign hhead
      simp only [Option.map_some, Option.getD_some, Exponent.text, parseExponent, hsigned]
      exact dif_pos ⟨e.mark_eq, List.all_eq_true.mpr e.isDigit_digits, e.digits_ne_nil⟩

namespace Decimal

variable (m : Decimal)

/-- What comes after the digits of a decimal does not begin with a digit. -/
theorem head_exponentText : ∀ c ∈ m.exponentText.head?, isDigit 10 c = false ∧ c ≠ unit '.' := by
  intro c hc
  rw [exponentText] at hc
  cases hexponent : m.exponent with
  | none =>
      rw [hexponent] at hc
      cases hc
  | some e =>
      rw [hexponent] at hc
      obtain rfl : e.mark = c := Option.some.inj hc
      exact ⟨e.isDigit_mark, e.mark_ne_point⟩

theorem splitFraction_of_text :
    splitFraction (pointed m.fraction ++ m.exponentText) = (m.fraction, m.exponentText) := by
  cases hfraction : m.fraction with
  | none =>
      rw [pointed, List.nil_append]
      cases htext : m.exponentText with
      | nil => rfl
      | cons c rest =>
          have hc := (m.head_exponentText c (by rw [htext]; rfl)).2
          rw [splitFraction, if_neg hc]
  | some digits =>
      have hdigits : ∀ c ∈ digits, isDigit 10 c = true := fun c hc =>
        m.isDigit_fraction c (by rw [hfraction]; exact hc)
      obtain ⟨htake, hdrop⟩ := takeWhile_digits hdigits fun c hc => (m.head_exponentText c hc).1
      rw [pointed, List.cons_append, splitFraction, if_pos rfl, htake, hdrop]

/-- The text of a decimal does not begin with a sign after its own. -/
theorem head_unsigned : ∀ c ∈ m.unsigned.head?, isSign c = false := by
  intro c hc
  rw [unsigned] at hc
  cases hwhole : m.whole with
  | cons d whole =>
      rw [hwhole] at hc
      obtain rfl : d = c := Option.some.inj hc
      exact not_isSign_of_isDigit (m.isDigit_whole d (by rw [hwhole]; exact List.mem_cons_self ..))
  | nil =>
      rw [hwhole] at hc
      cases hfraction : m.fraction with
      | some digits =>
          rw [hfraction] at hc
          obtain rfl : unit '.' = c := Option.some.inj hc
          rfl
      | none =>
          refine m.some_digit.elim (absurd hwhole) fun h => ?_
          rw [hfraction] at h
          exact absurd rfl h

theorem parseDecimal_of_text : parseDecimal m.text = some m := by
  have hsigned := splitSign_append m.sign m.head_unsigned
  rw [unsigned] at hsigned
  have hrest : ∀ c ∈ (pointed m.fraction ++ m.exponentText).head?, isDigit 10 c = false := by
    intro c hc
    cases hfraction : m.fraction with
    | none =>
        rw [hfraction] at hc
        exact (m.head_exponentText c hc).1
    | some digits =>
        rw [hfraction] at hc
        obtain rfl : unit '.' = c := Option.some.inj hc
        rfl
  obtain ⟨htake, hdrop⟩ := takeWhile_digits m.isDigit_whole hrest
  have hexponent : parseExponent m.exponentText = some m.exponent :=
    parseExponent_of_text m.exponent
  simp only [parseDecimal, text, hsigned, unsigned, htake, hdrop, splitFraction_of_text, hexponent]
  exact dif_pos m.some_digit

theorem text_ne_nil : m.text ≠ [] := by
  intro h
  rcases List.append_eq_nil_iff.mp h with ⟨-, h⟩
  rcases List.append_eq_nil_iff.mp h with ⟨hwhole, h⟩
  rcases List.append_eq_nil_iff.mp h with ⟨hfraction, -⟩
  refine m.some_digit.elim (absurd hwhole) ?_
  cases hf : m.fraction with
  | none => exact absurd rfl
  | some digits =>
      rw [hf] at hfraction
      cases hfraction

theorem parseNumber_of_text : parseNumber m.text = some (.decimal m) := by
  rw [parseNumber, if_neg m.text_ne_nil, m.parseDecimal_of_text]

end Decimal

/-! ### Whole numbers -/

theorem not_isSpace_of_isDigit (hbase : base ≤ 16) (h : isDigit base c = true) :
    isSpace c = false := by
  rw [isDigit, decide_eq_true_eq, digitValue] at h
  rw [isSpace, decide_eq_false_iff_not]
  simp only [List.mem_cons, List.not_mem_nil, or_false]
  split_ifs at h <;> omega

/-- There is nothing to trim where there is no space. -/
theorem trim_eq_self (h : ∀ c ∈ s, isSpace c = false) : trim s = s := by
  have hdrop : s.dropWhile isSpace = s := by
    cases s with
    | nil => rfl
    | cons c rest => simp [h c (List.mem_cons_self ..)]
  rw [trim, hdrop, List.rdropWhile_eq_self_iff]
  intro hne
  rw [h _ (List.getLast_mem hne)]
  exact Bool.false_ne_true

theorem Sign.not_isSpace (sign : Sign) : ∀ c ∈ sign.text, isSpace c = false := by
  intro c hc
  cases sign with
  | none => cases hc
  | plus => rw [List.mem_singleton.mp hc]; rfl
  | minus => rw [List.mem_singleton.mp hc]; rfl

theorem toBigInt_digits (sign : Sign) (hs : ∀ c ∈ s, isDigit 10 c = true) (hne : s ≠ []) :
    toBigInt (sign.text ++ s) = some (sign.apply (numeral 10 s : Int)) := by
  have hspace : ∀ c ∈ sign.text ++ s, isSpace c = false := by
    intro c hc
    rcases List.mem_append.mp hc with hc | hc
    · exact sign.not_isSpace c hc
    · exact not_isSpace_of_isDigit (by omega) (hs c hc)
  have hsigned := splitSign_append sign fun c hc =>
    not_isSign_of_isDigit (hs c (List.mem_of_mem_head? hc))
  have htext : sign.text ++ s ≠ [] := by simp [hne]
  simp only [toBigInt, trim_eq_self hspace, hsigned, if_neg htext]
  exact if_pos ⟨hne, List.all_eq_true.mpr hs⟩

/-- What is neither digits after a sign nor digits of a radix is no integer. -/
theorem toBigInt_eq_none (hspace : ∀ c ∈ s, isSpace c = false) (hne : s ≠ [])
    (hdigits : ∃ c ∈ (splitSign s).2, isDigit 10 c = false)
    (hradix : parseRadix s = none) : toBigInt s = none := by
  obtain ⟨c, hc, hno⟩ := hdigits
  have hdigits : ¬ ((splitSign s).2 ≠ [] ∧ (splitSign s).2.all (isDigit 10) = true) :=
    fun h => Bool.false_ne_true (hno.symm.trans (List.all_eq_true.mp h.2 c hc))
  simp only [toBigInt, trim_eq_self hspace, if_neg hne, if_neg hdigits, hradix, Option.map_none]

theorem radixOf_of_isDigit (h : isDigit 10 c = true) : radixOf c = none := by
  have hne : ∀ c', isDigit 10 c' = false → c ≠ c' := by
    rintro c' hc' rfl
    rw [h] at hc'
    cases hc'
  rw [radixOf, if_neg, if_neg, if_neg] <;>
    exact not_or.mpr ⟨hne _ (by decide), hne _ (by decide)⟩

theorem parseRadix_of_head (h : ∀ c ∈ s.head?, c ≠ digit 0) : parseRadix s = none := by
  match s with
  | [] => rfl
  | [c] => rfl
  | zero :: mark :: digits =>
      have hzero := h zero rfl
      rw [parseRadix.eq_def]
      dsimp only
      split
      · exact dif_neg fun hall => hzero hall.1
      · rfl

theorem parseRadix_of_mark {zero mark : CodeUnit} (h : radixOf mark = none) :
    parseRadix (zero :: mark :: rest) = none := by
  rw [parseRadix.eq_def]
  dsimp only
  split
  · rename_i hsome
    rw [h] at hsome
    cases hsome
  · rfl

theorem Exponent.not_isSpace_mark (e : Exponent) : isSpace e.mark = false := by
  rcases e.mark_eq with h | h <;> rw [h] <;> rfl

theorem Exponent.radixOf_mark (e : Exponent) : radixOf e.mark = none := by
  rcases e.mark_eq with h | h <;> rw [h] <;> rfl

/-- Digits with the mark of an exponent among them are no integer. -/
theorem toBigInt_exponent (sign : Sign) (e : Exponent) (hs : ∀ c ∈ s, isDigit 10 c = true)
    (hne : s ≠ []) (hspace : ∀ c ∈ rest, isSpace c = false) :
    toBigInt (sign.text ++ (s ++ e.mark :: rest)) = none := by
  obtain ⟨c, s, rfl⟩ := List.exists_cons_of_ne_nil hne
  have hsigned := splitSign_append (s := (c :: s) ++ e.mark :: rest) sign fun d hd => by
    obtain rfl : c = d := Option.some.inj hd
    exact not_isSign_of_isDigit (hs c (List.mem_cons_self ..))
  refine toBigInt_eq_none ?_ (by simp) ?_ ?_
  · intro d hd
    simp only [List.mem_append, List.mem_cons] at hd
    rcases hd with hd | hd | rfl | hd
    · exact sign.not_isSpace d hd
    · exact not_isSpace_of_isDigit (by omega) (hs d (List.mem_cons.mpr hd))
    · exact e.not_isSpace_mark
    · exact hspace d hd
  -- read in base ten, the mark is no digit
  · rw [hsigned]
    exact ⟨e.mark, by simp, e.isDigit_mark⟩
  -- and it is the mark of no other base
  · cases sign with
    | plus => exact parseRadix_of_head fun d hd => by cases hd; decide
    | minus => exact parseRadix_of_head fun d hd => by cases hd; decide
    | none =>
        cases s with
        | nil => exact parseRadix_of_mark e.radixOf_mark
        | cons d s => exact parseRadix_of_mark (radixOf_of_isDigit (hs d (by simp)))

theorem Radix.base_pos (r : Radix) : 0 < r.base := by
  obtain ⟨c, rest, hdigits⟩ := List.exists_cons_of_ne_nil r.digits_ne_nil
  have hc := r.isDigit_digits c (by rw [hdigits]; exact List.mem_cons_self ..)
  rw [isDigit, decide_eq_true_eq] at hc
  omega

theorem Radix.base_le (r : Radix) : r.base ≤ 16 := by
  have h := r.radixOf_mark
  rw [radixOf] at h
  split_ifs at h <;> obtain h := Option.some.inj h <;> omega

theorem Radix.isDigit_mark (r : Radix) : isDigit 10 r.mark = false := by
  by_contra h
  rw [Bool.not_eq_false] at h
  cases (radixOf_of_isDigit h).symm.trans r.radixOf_mark

theorem Radix.not_isSpace_mark (r : Radix) : isSpace r.mark = false := by
  have h := r.radixOf_mark
  rw [radixOf] at h
  split_ifs at h with hx ho hb
  · rcases hx with hx | hx <;> rw [hx] <;> rfl
  · rcases ho with ho | ho <;> rw [ho] <;> rfl
  · rcases hb with hb | hb <;> rw [hb] <;> rfl

theorem parseRadix_of_text (r : Radix) : parseRadix r.text = some r := by
  rw [Radix.text, parseRadix.eq_def]
  dsimp only
  split
  · rename_i base hbase
    obtain rfl : r.base = base := Option.some.inj (r.radixOf_mark.symm.trans hbase)
    exact dif_pos ⟨rfl, List.all_eq_true.mpr r.isDigit_digits, r.digits_ne_nil⟩
  · rename_i hnone
    cases hnone.symm.trans r.radixOf_mark

theorem toBigInt_radix (r : Radix) : toBigInt r.text = some (numeral r.base r.digits : Int) := by
  have hspace : ∀ c ∈ r.text, isSpace c = false := by
    intro c hc
    rw [Radix.text, List.mem_cons, List.mem_cons] at hc
    rcases hc with rfl | rfl | hc
    · rfl
    · exact r.not_isSpace_mark
    · exact not_isSpace_of_isDigit r.base_le (r.isDigit_digits c hc)
  have hsigned : splitSign r.text = (.none, r.text) :=
    splitSign_append .none fun c hc => by cases hc; rfl
  have hdigits : ¬ (r.text ≠ [] ∧ r.text.all (isDigit 10) = true) := by
    rintro ⟨-, hall⟩
    have hmark := List.all_eq_true.mp hall r.mark (by simp [Radix.text])
    rw [r.isDigit_mark] at hmark
    cases hmark
  simp only [toBigInt, trim_eq_self hspace, hsigned, if_neg hdigits, parseRadix_of_text]
  rfl

theorem Decimal.not_isSpace_exponentText (m : Decimal) :
    ∀ c ∈ m.exponentText, isSpace c = false := by
  rw [Decimal.exponentText]
  cases m.exponent with
  | none => exact fun c hc => by cases hc
  | some e =>
      intro c hc
      rcases List.mem_cons.mp hc with rfl | hc
      · exact e.not_isSpace_mark
      · rcases List.mem_append.mp hc with hc | hc
        · exact e.sign.not_isSpace c hc
        · exact not_isSpace_of_isDigit (by omega) (e.isDigit_digits c hc)

/-- There is no space in a decimal. -/
theorem Decimal.trim_text (m : Decimal) : trim m.text = m.text := by
  refine trim_eq_self fun c hc => ?_
  simp only [Decimal.text, Decimal.unsigned, List.mem_append] at hc
  rcases hc with hc | hc | hc | hc
  · exact m.sign.not_isSpace c hc
  · exact not_isSpace_of_isDigit (by omega) (m.isDigit_whole c hc)
  · cases hfraction : m.fraction with
    | none =>
        rw [hfraction] at hc
        cases hc
    | some f =>
        rw [hfraction] at hc
        rcases List.mem_cons.mp hc with rfl | hc
        · rfl
        · have hdigit := m.isDigit_fraction c (by rw [hfraction]; exact hc)
          exact not_isSpace_of_isDigit (by omega) hdigit
  · exact m.not_isSpace_exponentText c hc

/-! ### Values -/

theorem Sign.truncate_apply (sign : Sign) {q : ℚ} (h : 0 ≤ q) :
    truncate (sign.apply q) = sign.apply ⌊q⌋ := by
  cases sign with
  | none => exact truncate_of_nonneg h
  | plus => exact truncate_of_nonneg h
  | minus => exact truncate_neg h

theorem Sign.apply_inj (sign : Sign) {a b : Int} : sign.apply a = sign.apply b ↔ a = b := by
  cases sign <;> simp [Sign.apply]

theorem Sign.apply_mul (sign : Sign) (a b : ℚ) : sign.apply a * b = sign.apply (a * b) := by
  cases sign <;> simp [Sign.apply]

theorem Decimal.mantissa_nonneg (m : Decimal) : 0 ≤ m.mantissa := by
  rw [Decimal.mantissa]
  positivity

/-- Two whole parts of a number moved up by some places are the same only if there is none. -/
theorem lt_one_of_floor_eq {a : ℚ} {k : Nat} (ha : 0 ≤ a) (hk : 0 < k)
    (h : ⌊a⌋ = ⌊a * 10 ^ k⌋) : a * 10 ^ k < 1 := by
  by_contra hge
  rw [not_lt] at hge
  have hten : a * 10 ≤ a * 10 ^ k := by
    refine mul_le_mul_of_nonneg_left ?_ ha
    calc (10 : ℚ) = 10 ^ 1 := (pow_one 10).symm
      _ ≤ 10 ^ k := pow_le_pow_right₀ (by norm_num) hk
  have hone : 1 ≤ ⌊a * 10 ^ k⌋ := Int.le_floor.mpr (by exact_mod_cast hge)
  have hfloor : 10 * ⌊a⌋ ≤ ⌊a * 10 ^ k⌋ := by
    refine Int.le_floor.mpr ?_
    push_cast
    calc 10 * (⌊a⌋ : ℚ) ≤ 10 * a := mul_le_mul_of_nonneg_left (Int.floor_le a) (by norm_num)
      _ = a * 10 := mul_comm ..
      _ ≤ a * 10 ^ k := hten
  omega

/-- Moving a number by some places leaves its whole part alone only if it has none before or
after. -/
theorem floor_shift_iff {a : ℚ} (ha : 0 ≤ a) (x : Int) :
    ⌊a⌋ = ⌊a * 10 ^ x⌋ ↔ x = 0 ∨ a < 1 ∧ a * 10 ^ x < 1 := by
  have hshift : 0 ≤ a * 10 ^ x := mul_nonneg ha (zpow_nonneg (by norm_num) x)
  constructor
  · intro h
    -- moved up by a place or more a whole part of one or more grows
    rcases lt_trichotomy x 0 with hneg | rfl | hpos
    · obtain ⟨k, rfl⟩ : ∃ k : Nat, x = -k := ⟨x.natAbs, by omega⟩
      have hten : (10 : ℚ) ^ k ≠ 0 := pow_ne_zero k (by norm_num)
      have hback : a * 10 ^ (-k : Int) * 10 ^ k = a := by
        rw [mul_assoc, zpow_neg, zpow_natCast, inv_mul_cancel₀ hten, mul_one]
      have hlt := lt_one_of_floor_eq (k := k) hshift (by omega) (by rw [hback, h])
      have hle : a * 10 ^ (-k : Int) ≤ a * 10 ^ (-k : Int) * 10 ^ k :=
        le_mul_of_one_le_right hshift (one_le_pow₀ (by norm_num))
      exact .inr ⟨hback ▸ hlt, hle.trans_lt hlt⟩
    · exact .inl rfl
    · obtain ⟨k, rfl⟩ : ∃ k : Nat, x = k := ⟨x.natAbs, by omega⟩
      rw [zpow_natCast] at h ⊢
      have hlt := lt_one_of_floor_eq ha (by omega) h
      have hle : a ≤ a * 10 ^ k := le_mul_of_one_le_right ha (one_le_pow₀ (by norm_num))
      exact .inr ⟨hle.trans_lt hlt, hlt⟩
  · rintro (rfl | ⟨hlt, hlt'⟩)
    · rw [zpow_zero, mul_one]
    · rw [Int.floor_eq_zero_iff.mpr ⟨ha, hlt⟩, Int.floor_eq_zero_iff.mpr ⟨hshift, hlt'⟩]

/-! ### Writing a number -/

/-- How a number from `10 ^ 21` on is written: digits and a positive exponent. -/
structure Scientific where
  lead : CodeUnit
  rest : JsString
  exponent : Nat
  isDigit_digits : ∀ c ∈ lead :: rest, isDigit 10 c = true
  exponent_ge : 21 ≤ exponent

def Scientific.text (s : Scientific) : JsString :=
  s.lead :: ((if s.rest = [] then [] else unit '.' :: s.rest) ++ (js "e+" ++ decimal s.exponent))

/-- A whole number of the last of so many decimals, with the point in its place. -/
def fixed (n digits : Nat) : JsString :=
  if digits = 0 then decimal n
  else
    let m := padStart (decimal n) (digits + 1) (digit 0)
    m.take (m.length - digits) ++ unit '.' :: m.drop (m.length - digits)

/-- `n.toFixed(digits)`, which throws for more than a hundred digits; `toString` writes the
numbers from `10 ^ 21` on. -/
def toFixed (toString : ℚ → Scientific) (n : Number) (digits : Nat) : Option JsString :=
  if 100 < digits then none
  else
    match n with
    | .finite q =>
        let m := if |q| < 10 ^ 21 then fixed (round (|q| * 10 ^ digits)).toNat digits
          else (toString |q|).text
        some ((if q < 0 then [unit '-'] else []) ++ m)
    | .infinite negative => some ((if negative then [unit '-'] else []) ++ js "Infinity")
    | .nan => some (js "NaN")

/-- What is written with a point is a decimal. -/
def fixedDecimal (sign : Sign) (n digits : Nat) : Decimal :=
  let m := padStart (decimal n) (digits + 1) (digit 0)
  have hm : ∀ c ∈ m, isDigit 10 c = true := isDigit_padStart (isDigit_decimal n) _
  { sign := sign
    whole := m.take (m.length - digits)
    fraction := if digits = 0 then none else some (m.drop (m.length - digits))
    exponent := none
    isDigit_whole := fun c hc => hm c (List.mem_of_mem_take hc)
    isDigit_fraction := fun c hc => by
      split at hc
      · cases hc
      · exact hm c (List.mem_of_mem_drop hc)
    some_digit := .inl fun hnil => by
      have hlength : digits + 1 ≤ m.length := le_length_padStart ..
      have htake := congrArg List.length hnil
      rw [List.length_take, List.length_nil] at htake
      omega }

theorem fixedDecimal_text (sign : Sign) (n digits : Nat) :
    (fixedDecimal sign n digits).text = sign.text ++ fixed n digits := by
  by_cases hzero : digits = 0
  · subst hzero
    have hpad : padStart (decimal n) 1 (digit 0) = decimal n := by
      have hlength := List.length_pos_of_ne_nil (decimal_ne_nil n)
      rw [padStart, Nat.sub_eq_zero_of_le hlength]
      rfl
    simp [Decimal.text, Decimal.unsigned, Decimal.exponentText, fixedDecimal, fixed, pointed, hpad]
  · simp [Decimal.text, Decimal.unsigned, Decimal.exponentText, fixedDecimal, fixed, pointed,
      hzero]

/-- A decimal with the digits and the exponent of a large number. -/
def Scientific.decimal (s : Scientific) (sign : Sign) : Decimal where
  sign := sign
  whole := [s.lead]
  fraction := if s.rest = [] then none else some s.rest
  exponent := some
    { mark := unit 'e'
      sign := .plus
      digits := Lib.decimal s.exponent
      mark_eq := .inl rfl
      isDigit_digits := isDigit_decimal s.exponent
      digits_ne_nil := decimal_ne_nil s.exponent }
  isDigit_whole c hc := s.isDigit_digits c (List.mem_cons.mpr (.inl (List.mem_singleton.mp hc)))
  isDigit_fraction c hc := by
    split at hc
    · cases hc
    · exact s.isDigit_digits c (List.mem_cons_of_mem _ hc)
  some_digit := .inl (List.cons_ne_nil _ _)

theorem Scientific.decimal_text (s : Scientific) (sign : Sign) :
    (s.decimal sign).text = sign.text ++ s.text := by
  by_cases hrest : s.rest = []
  · simp [Decimal.text, Decimal.unsigned, Decimal.exponentText, Exponent.text, Scientific.decimal,
      Scientific.text, pointed, hrest, Sign.text, js]
  · simp [Decimal.text, Decimal.unsigned, Decimal.exponentText, Exponent.text, Scientific.decimal,
      Scientific.text, pointed, hrest, Sign.text, js]

end NumberText

end Lib
