import LemonMarket.Lib.NumberText

/-!
# LemonMarket.Core.Units

**Human amounts and base units** (`units.ts`). `fromBaseUnits` writes a number of base units as a
decimal, and `toBaseUnits` reads an amount back: what `Number` makes something of, it cuts at the
point, and hands the digits of both sides to `BigInt`.

A text that passes the guard is the text of a `Literal`, and what the conversion does is a matter
of the literal's parts. The plain decimals come out as they should. What `Number` accepts besides
does not: an exponent is cut off with the excess digits or stops `BigInt`, the zeros appended to
digits of another radix are of that radix, and `Infinity` has no digits. A number comes as the
text of `toFixed`, which rounds.
-/

namespace LemonMarket

namespace Core

open Lib NumberText

/-! ### The conversions -/

/-- What `toBaseUnits` is given. -/
inductive Amount
  | text (s : JsString)
  | number (n : Number)

section

-- `Number.prototype.toString`, of the numbers from `10 ^ 21` on
variable (toString : ℚ → Scientific)

/-- The text of an amount. -/
def rawText (amount : Amount) (decimals : Nat) : Option JsString :=
  match amount with
  | .text s => some (trim s)
  | .number n => toFixed toString n decimals

/-- The conversion of a text without space around it. -/
def convert (raw : JsString) (decimals : Nat) : Option Int :=
  if raw = [] ∨ raw = js "." ∨ (parseNumber raw).isNone then some 0
  else
    let negative := raw.head? = some (unit '-')
    let unsigned := if negative then raw.drop 1 else raw
    let parts := unsigned.splitOn (unit '.')
    let whole := parts[0]?.getD (js "0")
    let fraction := parts[1]?.getD []
    let padded := padEnd (fraction.take decimals) decimals (digit 0)
    (toBigInt ((if whole = [] then js "0" else whole) ++ padded)).map fun value =>
      if negative then -value else value

/-- Convert a human amount to base units, truncating excess precision. -/
def toBaseUnits (amount : Amount) (decimals : Nat) : Option Int :=
  (rawText toString amount decimals).bind fun raw => convert raw decimals

end

/-- What `fromBaseUnits` is given. -/
inductive Units
  | bigint (value : Int)
  | text (s : JsString)

def Units.raw : Units → Option Int
  | bigint value => some value
  | text s => toBigInt s

/-- Convert base units back to a human decimal string. -/
def fromBaseUnits (value : Units) (decimals : Nat) : Option JsString :=
  value.raw.map fun raw =>
    let negative := raw < 0
    let abs := raw.natAbs
    let divisor := 10 ^ decimals
    let whole := decimal (abs / divisor)
    let fraction :=
      (padStart (decimal (abs % divisor)) decimals (digit 0)).rdropWhile (· = digit 0)
    let text := if fraction = [] then whole else whole ++ unit '.' :: fraction
    if negative then unit '-' :: text else text

/-! ### What the conversion makes of a decimal -/

/-- What is left of a sign when a minus has been cut off. -/
def kept : Sign → Sign
  | .plus => .plus
  | _ => .none

/-- The digits before the point, as they are handed on: a zero where there is nothing. -/
def wholeDigits (m : Decimal) : JsString :=
  if m.sign ≠ .plus ∧ m.whole = [] then js "0" else m.whole

/-- The digits of both sides, up to the last decimal wanted. -/
def scaled (m : Decimal) (decimals : Nat) : JsString :=
  m.whole ++ padEnd ((m.fraction.getD []).take decimals) decimals (digit 0)

/-- `BigInt` can read what it is handed: not a plus alone, and the mark of an exponent only if it
comes after the last decimal wanted. -/
def Readable (m : Decimal) (decimals : Nat) : Prop :=
  ¬ (m.sign = .plus ∧ m.whole = [] ∧ decimals = 0) ∧
    (m.exponent.isSome = true →
      m.fraction.isSome = true ∧ decimals ≤ (m.fraction.getD []).length)

instance (m : Decimal) (decimals : Nat) : Decidable (Readable m decimals) :=
  inferInstanceAs (Decidable (_ ∧ _))

section Decimal

variable (m : Decimal) {d : Nat} {p : JsString}

theorem negative_iff : m.text.head? = some (unit '-') ↔ m.sign = .minus := by
  rw [Decimal.text]
  cases hsign : m.sign with
  | minus => exact iff_of_true rfl rfl
  | plus => exact iff_of_false (fun hhead => by cases hhead) (by decide)
  | none =>
      refine iff_of_false (fun hhead => ?_) (by decide)
      have hno := m.head_unsigned (unit '-') hhead
      cases hno

/-- The text with a minus cut off. -/
theorem drop_minus : (if m.sign = .minus then m.text.drop 1 else m.text) =
    (kept m.sign).text ++ m.unsigned := by
  rw [Decimal.text]
  cases m.sign <;> rfl

theorem point_not_mem_of_isDigit {s : JsString} (h : ∀ c ∈ s, isDigit 10 c = true) :
    unit '.' ∉ s := fun hmem => by cases h _ hmem

theorem point_not_mem_sign (sign : Sign) : unit '.' ∉ sign.text := by
  cases sign <;> decide

theorem point_not_mem_exponent : unit '.' ∉ m.exponentText := by
  rw [Decimal.exponentText]
  cases m.exponent with
  | none => exact List.not_mem_nil
  | some e =>
      intro hmem
      rcases List.mem_cons.mp hmem with hmem | hmem
      · exact e.mark_ne_point hmem.symm
      · rcases List.mem_append.mp hmem with hmem | hmem
        · exact point_not_mem_sign e.sign hmem
        · exact point_not_mem_of_isDigit e.isDigit_digits hmem

/-- Without a point there is one part. -/
theorem splitOn_of_none (hfraction : m.fraction = none) :
    ((kept m.sign).text ++ m.unsigned).splitOn (unit '.') =
      [(kept m.sign).text ++ (m.whole ++ m.exponentText)] := by
  rw [Decimal.unsigned, hfraction, pointed, List.nil_append]
  refine List.splitOn_eq_singleton ?_
  simp only [List.mem_append, not_or]
  exact ⟨point_not_mem_sign _, point_not_mem_of_isDigit m.isDigit_whole, point_not_mem_exponent m⟩

/-- With a point there are two. -/
theorem splitOn_of_some {f : JsString} (hfraction : m.fraction = some f) :
    ((kept m.sign).text ++ m.unsigned).splitOn (unit '.') =
      [(kept m.sign).text ++ m.whole, f ++ m.exponentText] := by
  have hdigits : ∀ c ∈ f, isDigit 10 c = true := fun c hc =>
    m.isDigit_fraction c (by rw [hfraction]; exact hc)
  have hbefore : unit '.' ∉ (kept m.sign).text ++ m.whole := by
    rw [List.mem_append, not_or]
    exact ⟨point_not_mem_sign _, point_not_mem_of_isDigit m.isDigit_whole⟩
  have hafter : unit '.' ∉ f ++ m.exponentText := by
    rw [List.mem_append, not_or]
    exact ⟨point_not_mem_of_isDigit hdigits, point_not_mem_exponent m⟩
  rw [Decimal.unsigned, hfraction, pointed, List.cons_append, ← List.append_assoc,
    List.splitOn_append_cons_of_beq _ _ (beq_self_eq_true _), List.splitOn_eq_singleton hbefore,
    List.splitOn_eq_singleton hafter]
  rfl

/-- What the digits before the point come to, with a plus still in front. -/
theorem whole_or_zero :
    (if (kept m.sign).text ++ m.whole = [] then js "0" else (kept m.sign).text ++ m.whole) =
      (kept m.sign).text ++ wholeDigits m := by
  rw [wholeDigits]
  cases m.sign <;> by_cases hwhole : m.whole = [] <;> simp [hwhole, kept, Sign.text]

/-- What passes the guard is cut at the point, and a minus put back at the end. -/
theorem convert_of_split {raw unsigned : JsString} {parts : List JsString}
    (hguard : ¬ (raw = [] ∨ raw = js "." ∨ (parseNumber raw).isNone = true))
    (hunsigned : (if raw.head? = some (unit '-') then raw.drop 1 else raw) = unsigned)
    (hparts : unsigned.splitOn (unit '.') = parts) :
    convert raw d =
      (toBigInt ((if parts[0]?.getD (js "0") = [] then js "0" else parts[0]?.getD (js "0")) ++
        padEnd ((parts[1]?.getD []).take d) d (digit 0))).map
          fun n => if raw.head? = some (unit '-') then -n else n := by
  simp only [convert, if_neg hguard, hunsigned, hparts]

/-- A decimal passes the guard. -/
theorem convert_of_parts {parts : List JsString}
    (hparts : ((kept m.sign).text ++ m.unsigned).splitOn (unit '.') = parts) :
    convert m.text d =
      (toBigInt ((if parts[0]?.getD (js "0") = [] then js "0" else parts[0]?.getD (js "0")) ++
        padEnd ((parts[1]?.getD []).take d) d (digit 0))).map m.sign.apply := by
  have hguard : ¬ (m.text = [] ∨ m.text = js "." ∨ (parseNumber m.text).isNone = true) := by
    rw [m.parseNumber_of_text]
    rintro (hnil | hpoint | hnone)
    · exact m.text_ne_nil hnil
    · have hread := m.parseNumber_of_text
      rw [hpoint] at hread
      cases hread
    · cases hnone
  have hsign : m.sign.apply = fun n : Int => if m.sign = .minus then -n else n := by
    funext n
    cases m.sign <;> rfl
  have hunsigned : (if m.text.head? = some (unit '-') then m.text.drop 1 else m.text) =
      (kept m.sign).text ++ m.unsigned := by
    simp only [negative_iff, drop_minus]
  rw [convert_of_split hguard hunsigned hparts, hsign]
  simp only [negative_iff]

theorem whole_ne_nil (hfraction : m.fraction = none) : m.whole ≠ [] := by
  refine m.some_digit.resolve_right fun h => ?_
  rw [hfraction] at h
  exact h rfl

theorem convert_of_none (hfraction : m.fraction = none) :
    convert m.text d =
      (toBigInt ((kept m.sign).text ++ (m.whole ++ m.exponentText) ++
        padEnd [] d (digit 0))).map m.sign.apply := by
  have hne : (kept m.sign).text ++ (m.whole ++ m.exponentText) ≠ [] := by
    simp [whole_ne_nil m hfraction]
  rw [convert_of_parts m (splitOn_of_none m hfraction)]
  simp only [List.getElem?_cons_zero, Option.getD_some, if_neg hne]
  rw [List.getElem?_eq_none (by simp), Option.getD_none, List.take_nil]

theorem convert_of_some {f : JsString} (hfraction : m.fraction = some f) :
    convert m.text d =
      (toBigInt ((kept m.sign).text ++ wholeDigits m ++
        padEnd ((f ++ m.exponentText).take d) d (digit 0))).map m.sign.apply := by
  rw [convert_of_parts m (splitOn_of_some m hfraction), ← whole_or_zero]
  rfl

theorem isDigit_wholeDigits : ∀ c ∈ wholeDigits m, isDigit 10 c = true := by
  rw [wholeDigits]
  split
  · exact fun c hc => List.mem_singleton.mp hc ▸ rfl
  · exact m.isDigit_whole

theorem numeral_wholeDigits (p : JsString) :
    numeral 10 (wholeDigits m ++ p) = numeral 10 (m.whole ++ p) := by
  rw [wholeDigits]
  split
  · rename_i hnone
    have hzero : numeral 10 (js "0") = 0 := rfl
    rw [hnone.2, List.nil_append, numeral_append, hzero, Nat.zero_mul, Nat.zero_add]
  · rfl

/-- Digits after the digits before the point are read, but for a plus alone. -/
theorem toBigInt_wholeDigits (hp : ∀ c ∈ p, isDigit 10 c = true) :
    toBigInt ((kept m.sign).text ++ wholeDigits m ++ p) =
      if m.sign = .plus ∧ m.whole = [] ∧ p = [] then none
      else some (numeral 10 (m.whole ++ p) : Int) := by
  split
  · rename_i hplus
    obtain ⟨hsign, hwhole, rfl⟩ := hplus
    simp only [wholeDigits, hsign, hwhole]
    decide
  · rename_i hplus
    have hdigits : ∀ c ∈ wholeDigits m ++ p, isDigit 10 c = true :=
      List.forall_mem_append.mpr ⟨isDigit_wholeDigits m, hp⟩
    have hne : wholeDigits m ++ p ≠ [] := by
      intro hnil
      obtain ⟨hwhole, rfl⟩ := List.append_eq_nil_iff.mp hnil
      rw [wholeDigits] at hwhole
      split at hwhole
      · cases hwhole
      · rename_i hsign
        -- with no digits before the point a zero stands there, unless there is a plus
        rw [not_and', not_ne_iff] at hsign
        exact hplus ⟨hsign hwhole, hwhole, rfl⟩
    rw [List.append_assoc, toBigInt_digits _ hdigits hne, numeral_wholeDigits]
    cases m.sign <;> rfl

theorem isDigit_padEnd {s : JsString} (h : ∀ c ∈ s, isDigit 10 c = true) (d : Nat) :
    ∀ c ∈ padEnd (s.take d) d (digit 0), isDigit 10 c = true :=
  List.forall_mem_append.mpr ⟨fun c hc => h c (List.mem_of_mem_take hc),
    fun _ hc => List.eq_of_mem_replicate hc ▸ rfl⟩

theorem length_padEnd (s : JsString) (d : Nat) : (padEnd (s.take d) d (digit 0)).length = d := by
  simp only [padEnd, List.length_append, List.length_replicate, List.length_take]
  omega

/-- The fraction is cut to its digits where no exponent follows, or none within reach. -/
theorem take_fraction {f : JsString} (h : m.exponent.isSome = true → d ≤ f.length) :
    (f ++ m.exponentText).take d = f.take d := by
  cases hexponent : m.exponent with
  | none => rw [Decimal.exponentText, hexponent, Option.map_none, Option.getD_none, List.append_nil]
  | some e => exact List.take_append_of_le_length (h (by rw [hexponent]; rfl))

/-- What can be read comes out as the digits up to the last decimal wanted. -/
theorem convert_of_readable (h : Readable m d) :
    convert m.text d = some (m.sign.apply (numeral 10 (scaled m d) : Int)) := by
  obtain ⟨hplus, hexponent⟩ := h
  have hread : toBigInt ((kept m.sign).text ++ wholeDigits m ++
      padEnd ((m.fraction.getD []).take d) d (digit 0)) =
        some (numeral 10 (scaled m d) : Int) := by
    rw [toBigInt_wholeDigits m (isDigit_padEnd m.isDigit_fraction d), if_neg]
    · rfl
    · rintro ⟨hs, hw, hp⟩
      have hlength := length_padEnd (m.fraction.getD []) d
      rw [hp] at hlength
      exact hplus ⟨hs, hw, hlength.symm⟩
  cases hfraction : m.fraction with
  | none =>
      -- without a point there is room for no exponent
      have hnone : m.exponentText = [] := by
        rw [Decimal.exponentText]
        cases he : m.exponent with
        | none => rfl
        | some e =>
            have hsome := (hexponent (by rw [he]; rfl)).1
            rw [hfraction] at hsome
            cases hsome
      have hwhole : wholeDigits m = m.whole := if_neg fun h => whole_ne_nil m hfraction h.2
      rw [hfraction, hwhole, Option.getD_none, List.take_nil] at hread
      rw [convert_of_none m hfraction, hnone, List.append_nil]
      exact congrArg (Option.map m.sign.apply) hread
  | some f =>
      have htake := take_fraction m (d := d) (f := f) fun he => by
        simpa [hfraction] using (hexponent he).2
      rw [hfraction] at hread
      rw [convert_of_some m hfraction, htake]
      exact congrArg (Option.map m.sign.apply) hread

theorem not_isSpace_zeros (k : Nat) : ∀ c ∈ List.replicate k (digit 0), isSpace c = false :=
  fun _ hc => List.eq_of_mem_replicate hc ▸ rfl

/-- After a point there is something to hand on, be it the zero in front of it. -/
theorem wholeDigits_append_ne_nil {f : JsString} (hfraction : m.fraction = some f) :
    wholeDigits m ++ f ≠ [] := by
  intro hnil
  obtain ⟨hwhole, rfl⟩ := List.append_eq_nil_iff.mp hnil
  rw [wholeDigits] at hwhole
  split at hwhole
  · cases hwhole
  · exact m.some_digit.elim (absurd hwhole) fun h => h (by rw [hfraction]; rfl)

/-- A fraction shorter than the decimals wanted is handed on with the exponent's mark. -/
theorem take_fraction_exponent {f : JsString} {e : Exponent} (he : m.exponent = some e)
    (hlt : f.length < d) : ∃ k, (f ++ m.exponentText).take d =
      f ++ e.mark :: (e.sign.text ++ e.digits).take k := by
  obtain ⟨k, rfl⟩ := Nat.exists_eq_add_of_lt hlt
  refine ⟨k, ?_⟩
  rw [Decimal.exponentText, he, Nat.add_assoc, List.take_length_add_append]
  rfl

/-- A mark of an exponent among the digits stops `BigInt`. -/
theorem convert_of_exponent {e : Exponent} (he : m.exponent = some e)
    (hreach : m.fraction.isSome = true → (m.fraction.getD []).length < d) :
    convert m.text d = none := by
  have htext : m.exponentText = e.text := by rw [Decimal.exponentText, he]; rfl
  have hspace : ∀ c ∈ e.sign.text ++ e.digits, isSpace c = false := fun c hc =>
    m.not_isSpace_exponentText c (htext ▸ List.mem_cons_of_mem _ hc)
  -- the mark is in what is put before the point, or among the digits that are kept after it
  cases hfraction : m.fraction with
  | none =>
      have hjoined : (kept m.sign).text ++ (m.whole ++ m.exponentText) ++ padEnd [] d (digit 0) =
          (kept m.sign).text ++ (m.whole ++ e.mark ::
            (e.sign.text ++ e.digits ++ padEnd [] d (digit 0))) := by
        simp [htext, Exponent.text]
      rw [convert_of_none m hfraction, hjoined,
        toBigInt_exponent _ e m.isDigit_whole (whole_ne_nil m hfraction), Option.map_none]
      exact List.forall_mem_append.mpr ⟨hspace, not_isSpace_zeros _⟩
  | some f =>
      rw [hfraction] at hreach
      have hlt : f.length < d := hreach rfl
      obtain ⟨k, htake⟩ := take_fraction_exponent m he hlt
      have hdigits : ∀ c ∈ wholeDigits m ++ f, isDigit 10 c = true :=
        List.forall_mem_append.mpr ⟨isDigit_wholeDigits m, fun c hc =>
          m.isDigit_fraction c (by rw [hfraction]; exact hc)⟩
      have hjoined : (kept m.sign).text ++ wholeDigits m ++ padEnd
          (f ++ e.mark :: (e.sign.text ++ e.digits).take k) d (digit 0) =
            (kept m.sign).text ++ ((wholeDigits m ++ f) ++ e.mark ::
              ((e.sign.text ++ e.digits).take k ++ List.replicate (d -
                (f ++ e.mark :: (e.sign.text ++ e.digits).take k).length) (digit 0))) := by
        simp only [padEnd, List.append_assoc, List.cons_append]
      rw [convert_of_some m hfraction, htake, hjoined,
        toBigInt_exponent _ e hdigits (wholeDigits_append_ne_nil m hfraction), Option.map_none]
      exact List.forall_mem_append.mpr ⟨fun c hc => hspace c (List.mem_of_mem_take hc),
        not_isSpace_zeros _⟩

/-- What cannot be read throws. -/
theorem convert_of_not_readable (h : ¬ Readable m d) : convert m.text d = none := by
  by_cases hplus : m.sign = .plus ∧ m.whole = [] ∧ d = 0
  · obtain ⟨hsign, hwhole, rfl⟩ := hplus
    have hf := m.some_digit.resolve_left (not_not_intro hwhole)
    cases hfraction : m.fraction with
    | none => exact absurd (by rw [hfraction]; rfl) hf
    | some f =>
        have hread := toBigInt_wholeDigits m (p := []) fun c hc => by cases hc
        rw [if_pos ⟨hsign, hwhole, rfl⟩] at hread
        rw [convert_of_some m hfraction, List.take_zero]
        exact congrArg (Option.map m.sign.apply) hread
  · have hexponent := not_and.mp h hplus
    rw [Classical.not_imp, not_and, Nat.not_le] at hexponent
    obtain ⟨e, he⟩ := Option.isSome_iff_exists.mp hexponent.1
    exact convert_of_exponent m he hexponent.2

/-- What is cut off after the last decimal wanted is worth less than one. -/
theorem floor_cut {n r k : Nat} (h : r < 10 ^ k) (d : Nat) :
    ⌊((n * 10 ^ k + r : Nat) : ℚ) / 10 ^ (d + k) * 10 ^ d⌋ = n := by
  have hvalue : ((n * 10 ^ k + r : Nat) : ℚ) / 10 ^ (d + k) * 10 ^ d = n + r / 10 ^ k := by
    push_cast
    rw [pow_add]
    field_simp
  have hr : (r : ℚ) / 10 ^ k < 1 := by
    rw [div_lt_one (by positivity)]
    exact_mod_cast h
  have hr' : 0 ≤ (r : ℚ) / 10 ^ k := by positivity
  rw [hvalue, Int.floor_eq_iff]
  push_cast
  exact ⟨by linarith, by linarith⟩

/-- Up to as many decimals as wanted, nothing is cut off. -/
theorem floor_padded (n k d : Nat) :
    ⌊(n : ℚ) / 10 ^ d * 10 ^ (d + k)⌋ = (n * 10 ^ k : Nat) := by
  have hvalue : (n : ℚ) / 10 ^ d * 10 ^ (d + k) = ((n * 10 ^ k : Nat) : Int) := by
    push_cast
    rw [pow_add]
    field_simp
  rw [hvalue, Int.floor_intCast]

/-- With room for the whole fraction the digits are all there, with zeros behind them. -/
theorem numeral_scaled_of_le (h : (m.fraction.getD []).length ≤ d) : numeral 10 (scaled m d) =
    numeral 10 (m.whole ++ m.fraction.getD []) * 10 ^ (d - (m.fraction.getD []).length) := by
  rw [scaled, padEnd, List.take_of_length_le h, ← List.append_assoc, numeral_append_zeros]

/-- The digits up to the last decimal wanted are the mantissa moved up and cut. -/
theorem numeral_scaled (d : Nat) : (numeral 10 (scaled m d) : Int) = ⌊m.mantissa * 10 ^ d⌋ := by
  obtain ⟨f, hf⟩ : ∃ f, m.fraction.getD [] = f := ⟨_, rfl⟩
  have hdigits : ∀ c ∈ f, isDigit 10 c = true := hf ▸ m.isDigit_fraction
  rw [Decimal.mantissa, hf, eq_comm]
  -- more digits than wanted are cut, fewer are padded
  rcases Nat.le_total d f.length with hle | hle
  · have hpad : padEnd (f.take d) d (digit 0) = f.take d := by
      rw [padEnd, List.length_take_of_le hle, Nat.sub_self]
      exact List.append_nil _
    have hlt := numeral_lt (s := f.drop d) fun c hc => hdigits c (List.mem_of_mem_drop hc)
    have hsplit : numeral 10 (m.whole ++ f) =
        numeral 10 (m.whole ++ f.take d) * 10 ^ (f.drop d).length + numeral 10 (f.drop d) := by
      rw [← numeral_append, List.append_assoc, List.take_append_drop]
    have hlength : f.length = d + (f.drop d).length := by
      rw [List.length_drop]
      omega
    rw [scaled, hf, hpad, hsplit, hlength]
    exact floor_cut hlt d
  · rw [numeral_scaled_of_le m (hf ▸ hle), hf]
    obtain ⟨k, rfl⟩ := Nat.exists_eq_add_of_le hle
    rw [Nat.add_sub_cancel_left]
    exact floor_padded ..

/-- A decimal is converted as it should be if it can be read and its exponent does not matter. -/
theorem convert_decimal_iff :
    convert m.text d = some (truncate (m.value * 10 ^ d)) ↔
      Readable m d ∧ (m.exponentValue = 0 ∨
        m.mantissa * 10 ^ d < 1 ∧ m.mantissa * 10 ^ d * 10 ^ m.exponentValue < 1) := by
  by_cases hread : Readable m d
  · have hpos : (0 : ℚ) ≤ 10 ^ m.exponentValue := zpow_nonneg (by norm_num) _
    have hscaled : 0 ≤ m.mantissa * 10 ^ d := mul_nonneg m.mantissa_nonneg (by positivity)
    have hvalue : m.value * 10 ^ d =
        m.sign.apply (m.mantissa * 10 ^ d * 10 ^ m.exponentValue) := by
      rw [Decimal.value, Sign.apply_mul, mul_right_comm]
    rw [convert_of_readable m hread, hvalue, Sign.truncate_apply _ (mul_nonneg hscaled hpos),
      Option.some.injEq, Sign.apply_inj, numeral_scaled, floor_shift_iff hscaled]
    exact (and_iff_right hread).symm
  · rw [convert_of_not_readable m hread]
    exact iff_of_false (fun h => by cases h) fun h => hread h.1

end Decimal

/-! ### Numbers and the other literals -/

theorem readable_fixedDecimal {sign : Sign} (hsign : sign ≠ .plus) (n d : Nat) :
    Readable (fixedDecimal sign n d) d :=
  ⟨fun h => hsign h.1, fun h => by cases h⟩

theorem numeral_scaled_fixedDecimal (sign : Sign) (n d : Nat) :
    numeral 10 (scaled (fixedDecimal sign n d) d) = n := by
  obtain ⟨m, hm⟩ : ∃ m, padStart (decimal n) (d + 1) (digit 0) = m := ⟨_, rfl⟩
  have hlength : d + 1 ≤ m.length := hm ▸ le_length_padStart ..
  have hdigits : scaled (fixedDecimal sign n d) d = m := by
    rw [scaled]
    simp only [fixedDecimal, hm]
    by_cases hzero : d = 0
    · simp [hzero, padEnd]
    · have hdrop : (m.drop (m.length - d)).length = d := by
        rw [List.length_drop]
        omega
      rw [if_neg hzero, Option.getD_some, List.take_of_length_le hdrop.le, padEnd, hdrop,
        Nat.sub_self, List.replicate_zero, List.append_nil, List.take_append_drop]
  rw [hdigits, ← hm, numeral_padStart, numeral_decimal]

/-- The sign of a number. -/
def signOf (q : ℚ) : Sign := if q < 0 then .minus else .none

theorem signOf_ne_plus (q : ℚ) : signOf q ≠ .plus := by
  rw [signOf]
  split <;> decide

theorem truncate_signOf (q : ℚ) {a : ℚ} (ha : 0 ≤ a) :
    truncate (q * a) = (signOf q).apply ⌊|q| * a⌋ := by
  have hq : q * a = (signOf q).apply (|q| * a) := by
    by_cases h : q < 0
    · rw [signOf, if_pos h, abs_of_neg h, Sign.apply]
      ring
    · rw [signOf, if_neg h, abs_of_nonneg (not_lt.mp h)]
      rfl
  rw [hq, Sign.truncate_apply _ (mul_nonneg (abs_nonneg q) ha)]

/-- A large number keeps no more than the digits in front of its exponent. -/
theorem numeral_scaled_scientific (s : Scientific) (sign : Sign) (d : Nat) :
    numeral 10 (scaled (s.decimal sign) d) < 10 ^ (d + 1) := by
  have hdigits : ∀ c ∈ scaled (s.decimal sign) d, isDigit 10 c = true :=
    List.forall_mem_append.mpr ⟨(s.decimal sign).isDigit_whole,
      isDigit_padEnd (s.decimal sign).isDigit_fraction d⟩
  have hlength : (scaled (s.decimal sign) d).length = d + 1 := by
    rw [scaled, List.length_append, length_padEnd]
    exact Nat.add_comm 1 d
  exact hlength ▸ numeral_lt hdigits

/-- Of a large number too much is cut off, if it does not throw. -/
theorem convert_scientific_ne (s : Scientific) (sign : Sign) {q : ℚ} (hlarge : 10 ^ 21 ≤ q)
    (d : Nat) : convert (s.decimal sign).text d ≠ some (sign.apply ⌊q * 10 ^ d⌋) := by
  intro hconvert
  by_cases hread : Readable (s.decimal sign) d
  · rw [convert_of_readable _ hread, Option.some.injEq] at hconvert
    have heq := (Sign.apply_inj _).mp hconvert
    have hlt := numeral_scaled_scientific s sign d
    have hfloor : (10 ^ (d + 1) : Int) ≤ ⌊q * 10 ^ d⌋ := by
      refine Int.le_floor.mpr ?_
      push_cast
      calc (10 : ℚ) ^ (d + 1) = 10 * 10 ^ d := pow_succ' 10 d
        _ ≤ q * 10 ^ d := by
            refine mul_le_mul_of_nonneg_right ?_ (by positivity)
            linarith
    rw [← heq] at hfloor
    exact absurd hlt (not_lt.mpr (by exact_mod_cast hfloor))
  · rw [convert_of_not_readable _ hread] at hconvert
    cases hconvert

/-- A number is converted as it should be unless `toFixed` throws, rounds up or leaves the
decimals for an exponent. -/
theorem toBaseUnits_number_iff (toString : ℚ → Scientific) (q : ℚ) (d : Nat) :
    toBaseUnits toString (.number (.finite q)) d = some (truncate (q * 10 ^ d)) ↔
      d ≤ 100 ∧ |q| < 10 ^ 21 ∧ Int.fract (|q| * 10 ^ d) < 1 / 2 := by
  have htruncate := truncate_signOf q (a := 10 ^ d) (by positivity)
  have hminus : (if q < 0 then [unit '-'] else []) = (signOf q).text := by
    rw [signOf]
    split <;> rfl
  rw [toBaseUnits, rawText, toFixed]
  by_cases hd : 100 < d
  · rw [if_pos hd]
    exact iff_of_false (fun h => by cases h) fun h => absurd h.1 (by omega)
  · rw [if_neg hd, Option.bind_some, hminus, htruncate]
    -- from 10^21 `toFixed` writes an exponent, which is not read
    by_cases hlarge : |q| < 10 ^ 21
    · have hround : 0 ≤ round (|q| * 10 ^ d) :=
        round_nonneg (mul_nonneg (abs_nonneg q) (by positivity))
      have hread : Readable (fixedDecimal (signOf q) (round (|q| * 10 ^ d)).toNat d) d :=
        readable_fixedDecimal (signOf_ne_plus q) _ d
      simp only [if_pos hlarge]
      rw [← fixedDecimal_text, convert_of_readable _ hread, numeral_scaled_fixedDecimal,
        Int.toNat_of_nonneg hround, Option.some.injEq]
      refine (Sign.apply_inj _).trans (round_eq_floor_iff.trans ?_)
      exact ⟨fun h => ⟨by omega, hlarge, h⟩, fun h => h.2.2⟩
    · refine iff_of_false (fun hconvert => ?_) fun h => hlarge h.2.1
      simp only [if_neg hlarge] at hconvert
      rw [← Scientific.decimal_text] at hconvert
      exact convert_scientific_ne _ _ (not_lt.mp hlarge) d hconvert

/-- Digits of a radix with zeros after them. -/
def shifted (r : Radix) (zeros : Nat) : Radix :=
  { r with
    digits := r.digits ++ List.replicate zeros (digit 0)
    isDigit_digits := List.forall_mem_append.mpr
      ⟨r.isDigit_digits, fun _ hc => List.eq_of_mem_replicate hc ▸ decide_eq_true r.base_pos⟩
    digits_ne_nil := List.append_ne_nil_of_left_ne_nil r.digits_ne_nil _ }

theorem numeral_shifted (r : Radix) (d : Nat) :
    numeral r.base (shifted r d).digits = numeral r.base r.digits * r.base ^ d := by
  rw [shifted, numeral_append_zeros]

theorem point_not_mem_radix (r : Radix) : unit '.' ∉ r.text := by
  rw [Radix.text, List.mem_cons, List.mem_cons, not_or, not_or]
  refine ⟨by decide, fun hmark => ?_, fun hmem => ?_⟩
  · have hnone := r.radixOf_mark
    rw [← hmark] at hnone
    cases hnone
  · have hdigit := r.isDigit_digits _ hmem
    rw [isDigit, decide_eq_true_eq] at hdigit
    exact absurd hdigit (not_lt.mpr r.base_le)

/-- Zeros put after digits of another radix are zeros of that radix. -/
theorem convert_radix (r : Radix) (hread : parseNumber r.text = some (.radix r)) (d : Nat) :
    convert r.text d = some ((numeral r.base r.digits * r.base ^ d : Nat) : Int) := by
  have hguard : ¬ (r.text = [] ∨ r.text = js "." ∨ (parseNumber r.text).isNone = true) := by
    rw [hread]
    rintro (hnil | hpoint | hnone)
    · cases hnil
    · exact absurd (List.cons.inj hpoint).1 (by decide)
    · cases hnone
  have hhead : ¬ r.text.head? = some (unit '-') := by rintro ⟨⟩
  have hzeros : r.text ++ padEnd [] d (digit 0) = (shifted r d).text := rfl
  rw [convert_of_split hguard (if_neg hhead) (List.splitOn_eq_singleton (point_not_mem_radix r))]
  simp only [List.getElem?_cons_zero, Option.getD_some, if_neg (mt Or.inl hguard), if_neg hhead]
  rw [List.getElem?_eq_none (by simp), Option.getD_none, List.take_nil, hzeros, toBigInt_radix,
    Option.map_some]
  exact congrArg (fun n : Nat => some (n : Int)) (numeral_shifted r d)

/-- `Infinity` has no digits to read. -/
theorem convert_infinity (sign : Sign) (d : Nat) :
    convert (sign.text ++ js "Infinity") d = none := by
  -- the text passes the guards: it is a number to the parser
  have hguard : ¬ (sign.text ++ js "Infinity" = [] ∨ sign.text ++ js "Infinity" = js "." ∨
      (parseNumber (sign.text ++ js "Infinity")).isNone = true) := by
    cases sign <;> decide
  have hunsigned : (if (sign.text ++ js "Infinity").head? = some (unit '-') then
      (sign.text ++ js "Infinity").drop 1 else sign.text ++ js "Infinity") =
        (kept sign).text ++ js "Infinity" := by
    cases sign <;> rfl
  have hpoint : unit '.' ∉ (kept sign).text ++ js "Infinity" := by
    cases sign <;> decide
  have hspace : ∀ c ∈ js "Infinity", isSpace c = false := by
    have hall : (js "Infinity").all (fun c => !isSpace c) = true := by decide
    exact fun c hc => by simpa using List.all_eq_true.mp hall c hc
  have hletters : ∀ c ∈ (js "Infinity" ++ padEnd [] d (digit 0)).head?, isSign c = false := by
    rintro c ⟨⟩
    rfl
  -- it has no point, so the whole of it is to be an integer, and it is none
  have hnone : toBigInt ((kept sign).text ++ (js "Infinity" ++ padEnd [] d (digit 0))) = none := by
    refine toBigInt_eq_none ?_ (by simp [js]) ?_ ?_
    · intro c hc
      rcases List.mem_append.mp hc with hc | hc
      · exact (kept sign).not_isSpace c hc
      · rcases List.mem_append.mp hc with hc | hc
        · exact hspace c hc
        · exact not_isSpace_zeros _ c hc
    · rw [splitSign_append _ hletters]
      exact ⟨unit 'I', List.mem_cons_self .., rfl⟩
    · refine parseRadix_of_head fun c hc => ?_
      cases sign <;> (obtain ⟨⟩ := hc; decide)
  have hne : (kept sign).text ++ js "Infinity" ≠ [] := by cases sign <;> decide
  rw [convert_of_split hguard hunsigned (List.splitOn_eq_singleton hpoint)]
  simp only [List.getElem?_cons_zero, Option.getD_some, if_neg hne]
  rw [List.getElem?_eq_none (by simp), Option.getD_none, List.take_nil, List.append_assoc, hnone,
    Option.map_none]

/-! ### The conversions agree -/

/-- The number an amount denotes. -/
def denoted : Amount → Number
  | .text s => ((parseNumber (trim s)).map Literal.value).getD .nan
  | .number n => n

/-- The amount is converted, to the number it denotes moved up and cut. -/
def Converts (toString : ℚ → Scientific) (amount : Amount) (decimals : Nat) : Prop :=
  ∃ q, denoted amount = .finite q ∧
    toBaseUnits toString amount decimals = some (truncate (q * 10 ^ decimals))

/-- What a literal has to be to be converted: an exponent is zero, or what it is put to is less
than one unit with it and without it; digits of another radix are given no zeros, or are zero. -/
def Faithful : Literal → Nat → Prop
  | .empty, _ => True
  | .decimal m, d => Readable m d ∧ (m.exponentValue = 0 ∨
      m.mantissa * 10 ^ d < 1 ∧ m.mantissa * 10 ^ d * 10 ^ m.exponentValue < 1)
  | .infinity _, _ => False
  | .radix r, d => d = 0 ∨ numeral r.base r.digits = 0

/-- What an amount has to be to be converted: a text of a literal that is, or a number `toFixed`
writes with its decimals and does not round up. -/
def Exact : Amount → Nat → Prop
  | .text s, d => ∃ l, parseNumber (trim s) = some l ∧ Faithful l d
  | .number (.finite q), d => d ≤ 100 ∧ |q| < 10 ^ 21 ∧ Int.fract (|q| * 10 ^ d) < 1 / 2
  | .number _, _ => False

theorem base_ne_ten (r : Radix) : r.base ≠ 10 := by
  have h := r.radixOf_mark
  rw [radixOf] at h
  split_ifs at h <;> obtain h := Option.some.inj h <;> omega

/-- A text that is read as this literal. -/
theorem convert_literal_iff {raw : JsString} {l : Literal} (hread : parseNumber raw = some l)
    (d : Nat) :
    (∃ q, l.value = .finite q ∧ convert raw d = some (truncate (q * 10 ^ d))) ↔
      Faithful l d := by
  obtain rfl := parseNumber_text hread
  cases l with
  | empty =>
      refine iff_of_true ⟨0, rfl, ?_⟩ trivial
      rw [zero_mul]
      rfl
  | decimal m =>
      refine Iff.trans ⟨?_, fun h => ⟨m.value, rfl, h⟩⟩ (convert_decimal_iff m)
      rintro ⟨q, hq, hconvert⟩
      obtain rfl := Number.finite.inj hq
      exact hconvert
  | infinity sign =>
      refine iff_of_false ?_ id
      rintro ⟨q, hq, -⟩
      cases hq
  -- digits padded in their own base: the same number only if nothing is padded, or it is zero
  | radix r =>
      have htruncate : truncate ((numeral r.base r.digits : ℚ) * 10 ^ d) =
          ((numeral r.base r.digits * 10 ^ d : Nat) : Int) := by
        rw [truncate_of_nonneg (by positivity)]
        exact_mod_cast Int.floor_natCast (R := ℚ) (numeral r.base r.digits * 10 ^ d)
      have hconvert := convert_radix r hread d
      have hsame : numeral r.base r.digits * r.base ^ d = numeral r.base r.digits * 10 ^ d ↔
          d = 0 ∨ numeral r.base r.digits = 0 := by
        rcases Nat.eq_zero_or_pos (numeral r.base r.digits) with hzero | hpos
        · simp [hzero]
        · rw [Nat.mul_left_cancel_iff hpos, or_iff_left hpos.ne']
          refine ⟨fun heq => ?_, fun hd => by rw [hd, pow_zero, pow_zero]⟩
          by_contra hd
          exact base_ne_ten r (Nat.pow_left_injective hd heq)
      rw [Literal.text, hconvert]
      constructor
      · rintro ⟨q, hq, hsome⟩
        obtain rfl := Number.finite.inj hq
        rw [htruncate, Option.some.injEq] at hsome
        exact hsame.mp (by exact_mod_cast hsome)
      · intro h
        exact ⟨_, rfl, by rw [htruncate, hsame.mpr h]⟩

/-! ### There and back -/

/-- Digits lose nothing with their trailing zeros if these are put back. -/
theorem padEnd_stripped {s : JsString} {d : Nat} (hlength : s.length = d) :
    padEnd ((s.rdropWhile (· = digit 0)).take d) d (digit 0) = s := by
  have hsplit := List.rdropWhile_append_rtakeWhile (p := (· = digit 0)) (l := s)
  have hzeros : s.rtakeWhile (· = digit 0) =
      List.replicate (s.rtakeWhile (· = digit 0)).length (digit 0) :=
    List.eq_replicate_of_mem fun c hc => by simpa using List.mem_rtakeWhile_imp hc
  have hsum := congrArg List.length hsplit
  rw [List.length_append, hlength] at hsum
  have hcount : d - (s.rdropWhile (· = digit 0)).length =
      (s.rtakeWhile (· = digit 0)).length := by omega
  rw [List.take_of_length_le (by omega), padEnd, hcount, ← hzeros, hsplit]

/-- The digits of base units after the point, without the zeros they end in. -/
def unitsFraction (v : Int) (d : Nat) : JsString :=
  (padStart (decimal (v.natAbs % 10 ^ d)) d (digit 0)).rdropWhile (· = digit 0)

theorem isDigit_unitsFraction (v : Int) (d : Nat) :
    ∀ c ∈ unitsFraction v d, isDigit 10 c = true := by
  intro c hc
  exact isDigit_padStart (isDigit_decimal _) _ c ((List.rdropWhile_prefix _ _).subset hc)

/-- Without a digit there is no point. -/
theorem getD_fraction (f : JsString) : (if f = [] then none else some f).getD [] = f := by
  split
  · rename_i hnil
    exact hnil.symm
  · rfl

/-- The decimal base units are written as. -/
def unitsDecimal (v : Int) (d : Nat) : Decimal where
  sign := if v < 0 then .minus else .none
  whole := decimal (v.natAbs / 10 ^ d)
  fraction := if unitsFraction v d = [] then none else some (unitsFraction v d)
  exponent := none
  isDigit_whole := isDigit_decimal _
  isDigit_fraction := (getD_fraction (unitsFraction v d)).symm ▸ isDigit_unitsFraction v d
  some_digit := .inl (decimal_ne_nil _)

theorem unsigned_unitsDecimal (v : Int) (d : Nat) : (unitsDecimal v d).unsigned =
    if unitsFraction v d = [] then decimal (v.natAbs / 10 ^ d)
    else decimal (v.natAbs / 10 ^ d) ++ unit '.' :: unitsFraction v d := by
  rw [Decimal.unsigned]
  simp only [unitsDecimal, Decimal.exponentText]
  split
  · exact List.append_nil _
  · rw [pointed, Option.map_none, Option.getD_none, List.append_nil]

theorem fromBaseUnits_eq (v : Int) (d : Nat) :
    fromBaseUnits (.bigint v) d = some (unitsDecimal v d).text := by
  have hsign : (unitsDecimal v d).sign = if v < 0 then .minus else .none := rfl
  rw [fromBaseUnits, Units.raw, Option.map_some, Decimal.text, unsigned_unitsDecimal, hsign]
  by_cases hneg : v < 0
  · simp only [if_pos hneg]
    rfl
  · simp only [if_neg hneg]
    rfl

theorem readable_unitsDecimal (v : Int) (d : Nat) : Readable (unitsDecimal v d) d := by
  refine ⟨fun h => ?_, fun h => by cases h⟩
  have hsign : (if v < 0 then Sign.minus else .none) = .plus := h.1
  split at hsign <;> cases hsign

theorem numeral_scaled_unitsDecimal (v : Int) (d : Nat) :
    numeral 10 (scaled (unitsDecimal v d) d) = v.natAbs := by
  have hfraction : (unitsDecimal v d).fraction.getD [] = unitsFraction v d := getD_fraction _
  have hwhole : (unitsDecimal v d).whole = decimal (v.natAbs / 10 ^ d) := rfl
  rw [scaled, hfraction, hwhole]
  rcases Nat.eq_zero_or_pos d with rfl | hpos
  · rw [List.take_zero, padEnd, Nat.zero_sub, List.replicate_zero, List.append_nil,
      List.append_nil, numeral_decimal, pow_zero, Nat.div_one]
  · have hlt : v.natAbs % 10 ^ d < 10 ^ d := Nat.mod_lt _ (by positivity)
    have hlength : (padStart (decimal (v.natAbs % 10 ^ d)) d (digit 0)).length = d := by
      have hle := length_decimal_le hpos hlt
      rw [padStart, List.length_append, List.length_replicate]
      omega
    rw [unitsFraction, padEnd_stripped hlength, numeral_append, numeral_decimal, hlength,
      numeral_padStart, numeral_decimal, Nat.div_add_mod']

theorem length_unitsFraction (v : Int) (d : Nat) : (unitsFraction v d).length ≤ d := by
  rcases Nat.eq_zero_or_pos d with rfl | hpos
  · rw [unitsFraction, pow_zero, Nat.mod_one]
    exact le_rfl
  · have hlt : v.natAbs % 10 ^ d < 10 ^ d := Nat.mod_lt _ (by positivity)
    have hlength : (padStart (decimal (v.natAbs % 10 ^ d)) d (digit 0)).length = d := by
      have hle := length_decimal_le hpos hlt
      rw [padStart, List.length_append, List.length_replicate]
      omega
    exact (List.rdropWhile_prefix _ _).length_le.trans hlength.le

/-- The decimal base units are written as is the number of them, moved down. -/
theorem value_unitsDecimal (v : Int) (d : Nat) : (unitsDecimal v d).value = v / 10 ^ d := by
  have hfraction : (unitsDecimal v d).fraction.getD [] = unitsFraction v d := getD_fraction _
  have hnumeral := numeral_scaled_unitsDecimal v d
  have hlength : ((unitsDecimal v d).fraction.getD []).length ≤ d :=
    hfraction ▸ length_unitsFraction v d
  rw [numeral_scaled_of_le _ hlength, hfraction] at hnumeral
  have hpow : (10 : ℚ) ^ d =
      10 ^ (unitsFraction v d).length * 10 ^ (d - (unitsFraction v d).length) := by
    rw [← pow_add, Nat.add_sub_cancel' (length_unitsFraction v d)]
  -- trailing zeros are not written, so the fraction may be shorter than the decimals
  have hmantissa : (unitsDecimal v d).mantissa = (v.natAbs : ℚ) / 10 ^ d := by
    rw [Decimal.mantissa, hfraction, ← hnumeral, hpow]
    push_cast
    field_simp
  have hexponent : (unitsDecimal v d).exponentValue = 0 := rfl
  have hsign : (unitsDecimal v d).sign = if v < 0 then .minus else .none := rfl
  rw [Decimal.value, hexponent, zpow_zero, mul_one, hmantissa, hsign, Nat.cast_natAbs, Int.cast_abs]
  by_cases hneg : v < 0
  · rw [if_pos hneg, abs_of_neg (by exact_mod_cast hneg)]
    show -(-(v : ℚ) / 10 ^ d) = v / 10 ^ d
    ring
  · rw [if_neg hneg, abs_of_nonneg (by exact_mod_cast not_lt.mp hneg)]
    rfl

/-- Base units written as a decimal are read back. -/
theorem toBaseUnits_fromBaseUnits (toString : ℚ → Scientific) (v : Int) (d : Nat) :
    (fromBaseUnits (.bigint v) d).bind (fun text => toBaseUnits toString (.text text) d) =
      some v := by
  have hsign : (unitsDecimal v d).sign = if v < 0 then .minus else .none := rfl
  rw [fromBaseUnits_eq, Option.bind_some, toBaseUnits, rawText, Option.bind_some,
    Decimal.trim_text, convert_of_readable _ (readable_unitsDecimal v d),
    numeral_scaled_unitsDecimal, hsign]
  refine congrArg some ?_
  split
  · rw [Sign.apply]
    omega
  · show (v.natAbs : Int) = v
    omega

/-- What denotes an infinity throws. -/
theorem toBaseUnits_infinite (toString : ℚ → Scientific) {amount : Amount} {negative : Bool}
    (h : denoted amount = .infinite negative) (d : Nat) : toBaseUnits toString amount d = none := by
  cases amount with
  | text s =>
      rw [denoted] at h
      rcases hread : parseNumber (trim s) with _ | l
      · rw [hread] at h
        cases h
      · rw [hread, Option.map_some, Option.getD_some] at h
        cases l with
        | infinity sign =>
            rw [toBaseUnits, rawText, Option.bind_some, ← parseNumber_text hread]
            exact convert_infinity sign d
        | empty => cases h
        | decimal m => cases h
        | radix r => cases h
  -- a number is printed by toFixed, which prints the infinity or refuses the digits
  | number n =>
      obtain rfl : n = .infinite negative := h
      have hsign : (if negative = true then [unit '-'] else []) =
          (if negative = true then Sign.minus else .none).text := by
        cases negative <;> rfl
      rw [toBaseUnits, rawText, toFixed]
      by_cases hd : 100 < d
      · rw [if_pos hd]
        rfl
      · rw [if_neg hd, Option.bind_some, hsign]
        exact convert_infinity _ d

theorem converts_iff (toString : ℚ → Scientific) {amount : Amount} (h : denoted amount ≠ .nan)
    (d : Nat) : Converts toString amount d ↔ Exact amount d := by
  cases amount with
  | text s =>
      rw [Converts, denoted, toBaseUnits, rawText, Option.bind_some, Exact]
      rcases hread : parseNumber (trim s) with _ | l
      · rw [denoted, hread] at h
        exact absurd rfl h
      · refine (convert_literal_iff hread d).trans ⟨fun hl => ⟨l, rfl, hl⟩, ?_⟩
        rintro ⟨l', hl', hfaithful⟩
        obtain rfl := Option.some.inj hl'
        exact hfaithful
  | number n =>
      cases n with
      | finite q =>
          refine Iff.trans ⟨?_, fun hq => ⟨q, rfl, hq⟩⟩ (toBaseUnits_number_iff toString q d)
          rintro ⟨q', hq', hconvert⟩
          obtain rfl := Number.finite.inj hq'
          exact hconvert
      -- an infinity denotes no number, and is converted to none
      | infinite negative =>
          refine iff_of_false ?_ id
          rintro ⟨q, hq, -⟩
          cases hq
      | nan => exact absurd rfl h

/-- Unit conversion. Base units written as a decimal are read back, whatever the decimals; an
amount that passes the guard is converted to the number it denotes, moved up and cut, exactly
when it is exact; and an infinity throws. -/
theorem unit_conversion (toString : ℚ → Scientific) :
    (∀ (v : Int) (d : Nat), (fromBaseUnits (.bigint v) d).bind
        (fun text => toBaseUnits toString (.text text) d) = some v) ∧
      (∀ (amount : Amount) (d : Nat), denoted amount ≠ .nan →
        (Converts toString amount d ↔ Exact amount d)) ∧
      ∀ (amount : Amount) (negative : Bool) (d : Nat), denoted amount = .infinite negative →
        toBaseUnits toString amount d = none :=
  ⟨toBaseUnits_fromBaseUnits toString, fun _ d h => converts_iff toString h d,
    fun _ _ d h => toBaseUnits_infinite toString h d⟩

/-- Two zeros more are two digits of the radix more. -/
example : convert (js "0x10") 2 = some 4096 := by decide

/-- A text that passes the guard denotes something. -/
theorem denoted_ne_nan {s : JsString} (h : (parseNumber (trim s)).isSome = true) :
    denoted (.text s) ≠ .nan := by
  obtain ⟨l, hl⟩ := Option.isSome_iff_exists.mp h
  rw [denoted, hl]
  cases l <;> rintro ⟨⟩

/-- A million and a half, there and back; a decimal as it should be; and no digits. -/
theorem unit_conversion_oneAndAHalf : ∀ toString : ℚ → Scientific,
    (fromBaseUnits (.bigint 1500000) 6).bind (fun text => toBaseUnits toString (.text text) 6) =
        some 1500000 ∧
      Converts toString (.text (js "1.5")) 6 ∧
      toBaseUnits toString (.text (js "Infinity")) 6 = none := by
  intro toString
  obtain ⟨hback, hconverts, hinfinite⟩ := unit_conversion toString
  have hfaithful : ∃ l, parseNumber (trim (js "1.5")) = some l ∧ Faithful l 6 :=
    ⟨_, rfl, by decide, .inl rfl⟩
  have hinfinity : denoted (.text (js "Infinity")) = .infinite false := rfl
  exact ⟨hback 1500000 6, (hconverts _ 6 (denoted_ne_nan (by decide))).mpr hfaithful,
    hinfinite _ _ 6 hinfinity⟩

/-- A thousand written with an exponent throws. -/
theorem thousand_throws :
    ¬ ∀ (toString : ℚ → Scientific) (amount : Amount) (d : Nat), denoted amount ≠ .nan →
      Converts toString amount d := by
  intro h
  have hguard : denoted (.text (js "1e3")) ≠ .nan := denoted_ne_nan (by decide)
  have hthrows : convert (trim (js "1e3")) 6 = none := by decide
  have hdigit : ∀ c ∈ [digit 1], isDigit 10 c = true := fun c hc => by
    rw [List.mem_singleton.mp hc]
    rfl
  obtain ⟨q, -, hconvert⟩ := h (fun _ => ⟨digit 1, [], 21, hdigit, le_rfl⟩) _ 6 hguard
  cases hthrows.symm.trans hconvert

end Core

end LemonMarket
