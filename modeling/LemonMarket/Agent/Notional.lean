import LemonMarket.Agent.Calls
import LemonMarket.Lib.Number

/-!
# LemonMarket.Agent.Notional

**Two readings of one payload.** `observe` values the open positions for the leverage it
reports, and `retainedMargin` values them again for the margin an unwind leaves behind, each
from the venue's positions and prices. A field of these may be missing or anything a text
comes to as a number.

Both take the mark, and the entry price without one. To `observe` a mark that is not above
zero is none; to `retainedMargin` only one that is not a number is, and a position whose mark
is zero is passed over. What it misses so is the position's notional at its entry price
(`observedNotional_eq`), and the two agree exactly when what is missed comes to nothing.
-/

namespace LemonMarket

namespace Agent

namespace Notional

open Lib
open Calls (VenueMarket notionalOf)

/-! ### The payload -/

/-- An open position as the venue sends it: `none` where a field is missing or null. -/
structure PositionRow where
  symbol : String
  amount : Option Number
  entryPrice : Option Number
  deriving Repr, DecidableEq

structure PriceRow where
  symbol : String
  mark : Option Number
  deriving Repr, DecidableEq

/-- A venue decimal as a number, or none when missing or unparseable. -/
def numberOrNull (raw : Option Number) : Option ℚ := raw.bind Number.finite?

/-- What the actions read of the payload. -/
def PositionRow.read (row : PositionRow) : Calls.Position :=
  ⟨row.symbol, numberOrNull row.amount, numberOrNull row.entryPrice⟩

def PriceRow.read (row : PriceRow) : Calls.Quote := ⟨row.symbol, numberOrNull row.mark⟩

variable (positions : List PositionRow) (prices : List PriceRow)

/-- One open position as `retainedMargin` values it. -/
def retainedLeg (market : VenueMarket) : Nat :=
  notionalOf (positions.map PositionRow.read) (prices.map PriceRow.read) market

/-- The notional `retainedMargin` adds up. -/
def retainedNotional (markets : List VenueMarket) : Nat :=
  (markets.map (retainedLeg positions prices)).sum

/-! ### What `observe` makes of it -/

def positionOf (market : VenueMarket) : Option PositionRow :=
  positions.find? fun p => p.symbol = market.perpSymbol

def priceOf (market : VenueMarket) : Option PriceRow :=
  prices.find? fun q => q.symbol = market.perpSymbol

/-- `Number(raw ?? 0)`. -/
def numberOrZero (raw : Option Number) : Number := raw.getD (.finite 0)

def perpSize (market : VenueMarket) : Number :=
  numberOrZero ((positionOf positions market).bind PositionRow.amount)

def entryPrice (market : VenueMarket) : Number :=
  numberOrZero ((positionOf positions market).bind PositionRow.entryPrice)

/-- Mark for the notional, with entry as the fallback. -/
def markPrice (market : VenueMarket) : Number :=
  let mark := numberOrZero ((priceOf prices market).bind PriceRow.mark)
  if mark.finite?.any (· > 0) then mark else entryPrice positions market

def observedLeg (market : VenueMarket) : Option Int :=
  (((perpSize positions market).abs.mul (markPrice positions prices market)).mul
    (.finite 1000000)).toBigInt

/-- Every short's notional together; none where one of them throws. -/
def perpNotionalUsdc (markets : List VenueMarket) : Option Int :=
  (markets.mapM (observedLeg positions prices)).map List.sum

/-! ### One market -/

/-- The price `retainedMargin` takes. -/
def retainedMark (market : VenueMarket) : ℚ :=
  ((numberOrNull ((priceOf prices market).bind PriceRow.mark)).orElse fun _ =>
    numberOrNull ((positionOf positions market).bind PositionRow.entryPrice)).getD 0

/-- What `observe` multiplies are numbers. -/
def Readable (market : VenueMarket) : Prop :=
  ((perpSize positions market).finite?).isSome ∧
    ((markPrice positions prices market).finite?).isSome

/-- A position's notional at its entry price, where `retainedMargin` passes it over. -/
def missed (market : VenueMarket) : Int :=
  if retainedMark positions prices market ≤ 0 then
    round (|(perpSize positions market).finite?.getD 0| *
      (entryPrice positions market).finite?.getD 0 * 1000000)
  else 0

variable {positions : List PositionRow} {prices : List PriceRow} {market : VenueMarket}
  {markets : List VenueMarket}

/-- A position that is passed over counts nothing, any other at its price. -/
theorem retainedLeg_eq : retainedLeg positions prices market =
    if retainedMark positions prices market ≤ 0 then 0
    else (round (|(perpSize positions market).finite?.getD 0| *
      retainedMark positions prices market * 1000000)).toNat := by
  have hposition : (positions.map PositionRow.read).find? (fun p => p.symbol = market.perpSymbol) =
      (positionOf positions market).map PositionRow.read := List.find?_map
  have hquote : (prices.map PriceRow.read).find? (fun q => q.symbol = market.perpSymbol) =
      (priceOf prices market).map PriceRow.read := List.find?_map
  have hmark : ((priceOf prices market).map PriceRow.read).bind Calls.Quote.mark =
      numberOrNull ((priceOf prices market).bind PriceRow.mark) := by
    cases priceOf prices market <;> rfl
  rw [retainedLeg, notionalOf, hposition, hquote]
  simp only [retainedMark, perpSize, hmark]
  rcases Option.eq_none_or_eq_some (positionOf positions market) with hopen | ⟨position, hopen⟩
  · simp only [hopen, Option.map_none, Option.bind_none, numberOrZero, Option.getD_none,
      Number.finite?, Option.getD_some, abs_zero, zero_mul, round_zero, Int.toNat_zero, ite_self]
  · have hsize : (numberOrZero position.amount).finite?.getD 0 =
        (numberOrNull position.amount).getD 0 := by
      cases position.amount <;> rfl
    simp only [hopen, Option.map_some, Option.bind_some, PositionRow.read, hsize, abs_nonpos_iff]
    -- an empty position counts nothing either way
    by_cases hzero : (numberOrNull position.amount).getD 0 = 0
    · simp only [hzero, true_or, abs_zero, zero_mul, round_zero, Int.toNat_zero, ite_self]
    · simp only [hzero, false_or]

theorem observedLeg_eq (h : Readable positions prices market) :
    observedLeg positions prices market =
      some (round (|(perpSize positions market).finite?.getD 0| *
        (markPrice positions prices market).finite?.getD 0 * 1000000)) := by
  obtain ⟨hsize, hprice⟩ := h
  obtain ⟨size, hsize⟩ := Option.isSome_iff_exists.mp hsize
  obtain ⟨price, hprice⟩ := Option.isSome_iff_exists.mp hprice
  rw [observedLeg, Number.toBigInt_eq, Number.finite?_mul, Number.finite?_mul, Number.finite?_abs,
    hsize, hprice]
  rfl

theorem finite?_numberOrZero (raw : Option Number) :
    (numberOrZero raw).finite?.getD 0 = (numberOrNull raw).getD 0 := by
  cases raw <;> rfl

theorem retainedMark_of_some {mark : ℚ}
    (h : numberOrNull ((priceOf prices market).bind PriceRow.mark) = some mark) :
    retainedMark positions prices market = mark := by
  rw [retainedMark, h]
  rfl

theorem retainedMark_of_none
    (h : numberOrNull ((priceOf prices market).bind PriceRow.mark) = none) :
    retainedMark positions prices market = (entryPrice positions market).finite?.getD 0 := by
  rw [retainedMark, h, entryPrice, finite?_numberOrZero]
  rfl

/-- The price `observe` takes is the one `retainedMargin` does, or the entry price of a
position that is passed over. -/
theorem markPrice_eq : (markPrice positions prices market).finite?.getD 0 =
    if retainedMark positions prices market ≤ 0 then (entryPrice positions market).finite?.getD 0
    else retainedMark positions prices market := by
  have hany : (numberOrZero ((priceOf prices market).bind PriceRow.mark)).finite?.any (· > 0) =
      (numberOrNull ((priceOf prices market).bind PriceRow.mark)).any (· > 0) := by
    cases (priceOf prices market).bind PriceRow.mark <;> rfl
  simp only [markPrice, hany]
  cases hmark : numberOrNull ((priceOf prices market).bind PriceRow.mark) with
  | none =>
      -- both fall back to the entry price
      rw [retainedMark_of_none hmark, ite_self]
      rfl
  | some mark =>
      simp only [retainedMark_of_some hmark, Option.any_some, decide_eq_true_eq]
      by_cases hpos : mark > 0
      · rw [if_pos hpos, if_neg (not_le.mpr hpos), finite?_numberOrZero, hmark, Option.getD_some]
      · rw [if_neg hpos, if_pos (not_lt.mp hpos)]

/-- What one market's position is missed by. -/
theorem observedLeg_of_readable (h : Readable positions prices market) :
    observedLeg positions prices market =
      some (retainedLeg positions prices market + missed positions prices market) := by
  rw [observedLeg_eq h, markPrice_eq, retainedLeg_eq, missed]
  split
  next => rw [Nat.cast_zero, zero_add]
  next hmark =>
    have hnonneg : 0 ≤ round (|(perpSize positions market).finite?.getD 0| *
        retainedMark positions prices market * 1000000) :=
      round_nonneg (mul_nonneg (mul_nonneg (abs_nonneg _) (not_le.mp hmark).le) (by norm_num))
    rw [Int.toNat_of_nonneg hnonneg, add_zero]

theorem observedLeg_isSome :
    (observedLeg positions prices market).isSome ↔ Readable positions prices market := by
  rw [observedLeg, Number.toBigInt_eq, Number.finite?_mul, Number.finite?_mul, Number.finite?_abs,
    Readable]
  cases (perpSize positions market).finite? <;>
    cases (markPrice positions prices market).finite? <;> simp [Number.finite?]

/-! ### All markets -/

/-- `observe` values the positions unless one is unreadable, and at what is retained and what
is missed. -/
theorem perpNotionalUsdc_eq_some {n : Int} : perpNotionalUsdc positions prices markets = some n ↔
    (∀ market ∈ markets, Readable positions prices market) ∧
      n = retainedNotional positions prices markets +
        (markets.map (missed positions prices)).sum := by
  induction markets generalizing n with
  | nil => simp [perpNotionalUsdc, retainedNotional, eq_comm]
  | cons market rest ih =>
      have hmapM : perpNotionalUsdc positions prices (market :: rest) =
          (observedLeg positions prices market).bind fun leg =>
            (perpNotionalUsdc positions prices rest).map fun others => leg + others := by
        rw [perpNotionalUsdc, perpNotionalUsdc, List.mapM_cons]
        cases observedLeg positions prices market with
        | none => rfl
        | some leg => cases rest.mapM (observedLeg positions prices) <;> rfl
      rw [hmapM, List.forall_mem_cons]
      -- one unreadable position leaves the whole unvalued
      by_cases hread : Readable positions prices market
      · rw [observedLeg_of_readable hread, Option.bind_some, Option.map_eq_some_iff]
        simp only [ih, hread, true_and, retainedNotional, List.map_cons, List.sum_cons,
          Nat.cast_add]
        constructor
        · rintro ⟨others, ⟨hrest, rfl⟩, rfl⟩
          exact ⟨hrest, by ring⟩
        · rintro ⟨hrest, rfl⟩
          exact ⟨_, ⟨hrest, rfl⟩, by ring⟩
      · have hnone : observedLeg positions prices market = none := by
          rw [← Option.not_isSome_iff_eq_none, observedLeg_isSome]
          exact hread
        simp [hnone, hread]

/-- A position the venue has open, at the price it was opened at. -/
def OpenedAt (row : PositionRow) : Prop :=
  ∃ size entry : ℚ, row.amount = some (.finite size) ∧ row.entryPrice = some (.finite entry) ∧
    0 < entry

variable (market) in
theorem entry_of_openedAt (h : ∀ row ∈ positions, OpenedAt row) :
    (∃ size, perpSize positions market = .finite size) ∧
      ∃ entry, entryPrice positions market = .finite entry ∧ 0 ≤ entry ∧
        (entry = 0 → perpSize positions market = .finite 0) := by
  rcases Option.eq_none_or_eq_some (positionOf positions market) with hopen | ⟨row, hopen⟩
  · simp [perpSize, entryPrice, hopen, numberOrZero]
  · obtain ⟨size, entry, hsize, hentry, hpos⟩ := h row (List.mem_of_find?_eq_some hopen)
    have hprice : entryPrice positions market = .finite entry := by
      simp [entryPrice, hopen, hentry, numberOrZero]
    refine ⟨⟨size, by simp [perpSize, hopen, hsize, numberOrZero]⟩, entry, hprice, hpos.le, ?_⟩
    intro hzero
    exact absurd hzero hpos.ne'

theorem readable_of_openedAt (h : ∀ row ∈ positions, OpenedAt row) :
    Readable positions prices market := by
  obtain ⟨⟨size, hsize⟩, entry, hentry, -, -⟩ := entry_of_openedAt market h
  refine ⟨by rw [hsize]; rfl, ?_⟩
  simp only [markPrice]
  split
  next hmark =>
    obtain ⟨mark, hmark, -⟩ := (Option.any_eq_true _ _).mp hmark
    exact Option.isSome_of_mem hmark
  next => rw [hentry]; rfl

theorem missed_nonneg (h : ∀ row ∈ positions, OpenedAt row) :
    0 ≤ missed positions prices market := by
  obtain ⟨-, entry, hentry, hnonneg, -⟩ := entry_of_openedAt market h
  rw [missed]
  split
  next =>
    rw [hentry]
    exact round_nonneg (mul_nonneg (mul_nonneg (abs_nonneg _) hnonneg) (by norm_num))
  next => exact le_rfl

/-- Where entry prices are above zero, only a mark that is a number passes a position over. -/
theorem missed_eq_zero_iff (h : ∀ row ∈ positions, OpenedAt row) :
    missed positions prices market = 0 ↔ ∀ mark,
      numberOrNull ((priceOf prices market).bind PriceRow.mark) = some mark → mark ≤ 0 →
      round (|(perpSize positions market).finite?.getD 0| *
        (entryPrice positions market).finite?.getD 0 * 1000000) = 0 := by
  obtain ⟨-, entry, hentry, hnonneg, hnone⟩ := entry_of_openedAt market h
  rw [missed]
  cases hmark : numberOrNull ((priceOf prices market).bind PriceRow.mark) with
  | none =>
      rw [retainedMark_of_none hmark, hentry]
      refine iff_of_true ?_ nofun
      split
      next hle =>
        have hzero : entry = 0 := le_antisymm hle hnonneg
        rw [hnone hzero]
        simp [Number.finite?]
      next => rfl
  | some mark =>
      rw [retainedMark_of_some hmark]
      simp only [Option.some.injEq, forall_eq', ite_eq_right_iff]

/-- Nothing is missed in all if nothing is missed anywhere. -/
theorem sum_missed_eq_zero_iff (h : ∀ row ∈ positions, OpenedAt row) :
    (markets.map (missed positions prices)).sum = 0 ↔
      ∀ market ∈ markets, missed positions prices market = 0 := by
  constructor
  · intro hsum market hmarket
    refine List.all_zero_of_le_zero_le_of_sum_eq_zero ?_ hsum (List.mem_map_of_mem hmarket)
    intro n hn
    obtain ⟨m, -, rfl⟩ := List.mem_map.mp hn
    exact missed_nonneg h
  · intro hnone
    refine List.sum_eq_zero fun n hn => ?_
    obtain ⟨m, hm, rfl⟩ := List.mem_map.mp hn
    exact hnone m hm

/-- **When the two notionals are one.** For all positions and prices, `observe` values the
positions at what `retainedMargin` does if and only if what it multiplies are numbers and the
positions that are passed over are together worth nothing at their entry prices. Where every
position has a size and an entry price above zero, that is: no position that is worth anything
at its entry price has a mark that is a number and not above zero. -/
theorem same_notional_iff (positions : List PositionRow) (prices : List PriceRow)
    (markets : List VenueMarket) :
    (perpNotionalUsdc positions prices markets =
        some (retainedNotional positions prices markets : Int) ↔
      (∀ market ∈ markets, Readable positions prices market) ∧
        (markets.map (missed positions prices)).sum = 0) ∧
    ((∀ row ∈ positions, OpenedAt row) →
      (perpNotionalUsdc positions prices markets =
          some (retainedNotional positions prices markets : Int) ↔
        ∀ market ∈ markets, ∀ mark,
          numberOrNull ((priceOf prices market).bind PriceRow.mark) = some mark → mark ≤ 0 →
          round (|(perpSize positions market).finite?.getD 0| *
            (entryPrice positions market).finite?.getD 0 * 1000000) = 0)) := by
  have hagrees : perpNotionalUsdc positions prices markets =
        some (retainedNotional positions prices markets : Int) ↔
      (∀ market ∈ markets, Readable positions prices market) ∧
        (markets.map (missed positions prices)).sum = 0 := by
    rw [perpNotionalUsdc_eq_some]
    exact and_congr_right fun _ => by omega
  refine ⟨hagrees, fun hopened => hagrees.trans ?_⟩
  rw [and_iff_right fun market _ => readable_of_openedAt hopened, sum_missed_eq_zero_iff hopened]
  exact forall₂_congr fun market _ => missed_eq_zero_iff hopened

/-- A market of which two units are short, opened at a hundred dollars each. -/
def shortMarket : VenueMarket := ⟨"NVDA", "NVDAc", "NVDA", 8, 10000⟩

def shortPosition : PositionRow := ⟨"NVDA", some (.finite 2), some (.finite 100)⟩

theorem shortPosition_opened : ∀ row ∈ [shortPosition], OpenedAt row := by
  intro row hrow
  obtain rfl := List.mem_singleton.mp hrow
  exact ⟨2, 100, rfl, rfl, by norm_num⟩

/-- At a mark of ninety the two are one. -/
theorem same_notional_iff_marked :
    perpNotionalUsdc [shortPosition] [⟨"NVDA", some (.finite 90)⟩] [shortMarket] = some
      (retainedNotional [shortPosition] [⟨"NVDA", some (.finite 90)⟩] [shortMarket] : Int) := by
  refine ((same_notional_iff _ _ _).2 shortPosition_opened).mpr ?_
  intro market hmarket mark hmark hnonpos
  obtain rfl := List.mem_singleton.mp hmarket
  obtain rfl : (90 : ℚ) = mark := Option.some.inj hmark
  norm_num at hnonpos

/-- With a mark of zero, the leverage is reported on two hundred dollars and the margin kept
on none. -/
theorem zero_mark_passed_over : ¬ ∀ positions prices markets, (∀ row ∈ positions, OpenedAt row) →
    perpNotionalUsdc positions prices markets =
      some (retainedNotional positions prices markets : Int) := by
  intro h
  have hagrees := h [shortPosition] [⟨"NVDA", some (.finite 0)⟩] [shortMarket] shortPosition_opened
  have hobserved : perpNotionalUsdc [shortPosition] [⟨"NVDA", some (.finite 0)⟩] [shortMarket] =
      some 200000000 := by decide +kernel
  have hretained :
      retainedNotional [shortPosition] [⟨"NVDA", some (.finite 0)⟩] [shortMarket] = 0 := by
    decide +kernel
  rw [hobserved, hretained] at hagrees
  exact absurd (Option.some.inj hagrees) (by decide)

end Notional

end Agent

end LemonMarket
