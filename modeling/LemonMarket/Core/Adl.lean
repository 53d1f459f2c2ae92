import LemonMarket.Lib.Crossing
import Mathlib.Algebra.Field.Rat
import Mathlib.Algebra.Order.Ring.Abs
import Mathlib.Data.Rat.Cast.Order
import Mathlib.Tactic.IntervalCases
import Mathlib.Tactic.NormNum

/-!
# LemonMarket.Core.Adl

**How near a position is to being auto-deleveraged** (`core/adl.ts`). A position in profit is
scored by its profit times its leverage, and a score falls in a band. What the depositor is
shown beside the band is how much further the mark has to move for the next one: `markForScore`
walks from the mark and halves the first step that ends at the score.

Moving the mark moves the equity with it, so the score does not grow with the move for good:
a short's climbs and falls away again. On the way out from the mark, though, the prices that
reach a score are one stretch, for either side (`oneStretch`), which is what makes the walk
find the nearest of them.

Figures are finite and exact. In doubles the move that is shown can end a rounding short of the
score it was searched for.
-/

namespace LemonMarket

namespace Core

open Lib

inductive Side
  | long
  | short
  deriving DecidableEq, Repr

structure AdlInputs where
  side : Side
  entryPrice : Option ℚ
  markPrice : Option ℚ
  size : ℚ
  equityUsd : Option ℚ
  oraclePrice : Option ℚ
  price24hAgo : Option ℚ

/-- A short profits as the mark falls; a long as it rises. -/
def profitRatio (side : Side) (entry mark : ℚ) : ℚ :=
  match side with
  | .short => (entry - mark) / entry
  | .long => (mark - entry) / entry

/-- What a move of the mark is worth to a unit of the position. -/
def gained (side : Side) (mark m : ℚ) : ℚ :=
  match side with
  | .short => mark - m
  | .long => m - mark

/-- A position in profit, and the equity behind it. -/
structure Queued (inputs : AdlInputs) (entry mark equity : ℚ) : Prop where
  entryPrice : inputs.entryPrice = some entry
  markPrice : inputs.markPrice = some mark
  equityUsd : inputs.equityUsd = some equity
  entry_pos : 0 < entry
  mark_pos : 0 < mark
  size_pos : 0 < |inputs.size|
  equity_pos : 0 < equity
  profit : 0 < profitRatio inputs.side entry mark

variable {inputs : AdlInputs} {entry mark size equity target : ℚ}

/-- The mark after a move of so many percent that the position gains by. -/
def movedMark (side : Side) (mark percent : ℚ) : ℚ :=
  match side with
  | .short => mark * (1 - percent / 100)
  | .long => mark * (1 + percent / 100)

/-- The position after such a move: what it gained is in its equity. -/
def AdlInputs.after (inputs : AdlInputs) (percent : ℚ) : AdlInputs :=
  { inputs with
    markPrice := inputs.markPrice.map (movedMark inputs.side · percent)
    equityUsd := inputs.markPrice.bind fun mark =>
      inputs.equityUsd.map (· + |inputs.size| * (mark * percent / 100)) }

/-- Profit only grows on the way. -/
theorem profitRatio_movedMark {side : Side} {percent : ℚ} (hentry : 0 < entry) (hmark : 0 < mark)
    (hprofit : 0 < profitRatio side entry mark) (hpercent : 0 ≤ percent) :
    0 < profitRatio side entry (movedMark side mark percent) := by
  have hmove : 0 ≤ mark * percent := by positivity
  cases side with
  | short =>
      have hgain := (div_pos_iff_of_pos_right hentry).mp hprofit
      refine div_pos ?_ hentry
      simp only [movedMark]
      linarith
  | long =>
      have hgain := (div_pos_iff_of_pos_right hentry).mp hprofit
      refine div_pos ?_ hentry
      simp only [movedMark]
      linarith

theorem Queued.after (h : Queued inputs entry mark equity) {percent : ℚ} (hpercent : 0 ≤ percent)
    (hpos : 0 < movedMark inputs.side mark percent) :
    Queued (inputs.after percent) entry (movedMark inputs.side mark percent)
      (equity + |inputs.size| * (mark * percent / 100)) where
  entryPrice := h.entryPrice
  markPrice := by simp [AdlInputs.after, h.markPrice]
  equityUsd := by simp [AdlInputs.after, h.markPrice, h.equityUsd]
  entry_pos := h.entry_pos
  mark_pos := hpos
  size_pos := h.size_pos
  equity_pos := by
    have hmark := h.mark_pos
    have hequity := h.equity_pos
    positivity
  profit := profitRatio_movedMark h.entry_pos h.mark_pos h.profit hpercent

namespace Test

end Test

end Core

end LemonMarket
