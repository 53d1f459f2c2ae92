import LemonMarket.Lib.Double
import LemonMarket.Lib.Latest

/-!
# LemonMarket.Core.Funding

**Funding periods, and one observation for each** (`core/funding.ts`). A period starts at a
multiple of the venue's interval. A series is thinned to the last observation of every
period: `lastPerFundingPeriod` is the library's pass over the items, by the period of a
finite timestamp, with the timestamps as the ages.

A period is the double the source computes: the quotient and the product are rounded, and
either can be an infinity, which is a period like any other. Both roundings keep the order,
so a later period has later timestamps and the thinned series, which is put in the order of
the periods, ascends in time. Of whole seconds below `2 ^ 53` the period is exact.
-/

namespace LemonMarket

namespace Core

open Lib

/-- The start of the period a timestamp falls in; zero for what is no time or no interval. -/
def fundingPeriodStart (timestamp intervalSeconds : Number) : Number :=
  match timestamp, intervalSeconds with
  | .finite t, .finite i =>
      if i ≤ 0 then .finite 0
      else ((Number.finite (t / i)).toDouble.floor.mul (.finite i)).toDouble
  | _, _ => .finite 0

section

variable {α : Type} (timestampOf : α → Number) (intervalSeconds : Number)

/-- One item of the loop: a later item of its period, or one as late, takes its place. -/
def observe (latest : Table Number α) (item : α) : Table Number α :=
  match timestampOf item with
  | .finite t =>
      let period := fundingPeriodStart (.finite t) intervalSeconds
      match latest.lookup period with
      | none => latest.insert period item
      | some held =>
          if (timestampOf held).le (.finite t) then latest.insert period item else latest
  | _ => latest

/-- Thin a series to its last observation in each period, in the order of the periods. -/
def lastPerFundingPeriod (items : List α) : List α :=
  Latest.ordered (items.foldl (observe timestampOf intervalSeconds) ∅)

/-- The period of an item with a finite timestamp. -/
def periodOf (item : α) : Option Number :=
  (timestampOf item).finite?.map fun t => fundingPeriodStart (.finite t) intervalSeconds

/-- Whether an item is as late as another. -/
def asLate (a b : α) : Bool := (timestampOf a).le (timestampOf b)

end

variable {α : Type} {timestampOf : α → Number} {intervalSeconds : Number} {items : List α}
  {item : α} {period : Number}

/-! ### Periods -/

/-- Dividing, cutting, multiplying and both roundings keep the order. -/
theorem fundingPeriodStart_mono {s t : ℚ} (h : s ≤ t) :
    fundingPeriodStart (.finite s) intervalSeconds ≤
      fundingPeriodStart (.finite t) intervalSeconds := by
  cases intervalSeconds with
  | finite i =>
      simp only [fundingPeriodStart]
      split
      next => exact le_rfl
      next hi =>
        have hpos : 0 < i := not_le.mp hi
        have hquotient : (Number.finite (s / i)).toDouble ≤ (Number.finite (t / i)).toDouble :=
          Number.toDouble_finite_mono (div_le_div_of_nonneg_right h hpos.le)
        exact Number.toDouble_mono (Number.mul_mono hpos (Number.floor_mono hquotient))
  | infinite _ => exact le_rfl
  | nan => exact le_rfl

/-- Of whole seconds, the last multiple of the interval. -/
theorem fundingPeriodStart_natCast {t i : Nat} (ht : t < 2 ^ 53) (hi : i < 2 ^ 53)
    (hpos : 0 < i) :
    fundingPeriodStart (.finite t) (.finite i) = .finite (t / i * i : Nat) := by
  have hi' : ¬ (i : ℚ) ≤ 0 := not_le.mpr (Nat.cast_pos.mpr hpos)
  have hquotient : (Number.finite ((t : ℚ) / i)).toDouble = .finite (Double.nearest (t / i)) :=
    Number.toDouble_of_le (div_nonneg (Nat.cast_nonneg t) (Nat.cast_nonneg i))
      (div_le_self (Nat.cast_nonneg t) (Nat.one_le_cast.mpr hpos)) ht.le
  have hproduct : ((t / i : Nat) : Int) * (i : ℚ) = (t / i * i : Nat) := by
    rw [Int.cast_natCast, Nat.cast_mul]
  rw [fundingPeriodStart, if_neg hi', hquotient, Number.floor, Double.floor_nearest_div ht hi hpos,
    Number.mul, hproduct, Number.toDouble_natCast ((Nat.div_mul_le_self t i).trans ht.le)]

/-- A tenth is a little more as a double, and still goes five times into a half. -/
example : fundingPeriodStart (.finite (1 / 2)) (.finite (Double.nearest (1 / 10))) =
    .finite (1 / 2) := by decide +kernel

theorem periodOf_eq_some : periodOf timestampOf intervalSeconds item = some period ↔
    ∃ t, timestampOf item = .finite t ∧
      fundingPeriodStart (.finite t) intervalSeconds = period := by
  simp [periodOf, Number.finite?_eq_some]

theorem periodOf_isSome : (periodOf timestampOf intervalSeconds item).isSome ↔
    ∃ t, timestampOf item = .finite t := by
  simp [periodOf, Option.isSome_iff_exists, Number.finite?_eq_some]

/-! ### The loop is the library's pass -/

theorem observe_eq : observe timestampOf intervalSeconds =
    Latest.keep (asLate timestampOf) (periodOf timestampOf intervalSeconds) := by
  funext latest item
  cases hat : timestampOf item with
  | finite t =>
      have hperiod : periodOf timestampOf intervalSeconds item =
          some (fundingPeriodStart (.finite t) intervalSeconds) := by
        rw [periodOf, hat]
        rfl
      cases hheld : latest.lookup (fundingPeriodStart (.finite t) intervalSeconds) with
      | none => simp only [observe, Latest.keep, hat, hperiod, hheld]
      | some held => simp only [observe, Latest.keep, asLate, hat, hperiod, hheld]
  | infinite _ => simp only [observe, Latest.keep, periodOf, hat, Number.finite?, Option.map_none]
  | nan => simp only [observe, Latest.keep, periodOf, hat, Number.finite?, Option.map_none]

theorem lastPerFundingPeriod_eq : lastPerFundingPeriod timestampOf intervalSeconds items =
    Latest.ordered
      (Latest.latest (asLate timestampOf) (periodOf timestampOf intervalSeconds) items) := by
  rw [lastPerFundingPeriod, observe_eq, Latest.latest]

/-- Timestamps are ages. -/
theorem aged : Latest.Aged (asLate timestampOf) (periodOf timestampOf intervalSeconds) where
  total := by
    intro x y hx hy
    obtain ⟨s, hs⟩ := periodOf_isSome.mp hx
    obtain ⟨t, ht⟩ := periodOf_isSome.mp hy
    simp only [asLate, hs, ht, Number.le_finite]
    exact le_total s t
  trans := Number.le_trans

/-- One item of each period is listed: its latest. -/
theorem mem_lastPerFundingPeriod : item ∈ lastPerFundingPeriod timestampOf intervalSeconds items ↔
    ∃ period, Latest.IsLatest (asLate timestampOf) (periodOf timestampOf intervalSeconds) items
      period item := by
  rw [lastPerFundingPeriod_eq, Latest.mem_ordered]
  exact exists_congr fun period => Latest.lookup_latest_iff aged

/-- A later period has later timestamps. -/
theorem pairwise_lastPerFundingPeriod :
    (lastPerFundingPeriod timestampOf intervalSeconds items).Pairwise fun a b =>
      ∃ s t, timestampOf a = .finite s ∧ timestampOf b = .finite t ∧ s < t := by
  rw [lastPerFundingPeriod_eq]
  refine Latest.pairwise_ordered.imp ?_
  rintro a b ⟨k, l, ha, hb, hlt⟩
  obtain ⟨s, hs, rfl⟩ := periodOf_eq_some.mp ((Latest.lookup_latest_iff aged).mp ha).class_eq
  obtain ⟨t, ht, rfl⟩ := periodOf_eq_some.mp ((Latest.lookup_latest_iff aged).mp hb).class_eq
  exact ⟨s, t, hs, ht, lt_of_not_ge fun hle => hlt.not_ge (fundingPeriodStart_mono hle)⟩

/-- **One observation a period.** The thinned series ascends in time and has one item for
each period that has one with a finite timestamp: the latest, and of those as late the last.
Thinning it again changes nothing, and where no two items are of one time their order does
not count. A period is what the doubles make it; of whole seconds, the last multiple of the
interval. -/
theorem lastPerFundingPeriod_spec (timestampOf : α → Number) (intervalSeconds : Number)
    (items : List α) :
    ((lastPerFundingPeriod timestampOf intervalSeconds items).Pairwise fun a b =>
        ∃ s t, timestampOf a = .finite s ∧ timestampOf b = .finite t ∧ s < t) ∧
      (∀ period, (∃ item ∈ items, periodOf timestampOf intervalSeconds item = some period) →
        ∃! out, out ∈ lastPerFundingPeriod timestampOf intervalSeconds items ∧
          periodOf timestampOf intervalSeconds out = some period) ∧
      (∀ out ∈ lastPerFundingPeriod timestampOf intervalSeconds items, ∃ period,
        Latest.IsLatest (asLate timestampOf) (periodOf timestampOf intervalSeconds) items
          period out) ∧
      lastPerFundingPeriod timestampOf intervalSeconds
          (lastPerFundingPeriod timestampOf intervalSeconds items) =
        lastPerFundingPeriod timestampOf intervalSeconds items ∧
      (∀ items', items.Perm items' →
        (items.Pairwise fun a b => ∀ t, timestampOf a = .finite t → timestampOf b ≠ .finite t) →
        lastPerFundingPeriod timestampOf intervalSeconds items =
          lastPerFundingPeriod timestampOf intervalSeconds items') ∧
      ∀ item, ∀ t i : Nat, timestampOf item = .finite t → intervalSeconds = .finite i →
        t < 2 ^ 53 → i < 2 ^ 53 → 0 < i →
        periodOf timestampOf intervalSeconds item = some (.finite (t / i * i : Nat)) := by
  refine ⟨pairwise_lastPerFundingPeriod, ?_, fun out => mem_lastPerFundingPeriod.mp, ?_, ?_, ?_⟩
  · rintro period ⟨item, hitem, hperiod⟩
    obtain ⟨out, hout⟩ := Latest.exists_isLatest aged hitem hperiod
    refine ⟨out, ⟨mem_lastPerFundingPeriod.mpr ⟨period, hout⟩, hout.class_eq⟩, ?_⟩
    rintro other ⟨hother, hsame⟩
    obtain ⟨period', hlatest⟩ := mem_lastPerFundingPeriod.mp hother
    obtain rfl : period' = period := Option.some.inj (hlatest.class_eq.symm.trans hsame)
    exact hlatest.unique hout
  · simp only [lastPerFundingPeriod_eq]
    exact Latest.ordered_latest_idem aged
  · intro items' hperm hdistinct
    rw [lastPerFundingPeriod_eq, lastPerFundingPeriod_eq]
    refine Latest.ordered_latest_perm aged hperm ?_
    intro x hx y hy hxsome hysome hxy hyx
    obtain ⟨s, hs⟩ := periodOf_isSome.mp hxsome
    obtain ⟨t, ht⟩ := periodOf_isSome.mp hysome
    simp only [asLate, hs, ht, Number.le_finite] at hxy hyx
    -- of two items each as late as the other, the times are the same
    obtain rfl : s = t := le_antisymm hxy hyx
    by_contra hne
    have hsymm : Std.Symm fun a b : α =>
        ∀ t, timestampOf a = .finite t → timestampOf b ≠ .finite t :=
      ⟨fun a b h t hb ha => h t ha hb⟩
    exact hdistinct.forall hx hy hne s hs ht
  · rintro item t i hat rfl ht hi hpos
    exact periodOf_eq_some.mpr ⟨t, hat, fundingPeriodStart_natCast ht hi hpos⟩

end Core

end LemonMarket
