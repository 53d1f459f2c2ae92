import LemonMarket.Agent.Venue
import LemonMarket.Lib.Fill

/-!
# LemonMarket.Agent.Allocation

**Which markets an unwind comes out of** (`allocateUnwind`). The two passes are loops that
draw from the legs: the first takes the overweight in order of their excess, the second
whatever is left in order of its size.

The allocation is exact: it raises the amount or everything that can be sold, and asks no
leg for more than it holds. It is not a drain of the retired markets. Their excess is
their whole value, but excess is counted in USDC: a wanted market that is worth more than
a retired one can be further above its target, and a slice under the floor is left to the
second pass, which looks at size alone.
-/

namespace LemonMarket

namespace Agent

open Lib
open LemonVault (bps)

variable {legs : List Holding} {amount : Nat} {leg x y z p : Holding} {a : Allocation}
  {first : Allocation}

/-! ### The two passes -/

/-- What can be raised from a leg. -/
def Holding.sellableValue (leg : Holding) : Nat := if leg.sellable then leg.value else 0

/-- How far a leg is above its target. -/
def Holding.over (legs : List Holding) (leg : Holding) : Nat :=
  leg.value - (legs.map (·.value)).sum * leg.targetWeightBps / bps

def startAllocation (legs : List Holding) (amount : Nat) : Allocation where
  allocated := fun _ => 0
  capacity := legs.foldl (fun capacity leg =>
    Function.update capacity leg.ticker (if leg.sellable then leg.value else 0)) (fun _ => 0)
  remaining := amount

def overweight (legs : List Holding) : List (Holding × Nat) :=
  (((legs.filter (·.sellable)).map fun leg => (leg, leg.over legs)).filter
    fun entry => entry.2 > 0).insertionSort fun a b => b.2 ≤ a.2

def byRemaining (legs : List Holding) (first : Allocation) : List Holding :=
  (legs.filter fun leg => first.capacity leg.ticker > 0).insertionSort
    fun a b => first.capacity b.ticker ≤ first.capacity a.ticker

def firstPass (legs : List Holding) (amount : Nat) : Allocation :=
  (overweight legs).foldl Allocation.takeOver (startAllocation legs amount)

def secondPass (legs : List Holding) (amount : Nat) : Allocation :=
  (byRemaining legs (firstPass legs amount)).foldl Allocation.takeRest (firstPass legs amount)

theorem allocateUnwind_passes (legs : List Holding) (amount : Nat) :
    allocateUnwind legs amount =
      if (legs.map (·.value)).sum = 0 ∨ amount = 0 then []
      else (legs.map fun leg => (leg.ticker, (secondPass legs amount).allocated leg.ticker)).filter
        fun entry => entry.2 > 0 := rfl

/-! ### The passes draw -/

/-- The maps of an allocation, as a fill. -/
def Allocation.fill (a : Allocation) : Fill String := ⟨a.allocated, a.capacity, a.remaining⟩

theorem takeOver_draws : Draws Allocation.fill Allocation.takeOver
    (fun entry : Holding × Nat => entry.1.ticker) minUnwindLegUsdc := by
  intro a entry
  by_cases hfloor :
      min (min a.remaining entry.2) (a.capacity entry.1.ticker) < minUnwindLegUsdc
  · refine ⟨0, Nat.zero_le _, Nat.zero_le _, ?_, fun _ => rfl⟩
    rw [Allocation.takeOver, if_pos hfloor, Fill.draw_zero]
  · refine ⟨min (min a.remaining entry.2) (a.capacity entry.1.ticker), ?_, min_le_right _ _, ?_, ?_⟩
    · exact (min_le_left _ _).trans (min_le_left _ _)
    · rw [Allocation.takeOver, if_neg hfloor]
      rfl
    · show a.remaining < minUnwindLegUsdc → _
      omega

theorem takeRest_draws : Draws Allocation.fill Allocation.takeRest Holding.ticker 1 := by
  intro a leg
  refine ⟨min a.remaining (a.capacity leg.ticker), min_le_left _ _, min_le_right _ _, rfl, ?_⟩
  show a.remaining < 1 → _
  omega

/-- Where a leg's excess is all it has, a visit of the first pass leaves it whole, empties
it, or raises the amount. -/
theorem takeOver_whole (entry : Holding × Nat) (h : a.capacity entry.1.ticker = entry.2) :
    (a.takeOver entry).capacity entry.1.ticker = entry.2 ∨
      (a.takeOver entry).capacity entry.1.ticker = 0 ∨ (a.takeOver entry).remaining = 0 := by
  simp only [Allocation.takeOver]
  split
  · exact .inl h
  · simp only [Allocation.take, Function.update_self]
    omega

/-- And if the excess is worth a slice, it is emptied or less than a slice is wanted. -/
theorem takeOver_empties (entry : Holding × Nat) (h : a.capacity entry.1.ticker = entry.2)
    (hslice : minUnwindLegUsdc ≤ entry.2) :
    (a.takeOver entry).capacity entry.1.ticker = 0 ∨
      (a.takeOver entry).remaining < minUnwindLegUsdc := by
  have hpos : 0 < minUnwindLegUsdc := by decide
  simp only [Allocation.takeOver]
  split
  · omega
  · simp only [Allocation.take, Function.update_self]
    omega

theorem takeRest_empties (leg : Holding) :
    (a.takeRest leg).capacity leg.ticker = 0 ∨ (a.takeRest leg).remaining < 1 := by
  simp only [Allocation.takeRest, Allocation.take, Function.update_self]
  omega

/-! ### The orders of the passes -/

theorem mem_overweight {entry : Holding × Nat} : entry ∈ overweight legs ↔
    entry.1 ∈ legs ∧ entry.1.sellable = true ∧ entry.2 = entry.1.over legs ∧ 0 < entry.2 := by
  obtain ⟨leg, excess⟩ := entry
  simp only [overweight, List.mem_insertionSort, List.mem_filter, List.mem_map, Prod.mk.injEq,
    decide_eq_true_eq, gt_iff_lt]
  constructor
  · rintro ⟨⟨leg', ⟨hmem, hsell⟩, rfl, rfl⟩, hpos⟩
    exact ⟨hmem, hsell, rfl, hpos⟩
  · rintro ⟨hmem, hsell, rfl, hpos⟩
    exact ⟨⟨leg, ⟨hmem, hsell⟩, rfl, rfl⟩, hpos⟩

theorem mem_byRemaining :
    leg ∈ byRemaining legs first ↔ leg ∈ legs ∧ 0 < first.capacity leg.ticker := by
  simp only [byRemaining, List.mem_insertionSort, List.mem_filter, decide_eq_true_eq, gt_iff_lt]

section Distinct

variable (hdistinct : (legs.map Holding.ticker).Nodup)
include hdistinct

theorem nodup_overweight : ((overweight legs).map fun entry => entry.1.ticker).Nodup := by
  refine ((List.perm_insertionSort _ _).map _).nodup_iff.mpr ?_
  have hfilter : (((legs.filter (·.sellable)).map fun leg => (leg, leg.over legs)).map
      fun entry => entry.1.ticker).Nodup := by
    rw [List.map_map]
    exact hdistinct.sublist (List.filter_sublist.map _)
  exact hfilter.sublist (List.filter_sublist.map _)

theorem nodup_byRemaining (first : Allocation) :
    ((byRemaining legs first).map Holding.ticker).Nodup :=
  ((List.perm_insertionSort _ _).map _).nodup_iff.mpr
    (hdistinct.sublist (List.filter_sublist.map _))

theorem eq_of_ticker (hx : x ∈ legs) (hy : y ∈ legs) (h : x.ticker = y.ticker) : x = y :=
  List.inj_on_of_nodup_map hdistinct hx hy h

end Distinct

/-! ### What can be raised -/

theorem sum_sellableValue (legs : List Holding) :
    (legs.map Holding.sellableValue).sum = ((legs.filter (·.sellable)).map (·.value)).sum := by
  induction legs with
  | nil => rfl
  | cons leg rest ih =>
    by_cases hsell : leg.sellable = true
    · rw [List.filter_cons_of_pos hsell, List.map_cons, List.map_cons, List.sum_cons, List.sum_cons,
        ih, Holding.sellableValue, if_pos hsell]
    · rw [List.filter_cons_of_neg hsell, List.map_cons, List.sum_cons, ih, Holding.sellableValue,
        if_neg hsell, Nat.zero_add]

theorem sellableValue_le (leg : Holding) : leg.sellableValue ≤ leg.value := by
  rw [Holding.sellableValue]
  split <;> omega

/-- Setting the capacities leg by leg. -/
theorem capacity_foldl {capacity : String → Nat} {ticker : String}
    (h : ticker ∉ legs.map Holding.ticker) :
    legs.foldl (fun capacity leg => Function.update capacity leg.ticker
      (if leg.sellable then leg.value else 0)) capacity ticker = capacity ticker := by
  induction legs generalizing capacity with
  | nil => rfl
  | cons leg rest ih =>
    rw [List.map_cons, List.mem_cons, not_or] at h
    rw [List.foldl_cons, ih h.2, Function.update_of_ne h.1]

theorem start_sound (amount : Nat) : (startAllocation legs amount).fill.Sound
    (startAllocation legs amount).capacity (legs.map Holding.ticker) amount where
  split _ := Nat.zero_add _
  total := by
    show ((legs.map Holding.ticker).map (Function.const String 0)).sum + amount = amount
    rw [List.map_const, List.sum_replicate, nsmul_zero, Nat.zero_add]

section Distinct

variable (hdistinct : (legs.map Holding.ticker).Nodup)
include hdistinct

theorem startAllocation_capacity (amount : Nat) (hleg : leg ∈ legs) :
    (startAllocation legs amount).capacity leg.ticker = leg.sellableValue := by
  obtain ⟨before, after, rfl⟩ := List.append_of_mem hleg
  rw [List.map_append, List.map_cons, List.nodup_middle, List.nodup_cons, List.mem_append,
    not_or] at hdistinct
  simp only [startAllocation, List.foldl_append, List.foldl_cons]
  rw [capacity_foldl hdistinct.1.2, Function.update_self, Holding.sellableValue]

theorem firstPass_sound (amount : Nat) : (firstPass legs amount).fill.Sound
    (startAllocation legs amount).capacity (legs.map Holding.ticker) amount :=
  takeOver_draws.foldl_sound hdistinct
    (fun _ hentry => List.mem_map_of_mem (mem_overweight.mp hentry).1)
    (start_sound amount)

theorem secondPass_sound (amount : Nat) : (secondPass legs amount).fill.Sound
    (startAllocation legs amount).capacity (legs.map Holding.ticker) amount :=
  takeRest_draws.foldl_sound hdistinct
    (fun _ hleg => List.mem_map_of_mem (mem_byRemaining.mp hleg).1)
    (firstPass_sound hdistinct amount)

theorem firstPass_split (amount : Nat) (hleg : leg ∈ legs) :
    (firstPass legs amount).allocated leg.ticker + (firstPass legs amount).capacity leg.ticker =
      leg.sellableValue :=
  ((firstPass_sound hdistinct amount).split leg.ticker).trans
    (startAllocation_capacity hdistinct amount hleg)

theorem secondPass_split (amount : Nat) (hleg : leg ∈ legs) :
    (secondPass legs amount).allocated leg.ticker + (secondPass legs amount).capacity leg.ticker =
      leg.sellableValue :=
  ((secondPass_sound hdistinct amount).split leg.ticker).trans
    (startAllocation_capacity hdistinct amount hleg)

theorem secondPass_total (amount : Nat) :
    (legs.map fun leg => (secondPass legs amount).allocated leg.ticker).sum +
      (secondPass legs amount).remaining = amount := by
  have htotal := (secondPass_sound hdistinct amount).total
  rw [List.map_map] at htotal
  exact htotal

/-- The second pass stops short of the amount only when nothing is left to take. -/
theorem secondPass_exhausts (amount : Nat) (hleg : leg ∈ legs) :
    (secondPass legs amount).capacity leg.ticker = 0 ∨ (secondPass legs amount).remaining = 0 := by
  have hdone : (secondPass legs amount).capacity leg.ticker = 0 ∨
      (secondPass legs amount).remaining < 1 := by
    by_cases hleft : 0 < (firstPass legs amount).capacity leg.ticker
    · exact takeRest_draws.visited (nodup_byRemaining hdistinct _)
        (mem_byRemaining.mpr ⟨hleg, hleft⟩) fun m _ => takeRest_empties leg
    · have hle : (secondPass legs amount).capacity leg.ticker ≤
          (firstPass legs amount).capacity leg.ticker :=
        (takeRest_draws.foldl_le _ _ leg.ticker).2.1
      exact .inl (by omega)
  omega

theorem secondPass_raises (amount : Nat) :
    (legs.map fun leg => (secondPass legs amount).allocated leg.ticker).sum =
      min amount (legs.map Holding.sellableValue).sum := by
  have htotal := secondPass_total hdistinct amount
  have hle : (legs.map fun leg => (secondPass legs amount).allocated leg.ticker).sum ≤
      (legs.map Holding.sellableValue).sum := List.sum_le_sum fun leg hleg => by
    have := secondPass_split hdistinct amount hleg
    omega
  by_cases hshort : (secondPass legs amount).remaining = 0
  · omega
  · have hall : legs.map (fun leg => (secondPass legs amount).allocated leg.ticker) =
        legs.map Holding.sellableValue := List.map_congr_left fun leg hleg => by
      have := secondPass_split hdistinct amount hleg
      have := secondPass_exhausts hdistinct amount hleg
      omega
    rw [hall] at htotal ⊢
    omega

/-- The early exit, with no value or no amount, answers what the passes would. -/
theorem allocateUnwind_eq (amount : Nat) : allocateUnwind legs amount =
    (legs.map fun leg => (leg.ticker, (secondPass legs amount).allocated leg.ticker)).filter
      fun entry => entry.2 > 0 := by
  rw [allocateUnwind_passes]
  split
  · rename_i hnothing
    have hraised := secondPass_raises hdistinct amount
    have hvalues : (legs.map Holding.sellableValue).sum ≤ (legs.map (·.value)).sum :=
      List.sum_le_sum fun leg _ => sellableValue_le leg
    have hzero : (legs.map fun leg => (secondPass legs amount).allocated leg.ticker).sum = 0 := by
      omega
    rw [List.sum_eq_zero_iff, List.forall_mem_map] at hzero
    refine (List.filter_eq_nil_iff.mpr fun entry hentry => ?_).symm
    obtain ⟨leg, hleg, rfl⟩ := List.mem_map.mp hentry
    simp [hzero leg hleg]
  · rfl

/-- The answer is the legs that give something, with what they give. -/
theorem mem_allocateUnwind {entry : String × Nat} : entry ∈ allocateUnwind legs amount ↔
    ∃ leg ∈ legs, (leg.ticker, (secondPass legs amount).allocated leg.ticker) = entry ∧
      0 < entry.2 := by
  rw [allocateUnwind_eq hdistinct]
  simp only [List.mem_filter, List.mem_map, decide_eq_true_eq, gt_iff_lt]
  exact ⟨fun ⟨⟨leg, hleg, hentry⟩, hpos⟩ => ⟨leg, hleg, hentry, hpos⟩,
    fun ⟨leg, hleg, hentry, hpos⟩ => ⟨⟨leg, hleg, hentry⟩, hpos⟩⟩

/-- A leg's entry, if it has one, is what the passes took from it. -/
theorem mem_allocateUnwind_of_leg {taken : Nat} (hleg : leg ∈ legs) :
    (leg.ticker, taken) ∈ allocateUnwind legs amount ↔
      taken = (secondPass legs amount).allocated leg.ticker ∧ 0 < taken := by
  rw [mem_allocateUnwind hdistinct]
  constructor
  · rintro ⟨leg', hleg', hentry, hpos⟩
    obtain ⟨hticker, htaken⟩ := Prod.mk.inj hentry
    rw [hticker] at htaken
    exact ⟨htaken.symm, hpos⟩
  · rintro ⟨rfl, hpos⟩
    exact ⟨leg, hleg, rfl, hpos⟩

end Distinct

/-- An unwind raises its amount, or all that can be sold. It comes out of sellable legs,
each once and for no more than it is worth. -/
theorem allocateUnwind_exact (hdistinct : (legs.map Holding.ticker).Nodup) :
    ((allocateUnwind legs amount).map Prod.snd).sum =
        min amount ((legs.filter (·.sellable)).map (·.value)).sum ∧
      ((allocateUnwind legs amount).map Prod.fst).Sublist (legs.map Holding.ticker) ∧
      ∀ entry ∈ allocateUnwind legs amount, ∃ leg ∈ legs,
        leg.ticker = entry.1 ∧ leg.sellable = true ∧ 0 < entry.2 ∧ entry.2 ≤ leg.value := by
  refine ⟨?_, ?_, fun entry hentry => ?_⟩
  · rw [← sum_sellableValue, ← secondPass_raises hdistinct, allocateUnwind_eq hdistinct,
      sum_filter_pos, List.map_map]
    rfl
  · rw [allocateUnwind_eq hdistinct]
    refine (List.filter_sublist.map _).trans ?_
    rw [List.map_map]
    exact List.Sublist.refl _
  · obtain ⟨leg, hleg, rfl, hpos⟩ := (mem_allocateUnwind hdistinct).mp hentry
    have hsplit := secondPass_split hdistinct amount hleg
    simp only [Holding.sellableValue] at hsplit
    simp only at hpos
    split at hsplit
    · exact ⟨leg, hleg, rfl, by assumption, hpos, by show _ ≤ leg.value; omega⟩
    · omega

theorem allocateUnwind_exact_two :
    ((allocateUnwind [⟨"NVDA", 100, 0, true⟩, ⟨"AAPL", 40, 10000, false⟩] 150).map
        Prod.snd).sum = min 150 100 ∧
      ((allocateUnwind [⟨"NVDA", 100, 0, true⟩, ⟨"AAPL", 40, 10000, false⟩] 150).map
        Prod.fst).Sublist ["NVDA", "AAPL"] ∧
      ∀ entry ∈ allocateUnwind [⟨"NVDA", 100, 0, true⟩, ⟨"AAPL", 40, 10000, false⟩] 150,
        ∃ leg ∈ [(⟨"NVDA", 100, 0, true⟩ : Holding), ⟨"AAPL", 40, 10000, false⟩],
          leg.ticker = entry.1 ∧ leg.sellable = true ∧ 0 < entry.2 ∧ entry.2 ≤ leg.value :=
  allocateUnwind_exact (by decide)

/-! ### The retired legs -/

/-- A leg an operator has retired, with something in it to sell. -/
def Holding.Retired (leg : Holding) : Prop :=
  leg.sellable = true ∧ leg.targetWeightBps = 0 ∧ 0 < leg.value

/-- `x` is larger than `y`, or as large and listed earlier. -/
def Larger (legs : List Holding) (x y : Holding) : Prop :=
  y.value < x.value ∨ x.value = y.value ∧ [x, y].Sublist legs

instance : DecidablePred Holding.Retired := fun _ => inferInstanceAs (Decidable (_ ∧ _ ∧ _))

instance (legs : List Holding) (x y : Holding) : Decidable (Larger legs x y) :=
  inferInstanceAs (Decidable (_ ∨ _))

/-- Something is taken from a wanted market only if every retired one is taken whole. -/
def DrainsRetired (legs : List Holding) (amount : Nat) : Prop :=
  ∀ p ∈ legs, 0 < p.targetWeightBps →
    (∃ taken, (p.ticker, taken) ∈ allocateUnwind legs amount) →
      ∀ z ∈ legs, z.Retired → (z.ticker, z.value) ∈ allocateUnwind legs amount

/-- Every retired leg is larger than every wanted one that can be sold. -/
def RetiredLargest (legs : List Holding) : Prop :=
  ∀ z ∈ legs, z.Retired → ∀ p ∈ legs, p.sellable = true → 0 < p.targetWeightBps → Larger legs z p

theorem Holding.Retired.over_eq (hz : z.Retired) : z.over legs = z.value := by
  rw [Holding.over, hz.2.1, Nat.mul_zero, Nat.zero_div, Nat.sub_zero]

theorem Holding.Retired.sellableValue_eq (hz : z.Retired) : z.sellableValue = z.value := by
  rw [Holding.sellableValue, if_pos hz.1]

theorem firstPass_le_secondPass (legs : List Holding) (amount : Nat) (leg : Holding) :
    (firstPass legs amount).allocated leg.ticker ≤ (secondPass legs amount).allocated leg.ticker ∧
      (secondPass legs amount).capacity leg.ticker ≤
        (firstPass legs amount).capacity leg.ticker :=
  ⟨(takeRest_draws.foldl_le _ _ leg.ticker).1, (takeRest_draws.foldl_le _ _ leg.ticker).2.1⟩

theorem over_le (leg : Holding) : leg.over legs ≤ leg.value := Nat.sub_le ..

section Distinct

variable (hdistinct : (legs.map Holding.ticker).Nodup)
include hdistinct

/-- What the first pass takes from a leg is a slice of its excess, of the floor at least. -/
theorem firstPass_taken (hy : y ∈ legs) (htaken : 0 < (firstPass legs amount).allocated y.ticker) :
    (y, y.over legs) ∈ overweight legs ∧ minUnwindLegUsdc ≤ y.over legs ∧
      minUnwindLegUsdc ≤ (firstPass legs amount).allocated y.ticker := by
  have hstart : (startAllocation legs amount).fill.given y.ticker = 0 := rfl
  have hentry : (y, y.over legs) ∈ overweight legs := by
    by_contra hnot
    have hframe := (takeOver_draws.foldl_of_not_mem (l := overweight legs)
      (s := startAllocation legs amount) (k := y.ticker) fun hmem => by
        obtain ⟨⟨leg, excess⟩, hin, hticker⟩ := List.mem_map.mp hmem
        obtain ⟨hleg, -, hover, -⟩ := mem_overweight.mp hin
        have hsame := eq_of_ticker hdistinct hleg hy hticker
        simp only at hover hsame
        rw [hover, hsame] at hin
        exact hnot hin).1
    rw [hstart] at hframe
    exact absurd hframe htaken.ne'
  obtain ⟨m, rest, hfold, hgiven, -, hrest⟩ := takeOver_draws.visit (nodup_overweight hdistinct)
    hentry (startAllocation legs amount)
  have hafter : (firstPass legs amount).allocated y.ticker =
      (m.takeOver (y, y.over legs)).allocated y.ticker := by
    rw [firstPass, hfold]
    exact (takeOver_draws.foldl_of_not_mem hrest).1
  have hbefore : m.allocated y.ticker = 0 := hgiven
  -- the only visit to its ticker either skips the leg or takes a slice
  simp only [Allocation.takeOver] at hafter
  split at hafter
  · omega
  · simp only [Allocation.take, Function.update_self] at hafter
    exact ⟨hentry, by omega, by omega⟩

/-- The first pass reaches a leg only when every larger retired one is drained. -/
theorem firstPass_drains (hz : z ∈ legs) (hretired : z.Retired) (hy : y ∈ legs)
    (hlarger : Larger legs z y) (htaken : 0 < (firstPass legs amount).allocated y.ticker) :
    (firstPass legs amount).capacity z.ticker = 0 := by
  obtain ⟨hentry, hslice, -⟩ := firstPass_taken hdistinct hy htaken
  have hsell : y.sellable = true := (mem_overweight.mp hentry).2.1
  have hover : y.over legs ≤ y.value := over_le y
  have hvalue : z.over legs = z.value := hretired.over_eq
  have hle : y.value ≤ z.value := hlarger.elim le_of_lt fun h => h.1.ge
  have hzentry : (z, z.over legs) ∈ overweight legs :=
    mem_overweight.mpr ⟨hz, hretired.1, rfl, hvalue ▸ hretired.2.2⟩
  -- drained in the order of the excess, where a retired leg has its whole value
  have hahead : [(z, z.over legs), (y, y.over legs)].Sublist (overweight legs) := by
    refine ahead_insertionSort ((List.mem_insertionSort _).mp hzentry)
      ((List.mem_insertionSort _).mp hentry) (show y.over legs ≤ z.over legs by omega) ?_
    rcases hlarger with hlt | ⟨-, hlisted⟩
    · exact .inl (show ¬ z.over legs ≤ y.over legs by omega)
    · have hsold := pair_sublist_filter hlisted hretired.1 hsell
      exact .inr (pair_sublist_filter (hsold.map fun leg : Holding => (leg, leg.over legs))
        (decide_eq_true (mem_overweight.mp hzentry).2.2.2)
        (decide_eq_true (mem_overweight.mp hentry).2.2.2))
  refine takeOver_draws.emptied (nodup_overweight hdistinct) hahead (fun m hm => ?_) htaken
  refine takeOver_empties (z, z.over legs) (hm.trans ?_) (show _ ≤ z.over legs by omega)
  rw [hvalue, ← hretired.sellableValue_eq]
  exact startAllocation_capacity hdistinct amount hz

/-- The first pass takes a retired leg whole or not at all, unless the amount is raised. -/
theorem firstPass_whole (amount : Nat) (hz : z ∈ legs) (hretired : z.Retired) :
    (firstPass legs amount).capacity z.ticker = z.value ∨
      (firstPass legs amount).capacity z.ticker = 0 ∨ (firstPass legs amount).remaining = 0 := by
  have hvalue : z.over legs = z.value := hretired.over_eq
  have hentry : (z, z.over legs) ∈ overweight legs :=
    mem_overweight.mpr ⟨hz, hretired.1, rfl, hvalue ▸ hretired.2.2⟩
  have hstart := startAllocation_capacity hdistinct amount hz
  obtain ⟨m, rest, hfold, -, hleft, hrest⟩ := takeOver_draws.visit (nodup_overweight hdistinct)
    hentry (startAllocation legs amount)
  have hafter : (firstPass legs amount).capacity z.ticker =
      (m.takeOver (z, z.over legs)).capacity z.ticker := by
    rw [firstPass, hfold]
    exact (takeOver_draws.foldl_of_not_mem hrest).2
  have hwanted : (firstPass legs amount).remaining ≤ (m.takeOver (z, z.over legs)).remaining := by
    rw [firstPass, hfold]
    exact (takeOver_draws.foldl_le rest _ z.ticker).2.2
  have hvisit := takeOver_whole (a := m) (z, z.over legs)
    (by rw [hvalue, ← hretired.sellableValue_eq]; exact hleft.trans hstart)
  simp only at hvisit
  omega

/-- The second pass reaches a leg only when every larger one, if untouched so far, is
drained. -/
theorem secondPass_drains (hx : x ∈ legs) (hy : y ∈ legs) (hlarger : Larger legs x y)
    (hwhole : (firstPass legs amount).capacity x.ticker = x.value)
    (htaken : (firstPass legs amount).allocated y.ticker <
      (secondPass legs amount).allocated y.ticker) :
    (secondPass legs amount).capacity x.ticker = 0 := by
  have hsplit₁ := firstPass_split hdistinct amount hy
  have hsplit₂ := secondPass_split hdistinct amount hy
  have hsellable := sellableValue_le y
  have hle : y.value ≤ x.value := hlarger.elim le_of_lt fun h => h.1.ge
  have hyrest : y ∈ legs.filter fun leg => (firstPass legs amount).capacity leg.ticker > 0 :=
    List.mem_filter.mpr ⟨hy, decide_eq_true (by omega)⟩
  have hxrest : x ∈ legs.filter fun leg => (firstPass legs amount).capacity leg.ticker > 0 :=
    List.mem_filter.mpr ⟨hx, decide_eq_true (by omega)⟩
  refine takeRest_draws.emptied (nodup_byRemaining hdistinct _) ?_
    (fun m _ => takeRest_empties x) htaken
  refine ahead_insertionSort hxrest hyrest
    (show (firstPass legs amount).capacity y.ticker ≤ (firstPass legs amount).capacity x.ticker by
      omega) ?_
  -- the larger stands before it, or as large and listed first
  rcases hlarger with hlt | ⟨heq, hlisted⟩
  · refine .inl (show ¬ (firstPass legs amount).capacity x.ticker ≤
      (firstPass legs amount).capacity y.ticker from ?_)
    omega
  · exact .inr (pair_sublist_filter hlisted (List.mem_filter.mp hxrest).2
      (List.mem_filter.mp hyrest).2)

/-- With the retired legs larger than every wanted one, both passes come to them first. -/
theorem drainsRetired_of_largest (h : RetiredLargest legs) (amount : Nat) :
    DrainsRetired legs amount := by
  intro p hp hweight hgives z hz hretired
  obtain ⟨taken, htaken⟩ := hgives
  rw [mem_allocateUnwind_of_leg hdistinct hp] at htaken
  rw [mem_allocateUnwind_of_leg hdistinct hz]
  have hsplit := secondPass_split hdistinct amount hp
  have hsell : p.sellable = true := by
    by_contra hnot
    rw [Holding.sellableValue, if_neg hnot] at hsplit
    omega
  -- the wanted leg gives only if it sells, and then the retired one is larger
  have hlarger := h z hz hretired p hp hsell hweight
  have hdrained : (secondPass legs amount).capacity z.ticker = 0 := by
    have hmono := (firstPass_le_secondPass legs amount z).2
    -- it gave in the first pass, or in the second
    by_cases hfirst : 0 < (firstPass legs amount).allocated p.ticker
    · have := firstPass_drains hdistinct hz hretired hp hlarger hfirst
      omega
    · have hsecond : (firstPass legs amount).allocated p.ticker <
          (secondPass legs amount).allocated p.ticker := by omega
      rcases firstPass_whole hdistinct amount hz hretired with hwhole | hempty | hraised
      · exact secondPass_drains hdistinct hz hp hlarger hwhole hsecond
      · omega
      · have hsame : (secondPass legs amount).fill = (firstPass legs amount).fill :=
          takeRest_draws.foldl_of_lt (show (firstPass legs amount).remaining < 1 by omega)
        have := congrArg (fun f => f.given p.ticker) hsame
        exact absurd this hsecond.ne'
  have hz' := secondPass_split hdistinct amount hz
  rw [hretired.sellableValue_eq] at hz'
  exact ⟨by omega, hretired.2.2⟩

omit hdistinct in
theorem larger_or (hx : x ∈ legs) (hy : y ∈ legs) (hne : x ≠ y) :
    Larger legs x y ∨ Larger legs y x := by
  rcases lt_trichotomy x.value y.value with hlt | heq | hlt
  · exact .inr (.inl hlt)
  · rcases pair_sublist_or hx hy hne with h | h
    · exact .inl (.inr ⟨heq, h⟩)
    · exact .inr (.inr ⟨heq.symm, h⟩)
  · exact .inl (.inl hlt)

theorem larger_trans (hxy : Larger legs x y) (hyz : Larger legs y z) : Larger legs x z := by
  rcases hxy with hxy | ⟨hxy, hlist⟩ <;> rcases hyz with hyz | ⟨hyz, hlist'⟩
  · exact .inl (hyz.trans hxy)
  · exact .inl (hyz ▸ hxy)
  · exact .inl (hxy ▸ hyz)
  · exact .inr ⟨hxy.trans hyz, pair_sublist_trans (hdistinct.of_map _) hlist hlist'⟩

/-- What the retired legs larger than `p` hold. -/
def retiredAhead (legs : List Holding) (p leg : Holding) : Nat :=
  if leg.Retired ∧ Larger legs leg p then leg.value else 0

/-- One unit more than all of it. -/
def probe (legs : List Holding) (p : Holding) : Nat := (legs.map (retiredAhead legs p)).sum + 1

omit hdistinct in
theorem retiredAhead_le (leg : Holding) : retiredAhead legs p leg ≤ leg.sellableValue := by
  rw [retiredAhead]
  split
  · rename_i hahead
    exact hahead.1.sellableValue_eq.ge
  · exact Nat.zero_le _

omit hdistinct in
theorem retiredAhead_of_wanted (h : 0 < leg.targetWeightBps) : retiredAhead legs p leg = 0 :=
  if_neg fun hahead => h.ne' hahead.1.2.1

theorem probe_raised (hp : p ∈ legs) (hsell : p.sellable = true) (hweight : 0 < p.targetWeightBps)
    (hvalue : 0 < p.value) :
    (legs.map fun leg => (secondPass legs (probe legs p)).allocated leg.ticker).sum =
      probe legs p := by
  have hroom : probe legs p ≤ (legs.map Holding.sellableValue).sum := by
    refine sum_map_add_le hp (fun leg _ => retiredAhead_le leg) ?_
    rw [retiredAhead_of_wanted hweight, Holding.sellableValue, if_pos hsell]
    omega
  rw [secondPass_raises hdistinct, min_eq_left hroom]

/-- With a retired leg behind `p`, the probe is too little to take every retired leg whole
and something besides. -/
theorem probe_not_wanted (hdrains : DrainsRetired legs (probe legs p)) (hp : p ∈ legs)
    (hsell : p.sellable = true) (hweight : 0 < p.targetWeightBps) (hvalue : 0 < p.value)
    (hz : z ∈ legs) (hretired : z.Retired) (hbehind : ¬ Larger legs z p) :
    ∀ y ∈ legs, 0 < y.targetWeightBps →
      (secondPass legs (probe legs p)).allocated y.ticker = 0 := by
  intro y hy hywanted
  by_contra htaken
  let retired : Holding → Nat := fun leg => if leg.Retired then leg.value else 0
  have hwhole := hdrains y hy hywanted
    ⟨_, (mem_allocateUnwind_of_leg hdistinct hy).mpr ⟨rfl, Nat.pos_of_ne_zero htaken⟩⟩
  -- the probe is at most all that is retired
  have hahead : probe legs p ≤ (legs.map retired).sum := by
    refine sum_map_add_le hz (fun leg _ => ?_) ?_
    · simp only [retiredAhead, retired]
      split_ifs with h₁ h₂ <;> first | exact le_rfl | exact Nat.zero_le _ | exact absurd h₁.1 h₂
    · rw [retiredAhead, if_neg fun hahead => hbehind hahead.2]
      simp only [retired, if_pos hretired]
      exact hretired.2.2
  -- and would have taken all of it, and one more
  have hmore : (legs.map retired).sum + 1 ≤
      (legs.map fun leg => (secondPass legs (probe legs p)).allocated leg.ticker).sum := by
    refine sum_map_add_le hy (fun leg hleg => ?_) ?_
    · simp only [retired]
      split_ifs with hr
      · exact ((mem_allocateUnwind_of_leg hdistinct hleg).mp (hwhole leg hleg hr)).1.le
      · exact Nat.zero_le _
    · simp only [retired, if_neg fun hr : y.Retired => hywanted.ne' hr.2.1]
      omega
  have hraised := probe_raised hdistinct hp hsell hweight hvalue
  omega

/-- And yet a wanted leg is reached: the retired legs ahead of `p` do not raise the probe,
and both passes come to `p` before they come to the others. -/
theorem probe_wanted (hp : p ∈ legs) (hsell : p.sellable = true) (hweight : 0 < p.targetWeightBps)
    (hvalue : 0 < p.value) :
    ∃ y ∈ legs, 0 < y.targetWeightBps ∧
      0 < (secondPass legs (probe legs p)).allocated y.ticker := by
  by_contra hnone
  have hwanted : ∀ y ∈ legs, 0 < y.targetWeightBps →
      (secondPass legs (probe legs p)).allocated y.ticker = 0 := fun y hy hw => by
    by_contra htaken
    exact hnone ⟨y, hy, hw, Nat.pos_of_ne_zero htaken⟩
  have hraised := probe_raised hdistinct hp hsell hweight hvalue
  -- the probe is one more than the retired legs ahead, so one leg gives more than that
  obtain ⟨x, hx, hmore⟩ : ∃ x ∈ legs,
      retiredAhead legs p x < (secondPass legs (probe legs p)).allocated x.ticker := by
    by_contra hall
    have hle := List.sum_le_sum (l := legs) fun x hx => not_lt.mp fun hlt => hall ⟨x, hx, hlt⟩
    have hprobe : (legs.map (retiredAhead legs p)).sum < probe legs p := Nat.lt_succ_self _
    omega
  have hxsplit := secondPass_split hdistinct (probe legs p) hx
  have hxretired : x.Retired := by
    have hunwanted := hwanted x hx
    have hvalue := sellableValue_le x
    refine ⟨?_, by omega, by omega⟩
    by_contra hnot
    rw [Holding.sellableValue, if_neg hnot] at hxsplit
    omega
  -- it is retired, and not among those ahead: it comes behind `p`
  have hbehind : ¬ Larger legs x p := fun hlarger => by
    rw [retiredAhead, if_pos ⟨hxretired, hlarger⟩] at hmore
    rw [hxretired.sellableValue_eq] at hxsplit
    omega
  have hahead : Larger legs p x :=
    (larger_or hp hx fun e => hweight.ne' (e ▸ hxretired.2.1)).resolve_right hbehind
  have hpsplit := secondPass_split hdistinct (probe legs p) hp
  have hpfirst := firstPass_split hdistinct (probe legs p) hp
  have hpmono := firstPass_le_secondPass legs (probe legs p) p
  have hpnone := hwanted p hp hweight
  rw [Holding.sellableValue, if_pos hsell] at hpsplit hpfirst
  by_cases hsecond : (firstPass legs (probe legs p)).allocated x.ticker <
      (secondPass legs (probe legs p)).allocated x.ticker
  · have := secondPass_drains hdistinct hp hx hahead (by omega) hsecond
    omega
  · -- a slice taken by the first pass is past the retired legs ahead, which took the rest
    have htaken : 0 < (firstPass legs (probe legs p)).allocated x.ticker := by omega
    have hslice := (firstPass_taken hdistinct hx htaken).2.2
    have hfirst := (firstPass_sound hdistinct (probe legs p)).total
    rw [List.map_map] at hfirst
    have hmost : (legs.map (retiredAhead legs p)).sum + minUnwindLegUsdc ≤
        (legs.map fun leg => (firstPass legs (probe legs p)).allocated leg.ticker).sum := by
      refine sum_map_add_le hx (fun y hy => ?_) ?_
      · rw [retiredAhead]
        split
        · rename_i hy'
          have hdrained := firstPass_drains hdistinct hy hy'.1 hx
            (larger_trans hdistinct hy'.2 hahead) htaken
          have hysplit := firstPass_split hdistinct (probe legs p) hy
          rw [hy'.1.sellableValue_eq] at hysplit
          omega
        · exact Nat.zero_le _
      · rw [retiredAhead, if_neg fun h => hbehind h.2]
        omega
    have hprobe : probe legs p = (legs.map (retiredAhead legs p)).sum + 1 := rfl
    have hfloor : 1 < minUnwindLegUsdc := by decide
    have hle : (legs.map fun leg => (firstPass legs (probe legs p)).allocated leg.ticker).sum ≤
        probe legs p := (Nat.le_add_right _ _).trans hfirst.le
    omega

/-- A wanted leg that is not smaller than some retired one is reached too early. -/
theorem largest_of_drainsRetired (h : ∀ amount, DrainsRetired legs amount) :
    RetiredLargest legs := by
  intro z hz hretired p hp hsell hweight
  by_contra hbehind
  have hvalue : 0 < p.value := by
    have := hretired.2.2
    by_contra hzero
    exact hbehind (.inl (by omega))
  obtain ⟨y, hy, hwanted, htaken⟩ := probe_wanted hdistinct hp hsell hweight hvalue
  exact htaken.ne'
    (probe_not_wanted hdistinct (h _) hp hsell hweight hvalue hz hretired hbehind y hy hwanted)

end Distinct

/-- Retired legs are drained first, whatever the amount, exactly when each of them is
larger than every wanted leg that can be sold, earlier in the list if they tie. -/
theorem drainsRetired_iff (hdistinct : (legs.map Holding.ticker).Nodup) :
    (∀ amount, DrainsRetired legs amount) ↔ RetiredLargest legs :=
  ⟨largest_of_drainsRetired hdistinct, fun h amount => drainsRetired_of_largest hdistinct h amount⟩

/-- A vault that has dropped `NVDA`, is far above its target in `AAPL` and holds no `MSTR`
yet, in USDC. -/
def driftedLegs : List Holding :=
  [⟨"NVDA", 100000000, 0, true⟩, ⟨"AAPL", 1000000000, 5000, true⟩, ⟨"MSTR", 0, 5000, true⟩]

theorem driftedLegs_keeps_retired :
    ¬ ∀ legs amount, (legs.map Holding.ticker).Nodup → DrainsRetired legs amount := by
  intro h
  have hdrained := h driftedLegs 300000000 (by decide) ⟨"AAPL", 1000000000, 5000, true⟩ (by decide)
    (by decide) ⟨300000000, by decide⟩ ⟨"NVDA", 100000000, 0, true⟩ (by decide) (by decide)
  exact absurd hdrained (by decide)

theorem driftedLegs_drainsRetired_iff :
    (∀ amount, DrainsRetired driftedLegs amount) ↔ RetiredLargest driftedLegs :=
  drainsRetired_iff (by decide)

end Agent

end LemonMarket
