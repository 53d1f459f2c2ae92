import LemonMarket.Agent.IdleReturn
import LemonMarket.Lib.Triple

/-!
# LemonMarket.Agent.UnwindHome

**Whether an unwind's proceeds go home.** `returnToVault` is the last step of an unwind, and
a market that cannot be closed throws past it: what the markets before it sold for stays in
the agent's wallet. `closeAll` counts such a market and carries on.

So the proceeds are handed over exactly when no slice fails to close after slices that
closed and paid something (`unwind_handsOver_iff`).
-/

namespace LemonMarket

namespace Agent

open Lib Lib.Effect

variable {venue : Venue} {leg : Leg} {slice : String × Nat} {before : List (String × Nat)}
  {n : Nat}

/-! ### What was raised -/

/-- The USDC the sales on record paid. -/
def raised (activity : List Row) : Nat :=
  ((activity.filter fun row => row.kind = .spotSell).map (·.notionalAssets)).sum

/-- Whichever way an unwind ends, what its sales raised has been handed to the return step:
the vault has it back, or refused an amount it was part of. -/
def HandsOver (venue : Venue) (ended : Except VenueFailure Unit × Trip) : Prop :=
  raised ended.2.activity ≤ ended.2.returned ∨
    ∃ amount, raised ended.2.activity ≤ amount ∧ venue.takesBack amount = false ∧
      ended.1 = .error ⟨.returnFailed, none⟩

/-- What slices pay. -/
def slicesPaid (venue : Venue) (slices : List (String × Nat)) : Nat :=
  (slices.map (slicePaid venue)).sum

/-- Some slice fails to close after slices that closed and paid something. -/
def Strands (venue : Venue) (slices : List (String × Nat)) : Prop :=
  ∃ before slice after, slices = before ++ slice :: after ∧
    (∀ earlier ∈ before, SliceCloses venue earlier) ∧ 0 < slicesPaid venue before ∧
      ¬ SliceCloses venue slice

theorem raised_snoc (activity : List Row) (row : Row) :
    raised (activity ++ [row]) =
      raised activity + if row.kind = .spotSell then row.notionalAssets else 0 := by
  rw [raised, raised, List.filter_append, List.map_append, List.sum_append]
  by_cases hsale : row.kind = .spotSell
  · simp [hsale]
  · simp [hsale]

/-- So much has been raised, and none of it returned. -/
def Raised (n : Nat) (t : Trip) : Prop := raised t.activity = n ∧ t.returned = 0

/-- A routine stopped before the return step. -/
def StopsShort (n : Nat) (failure : VenueFailure) (t : Trip) : Prop :=
  Raised n t ∧ failure.stop ≠ .returnFailed

/-! ### The routines -/

theorem push_other {row : Row} (hkind : row.kind ≠ .spotSell) {E : VenueFailure → Trip → Prop} :
    Triple (Raised n) (push row) (fun _ => Raised n) E := by
  refine .update fun t h => ⟨?_, h.2⟩
  rw [raised_snoc, if_neg hkind, Nat.add_zero]
  exact h.1

theorem push_sale {row : Row} (hkind : row.kind = .spotSell) {E : VenueFailure → Trip → Prop} :
    Triple (Raised n) (push row) (fun _ => Raised (n + row.notionalAssets)) E := by
  refine .update fun t h => ⟨?_, h.2⟩
  rw [raised_snoc, if_pos hkind, h.1]

theorem orThrow_short {c : Bool} {stop : Stop} (hstop : stop ≠ .returnFailed) :
    Triple (Raised n) (orThrow c stop) (fun _ => Raised n) (StopsShort n) :=
  .ite (fun _ => .pure fun _ h => h) fun _ => .fail fun _ h => ⟨h, hstop⟩

theorem orThrowExecution_short {c : Bool} {stop : Stop} (hstop : stop ≠ .returnFailed) :
    Triple (Raised n) (orThrowExecution c stop) (fun _ => Raised n) (StopsShort n) :=
  .ite (fun _ => .pure fun _ h => h) fun _ => .failWith fun _ h => ⟨h, hstop⟩

theorem expect_short {α : Type} (stop : Stop) (hstop : stop ≠ .returnFailed) (a : Option α) :
    Triple (Raised n) (Effect.expect ⟨stop, none⟩ a : Adapter α) (fun _ => Raised n)
      (StopsShort n) := by
  cases a with
  | none => exact .fail fun _ h => ⟨h, hstop⟩
  | some a => exact .pure fun _ h => h

theorem lotUnits_short (decimals : Nat) :
    Triple (Raised n) (lotUnits leg decimals) (fun _ => Raised n) (StopsShort n) := by
  unfold lotUnits
  split
  next => exact .fail fun _ h => ⟨h, nofun⟩
  next => exact .ite (fun _ => .fail fun _ h => ⟨h, nofun⟩) fun _ => .pure fun _ h => h

theorem sellSpot_raises (units : Nat) :
    Triple (Raised n) (sellSpot leg units) (fun paid => Raised (n + paid)) (StopsShort n) := by
  refine .ite (fun _ => .pure fun _ h => h) fun _ => ?_
  refine .bind (orThrowExecution_short nofun) fun _ => ?_
  refine .bind (orThrow_short nofun) fun _ => .bind (orThrow_short nofun) fun _ => ?_
  split
  next => exact .failWith fun _ h => ⟨h, nofun⟩
  next proceeds _ =>
    refine .bind (push_sale rfl) fun _ => ?_
    exact .pure fun _ h => h

/-- The sale is a close's last step: a close that stops has sold nothing. -/
theorem closeLeg_raises (units hint : Nat) :
    Triple (Raised n) (closeLeg leg units hint) (fun paid => Raised (n + paid))
      (StopsShort n) := by
  refine .bind (lotUnits_short _) ?_
  intro lot
  refine .bind (.onlyIf (.bind (orThrow_short nofun) fun _ => push_other (by simp))
    fun _ h => h) fun _ => ?_
  exact sellSpot_raises _

theorem closeSlices_raises (slices : List (String × Nat)) :
    Triple (Raised n) (closeSlices venue slices) (fun paid => Raised (n + paid))
      fun _ _ => True := by
  induction slices generalizing n with
  | nil => exact .pure fun _ h => h
  | cons slice rest ih =>
      simp only [closeSlices]
      split
      next => exact ih
      next leg units _ =>
        refine .bind ((closeLeg_raises units slice.2).consequence (fun _ h => h)
          (fun _ _ h => h) fun _ _ _ => trivial) ?_
        intro proceeds
        refine .bind ih ?_
        intro more
        exact .pure fun _ h => by rwa [← Nat.add_assoc]

/-- The margin comes home or it does not: the unwind goes on with what was raised. -/
theorem repatriate_raises (leverageBps : Nat) :
    Triple (Raised n) ((repatriateMargin venue false (some leverageBps)).attempt fun _ => pure 0)
      (fun _ => Raised n) fun _ _ => False := by
  have hhome : Triple (Raised n) (repatriateMargin venue false (some leverageBps))
      (fun _ => Raised n) (StopsShort n) := by
    refine .bind (expect_short .marginUnread nofun _) ?_
    intro available
    refine .ite (fun _ => .pure fun _ h => h) fun _ => ?_
    refine .bind (.onlyIf (.bind (orThrow_short nofun) fun _ => push_other (by simp))
      fun _ h => h) fun _ => ?_
    refine .bind (expect_short .crossingFailed nofun _) ?_
    intro landed
    exact .bind (push_other (by simp)) fun _ => .pure fun _ h => h
  exact .attempt hhome fun _ => .pure fun _ h => h.1

/-! ### A slice that fails -/

theorem lotUnits_fails (hlots : ¬ 0 < leg.lotSize.getD 0) (decimals : Nat) :
    Effect.Fails (lotUnits leg decimals) := by
  unfold lotUnits
  cases hlot : leg.lotSize with
  | none => exact .fail _
  | some lot =>
      rw [hlot, Option.getD_some] at hlots
      simp only [if_pos (not_lt.mp hlots)]
      exact .fail _

theorem sellSpot_fails {units : Nat} (hsold : units ≠ 0)
    (hrefused : ¬ (leg.sellRoute units = true ∧ leg.builds = true ∧ leg.approves = true ∧
      (leg.sells units).isSome = true)) : Effect.Fails (sellSpot leg units) := by
  rw [sellSpot, if_neg hsold]
  cases hroute : leg.sellRoute units with
  | false => exact .bind_left (.failWith _) _
  | true =>
      refine .bind_right (a := ()) (.pure ()) ?_
      cases hbuilds : leg.builds with
      | false => exact .bind_left (.require rfl _) _
      | true =>
          refine .bind_right (.require rfl _) ?_
          cases happroves : leg.approves with
          | false => exact .bind_left (.require rfl _) _
          | true =>
              refine .bind_right (.require rfl _) ?_
              cases hsells : leg.sells units with
              | none => exact .failWith _
              | some paid => simp [hroute, hbuilds, happroves, hsells] at hrefused

/-- A close that does not go through stops: at the grid, at the order or at the sale. -/
theorem closeLeg_fails {units : Nat} (h : ¬ LegCloses leg units) (hint : Nat) :
    Effect.Fails (closeLeg leg units hint) := by
  by_cases hlots : 0 < leg.lotSize.getD 0
  swap
  · exact .bind_left (lotUnits_fails hlots _) _
  refine .bind_right (lotUnits_yields hlots) ?_
  by_cases horder : snapToLot units (gridUnits leg) ≠ 0 → leg.takesOrder
    (formatUnitsForVenue (snapToLot units (gridUnits leg)) leg.spotTokenDecimals) = true
  swap
  · obtain ⟨hperp, hrejected⟩ := Classical.not_imp.mp horder
    refine .bind_left ?_ _
    rw [Effect.onlyIf, if_pos hperp]
    exact .bind_left (.require (Bool.eq_false_of_not_eq_true hrejected) _) _
  refine .bind_right (closeShort_if_yields hint horder) ?_
  -- an empty sale cannot fail, so a close that gets so far goes through
  by_cases hsold : min units leg.balance = 0
  · exact absurd ⟨hlots, horder, fun h => absurd hsold h, fun h => absurd hsold h,
      fun h => absurd hsold h, fun h => absurd hsold h⟩ h
  · refine sellSpot_fails hsold ?_
    rintro ⟨hroute, hbuilds, happroves, hsells⟩
    exact h ⟨hlots, horder, fun _ => hroute, fun _ => hbuilds, fun _ => happroves,
      fun _ => hsells⟩

/-- The loop over the slices goes through the ones that close. -/
theorem closeSlices_run (h : ∀ slice ∈ before, SliceCloses venue slice) {t : Trip}
    (ht : Raised n t) :
    ∃ t', closeSlices venue before t = (.ok (slicesPaid venue before), t') ∧
      Raised (n + slicesPaid venue before) t' := by
  obtain ⟨t', hrun⟩ := closeSlices_yields h t
  exact ⟨t', hrun, (closeSlices_raises before).ok ht hrun⟩

theorem closeSlices_cons {leg : Leg} {units : Nat} (rest : List (String × Nat))
    (hslice : sliceOf venue slice = some (leg, units)) :
    closeSlices venue (slice :: rest) = closeLeg leg units slice.2 >>= fun proceeds =>
      closeSlices venue rest >>= fun more => pure (proceeds + more) := by
  simp only [closeSlices, hslice]

/-- It stops at the first that does not, with what the ones before it paid. -/
theorem closeSlices_stops (hbefore : ∀ earlier ∈ before, SliceCloses venue earlier)
    (hslice : ¬ SliceCloses venue slice) {t : Trip} (ht : Raised n t) :
    ∃ failure t', StopsShort (n + slicesPaid venue before) failure t' ∧
      ∀ after, closeSlices venue (before ++ slice :: after) t = (.error failure, t') := by
  induction before generalizing n t with
  | nil =>
      obtain ⟨leg, units, hfound, hfails⟩ : ∃ leg units,
          sliceOf venue slice = some (leg, units) ∧ ¬ LegCloses leg units := by
        simpa only [SliceCloses, not_forall, exists_prop] using hslice
      obtain ⟨failure, t', hstop⟩ := closeLeg_fails hfails slice.2 t
      refine ⟨failure, t', (closeLeg_raises units slice.2).error ht hstop, fun after => ?_⟩
      rw [List.nil_append, closeSlices_cons _ hfound]
      exact bind_of_error hstop
  | cons first rest ih =>
      obtain ⟨hfirst, hrest⟩ := List.forall_mem_cons.mp hbefore
      rw [slicesPaid, List.map_cons, List.sum_cons, ← Nat.add_assoc]
      cases hfound : sliceOf venue first with
      -- a slice of no leg is passed over and pays nothing
      | none =>
          simp only [List.cons_append, closeSlices, slicePaid, hfound, Nat.add_zero]
          exact ih hrest ht
      | some found =>
          obtain ⟨leg, units⟩ := found
          obtain ⟨t₁, hclosed⟩ := closeLeg_yields (hfirst leg units hfound) first.2 t
          have ht₁ := (closeLeg_raises units first.2).ok ht hclosed
          obtain ⟨failure, t', hshort, hstop⟩ := ih hrest ht₁
          refine ⟨failure, t', ?_, fun after => ?_⟩
          · simpa only [slicesPaid, slicePaid, hfound] using hshort
          · rw [List.cons_append, closeSlices_cons _ hfound, bind_of_ok hclosed]
            exact bind_of_error (hstop after)

/-- Slices all close, or there is a first that does not. -/
theorem all_close_or (venue : Venue) (slices : List (String × Nat)) :
    (∀ slice ∈ slices, SliceCloses venue slice) ∨
      ∃ before slice after, slices = before ++ slice :: after ∧
        (∀ earlier ∈ before, SliceCloses venue earlier) ∧ ¬ SliceCloses venue slice := by
  induction slices with
  | nil => exact .inl nofun
  | cons first rest ih =>
      by_cases hfirst : SliceCloses venue first
      · rcases ih with hall | ⟨before, slice, after, rfl, hbefore, hslice⟩
        · exact .inl (List.forall_mem_cons.mpr ⟨hfirst, hall⟩)
        · exact .inr ⟨first :: before, slice, after, rfl,
            List.forall_mem_cons.mpr ⟨hfirst, hbefore⟩, hslice⟩
      · exact .inr ⟨[], first, rest, rfl, nofun, hfirst⟩

/-! ### The whole unwind -/

theorem slicesPaid_unpriced (h : ¬ Priced venue) (slices : List (String × Nat)) :
    slicesPaid venue slices = 0 := by
  refine List.sum_eq_zero fun paid hpaid => ?_
  obtain ⟨slice, -, rfl⟩ := List.mem_map.mp hpaid
  rw [slicePaid]
  cases hfound : sliceOf venue slice with
  | none => rfl
  | some found =>
      obtain ⟨leg, units⟩ := found
      exact absurd ⟨leg, sliceOf_some hfound⟩ h

/-- What has been raised is covered by what is handed to the return step. -/
theorem returnAll_hands {t : Trip} (ht : Raised n t) {amount : Nat} (hcovers : n ≤ amount) :
    HandsOver venue (returnAll venue amount t) := by
  obtain ⟨hraised, hreturned⟩ := ht
  rw [returnAll]
  split
  next hzero =>
    refine .inl ?_
    show raised t.activity ≤ t.returned
    omega
  next =>
    cases htakes : venue.takesBack amount with
    | false =>
        exact .inr ⟨amount, hraised.le.trans hcovers, htakes, rfl⟩
    | true =>
        refine .inl ?_
        show raised (t.activity ++ [_]) ≤ t.returned + amount
        rw [raised_snoc, if_neg (by simp), hraised]
        omega

/-- A slice that fails takes what was raised before it past the return step. -/
theorem Strands.not_handsOver {amount leverageBps : Nat}
    (h : Strands venue (allocateUnwind (holdings venue) amount)) :
    ¬ HandsOver venue (unwind venue amount leverageBps {}) := by
  obtain ⟨before, slice, after, hslices, hbefore, hpaid, hslice⟩ := h
  have hpriced : Priced venue := by
    by_contra hunpriced
    exact absurd hpaid (by rw [slicesPaid_unpriced hunpriced]; exact lt_irrefl 0)
  have hstart : Raised 0 {} := ⟨rfl, rfl⟩
  obtain ⟨failure, t, ⟨⟨hraised, hreturned⟩, hshort⟩, hstop⟩ :=
    closeSlices_stops hbefore hslice hstart
  rw [unwind_priced hpriced, hslices, bind_of_error (hstop after)]
  rintro (hle | ⟨amount, -, -, hrefused⟩)
  · have hle' : raised t.activity ≤ t.returned := hle
    omega
  · have hfailure : failure = ⟨.returnFailed, none⟩ := Except.error.inj hrefused
    exact hshort (by rw [hfailure])

theorem handsOver_of_not_strands {amount : Nat} (leverageBps : Nat)
    (h : ¬ Strands venue (allocateUnwind (holdings venue) amount)) :
    HandsOver venue (unwind venue amount leverageBps {}) := by
  have hstart : Raised 0 {} := ⟨rfl, rfl⟩
  by_cases hpriced : Priced venue
  swap
  · rw [unwind_unpriced hpriced]
    exact .inl (Nat.zero_le _)
  rw [unwind_priced hpriced]
  rcases all_close_or venue (allocateUnwind (holdings venue) amount) with
    hall | ⟨before, slice, after, hslices, hbefore, hslice⟩
  · obtain ⟨t₁, hclosed, hraised⟩ := closeSlices_run hall hstart
    obtain ⟨t₂, hhome⟩ := repatriate_yields leverageBps t₁
    rw [bind_of_ok hclosed, bind_of_ok hhome]
    exact returnAll_hands ((repatriate_raises leverageBps).ok hraised hhome) (by omega)
  · obtain ⟨failure, t, ⟨⟨hraised, hreturned⟩, hshort⟩, hstop⟩ :=
      closeSlices_stops hbefore hslice hstart
    -- it stops before anything was paid
    have hnothing : slicesPaid venue before = 0 := by
      by_contra hpaid
      exact h ⟨before, slice, after, hslices, hbefore, Nat.pos_of_ne_zero hpaid, hslice⟩
    rw [hslices, bind_of_error (hstop after)]
    refine .inl ?_
    show raised t.activity ≤ t.returned
    omega

/-- **When an unwind's proceeds go home.** For every venue, amount and leverage, and however
the unwind ends, what its sales raised has been handed to the return step if and only if no
slice of the allocation fails to close after slices that closed and paid something. -/
theorem unwind_handsOver_iff (venue : Venue) (amount leverageBps : Nat) :
    HandsOver venue (unwind venue amount leverageBps {}) ↔
      ¬ Strands venue (allocateUnwind (holdings venue) amount) :=
  ⟨fun h hstrands => hstrands.not_handsOver h, handsOver_of_not_strands leverageBps⟩

/-! ### Two markets, the second without a route out -/

/-- A market holding 300 tokens worth a dollar each, and whether its sale has a route. -/
def soldLeg (ticker : String) (hasRoute : Bool) : Leg where
  ticker := ticker
  symbol := ticker
  perpSymbol := ticker
  spotTokenDecimals := 6
  targetWeightBps := 5000
  balance := 300000000
  sellQuote := some 300000000
  position := 0
  entryPrice := none
  mark := some 1
  lotSize := some (1 / 1000)
  minOrderSize := some 10
  takesOrder := fun _ => true
  builds := true
  approves := true
  buyQuote := some
  buys := some
  sellRoute := fun _ => hasRoute
  sells := some

def twoLegs : Venue :=
  { openVenue 0 0 with legs := [soldLeg "AAPL" true, soldLeg "NVDA" false] }

/-- Raising all six hundred dollars sells the first market, throws at the second and returns
nothing. -/
theorem unwind_leaves_first_sale :
    ¬ ∀ (venue : Venue) (amount leverageBps : Nat),
      HandsOver venue (unwind venue amount leverageBps {}) := by
  intro h
  rcases h twoLegs 600000000 20000 with hle | ⟨amount, -, hrefused, -⟩
  · exact absurd hle (by decide +kernel)
  · cases hrefused

end Agent

end LemonMarket
