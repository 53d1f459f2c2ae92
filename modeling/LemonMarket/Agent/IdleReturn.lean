import LemonMarket.Agent.Offers
import LemonMarket.Agent.Venue
import LemonMarket.Agent.Worker
import LemonMarket.Contracts.Deployment

/-!
# LemonMarket.Agent.IdleReturn

**Which decisions bring USDC back.** Only an unwind (or a close order) ends at
`returnToVault`, and an unwind returns what it raises: spot it sells and margin it
frees. The USDC already in the agent's wallet, which `resumableAmount` keeps out of
deployments for the queue's sake, is on no path to the vault.

So with a short queue and idle USDC something is returned exactly when an unwind is due
that pays, whatever the idle amount is.
-/

namespace LemonMarket

namespace Agent

open Lib
open LemonVault (bps)

variable {cfg : Settings} {venue : Venue} {s : VaultSnapshot} {leg : Leg}

/-! ### Nothing but the return step returns -/

theorem keeps_push (row : Row) : Effect.Keeps Trip.returned (push row) := .update fun _ => rfl

theorem keeps_orThrowExecution (c : Bool) (stop : Stop) :
    Effect.Keeps Trip.returned (orThrowExecution c stop) := .ite (.pure _) (.failWith _)

theorem keeps_lotUnits (decimals : Nat) : Effect.Keeps Trip.returned (lotUnits leg decimals) := by
  simp only [lotUnits]
  split
  · exact .fail _
  · exact .ite (.fail _) (.pure _)

theorem keeps_sellSpot (units : Nat) : Effect.Keeps Trip.returned (sellSpot leg units) := by
  refine .ite (.pure _) (.bind (keeps_orThrowExecution _ _) fun _ => .bind (.require _ _) fun _ =>
    .bind (.require _ _) fun _ => ?_)
  split
  · exact .failWith _
  · exact .bind (keeps_push _) fun _ => .pure _

theorem keeps_closeLeg (units hint : Nat) :
    Effect.Keeps Trip.returned (closeLeg leg units hint) :=
  .bind (keeps_lotUnits _) fun _ =>
    .bind (.onlyIf (.bind (.require _ _) fun _ => keeps_push _)) fun _ => keeps_sellSpot _

theorem keeps_closeSlices (slices : List (String × Nat)) :
    Effect.Keeps Trip.returned (closeSlices venue slices) := by
  induction slices with
  | nil => exact .pure _
  | cons slice rest ih =>
    simp only [closeSlices]
    split
    · exact ih
    · exact .bind (keeps_closeLeg _ _) fun _ => .bind ih fun _ => .pure _

theorem keeps_repatriateMargin (sweepIdle : Bool) (retain : Option Nat) :
    Effect.Keeps Trip.returned (repatriateMargin venue sweepIdle retain) :=
  .bind (.expect _ _) fun _ => .ite (.pure _) (.bind (.onlyIf (.bind (.require _ _) fun _ =>
    keeps_push _)) fun _ => .bind (.expect _ _) fun _ => .bind (keeps_push _) fun _ => .pure _)

theorem keeps_bridgeMargin (amount : Nat) :
    Effect.Keeps Trip.returned (bridgeMargin venue amount) :=
  .bind (.expect _ _) fun _ => .bind (keeps_push _) fun _ => .bind (keeps_push _) fun _ => .pure _

theorem keeps_openHedge (shortUnits spend : Nat) :
    Effect.Keeps Trip.returned (openHedge leg shortUnits spend) := by
  refine .bind (.require _ _) fun _ => .bind (.require _ _) fun _ => ?_
  refine .bind (keeps_push _) fun _ => ?_
  split
  · exact .bind (.attempt (.bind (.require _ _) fun _ => keeps_push _) fun _ => .pure _)
      fun _ => .failWith _
  · exact keeps_push _

theorem keeps_deploy (ticker : String) (legs : DeploymentLegs) (leverageBps : Nat) :
    Effect.Keeps Trip.returned (deploy cfg venue ticker legs leverageBps) := by
  refine .bind (.expect _ _) fun leg => .bind (.require _ _) fun _ =>
    .bind (.ite (.expect _ _) (keeps_bridgeMargin _)) fun _ =>
      .bind (keeps_orThrowExecution _ _) fun _ => .bind (.require _ _) fun _ =>
        .bind (keeps_orThrowExecution _ _) fun _ => ?_
  split
  · exact .failWith _
  · exact .bind (.require _ _) fun _ => .bind (keeps_orThrowExecution _ _) fun _ =>
      .bind (keeps_lotUnits _) fun _ => .bind (keeps_orThrowExecution _ _) fun _ =>
        keeps_openHedge _ _

theorem keeps_rebalance (ticker : String) (targetUnits : Nat) :
    Effect.Keeps Trip.returned (rebalance venue ticker targetUnits) :=
  .bind (.expect _ _) fun _ => .ite (.pure _) (.bind (keeps_lotUnits _) fun _ =>
    .ite (.pure _) (.ite (.pure _) (.bind (.require _ _) fun _ => keeps_push _)))

/-- Whatever is executed, only an unwind and a close order can return USDC. -/
theorem keeps_execute {d : Decision} (hunwind : d.kind ≠ .unwind) (hclose : d.kind ≠ .closeAll) :
    Effect.Keeps Trip.returned (execute cfg venue s d) := by
  simp only [execute]
  split
  · exact .bind (.expect _ _) fun _ => .bind (.expect _ _) fun _ =>
      .bind (.onlyIf (.require _ _)) fun _ => keeps_deploy _ _ _
  · exact .bind (.onlyIf (.require _ _)) fun _ => .bind (keeps_bridgeMargin _) fun _ => .pure _
  next h => exact absurd h hunwind
  · exact .bind (.expect _ _) fun _ => .bind (.expect _ _) fun _ => keeps_rebalance _ _
  next h => exact absurd h hclose
  · exact .pure _

/-! ### What an unwind brings in -/

/-- Every call an unwind has to make goes through: the venue states its grid and takes
the orders, every sale has a route and settles, and the vault takes USDC back. -/
structure Venue.Responsive (venue : Venue) : Prop where
  lots : ∀ leg ∈ venue.legs, ∃ lot, leg.lotSize = some lot ∧ 0 < lot
  orders : ∀ leg ∈ venue.legs, ∀ size, leg.takesOrder size = true
  routes : ∀ leg ∈ venue.legs, ∀ units, leg.sellRoute units = true
  builds : ∀ leg ∈ venue.legs, leg.builds = true
  approves : ∀ leg ∈ venue.legs, leg.approves = true
  settles : ∀ leg ∈ venue.legs, ∀ units, ∃ paid, leg.sells units = some paid
  takesBack : ∀ amount, venue.takesBack amount = true

/-- What selling so many tokens pays. -/
def salePaid (leg : Leg) (units : Nat) : Nat := if units = 0 then 0 else (leg.sells units).getD 0

/-- What a slice of an unwind pays. -/
def slicePaid (venue : Venue) (slice : String × Nat) : Nat :=
  match sliceOf venue slice with
  | none => 0
  | some (leg, units) => salePaid leg (min units leg.balance)

/-- The margin an unwind gets home, if it does: what is free beyond the buffer. -/
def marginHome (venue : Venue) (leverageBps : Nat) : Nat :=
  let withdrawable := venue.availableToWithdraw.getD 0 - retainedMargin venue leverageBps
  if withdrawable > 0 ∧ venue.withdraws then (venue.toBase withdrawable).getD 0 else 0

/-- The venue's grid in a leg's own units. -/
def gridUnits (leg : Leg) : Nat :=
  (round (leg.lotSize.getD 0 * 10 ^ leg.spotTokenDecimals)).toNat

/-- Every call that closing so many units of a leg makes goes through: the venue states its
grid and takes the order, if there is one, and the tokens, if there are any, find a route
that is built, approved and settled. -/
structure LegCloses (leg : Leg) (units : Nat) : Prop where
  lots : 0 < leg.lotSize.getD 0
  orders : snapToLot units (gridUnits leg) ≠ 0 → leg.takesOrder
    (formatUnitsForVenue (snapToLot units (gridUnits leg)) leg.spotTokenDecimals) = true
  routes : min units leg.balance ≠ 0 → leg.sellRoute (min units leg.balance) = true
  builds : min units leg.balance ≠ 0 → leg.builds = true
  approves : min units leg.balance ≠ 0 → leg.approves = true
  settles : min units leg.balance ≠ 0 → (leg.sells (min units leg.balance)).isSome = true

/-- Closing a slice's leg goes through, where the loop does not move on. -/
def SliceCloses (venue : Venue) (slice : String × Nat) : Prop :=
  ∀ leg units, sliceOf venue slice = some (leg, units) → LegCloses leg units

theorem Venue.Responsive.legCloses (h : venue.Responsive) (hleg : leg ∈ venue.legs)
    (units : Nat) : LegCloses leg units where
  lots := by
    obtain ⟨lot, hlot, hpos⟩ := h.lots leg hleg
    rw [hlot]
    exact hpos
  orders _ := h.orders leg hleg _
  routes _ := h.routes leg hleg _
  builds _ := h.builds leg hleg
  approves _ := h.approves leg hleg
  settles _ := by
    obtain ⟨paid, hpaid⟩ := h.settles leg hleg (min units leg.balance)
    rw [hpaid]
    rfl

theorem Venue.Responsive.sliceCloses (h : venue.Responsive) (slice : String × Nat) :
    SliceCloses venue slice := fun _ units hslice => h.legCloses (sliceOf_some hslice).1 units

theorem lotUnits_yields (hlots : 0 < leg.lotSize.getD 0) :
    Effect.Yields (lotUnits leg leg.spotTokenDecimals) (gridUnits leg) := by
  rw [gridUnits, lotUnits]
  cases hlot : leg.lotSize with
  | none =>
      rw [hlot] at hlots
      exact absurd hlots (lt_irrefl 0)
  | some lot =>
      rw [hlot, Option.getD_some] at hlots
      simp only [if_neg (not_le.mpr hlots), Option.getD_some]
      exact .pure _

/-- The order of a close that takes one, or none. -/
theorem closeShort_if_yields {perpUnits : Nat} (hint : Nat) (horder : perpUnits ≠ 0 →
      leg.takesOrder (formatUnitsForVenue perpUnits leg.spotTokenDecimals) = true) :
    Effect.Yields (Effect.onlyIf (perpUnits ≠ 0) (closeShort leg perpUnits hint)) () := by
  by_cases hperp : perpUnits ≠ 0
  · exact .onlyIf (.bind (.require (horder hperp) _) (.update _))
  · rw [Effect.onlyIf, if_neg hperp]
    exact .pure ()

theorem closeLeg_yields {units : Nat} (h : LegCloses leg units) (hint : Nat) :
    Effect.Yields (closeLeg leg units hint) (salePaid leg (min units leg.balance)) := by
  refine .bind (lotUnits_yields h.lots) (.bind (closeShort_if_yields hint h.orders) ?_)
  rw [sellSpot, salePaid]
  split
  next => exact .pure _
  next hsold =>
    obtain ⟨paid, hpaid⟩ := Option.isSome_iff_exists.mp (h.settles hsold)
    rw [orThrowExecution, h.routes hsold, if_pos rfl, hpaid]
    exact .bind (.pure _) (.bind (.require (h.builds hsold) _)
      (.bind (.require (h.approves hsold) _) (.bind (.update _) (.pure _))))

theorem closeSlices_yields {slices : List (String × Nat)}
    (h : ∀ slice ∈ slices, SliceCloses venue slice) :
    Effect.Yields (closeSlices venue slices) (slices.map (slicePaid venue)).sum := by
  induction slices with
  | nil => exact .pure _
  | cons slice rest ih =>
    obtain ⟨hslice, hrest⟩ := List.forall_mem_cons.mp h
    rw [List.map_cons, List.sum_cons]
    cases hfound : sliceOf venue slice with
    | none =>
      simp only [closeSlices, slicePaid, hfound, Nat.zero_add]
      exact ih hrest
    | some found =>
      obtain ⟨leg, units⟩ := found
      simp only [closeSlices, slicePaid, hfound]
      exact .bind (closeLeg_yields (hslice leg units hfound) _) (.bind (ih hrest) (.pure _))

/-- An unwind's repatriation, once the account is read. -/
theorem repatriateMargin_of_read {available : Nat} (leverageBps : Nat)
    (h : venue.availableToWithdraw = some available) :
    repatriateMargin venue false (some leverageBps) =
      if available - retainedMargin venue leverageBps = 0 then pure 0
      else
        Effect.onlyIf (available - retainedMargin venue leverageBps > 0)
            (withdrawMargin venue (available - retainedMargin venue leverageBps)) >>= fun _ =>
          bridgeHome venue (available - retainedMargin venue leverageBps) := by
  rw [repatriateMargin, h]
  show (if _ ∧ 0 = 0 then _ else _) = _
  simp only [and_true]
  rfl

/-- Margin withdrawn and sent home lands, if the venue lets it go and the bridge carries it;
where either fails, the attempt comes to nothing. -/
theorem sendHome_yields (venue : Venue) {withdrawable : Nat} (hpos : 0 < withdrawable) :
    Effect.Yields
      (Effect.attempt (Effect.onlyIf (withdrawable > 0) (withdrawMargin venue withdrawable) >>=
        fun _ => bridgeHome venue withdrawable) fun _ => pure 0)
      (if venue.withdraws then (venue.toBase withdrawable).getD 0 else 0) := by
  cases hw : venue.withdraws with
  | false =>
      refine Effect.Fails.attempt ?_ fun _ => .pure _
      rw [Effect.onlyIf, if_pos hpos, withdrawMargin, orThrow, hw]
      exact .bind_left (.bind_left (.fail _) _) _
  | true =>
      have hwithdraw : Effect.Yields
          (Effect.onlyIf (withdrawable > 0) (withdrawMargin venue withdrawable)) () :=
        .onlyIf (.bind (.require hw _) (.update _))
      cases hcross : venue.toBase withdrawable with
      | none =>
          refine Effect.Fails.attempt (.bind_right hwithdraw ?_) fun _ => .pure _
          rw [bridgeHome, hcross]
          exact .bind_left (.fail _) _
      | some landed =>
          refine .attempt (.bind hwithdraw ?_) _
          rw [bridgeHome, hcross]
          exact .bind (.pure _) (.bind (.update _) (.pure _))

theorem repatriate_yields (leverageBps : Nat) :
    Effect.Yields ((repatriateMargin venue false (some leverageBps)).attempt fun _ => pure 0)
      (marginHome venue leverageBps) := by
  cases havailable : venue.availableToWithdraw with
  | none =>
      have hnone : marginHome venue leverageBps = 0 := by simp [marginHome, havailable]
      rw [hnone, repatriateMargin, havailable]
      exact Effect.Fails.attempt (.bind_left (.fail _) _) fun _ => .pure _
  | some available =>
      have hhome : marginHome venue leverageBps =
          if available - retainedMargin venue leverageBps > 0 ∧ venue.withdraws then
            (venue.toBase (available - retainedMargin venue leverageBps)).getD 0 else 0 := by
        rw [marginHome, havailable]
        rfl
      rw [hhome, repatriateMargin_of_read leverageBps havailable]
      generalize available - retainedMargin venue leverageBps = withdrawable
      rcases Nat.eq_zero_or_pos withdrawable with rfl | hpos
      · rw [if_pos rfl, if_neg fun h => absurd h.1 (Nat.lt_irrefl 0)]
        exact .attempt (.pure _) _
      · rw [if_neg (Nat.ne_of_gt hpos)]
        simpa only [gt_iff_lt, hpos, true_and] using sendHome_yields venue hpos

/-- What an unwind of an amount returns. -/
def unwindPaid (venue : Venue) (amount leverageBps : Nat) : Nat :=
  ((allocateUnwind (holdings venue) amount).map (slicePaid venue)).sum +
    marginHome venue leverageBps

/-- Some leg can be priced above nothing. -/
def Priced (venue : Venue) : Prop :=
  ∃ leg ∈ venue.legs, ∃ value, leg.sellQuote = some value ∧ 0 < value

theorem priced_iff : Priced venue ↔
    (venue.legs.any fun leg => leg.sellQuote.any (· > 0)) = true := by
  simp only [Priced, List.any_eq_true, Option.any_eq_true, decide_eq_true_eq, gt_iff_lt]

theorem returnAll_run (h : venue.Responsive) (amount : Nat) (t : Trip) :
    ∃ t', returnAll venue amount t = (.ok (), t') ∧ t'.returned = t.returned + amount := by
  rw [returnAll]
  split
  next hzero => exact ⟨t, rfl, by rw [hzero, Nat.add_zero]⟩
  next =>
    have htakes : orThrow (venue.takesBack amount) .returnFailed t = (.ok (), t) := by
      rw [h.takesBack]
      rfl
    exact ⟨_, Effect.bind_of_ok htakes, rfl⟩

/-- Once a leg is priced: the sales, the margin if it comes, and the return of both. -/
theorem unwind_priced (hpriced : Priced venue) (amount leverageBps : Nat) (t : Trip) :
    unwind venue amount leverageBps t =
      (closeSlices venue (allocateUnwind (holdings venue) amount) >>= fun proceeds =>
        (repatriateMargin venue false (some leverageBps)).attempt (fun _ => pure 0) >>=
          fun repatriated => returnAll venue (proceeds + repatriated)) t := by
  rw [unwind, priced_iff.mp hpriced]
  rfl

theorem unwind_unpriced (hpriced : ¬ Priced venue) (amount leverageBps : Nat) (t : Trip) :
    unwind venue amount leverageBps t = (.error ⟨.nothingPriced, none⟩, t) := by
  rw [unwind, Bool.eq_false_iff.mpr (fun h => hpriced (priced_iff.mpr h))]
  rfl

theorem unwind_run (h : venue.Responsive) (hpriced : Priced venue) (amount leverageBps : Nat)
    (t : Trip) : ∃ t', unwind venue amount leverageBps t = (.ok (), t') ∧
      t'.returned = t.returned + unwindPaid venue amount leverageBps := by
  obtain ⟨t₁, hclosed, hkept⟩ := (closeSlices_yields fun slice _ => h.sliceCloses slice).run
    (keeps_closeSlices (allocateUnwind (holdings venue) amount)) t
  obtain ⟨t₂, hhome, hkept'⟩ := (repatriate_yields leverageBps).run
    ((keeps_repatriateMargin _ _).attempt fun _ => .pure _) t₁
  obtain ⟨t₃, hreturned, hsum⟩ := returnAll_run h (unwindPaid venue amount leverageBps) t₂
  refine ⟨t₃, ?_, by rw [hsum, hkept', hkept]⟩
  rw [unwind_priced hpriced, Effect.bind_of_ok hclosed, Effect.bind_of_ok hhome]
  exact hreturned

/-! ### The decisions -/

/-- Executing a decision ends with USDC in the vault. -/
def Returns (cfg : Settings) (venue : Venue) (s : VaultSnapshot) (d : Decision) : Prop :=
  ∃ t, execute cfg venue s d {} = (.ok (), t) ∧ 0 < t.returned

/-- The amount an unwind is made for: what the queue is short of, as far as deployed and
sellable value go, and failing that the retired markets once they clear the floor. -/
def UnwindDue (cfg : Settings) (s : VaultSnapshot) (amount : Nat) : Prop :=
  (amount = owedUnwind s ∧ s.freeAssets < s.ripeRedeemAssets ∧ 0 < s.deployedAssets ∧
      0 < sellableValue s) ∨
    (owedUnwind s = 0 ∧ amount = retiredValue s ∧ 0 < amount ∧
      economicFloor cfg (costOf cfg .unwind amount (unwindFrictions s)) ≤ amount)

/-- An unwind of an amount brings something in: a slice that sells, or margin that lands. -/
def UnwindPays (venue : Venue) (amount leverageBps : Nat) : Prop :=
  Priced venue ∧
    ((∃ slice ∈ allocateUnwind (holdings venue) amount, 0 < slicePaid venue slice) ∨
      0 < marginHome venue leverageBps)

theorem unwindPays_iff {amount leverageBps : Nat} : UnwindPays venue amount leverageBps ↔
    Priced venue ∧ 0 < unwindPaid venue amount leverageBps := by
  refine and_congr_right fun _ => ?_
  rw [unwindPaid, Nat.add_pos_iff_pos_or_pos]
  refine or_congr_left ?_
  simp only [Nat.pos_iff_ne_zero, ne_eq, List.sum_eq_zero_iff, List.mem_map, not_forall]
  constructor
  · rintro ⟨slice, hmem, hpos⟩
    exact ⟨_, ⟨slice, hmem, rfl⟩, hpos⟩
  · rintro ⟨_, ⟨slice, hmem, rfl⟩, hpos⟩
    exact ⟨slice, hmem, hpos⟩

/-- The first stages answer the unwind that is due. -/
theorem firstUnwind_due {now : Nat} {d : Decision} (h : firstUnwind cfg s now = some d) :
    UnwindDue cfg s d.amount := by
  simp only [firstUnwind, redemptionUnwind_eq, retiredUnwind_eq] at h
  split at h
  next hpos =>
    obtain rfl := Option.some.inj h
    exact .inl ⟨rfl, owedUnwind_pos.mp hpos⟩
  next hzero =>
    rw [Option.none_or] at h
    split at h
    next hretired =>
      obtain rfl := Option.some.inj h
      exact .inr ⟨by omega, rfl, hretired.1, hretired.2⟩
    next => exact absurd h (by simp)

theorem firstUnwind_of_due {now amount : Nat} (h : UnwindDue cfg s amount) :
    ∃ d, firstUnwind cfg s now = some d ∧ d.kind = .unwind ∧ d.amount = amount := by
  simp only [firstUnwind, redemptionUnwind_eq, retiredUnwind_eq]
  rcases h with ⟨rfl, hdue⟩ | ⟨hzero, rfl, hpos, hfloor⟩
  · rw [if_pos (owedUnwind_pos.mpr hdue)]
    exact ⟨_, rfl, rfl, rfl⟩
  · rw [if_neg (by omega), if_pos ⟨hpos, hfloor⟩]
    exact ⟨_, rfl, rfl, rfl⟩

/-- Of what is permitted inside the mandate, only the unwind returns anything. -/
theorem firstUnwind_of_returns {d : Decision} {now : Nat} (hclose : s.closeRequested = false)
    (hin : leverageBps s.perpNotionalUsdc s.perpEquityUsdc ≤ s.risk.val.maxLeverageBps)
    (hd : d ∈ permittedActions cfg s now) (h : Returns cfg venue s d) :
    firstUnwind cfg s now = some d := by
  obtain ⟨t, hrun, hpos⟩ := h
  have hkept : Effect.Keeps Trip.returned (execute cfg venue s d) → False := fun hk => by
    have hzero := hk {}
    rw [hrun] at hzero
    exact absurd hzero (Nat.ne_of_gt hpos)
  rcases mem_permittedActions hclose hd with hd | hd | hd | hd | hd
  · exact hd
  · have hkind := (mandateCorrection_inside hin hd).1
    exact (hkept (keeps_execute (by simp [hkind]) (by simp [hkind]))).elim
  · obtain ⟨_, -, -, rfl⟩ := mem_rebalances.mp hd
    exact (hkept (keeps_execute (by simp) (by simp))).elim
  · obtain ⟨_, -, -, _, -, hd⟩ := nextDeployment_some hd
    obtain ⟨_, _, -, -, -, rfl⟩ := openPosition_some hd
    exact (hkept (keeps_execute (by simp) (by simp))).elim
  · exact (hkept (keeps_execute (by simp [hd]) (by simp [hd]))).elim

/-- An unwind returns what its sales and its repatriation bring in. -/
theorem returns_iff_pays {d : Decision} (h : venue.Responsive) (hkind : d.kind = .unwind) :
    Returns cfg venue s d ↔ UnwindPays venue d.amount (sizingLeverageBps cfg s.risk.val) := by
  rw [unwindPays_iff]
  simp only [Returns, execute, hkind]
  by_cases hpriced : Priced venue
  · obtain ⟨t', hunwind, hsum⟩ := unwind_run h hpriced d.amount
      (sizingLeverageBps cfg s.risk.val) {}
    constructor
    · rintro ⟨t, hrun, hpos⟩
      obtain rfl : t = t' := by
        rw [hrun] at hunwind
        exact (Prod.mk.inj hunwind).2
      exact ⟨hpriced, by simpa [hsum] using hpos⟩
    · rintro ⟨-, hpaid⟩
      exact ⟨t', hunwind, by simpa [hsum] using hpaid⟩
  -- with a leg unpriced there is no unwind
  · have hunwind := unwind_unpriced hpriced d.amount (sizingLeverageBps cfg s.risk.val) {}
    constructor
    · rintro ⟨t, hrun, -⟩
      rw [hrun] at hunwind
      exact absurd (Prod.mk.inj hunwind).1 (by simp)
    · rintro ⟨hp, -⟩
      exact absurd hp hpriced

/-- **What brings USDC back.** Without a close order and inside the mandate, with every
outside call going through, some permitted action returns USDC if and only if an unwind
is due that brings something in. The agent's idle USDC is on neither side. -/
theorem action_returns_iff_unwind_pays (h : venue.Responsive)
    (hclose : s.closeRequested = false)
    (hin : leverageBps s.perpNotionalUsdc s.perpEquityUsdc ≤ s.risk.val.maxLeverageBps)
    (now : Nat) :
    (∃ d ∈ permittedActions cfg s now, Returns cfg venue s d) ↔
      ∃ amount, UnwindDue cfg s amount ∧
        UnwindPays venue amount (sizingLeverageBps cfg s.risk.val) := by
  constructor
  · rintro ⟨d, hd, hreturns⟩
    have hfirst := firstUnwind_of_returns hclose hin hd hreturns
    exact ⟨d.amount, firstUnwind_due hfirst,
      (returns_iff_pays h (firstUnwind_some hfirst).1).mp hreturns⟩
  · rintro ⟨amount, hdue, hpays⟩
    obtain ⟨d, hfirst, hkind, rfl⟩ := firstUnwind_of_due hdue
    exact ⟨d, firstUnwind_mem hclose hin hfirst, (returns_iff_pays h hkind).mpr hpays⟩

/-! ### Two vaults, a hundred USDC free and four hundred owed -/

/-- A vault with `spotValue` in its one market and `idle` in its agent's wallet. -/
def shortVault (spotValue idle : Nat) : VaultSnapshot where
  risk := Test.conservativeRisk
  freeAssets := 100000000
  totalAssets := 1000000000
  deployedAssets := 900000000
  maxDeployedBps := 9000
  withdrawWindowRemaining := 0
  idleOnBase := idle
  unallocatedMargin := 0
  perpNotionalUsdc := 0
  perpEquityUsdc := 0
  ripeRedeemAssets := 400000000
  pendingRedeemAssets := 0
  earliestDeadline := none
  markets := [{ Test.nvda with spotValueUsdc := spotValue }]
  closeRequested := false
  rebalanceDriftBps := 0
  venueWithdrawalFeeUsdc := 0

/-- Venues where every call goes through, with `balance` tokens worth a dollar for every
whole one of six decimals. -/
def openVenue (balance idle : Nat) : Venue where
  legs := [{
    ticker := "NVDA", symbol := "NVDAc", perpSymbol := "NVDA", spotTokenDecimals := 6
    targetWeightBps := 10000, balance := balance, sellQuote := some balance
    position := 0, entryPrice := none, mark := some 1
    lotSize := some (1 / 1000), minOrderSize := some 10, takesOrder := fun _ => true
    builds := true, approves := true
    buyQuote := some, buys := some, sellRoute := fun _ => true, sells := some }]
  idleOnBase := idle
  unallocatedMargin := some 0
  availableToWithdraw := some 0
  strandedOnSolana := 0
  registers := true
  setsLeverage := true
  withdraws := true
  toSolana := some
  toBase := some
  drawsDown := fun _ => true
  takesBack := fun _ => true

theorem openVenue_responsive (balance idle : Nat) : (openVenue balance idle).Responsive where
  lots leg hleg := by
    obtain rfl := List.mem_singleton.mp hleg
    exact ⟨1 / 1000, rfl, by norm_num⟩
  orders leg hleg _ := by obtain rfl := List.mem_singleton.mp hleg; rfl
  routes leg hleg _ := by obtain rfl := List.mem_singleton.mp hleg; rfl
  builds leg hleg := by obtain rfl := List.mem_singleton.mp hleg; rfl
  approves leg hleg := by obtain rfl := List.mem_singleton.mp hleg; rfl
  settles leg hleg units := by obtain rfl := List.mem_singleton.mp hleg; exact ⟨units, rfl⟩
  takesBack _ := rfl

/-- Nine hundred drawn down by a deployment that failed: nothing to sell, and holding is
the only answer while the money lies in the agent's wallet. -/
theorem idle_capital_never_returned :
    ¬ ∀ (cfg : Settings) (venue : Venue) (s : VaultSnapshot) (now : Nat), venue.Responsive →
      s.closeRequested = false →
      leverageBps s.perpNotionalUsdc s.perpEquityUsdc ≤ s.risk.val.maxLeverageBps →
      s.freeAssets < s.ripeRedeemAssets → 0 < s.idleOnBase →
      ∃ d ∈ permittedActions cfg s now, Returns cfg venue s d := by
  intro h
  obtain ⟨d, hd, t, hrun, hpos⟩ := h Settings.default (openVenue 0 900000000)
    (shortVault 0 900000000) 0 (openVenue_responsive _ _) rfl (by decide) (by decide) (by decide)
  have honly : permittedActions Settings.default (shortVault 0 900000000) 0 =
      [{ kind := .hold }] := by decide +kernel
  rw [honly, List.mem_singleton] at hd
  subst hd
  obtain rfl : ({} : Trip) = t := (Prod.mk.inj hrun).2
  exact absurd hpos (by decide)

/-- With the capital in a spot leg instead, the queue is served. -/
theorem action_returns_iff_unwind_pays_invested :
    ∃ d ∈ permittedActions Settings.default (shortVault 450000000 0) 0,
      Returns Settings.default (openVenue 450000000 0) (shortVault 450000000 0) d :=
  (action_returns_iff_unwind_pays (openVenue_responsive _ _) rfl (by decide) 0).mpr
    ⟨301500000, .inl ⟨by decide, by decide, by decide, by decide⟩,
      ⟨_, List.mem_singleton_self _, _, rfl, by decide⟩,
      .inl ⟨("NVDA", 301500000), by decide +kernel, by decide +kernel⟩⟩

end Agent

end LemonMarket
