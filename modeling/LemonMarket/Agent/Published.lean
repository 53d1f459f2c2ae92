import LemonMarket.Agent.Feed

/-!
# LemonMarket.Agent.Published

**Each executed leg is published exactly once**, exactly where every call an action makes is
fine (`publishedOnce_iff_recorded`). Each routine of the adapter keeps the invariant of the
feed, by the rules for what it is built from; an action is then read off where it ends.
-/

namespace LemonMarket

namespace Agent

namespace Calls

open Lib Lib.Effect

variable {a : Action} {r : Record} {e : Event} {w : World} {c : Call} {P : Record → Prop}
  {E : Failure → Record → Prop}

/-! ### The routines -/

theorem createMarketOrder_inv {market : VenueMarket} {leg : ActivityKind}
    {units decimals notional : Nat}
    (hE : FailsTo a E (.order leg market.perpSymbol (formatUnitsForVenue units decimals))) :
    Triple (FeedInv a) (createMarketOrder w market leg units decimals notional)
      (fun _ => FeedInv a) E := by
  refine .bind (send_owing (fun _ => rfl) (fun _ => rfl) hE) ?_
  intro sent
  exact file_rule rfl

theorem bridgeMargin_inv {amount : Nat} (hE : FailsTo a E (.toSolana amount)) :
    Triple (FeedInv a) (bridgeMargin w amount) (fun _ => FeedInv a) E := by
  refine .bind (send_owing (fun _ => rfl) (fun _ => rfl) hE) ?_
  intro sent
  refine .bind ((push_rule rfl).strengthen fun _ h => h.settles) fun _ => ?_
  refine .bind (push_rule rfl) fun _ => ?_
  exact .pure fun _ h => inv_of_settles h

theorem returnAll_inv {amount : Int} (hE : FailsTo a E (.returnToVault amount)) :
    Triple (FeedInv a) (returnAll w amount) (fun _ => FeedInv a) E := by
  refine .ite (fun _ => .pure fun _ h => h) fun _ => ?_
  refine .bind (send_owing (fun _ => rfl) (fun _ => rfl) hE) ?_
  intro sent
  exact file_rule rfl

theorem lotUnits_rule {market : VenueMarket} {decimals : Nat} {Q : Record → Prop}
    (hlisted : ∀ r o, (⟨.markets market.perpSymbol, o⟩ : Event).stops = false → P r →
      Q (r.saw ⟨.markets market.perpSymbol, o⟩))
    (hE : ∀ r o cause, (⟨.markets market.perpSymbol, o⟩ : Event).stops = true → P r →
      E ⟨cause, none⟩ (r.saw ⟨.markets market.perpSymbol, o⟩)) :
    Triple P (lotUnits w market decimals) (fun _ => Q) E := by
  -- the answer decides whether the listing stops the action: both ends are kept until then
  refine .bind (Q := fun info r => (usableLot info = none → ∀ cause, E ⟨cause, none⟩ r) ∧
    (usableLot info ≠ none → Q r)) (ask_rule ?_ ?_) ?_
  · intro r info hr
    constructor
    · intro hnone cause
      refine hE r _ cause ?_ hr
      show (usableLot info).isNone = true
      rw [hnone]
      rfl
    · intro hsome
      refine hlisted r _ ?_ hr
      show (usableLot info).isNone = false
      exact Option.isNone_eq_false_iff.mpr (Option.isSome_iff_ne_none.mpr hsome)
  · intro r n hr
    exact hE r _ _ rfl hr
  · intro info
    cases hlot : usableLot info with
    | none => exact .fail fun _ h => h.1 rfl _
    | some lot => exact .pure fun _ h => h.2 (Option.some_ne_none lot)

/-- A listing executes nothing. -/
theorem executed_markets {perpSymbol : String} {o : Outcome (Option MarketInfo)} :
    (⟨.markets perpSymbol, o⟩ : Event).executed = [] := by
  cases o with
  | answered info => rfl
  | failed n => exact executed_failed rfl

theorem lotUnits_inv {market : VenueMarket} {decimals : Nat}
    (hE : FailsTo a E (.markets market.perpSymbol)) :
    Triple (FeedInv a) (lotUnits w market decimals) (fun _ => FeedInv a) E := by
  apply lotUnits_rule
  · intro r o hgoes h
    have hcarries : (⟨.markets market.perpSymbol, o⟩ : Event).carries = false := by
      cases o <;> rfl
    exact h.saw (fine_of_goes_on hgoes fun _ => hcarries) executed_markets
  · exact hE

theorem lotUnits_fresh {market : VenueMarket} {decimals : Nat} :
    Triple (Fresh a) (lotUnits w market decimals) (fun _ => Fresh a) (Bare a) := by
  apply lotUnits_rule
  · intro r o hgoes h
    exact h.saw executed_markets
  · intro r o cause hstops h
    exact (h.saw executed_markets).verdict

theorem ensureAllowance_inv {symbol : String} {amount : Nat}
    (hread : FailsTo a E (.allowance symbol)) (happrove : FailsTo a E (.approve symbol amount)) :
    Triple (FeedInv a) (ensureAllowance w symbol amount) (fun _ => FeedInv a) E := by
  refine .bind (ask_quiet rfl hread) ?_
  intro current
  refine .onlyIf ?_ fun _ h => h
  exact .bind (ask_quiet rfl happrove) fun _ => .pure fun _ h => h

/-! ### Deploying -/

section deploy

def Action.Deploys (a : Action) : Prop :=
  ∃ ticker spotNotional perpMargin leverageBps,
    a = .deploy ticker spotNotional perpMargin leverageBps

theorem closeNaked_inv {market : VenueMarket} {units : Nat} (ha : a.Deploys) :
    Triple (FeedInv a) (closeNaked w market units) (fun _ => FeedInv a) (Bare a) := by
  obtain ⟨ticker, spotNotional, perpMargin, leverageBps, rfl⟩ := ha
  refine .attempt (createMarketOrder_inv (failsTo_kept rfl nofun)) ?_
  intro failure
  exact .pure fun _ h => h

theorem buySpot_inv {market : VenueMarket} {shortUnits spend : Nat} (ha : a.Deploys) :
    Triple (FeedInv a) (buySpot w market shortUnits spend) (fun _ => FeedInv a) (Bare a) := by
  obtain ⟨ticker, spotNotional, perpMargin, leverageBps, rfl⟩ := ha
  refine .bind (ask_quiet rfl (failsTo_bare rfl)) ?_
  intro before
  refine .bind (.attempt (send_owing (fun _ => rfl) (fun _ => rfl) (failsTo_kept rfl nofun)) ?_) ?_
  · intro failure
    exact .bind (closeNaked_inv ⟨_, _, _, _, rfl⟩) fun _ => throwExecution_bare
  · intro bought
    refine .bind (ask_owing rfl fun r n h => h.stopped rfl rfl) ?_
    intro after
    exact file_rule rfl

theorem awaitRegistration_inv (polls : Nat) (ha : a.Deploys) :
    Triple (FeedInv a) (awaitRegistration w polls) (fun _ => FeedInv a) (Bare a) := by
  obtain ⟨ticker, spotNotional, perpMargin, leverageBps, rfl⟩ := ha
  induction polls with
  | zero =>
      refine .bind (ask_quiet rfl (failsTo_bare rfl)) ?_
      intro account
      exact orThrowExecution_bare
  | succ polls ih =>
      refine .bind (ask_quiet rfl (failsTo_bare rfl)) ?_
      intro account
      exact .ite (fun _ => .pure fun _ h => h) fun _ => ih

theorem quoteSpend_inv {market : VenueMarket} {spend : Nat} (ha : a.Deploys) :
    Triple (FeedInv a) (quoteSpend w market spend) (fun _ => FeedInv a) (Bare a) := by
  obtain ⟨ticker, spotNotional, perpMargin, leverageBps, rfl⟩ := ha
  refine .bind (ask_route nofun (failsTo_bare rfl)) ?_
  intro route
  refine .bind orThrowExecution_bare fun _ => ?_
  refine .bind (ask_quiet rfl (failsTo_bare rfl)) ?_
  intro expectedUnits
  exact .bind orThrowExecution_bare fun _ => .pure fun _ h => h

theorem backing_inv {amount : Nat} (ha : a.Deploys) :
    Triple (FeedInv a) (backing w amount) (fun _ => FeedInv a) (Bare a) := by
  obtain ⟨ticker, spotNotional, perpMargin, leverageBps, rfl⟩ := ha
  refine .ite (fun _ => ?_) fun _ => bridgeMargin_inv (failsTo_bare rfl)
  exact .bind (ask_quiet rfl (failsTo_bare rfl)) fun _ => .pure fun _ h => h

theorem marketFor_fresh {venueMarkets : List VenueMarket} {ticker : String} :
    Triple (Fresh a) (marketFor venueMarkets ticker) (fun _ => Fresh a) (Bare a) := by
  unfold marketFor
  split
  next => exact throwPlain_fresh
  next => exact .pure fun _ h => h

theorem deploy_inv (w : World) (venueMarkets : List VenueMarket) (cfg : Settings)
    {ticker : String} {spotNotional perpMargin leverageBps : Nat} :
    Triple (Fresh (.deploy ticker spotNotional perpMargin leverageBps))
      (deploy w venueMarkets cfg ticker spotNotional perpMargin leverageBps)
      (fun _ => FeedInv (.deploy ticker spotNotional perpMargin leverageBps))
      (Bare (.deploy ticker spotNotional perpMargin leverageBps)) := by
  have hdeploys : (Action.deploy ticker spotNotional perpMargin leverageBps).Deploys :=
    ⟨ticker, spotNotional, perpMargin, leverageBps, rfl⟩
  refine .bind marketFor_fresh ?_
  intro market
  refine .bind (ask_fresh rfl) ?_
  intro probe
  refine .bind orThrow_fresh fun _ => ?_
  -- From here on something may have been executed.
  refine .bind ((backing_inv hdeploys).strengthen fun _ h => h.inv) ?_
  intro backed
  refine .bind (awaitRegistration_inv _ hdeploys) fun _ => ?_
  refine .bind (ask_quiet rfl (failsTo_bare rfl)) fun _ => ?_
  refine .bind orThrowExecution_bare fun _ => ?_
  refine .bind (quoteSpend_inv hdeploys) ?_
  intro expectedUnits
  refine .bind (lotUnits_inv (failsTo_bare rfl)) ?_
  intro lot
  refine .bind orThrowExecution_bare fun _ => ?_
  refine .bind (ensureAllowance_inv (failsTo_bare rfl) (failsTo_bare rfl)) fun _ => ?_
  refine .bind (createMarketOrder_inv (failsTo_bare rfl)) fun _ => ?_
  exact buySpot_inv hdeploys

end deploy

/-! ### Closing -/

section closing

/-- Where a close stops in a plain error: `closeAll` goes on from there. -/
def Stopped : Action → Record → Prop
  | .closeAll, r => FeedInv .closeAll r
  | a, r => Verdict a r

/-- Where it stops in one that carries the activity: `closeAll` files that again. -/
def Passed : Action → Record → Prop
  | .closeAll, r => FeedInv .closeAll (r.filed r.activity)
  | a, r => FeedInv a r

def Closing (a : Action) : Failure → Record → Prop := Ended (Stopped a) (Passed a)

/-- The two actions that close legs. -/
def Action.Closes (a : Action) : Prop :=
  a = .closeAll ∨ ∃ amount leverageBps, a = .unwind amount leverageBps

theorem failsTo_closing (ha : a.Closes) (hclose : Action.closeAll.survives c = true)
    (hunwind : ∀ amount leverageBps, (Action.unwind amount leverageBps).survives c = false)
    (hswap : c.isSwap = false) : FailsTo a (Closing a) c := by
  intro r o cause hstops h
  rcases ha with rfl | ⟨amount, leverageBps, rfl⟩
  · exact h.kept hstops hclose fun _ => carries_of_stops hswap hstops
  · exact h.stopped hstops (hunwind amount leverageBps)

/-- Activity that is filed again is on the record twice. -/
theorem filed_twice (hsome : r.activity ≠ []) :
    ¬ ((r.saw e).filed (r.saw e).activity).legs.Nodup := by
  have hlegs : ((r.saw e).filed (r.saw e).activity).legs = r.legs ++ r.legs := legs_filed
  have hne : r.legs ≠ [] := fun hnil => hsome (List.map_eq_nil_iff.mp hnil)
  obtain ⟨leg, hleg⟩ := List.exists_mem_of_ne_nil _ hne
  rw [hlegs, List.nodup_append]
  rintro ⟨-, -, hdisjoint⟩
  exact hdisjoint leg hleg leg hleg rfl

/-- With no activity yet, a call that fails or executes nothing leaves the feed right or
spoiled. -/
theorem FeedInv.saw_empty (h : FeedInv a r) (hempty : r.activity = [])
    (hwhole : e.failed = false → e.executed = []) : FeedInv a (r.saw e) where
  past := h.past_saw
  state := by
    by_cases hnone : e.executed = []
    · rcases h.state with ⟨hrec, hfiled⟩ | hspoiled
      · have hran : executed r.trace = [] := by
          rw [← hfiled, Record.legs, hempty]
          rfl
        exact (h.saw (fine_of_fresh hran hnone) hnone).state
      · exact .inr hspoiled.saw
    · have hfailed : e.failed = true := by
        by_contra hanswered
        exact hnone (hwhole (Bool.eq_false_of_not_eq_true hanswered))
      exact .inr (h.lost hfailed hnone)

/-- Filing the activity again after an error that carries it. -/
theorem FeedInv.repeated (h : FeedInv .closeAll r) (hcarries : e.carries = true)
    (hwhole : e.failed = false → e.executed = []) :
    FeedInv .closeAll ((r.saw e).filed (r.saw e).activity) := by
  by_cases hempty : r.activity = []
  · -- There is nothing to file again.
    have hsame : (r.saw e).filed (r.saw e).activity = r.saw e := by
      rw [show (r.saw e).activity = [] from hempty, filed_nil]
    rw [hsame]
    exact h.saw_empty hempty hwhole
  · -- What was executed before is on the record twice, and this call was not fine.
    have hran : executed r.trace ≠ [] := by
      rcases h.state with ⟨-, hfiled⟩ | hspoiled
      · exact hfiled ▸ fun hnil => hempty (List.map_eq_nil_iff.mp hnil)
      · exact hspoiled.ran
    refine ⟨?_, .inr ⟨?_, executed_saw_ne hran, .inr (filed_twice hempty)⟩⟩
    · intro leg hleg
      rw [show ((r.saw e).filed (r.saw e).activity).legs = r.legs ++ r.legs from legs_filed,
        List.mem_append, or_self] at hleg
      exact h.past_saw leg hleg
    · intro hrec
      exact hran ((recorded_saw.mp hrec).2.unrepeated rfl hcarries)

theorem throwExecution_passed {α : Type} {stop : Stop} {Q : α → Record → Prop} :
    Triple (Passed a) (throwExecution stop) Q (Closing a) :=
  .failWith fun _ h => ⟨rfl, h⟩

/-- A quote that answers with no route. -/
theorem ask_exitRoute {symbol : String} {amount : Nat} (ha : a.Closes) :
    Triple (FeedInv a) (ask w (.getRoute symbol amount))
      (fun route r => if route.isSome then FeedInv a r else Passed a r) (Closing a) := by
  apply ask_rule
  · intro r route hr
    cases route with
    | some amountOut => exact hr.saw (fine_of_goes_on rfl fun _ => rfl) rfl
    | none =>
        rcases ha with rfl | ⟨amount, leverageBps, rfl⟩
        · exact hr.repeated rfl fun _ => rfl
        · exact hr.saw (fine_of_goes_on rfl nofun) rfl
  · intro r n hr
    exact failsTo_closing ha rfl (fun _ _ => rfl) rfl r _ _ rfl hr

/-- A sale that fails. -/
theorem failsTo_passed {symbol : String} (ha : a.Closes) :
    FailsTo a (fun _ => Passed a) (.swap .spotSell symbol) := by
  intro r o cause hstops h
  cases o with
  | answered x => cases hstops
  | failed n =>
      rcases ha with rfl | ⟨amount, leverageBps, rfl⟩
      · exact h.repeated rfl nofun
      · exact h.kept rfl rfl nofun

/-- A sale whose proceeds cannot be read. -/
theorem Owing.unread {leg : ActivityKind × Nat} {n : Nat} (ha : a.Closes) (h : Owing a [leg] r) :
    Stopped a (r.saw ⟨.usdcAfter, .failed n⟩) := by
  rcases ha with rfl | ⟨amount, leverageBps, rfl⟩
  · have hverdict := h.stopped (e := ⟨.usdcAfter, .failed n⟩) rfl rfl
    have hran : leg ∈ executed (r.saw ⟨.usdcAfter, .failed n⟩).trace := by
      rw [executed_saw]
      exact List.mem_append_left _ (h.ran leg (List.mem_singleton_self leg))
    have hsome := List.ne_nil_of_mem hran
    refine ⟨?_, .inr ⟨fun hrec => hsome (hverdict.mp hrec), hsome, .inl ⟨leg, hran, ?_⟩⟩⟩
    · intro filed hfiled
      rw [length_saw]
      exact Nat.lt_succ_of_lt (h.past filed hfiled)
    · exact h.unfiled leg (List.mem_singleton_self leg)
  · exact h.stopped rfl rfl

theorem sellSpot_inv {market : VenueMarket} {sellUnits : Nat} (ha : a.Closes) :
    Triple (FeedInv a) (sellSpot w market sellUnits) (fun _ => FeedInv a) (Closing a) := by
  refine .bind (ask_exitRoute ha) ?_
  intro route
  refine .bind (Q := fun _ => FeedInv a) ?_ fun _ => ?_
  · cases route with
    | none => exact throwExecution_passed
    | some amountOut => exact .pure fun _ h => h
  refine .bind (ask_quiet rfl (failsTo_closing ha rfl (fun _ _ => rfl) rfl)) fun _ => ?_
  refine .bind (ensureAllowance_inv (failsTo_closing ha rfl (fun _ _ => rfl) rfl)
    (failsTo_closing ha rfl (fun _ _ => rfl) rfl)) fun _ => ?_
  refine .bind (ask_quiet rfl (failsTo_closing ha rfl (fun _ _ => rfl) rfl)) ?_
  intro usdcBefore
  refine .bind (.attempt (send_owing (fun _ => rfl) (fun _ => rfl) (failsTo_passed ha))
    fun _ => throwExecution_passed) ?_
  intro sold
  refine .bind (ask_owing rfl fun r n h => h.unread ha) ?_
  intro usdcAfter
  exact .bind (file_rule rfl) fun _ => .pure fun _ h => h

theorem closeLeg_inv {market : VenueMarket} {closeUnits notionalHint : Nat} (ha : a.Closes) :
    Triple (FeedInv a) (closeLeg w market closeUnits notionalHint) (fun _ => FeedInv a)
      (Closing a) := by
  refine .bind (lotUnits_inv (failsTo_closing ha rfl (fun _ _ => rfl) rfl)) ?_
  intro lot
  refine .bind (.onlyIf (createMarketOrder_inv (failsTo_closing ha rfl (fun _ _ => rfl) rfl))
    fun _ h => h) fun _ => ?_
  refine .bind (ask_quiet rfl (failsTo_closing ha rfl (fun _ _ => rfl) rfl)) ?_
  intro balance
  exact .ite (fun _ => .pure fun _ h => h) fun _ => sellSpot_inv ha

/-! ### Unwinding, closing and rebalancing -/

theorem priceLegs_fresh (venueMarkets : List VenueMarket) :
    Triple (Fresh a) (priceLegs w venueMarkets) (fun _ => Fresh a) (Bare a) := by
  induction venueMarkets with
  | nil => exact .pure fun _ h => h
  | cons market rest ih =>
      refine .bind (ask_fresh rfl) ?_
      intro balance
      refine .bind (Q := fun _ => Fresh a) ?_ ?_
      · refine .ite (fun _ => .pure fun _ h => h) fun _ => ?_
        -- A quote that fails prices the leg at nothing.
        have hquote : Triple (Fresh a) (ask w (.getRoute market.symbol balance)) (fun _ => Fresh a)
            fun _ => Fresh a := by
          apply ask_rule
          · exact fun r x hr => hr.saw rfl
          · exact fun r n hr => hr.saw (executed_failed rfl)
        exact .attempt hquote fun _ => .pure fun _ h => h
      · intro value
        exact .bind ih fun _ => .pure fun _ h => h

theorem closeSlices_inv {legs : List PricedLeg} {allocations : List (String × Nat)}
    (ha : a.Closes) :
    Triple (FeedInv a) (closeSlices w legs allocations) (fun _ => FeedInv a) (Closing a) := by
  induction allocations with
  | nil => exact .pure fun _ h => h
  | cons allocation rest ih =>
      unfold closeSlices
      split
      next => exact ih
      next =>
        refine .bind (closeLeg_inv ha) ?_
        intro proceeds
        exact .bind ih fun _ => .pure fun _ h => h

theorem retained_inv {venueMarkets : List VenueMarket} {withdrawable : Nat} {leverage : Option Nat}
    (hreads : leverage ≠ none → FailsTo a (Kept a) .positions ∧ FailsTo a (Kept a) .prices) :
    Triple (FeedInv a) (retained w venueMarkets withdrawable leverage) (fun _ => FeedInv a)
      (Kept a) := by
  cases leverage with
  | none => exact .pure fun _ h => h
  | some leverageBps =>
      obtain ⟨hpositions, hprices⟩ := hreads (Option.some_ne_none leverageBps)
      refine .ite (fun _ => ?_) fun _ => .pure fun _ h => h
      refine .bind (.attempt (ask_quiet rfl hpositions) fun _ => .pure fun _ h => h) ?_
      intro positions
      refine .bind (.attempt (ask_quiet rfl hprices) fun _ => .pure fun _ h => h) ?_
      intro prices
      exact .pure fun _ h => h

/-- Bringing the margin home, where whatever fails of it is gone on past. -/
theorem repatriateMargin_inv {venueMarkets : List VenueMarket} {sweepIdle : Bool}
    {leverage : Option Nat} (haccount : FailsTo a (Kept a) .accountInfo)
    (hreads : leverage ≠ none → FailsTo a (Kept a) .positions ∧ FailsTo a (Kept a) .prices)
    (hsweep : sweepIdle = true → FailsTo a (Kept a) .solanaIdleUsdc)
    (hwithdraw : ∀ amount, FailsTo a (Kept a) (.requestWithdrawal amount))
    (hcross : ∀ amount, FailsTo a (Kept a) (.toBase amount)) :
    Triple (FeedInv a) (repatriateMargin w venueMarkets sweepIdle leverage) (fun _ => FeedInv a)
      (Kept a) := by
  refine .bind (ask_quiet rfl haccount) ?_
  intro account
  refine .bind (retained_inv hreads) ?_
  intro retain
  refine .bind (Q := fun _ => FeedInv a) ?_ ?_
  · refine .ite (fun hidle => ?_) fun _ => .pure fun _ h => h
    exact .attempt (ask_quiet rfl (hsweep hidle)) fun _ => .pure fun _ h => h
  · intro stranded
    refine .ite (fun _ => .pure fun _ h => h) fun _ => ?_
    refine .bind (Q := fun _ => FeedInv a) (.onlyIf ?_ fun _ h => h) fun _ => ?_
    · refine .bind (send_owing (fun _ => rfl) (fun _ => rfl) (hwithdraw _)) ?_
      intro sent
      exact file_rule rfl
    · refine .bind (send_owing (fun _ => rfl) (fun _ => rfl) (hcross _)) ?_
      intro sent
      exact .bind (file_rule rfl) fun _ => .pure fun _ h => h

theorem unwind_inv (w : World) (venueMarkets : List VenueMarket) {amount leverageBps : Nat} :
    Triple (Fresh (.unwind amount leverageBps)) (unwind w venueMarkets amount leverageBps)
      (fun _ => FeedInv (.unwind amount leverageBps)) (Bare (.unwind amount leverageBps)) := by
  have hcloses : (Action.unwind amount leverageBps).Closes := .inr ⟨amount, leverageBps, rfl⟩
  refine .bind (priceLegs_fresh venueMarkets) ?_
  intro legs
  refine .bind orThrow_fresh fun _ => ?_
  refine .bind ((closeSlices_inv hcloses).strengthen fun _ h => h.inv) ?_
  intro proceeds
  refine .bind (.attempt (repatriateMargin_inv (failsTo_kept rfl nofun)
    (fun _ => ⟨failsTo_kept rfl nofun, failsTo_kept rfl nofun⟩) nofun
    (fun _ => failsTo_kept rfl nofun) fun _ => failsTo_kept rfl nofun)
    fun _ => .pure fun _ h => h) ?_
  intro repatriated
  exact returnAll_inv (failsTo_bare rfl)

/-- A market's close, whichever way it ends. -/
theorem closeInFull_inv {market : VenueMarket} {closeUnits : Nat} :
    Triple (FeedInv .closeAll) (closeInFull w market closeUnits) (fun _ => FeedInv .closeAll)
      E := by
  refine .attempt (.bind (closeLeg_inv (.inl rfl)) fun _ => .pure fun _ h => h) ?_
  intro failure
  refine .bind (.update ?_) fun _ => .pure fun _ h => h
  intro r hr
  obtain ⟨cause, carried⟩ := failure
  cases carried with
  | none =>
      show FeedInv .closeAll (r.filed [])
      rw [filed_nil]
      exact hr
  | some rows =>
      obtain ⟨rfl, hpassed⟩ := hr
      exact hpassed

theorem perpPosition_inv {market : VenueMarket} (hE : FailsTo a E .positions) :
    Triple (FeedInv a) (perpPosition w market) (fun _ => FeedInv a) E :=
  .bind (ask_quiet rfl hE) fun _ => .pure fun _ h => h

theorem closeMarkets_inv (venueMarkets : List VenueMarket) :
    Triple (FeedInv .closeAll) (closeMarkets w venueMarkets) (fun _ => FeedInv .closeAll)
      (Bare .closeAll) := by
  induction venueMarkets with
  | nil => exact .pure fun _ h => h
  | cons market rest ih =>
      refine .bind (Q := fun _ => FeedInv .closeAll) ?_ ?_
      · refine .bind (ask_quiet rfl (failsTo_bare rfl)) ?_
        intro balance
        refine .bind (perpPosition_inv (failsTo_bare rfl)) ?_
        intro units
        exact .ite (fun _ => .pure fun _ h => h) fun _ => closeInFull_inv
      · intro failed
        exact .bind ih fun _ => .pure fun _ h => h

theorem sweepMargin_inv {venueMarkets : List VenueMarket} :
    Triple (FeedInv .closeAll) (sweepMargin w venueMarkets) (fun _ => FeedInv .closeAll) E := by
  have hhome : Triple (FeedInv .closeAll) (repatriateMargin w venueMarkets true none)
      (fun _ => FeedInv .closeAll) (Kept .closeAll) :=
    repatriateMargin_inv (failsTo_kept rfl fun _ => rfl) (fun h => absurd rfl h)
      (fun _ => failsTo_kept rfl fun _ => rfl) (fun _ => failsTo_kept rfl fun _ => rfl)
      fun _ => failsTo_kept rfl fun _ => rfl
  refine .attempt (.bind hhome fun landed => .pure fun _ h => h) ?_
  intro failure
  exact .pure fun _ h => h

theorem closeAll_inv (w : World) (venueMarkets : List VenueMarket) :
    Triple (FeedInv .closeAll) (closeAll w venueMarkets) (fun _ => FeedInv .closeAll)
      (Bare .closeAll) := by
  refine .bind (closeMarkets_inv venueMarkets) ?_
  intro closing
  refine .bind sweepMargin_inv ?_
  intro sweeping
  refine .bind (ask_quiet rfl (failsTo_bare rfl)) ?_
  intro onBase
  exact .bind (returnAll_inv (failsTo_bare rfl)) fun _ => orThrowExecution_bare

theorem rebalance_inv (w : World) (venueMarkets : List VenueMarket) {ticker : String}
    {targetUnits : Nat} :
    Triple (Fresh (.rebalance ticker targetUnits)) (rebalance w venueMarkets ticker targetUnits)
      (fun _ => FeedInv (.rebalance ticker targetUnits))
      (Bare (.rebalance ticker targetUnits)) := by
  refine .bind marketFor_fresh ?_
  intro market
  refine .bind (Q := fun _ => Fresh _) (.bind (ask_fresh rfl) fun _ => .pure fun _ h => h) ?_
  intro current
  refine .ite (fun _ => .pure fun _ h => h.inv) fun _ => ?_
  refine .bind lotUnits_fresh ?_
  intro lot
  refine .ite (fun _ => .pure fun _ h => h.inv) fun _ => ?_
  refine .bind (Q := fun _ => Fresh _) (.bind (ask_fresh rfl) fun _ => .pure fun _ h => h) ?_
  intro minOrderUsd
  refine .bind (Q := fun _ => Fresh _) (.bind (ask_fresh rfl) fun _ => .pure fun _ h => h) ?_
  intro mark
  refine .ite (fun _ => .pure fun _ h => h.inv) fun _ => ?_
  exact (createMarketOrder_inv (failsTo_bare rfl)).strengthen fun _ h => h.inv

end closing

/-! ### Every action -/

theorem run_inv (w : World) (venueMarkets : List VenueMarket) (cfg : Settings) (a : Action) :
    Triple (Fresh a) (run w venueMarkets cfg a) (fun _ => FeedInv a) (Bare a) := by
  cases a with
  | deploy ticker spotNotional perpMargin leverageBps => exact deploy_inv w venueMarkets cfg
  | unwind amount leverageBps => exact unwind_inv w venueMarkets
  | topUpMargin amount =>
      refine .bind ((bridgeMargin_inv (failsTo_bare rfl)).strengthen fun _ h => h.inv) ?_
      intro landed
      exact .pure fun _ h => h
  | rebalance ticker targetUnits => exact rebalance_inv w venueMarkets
  | closeAll => exact (closeAll_inv w venueMarkets).strengthen fun _ h => h.inv

theorem executed_nodup (trace : List Event) : (executed trace).Nodup := by
  refine numbered_nodup fun e _ => ?_
  have hlegs : ∀ c : Call, c.legs.Nodup := by
    intro c
    cases c with
    | toSolana amount => exact List.nodup_cons.mpr ⟨by decide, List.nodup_singleton _⟩
    | _ => first | exact List.nodup_nil | exact List.nodup_singleton _
  obtain ⟨c, x | n⟩ := e
  · exact hlegs c
  · exact (List.take_sublist n c.legs).nodup (hlegs c)

/-- Publishing the activity of a record. -/
theorem FeedInv.published_iff (h : FeedInv a r) :
    ((∀ leg ∈ executed r.trace, leg ∈ r.legs) ∧ r.legs.Nodup) ↔ Recorded a r.trace := by
  rcases h.state with ⟨hrec, hlegs⟩ | hspoiled
  · refine iff_of_true ⟨?_, ?_⟩ hrec
    · intro leg hleg
      rw [hlegs]
      exact hleg
    · rw [hlegs]
      exact executed_nodup r.trace
  · refine iff_of_false ?_ hspoiled.notRecorded
    rintro ⟨hall, honce⟩
    rcases hspoiled.wrong with ⟨leg, hran, hmissing⟩ | htwice
    · exact hmissing (hall leg hran)
    · exact htwice honce

/-- **When each executed leg is published exactly once.** For every action, list of markets
and behaviour of the world outside, it is if and only if each call the action makes is fine
after the calls before it: one that fails has executed nothing; none ends in an error the
action does not survive once a leg was executed; and, closing everything, no market's close
stops with the activity in hand once a leg was executed. -/
theorem publishedOnce_iff_recorded (w : World) (venueMarkets : List VenueMarket) (cfg : Settings)
    (a : Action) :
    PublishedOnce (run w venueMarkets cfg a {}) ↔
      Recorded a (run w venueMarkets cfg a {}).2.trace := by
  have hrun := run_inv w venueMarkets cfg a
  rcases hended : run w venueMarkets cfg a {} with ⟨⟨cause, carried⟩ | answer, r⟩
  · have hended' := hrun.error fresh_start hended
    cases carried with
    -- no activity comes with the error: nothing is published, so nothing may have been executed
    | none =>
        have hverdict : Verdict a r := hended'
        constructor
        · intro h
          refine hverdict.mpr (List.eq_nil_iff_forall_not_mem.mpr ?_)
          intro leg hleg
          cases h.all leg hleg
        · intro h
          refine ⟨?_, List.nodup_nil⟩
          intro leg hleg
          rw [hverdict.mp h] at hleg
          cases hleg
    -- the activity comes with it, and is published like that of an answer
    | some rows =>
        obtain ⟨rfl, hinv⟩ := hended'
        rw [← hinv.published_iff]
        exact ⟨fun h => ⟨h.all, h.once⟩, fun h => ⟨h.1, h.2⟩⟩
  · have hinv : FeedInv a r := hrun.ok fresh_start hended
    rw [← hinv.published_iff]
    exact ⟨fun h => ⟨h.all, h.once⟩, fun h => ⟨h.1, h.2⟩⟩

/-! ### The two ways a row goes wrong without a call being lost -/

/-- One market, whose pool and whose venue answer as given. -/
def oneMarket : List VenueMarket := [⟨"NVDA", "NVDAc", "NVDA", 6, 10000⟩]

def answering (swaps setsLeverage : Bool) : World where
  outcome _ c :=
    match c with
    | .getRoute _ amountIn => .answered (some amountIn)
    | .buildRoute _ => .answered 100000000
    | .spotBalance _ => .answered 100000000
    | .usdcBalance => .answered 5000000
    | .tokensHeld _ => .answered 100000000
    | .usdcBefore => .answered 0
    | .usdcAfter => .answered 100000000
    | .allowance _ => .answered 0
    | .approve _ _ => .answered ()
    | .swap _ _ => if swaps then .answered () else .failed 0
    | .returnToVault _ => .answered ()
    | .accountInfo => .answered (some ⟨none, none⟩)
    | .positions => .answered (some [⟨"NVDA", some 100, some 1⟩])
    | .prices => .answered [⟨"NVDA", some 1⟩]
    | .markets _ => .answered (some ⟨some (1 / 1000), some 10⟩)
    | .updateLeverage _ _ => if setsLeverage then .answered () else .failed 0
    | .order _ _ _ => .answered ()
    | .requestWithdrawal _ => .answered ()
    | .solanaIdleUsdc => .answered 0
    | .toSolana amount => .answered amount
    | .toBase amount => .answered amount
  registrationPolls := 24

/-- A close whose sale fails publishes the closing order twice; a deployment whose leverage
is refused publishes nothing of the margin that has crossed. -/
theorem closing_repeated_and_crossing_lost :
    ¬ PublishedOnce (run (answering false true) oneMarket Settings.default .closeAll {}) ∧
      ¬ PublishedOnce (run (answering true false) oneMarket Settings.default
        (.deploy "NVDA" 50000000 50000000 10000) {}) := by
  constructor
  · intro h
    have hrows : (published (run (answering false true) oneMarket Settings.default .closeAll
        {})).map Entry.leg = [(.perpClose, 3), (.perpClose, 3), (.bridgeIn, 14)] := by
      decide +kernel
    have honce := h.once
    rw [hrows] at honce
    exact absurd honce (by decide)
  · intro h
    have hrows : published (run (answering true false) oneMarket Settings.default
        (.deploy "NVDA" 50000000 50000000 10000) {}) = [] := by decide +kernel
    have hran : (.bridgeOut, 1) ∈ executed (run (answering true false) oneMarket Settings.default
        (.deploy "NVDA" 50000000 50000000 10000) {}).2.trace := by decide +kernel
    have hall := h.all _ hran
    rw [hrows] at hall
    cases hall

end Calls

end Agent

end LemonMarket
