import LemonMarket.Agent.Feed
import LemonMarket.Lib.Hex

/-!
# LemonMarket.Agent.References

**Which call a row refers to.** A row's reference is the number of the call that executed
its leg. Each routine files the rows of a call on the chains that call's rows are tagged
with, whatever fails around it: so of every row an action publishes, in its activity or
with its error, the call is known and the tag is one of that call's.
-/

namespace LemonMarket

namespace Agent

/-- A reference as bytes in hex: its text, character by character. -/
def refToHex (reference : Lib.Text) : Lib.Text :=
  '0' :: 'x' :: Lib.Hex.ofBytes (reference.flatMap String.utf8EncodeChar)

namespace Calls

open Lib Lib.Effect

/-- The chains the rows of a call are tagged with. -/
def Call.taggedOn : Call → List Chain
  | .swap _ _ => [.base]
  | .returnToVault _ => [.base]
  | .toSolana _ => [.base, .solana]
  | .toBase _ => [.solana]
  | .order _ _ _ => [.solana]
  | .requestWithdrawal _ => [.solana]
  | _ => []

/-- An entry's call is in the trace, and its tag one of that call's. -/
def Refers (made : List Event) (entry : Entry) : Prop :=
  ∃ e, made[entry.txRef]? = some e ∧ entry.chain ∈ e.call.taggedOn

def Referenced (r : Record) : Prop := ∀ entry ∈ r.activity, Refers r.trace entry

/-- A call has been made under a number, and its rows may be filed. -/
structure Made (c : Call) (n : Nat) (r : Record) : Prop where
  referenced : Referenced r
  made : ∃ e, r.trace[n]? = some e ∧ e.call = c

/-- An action stopped: its entries refer to calls, and so do those its error carries. -/
structure Halted (failure : Failure) (r : Record) : Prop where
  referenced : Referenced r
  carried : ∀ entry ∈ failure.activity.getD [], Refers r.trace entry

variable {w : World} {c : Call} {n : Nat} {r : Record} {e : Event} {entry : Entry}
  {market : VenueMarket} {venueMarkets : List VenueMarket}

theorem Refers.saw (h : Refers r.trace entry) : Refers (r.saw e).trace entry := by
  obtain ⟨found, hfound, htag⟩ := h
  refine ⟨found, ?_, htag⟩
  obtain ⟨hlt, -⟩ := List.getElem?_eq_some_iff.mp hfound
  show (r.trace ++ [e])[entry.txRef]? = some found
  rw [List.getElem?_append_left hlt, hfound]

theorem Referenced.saw (h : Referenced r) : Referenced (r.saw e) :=
  fun entry hentry => (h entry hentry).saw

theorem Made.saw (h : Made c n r) : Made c n (r.saw e) where
  referenced := h.referenced.saw
  made := by
    obtain ⟨found, hfound, hcall⟩ := h.made
    obtain ⟨hlt, -⟩ := List.getElem?_eq_some_iff.mp hfound
    refine ⟨found, ?_, hcall⟩
    show (r.trace ++ [e])[n]? = some found
    rw [List.getElem?_append_left hlt, hfound]

/-- The call just made. -/
theorem Referenced.made (h : Referenced r) {o : Outcome c.Result} :
    Made c r.trace.length (r.saw ⟨c, o⟩) where
  referenced := h.saw
  made := ⟨_, List.getElem?_concat_length, rfl⟩

theorem Referenced.halted (h : Referenced r) (cause : Cause) : Halted ⟨cause, none⟩ r :=
  ⟨h, nofun⟩

/-! ### Rules for what the adapter does -/

theorem send_made :
    Triple Referenced (send w c) (fun sent r => Made c sent.1 r) Halted := by
  apply send_rule
  · intro r x h
    exact h.made
  · intro r n h
    exact h.saw.halted _

theorem ask_referenced : Triple Referenced (ask w c) (fun _ => Referenced) Halted := by
  apply ask_rule
  · intro r x h
    exact h.saw
  · intro r n h
    exact h.saw.halted _

/-- A call made while another's rows are still to be filed. -/
theorem ask_made {c' : Call} : Triple (Made c n) (ask w c') (fun _ => Made c n) Halted := by
  apply ask_rule
  · intro r x h
    exact h.saw
  · intro r n h
    exact h.referenced.saw.halted _

theorem push_made {E : Failure → Record → Prop} (hnumber : entry.txRef = n)
    (htag : entry.chain ∈ c.taggedOn) :
    Triple (Made c n) (push entry) (fun _ => Made c n) E := by
  apply Triple.update
  intro r h
  refine ⟨?_, h.made⟩
  intro filed hfiled
  rcases List.mem_append.mp hfiled with hold | hnew
  · exact h.referenced filed hold
  · obtain rfl := List.mem_singleton.mp hnew
    obtain ⟨found, hfound, rfl⟩ := h.made
    exact ⟨found, hnumber ▸ hfound, htag⟩

/-- The last of a call's rows. -/
theorem push_referenced {E : Failure → Record → Prop} (hnumber : entry.txRef = n)
    (htag : entry.chain ∈ c.taggedOn) :
    Triple (Made c n) (push entry) (fun _ => Referenced) E :=
  (push_made hnumber htag).consequence (fun _ h => h) (fun _ _ h => h.referenced) fun _ _ h => h

theorem throwPlain_halted {α : Type} {stop : Stop} {Q : α → Record → Prop} :
    Triple Referenced (throwPlain stop) Q Halted := .fail fun _ h => h.halted _

theorem throwExecution_halted {α : Type} {stop : Stop} {Q : α → Record → Prop} :
    Triple Referenced (throwExecution stop) Q Halted := .failWith fun _ h => ⟨h, h⟩

theorem orThrow_referenced {b : Bool} {stop : Stop} :
    Triple Referenced (orThrow b stop) (fun _ => Referenced) Halted :=
  .ite (fun _ => .pure fun _ h => h) fun _ => throwPlain_halted

theorem orThrowExecution_referenced {b : Bool} {stop : Stop} :
    Triple Referenced (orThrowExecution b stop) (fun _ => Referenced) Halted :=
  .ite (fun _ => .pure fun _ h => h) fun _ => throwExecution_halted

/-- An attempt whose handler only answers. -/
theorem attempt_referenced {α : Type} {x : Script α} {a : α} {E : Failure → Record → Prop}
    (hx : Triple Referenced x (fun _ => Referenced) Halted) :
    Triple Referenced (x.attempt fun _ => pure a) (fun _ => Referenced) E :=
  .attempt hx fun _ => .pure fun _ h => h.referenced

/-! ### The routines -/

theorem createMarketOrder_referenced {leg : ActivityKind} {units decimals notional : Nat} :
    Triple Referenced (createMarketOrder w market leg units decimals notional)
      (fun _ => Referenced) Halted := by
  refine .bind send_made ?_
  intro sent
  exact push_referenced rfl List.mem_cons_self

theorem bridgeMargin_referenced {amount : Nat} :
    Triple Referenced (bridgeMargin w amount) (fun _ => Referenced) Halted := by
  refine .bind send_made ?_
  intro sent
  refine .bind (push_made rfl List.mem_cons_self) fun _ => ?_
  refine .bind (push_referenced rfl (List.mem_cons_of_mem _ List.mem_cons_self)) fun _ => ?_
  exact .pure fun _ h => h

theorem returnAll_referenced {amount : Int} :
    Triple Referenced (returnAll w amount) (fun _ => Referenced) Halted := by
  refine .ite (fun _ => .pure fun _ h => h) fun _ => ?_
  refine .bind send_made ?_
  intro sent
  exact push_referenced rfl List.mem_cons_self

theorem lotUnits_referenced {decimals : Nat} :
    Triple Referenced (lotUnits w market decimals) (fun _ => Referenced) Halted := by
  refine .bind ask_referenced ?_
  intro info
  cases hlot : usableLot info with
  | none => exact throwPlain_halted
  | some lot => exact .pure fun _ h => h

theorem ensureAllowance_referenced {symbol : String} {amount : Nat} :
    Triple Referenced (ensureAllowance w symbol amount) (fun _ => Referenced) Halted := by
  refine .bind ask_referenced ?_
  intro current
  refine .onlyIf ?_ fun _ h => h
  exact .bind ask_referenced fun _ => .pure fun _ h => h

theorem closeNaked_referenced {units : Nat} {E : Failure → Record → Prop} :
    Triple Referenced (closeNaked w market units) (fun _ => Referenced) E :=
  attempt_referenced createMarketOrder_referenced

theorem buySpot_referenced {shortUnits spend : Nat} :
    Triple Referenced (buySpot w market shortUnits spend) (fun _ => Referenced) Halted := by
  refine .bind ask_referenced ?_
  intro before
  refine .bind (.attempt send_made fun failure => ?_) ?_
  · exact .bind (closeNaked_referenced.strengthen fun _ h => h.referenced)
      fun _ => throwExecution_halted
  · intro bought
    refine .bind ask_made ?_
    intro after
    exact push_referenced rfl List.mem_cons_self

theorem awaitRegistration_referenced (polls : Nat) :
    Triple Referenced (awaitRegistration w polls) (fun _ => Referenced) Halted := by
  induction polls with
  | zero =>
      refine .bind ask_referenced ?_
      intro account
      exact orThrowExecution_referenced
  | succ polls ih =>
      refine .bind ask_referenced ?_
      intro account
      exact .ite (fun _ => .pure fun _ h => h) fun _ => ih

theorem quoteSpend_referenced {spend : Nat} :
    Triple Referenced (quoteSpend w market spend) (fun _ => Referenced) Halted := by
  refine .bind ask_referenced ?_
  intro route
  refine .bind orThrowExecution_referenced fun _ => ?_
  refine .bind ask_referenced ?_
  intro expectedUnits
  exact .bind orThrowExecution_referenced fun _ => .pure fun _ h => h

theorem backing_referenced {perpMargin : Nat} :
    Triple Referenced (backing w perpMargin) (fun _ => Referenced) Halted := by
  refine .ite (fun _ => ?_) fun _ => bridgeMargin_referenced
  exact .bind ask_referenced fun _ => .pure fun _ h => h

theorem marketFor_referenced {ticker : String} :
    Triple Referenced (marketFor venueMarkets ticker) (fun _ => Referenced) Halted := by
  unfold marketFor
  split
  next => exact throwPlain_halted
  next => exact .pure fun _ h => h

theorem deploy_referenced {cfg : Settings} {ticker : String}
    {spotNotional perpMargin leverageBps : Nat} :
    Triple Referenced (deploy w venueMarkets cfg ticker spotNotional perpMargin leverageBps)
      (fun _ => Referenced) Halted := by
  refine .bind marketFor_referenced ?_
  intro market
  refine .bind ask_referenced ?_
  intro probe
  refine .bind orThrow_referenced fun _ => ?_
  refine .bind backing_referenced ?_
  intro backed
  refine .bind (awaitRegistration_referenced _) fun _ => .bind ask_referenced fun _ => ?_
  refine .bind orThrowExecution_referenced fun _ => .bind quoteSpend_referenced ?_
  intro expectedUnits
  refine .bind lotUnits_referenced ?_
  intro lot
  refine .bind orThrowExecution_referenced fun _ => ?_
  refine .bind ensureAllowance_referenced fun _ => ?_
  exact .bind createMarketOrder_referenced fun _ => buySpot_referenced

theorem sellSpot_referenced {sellUnits : Nat} :
    Triple Referenced (sellSpot w market sellUnits) (fun _ => Referenced) Halted := by
  refine .bind ask_referenced ?_
  intro route
  refine .bind orThrowExecution_referenced fun _ => .bind ask_referenced fun _ => ?_
  refine .bind ensureAllowance_referenced fun _ => .bind ask_referenced ?_
  intro usdcBefore
  refine .bind (.attempt send_made fun failure =>
    throwExecution_halted.strengthen fun _ h => h.referenced) ?_
  intro sold
  refine .bind ask_made ?_
  intro usdcAfter
  exact .bind (push_referenced rfl List.mem_cons_self) fun _ => .pure fun _ h => h

theorem closeLeg_referenced {closeUnits notionalHint : Nat} :
    Triple Referenced (closeLeg w market closeUnits notionalHint) (fun _ => Referenced)
      Halted := by
  refine .bind lotUnits_referenced ?_
  intro lot
  refine .bind (.onlyIf createMarketOrder_referenced fun _ h => h) fun _ => ?_
  refine .bind ask_referenced ?_
  intro balance
  exact .ite (fun _ => .pure fun _ h => h) fun _ => sellSpot_referenced

theorem retainedMargin_referenced {leverageBps : Nat} :
    Triple Referenced (retainedMargin w venueMarkets leverageBps) (fun _ => Referenced)
      Halted := by
  refine .bind (attempt_referenced ask_referenced) ?_
  intro positions
  refine .bind (attempt_referenced ask_referenced) ?_
  intro prices
  exact .pure fun _ h => h

theorem repatriateMargin_referenced {sweepIdle : Bool} {retainForLeverageBps : Option Nat} :
    Triple Referenced (repatriateMargin w venueMarkets sweepIdle retainForLeverageBps)
      (fun _ => Referenced) Halted := by
  refine .bind ask_referenced ?_
  intro account
  refine .bind (Q := fun _ => Referenced) ?_ ?_
  · cases retainForLeverageBps with
    | none => exact .pure fun _ h => h
    | some leverageBps =>
        exact .ite (fun _ => retainedMargin_referenced) fun _ => .pure fun _ h => h
  intro retain
  refine .bind (.ite (fun _ => attempt_referenced ask_referenced) fun _ => .pure fun _ h => h) ?_
  intro stranded
  refine .ite (fun _ => .pure fun _ h => h) fun _ => ?_
  refine .bind (.onlyIf (.bind send_made fun sent => push_referenced rfl List.mem_cons_self)
    fun _ h => h) fun _ => .bind send_made ?_
  intro sent
  exact .bind (push_referenced rfl List.mem_cons_self) fun _ => .pure fun _ h => h

theorem priceLegs_referenced :
    Triple Referenced (priceLegs w venueMarkets) (fun _ => Referenced) Halted := by
  induction venueMarkets with
  | nil => exact .pure fun _ h => h
  | cons market rest ih =>
      refine .bind ask_referenced ?_
      intro balance
      refine .bind (.ite (fun _ => .pure fun _ h => h)
        fun _ => attempt_referenced ask_referenced) ?_
      intro value
      exact .bind ih fun _ => .pure fun _ h => h

theorem closeSlices_referenced {legs : List PricedLeg} (slices : List (String × Nat)) :
    Triple Referenced (closeSlices w legs slices) (fun _ => Referenced) Halted := by
  induction slices with
  | nil => exact .pure fun _ h => h
  | cons slice rest ih =>
      unfold closeSlices
      split
      next => exact ih
      next =>
        refine .bind closeLeg_referenced ?_
        intro proceeds
        exact .bind ih fun _ => .pure fun _ h => h

theorem unwind_referenced {amount leverageBps : Nat} :
    Triple Referenced (unwind w venueMarkets amount leverageBps) (fun _ => Referenced)
      Halted := by
  refine .bind priceLegs_referenced ?_
  intro legs
  refine .bind orThrow_referenced fun _ => .bind (closeSlices_referenced _) ?_
  intro proceeds
  refine .bind (attempt_referenced repatriateMargin_referenced) ?_
  intro repatriated
  exact returnAll_referenced

/-- The entries a market's failure carries are filed again; they refer to calls already. -/
theorem closeInFull_referenced {closeUnits : Nat} {E : Failure → Record → Prop} :
    Triple Referenced (closeInFull w market closeUnits) (fun _ => Referenced) E := by
  refine .attempt (.bind closeLeg_referenced fun _ => .pure fun _ h => h) ?_
  intro failure
  refine .bind (Q := fun _ => Referenced) (.update ?_) fun _ => .pure fun _ h => h
  intro r h entry hentry
  rcases List.mem_append.mp hentry with hold | hcarried
  · exact h.referenced entry hold
  · exact h.carried entry hcarried

theorem perpPosition_referenced :
    Triple Referenced (perpPosition w market) (fun _ => Referenced) Halted :=
  .bind ask_referenced fun _ => .pure fun _ h => h

theorem closeMarkets_referenced :
    Triple Referenced (closeMarkets w venueMarkets) (fun _ => Referenced) Halted := by
  induction venueMarkets with
  | nil => exact .pure fun _ h => h
  | cons market rest ih =>
      refine .bind (Q := fun _ => Referenced) ?_ ?_
      · refine .bind ask_referenced ?_
        intro balance
        refine .bind perpPosition_referenced ?_
        intro units
        exact .ite (fun _ => .pure fun _ h => h) fun _ => closeInFull_referenced
      · intro failed
        exact .bind ih fun _ => .pure fun _ h => h

theorem sweepMargin_referenced {E : Failure → Record → Prop} :
    Triple Referenced (sweepMargin w venueMarkets) (fun _ => Referenced) E := by
  refine .attempt (.bind repatriateMargin_referenced fun _ => .pure fun _ h => h) ?_
  intro failure
  exact .pure fun _ h => h.referenced

theorem closeAll_referenced :
    Triple Referenced (closeAll w venueMarkets) (fun _ => Referenced) Halted := by
  refine .bind closeMarkets_referenced ?_
  intro closing
  refine .bind sweepMargin_referenced ?_
  intro sweeping
  refine .bind ask_referenced ?_
  intro onBase
  exact .bind returnAll_referenced fun _ => orThrowExecution_referenced

theorem rebalance_referenced {ticker : String} {targetUnits : Nat} :
    Triple Referenced (rebalance w venueMarkets ticker targetUnits) (fun _ => Referenced)
      Halted := by
  refine .bind marketFor_referenced ?_
  intro market
  refine .bind perpPosition_referenced ?_
  intro current
  refine .ite (fun _ => .pure fun _ h => h) fun _ => .bind lotUnits_referenced ?_
  intro lot
  refine .ite (fun _ => .pure fun _ h => h) fun _ => ?_
  refine .bind (Q := fun _ => Referenced) (.bind ask_referenced fun _ => .pure fun _ h => h) ?_
  intro minOrderUsd
  refine .bind (Q := fun _ => Referenced) (.bind ask_referenced fun _ => .pure fun _ h => h) ?_
  intro mark
  exact .ite (fun _ => .pure fun _ h => h) fun _ => createMarketOrder_referenced

/-! ### Every action -/

theorem run_referenced (w : World) (venueMarkets : List VenueMarket) (cfg : Settings)
    (a : Action) :
    Triple Referenced (run w venueMarkets cfg a) (fun _ => Referenced) Halted := by
  cases a with
  | deploy ticker spotNotional perpMargin leverageBps => exact deploy_referenced
  | unwind amount leverageBps => exact unwind_referenced
  | topUpMargin amount => exact .bind bridgeMargin_referenced fun _ => .pure fun _ h => h
  | rebalance ticker targetUnits => exact rebalance_referenced
  | closeAll => exact closeAll_referenced

/-- Every row that is published refers to a call, and is tagged with a chain of that call. -/
theorem published_refers (w : World) (venueMarkets : List VenueMarket) (cfg : Settings)
    (a : Action) {entry : Entry} (hentry : entry ∈ published (run w venueMarkets cfg a {})) :
    Refers (run w venueMarkets cfg a {}).2.trace entry := by
  have hrun := run_referenced w venueMarkets cfg a
  have hstart : Referenced {} := nofun
  rcases hended : run w venueMarkets cfg a {} with ⟨failure | answer, r⟩
  · rw [hended] at hentry
    exact (hrun.error hstart hended).carried entry hentry
  · rw [hended] at hentry
    exact hrun.ok hstart hended entry hentry

end Calls

end Agent

end LemonMarket
