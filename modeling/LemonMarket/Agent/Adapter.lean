import LemonMarket.Agent.VenueWorld

/-!
# LemonMarket.Agent.Adapter

**The adapter on a venue, and call by call.** Routine by routine, the script of `Agent.Calls` in
the world of a venue and the routine of `Agent.Venue` on it go alike: the same rows, as much
returned to the vault, and an error in both or in neither. `run_alike` has it of every action, so
that what is shown of one model is about the other.

Only the sales and the crossings have to be counted on the way: `closeAll` returns the whole
balance of the wallet, which the script reads and the venue adds up.
-/

namespace LemonMarket

namespace Agent

namespace Calls

open Lib Lib.Effect
open LemonVault (bps)

variable {venue : Venue} {deploying : Bool} {polls : Nat} {m : Memory} {leg : Leg}
  {M : Memory → Prop} {β γ : Type}

/-! ### Orders, routes and allowances -/

/-- An order, and its row. -/
theorem createMarketOrder_alike (hv : Listed venue) (hleg : leg ∈ venue.legs)
    (kind : ActivityKind) (units decimals notional : Nat) :
    Lockstep (Meets m)
      (createMarketOrder (world venue deploying polls) (market leg) kind units decimals notional)
      (do
        Agent.createMarketOrder leg units decimals
        Agent.push ⟨kind, .solana, leg.perpSymbol, units, notional, 0⟩)
      (fun _ _ => Meets (m.saw ⟨.order kind leg.perpSymbol (formatUnitsForVenue units decimals),
        .answered ()⟩))
      (BothStop (Idle m)) := by
  refine send_granted ?_ rfl (fun id => push_alike rfl) fun r t h => h.stops rfl
  show granted ((Calls.perpLeg venue leg.perpSymbol).any _) = _
  rw [hv.perpLeg hleg]
  rfl

theorem answer_markets (hv : Listed venue) (hleg : leg ∈ venue.legs) :
    answer venue deploying m (.markets leg.perpSymbol) =
      .answered (some ⟨leg.lotSize, leg.minOrderSize⟩) :=
  congrArg Outcome.answered (congrArg _ (hv.perpLeg hleg))

/-- The grid, or that there is none to be had. -/
theorem lotUnits_alike (hv : Listed venue) (hleg : leg ∈ venue.legs) (decimals : Nat) :
    Lockstep (Meets m) (lotUnits (world venue deploying polls) (market leg) decimals)
      (Agent.lotUnits leg decimals)
      (fun a b r t => a = b ∧ Meets (m.saw ⟨.markets leg.perpSymbol,
        .answered (some ⟨leg.lotSize, leg.minOrderSize⟩)⟩) r t)
      (BothStop (Idle m)) := by
  refine ask_answers (c := .markets leg.perpSymbol) (answer_markets hv hleg) rfl ?_
  rw [Agent.lotUnits]
  cases hlot : leg.lotSize with
  | none => exact throwPlain_alike (M := Idle m) rfl
  | some lot =>
      have husable : usableLot (some ⟨some lot, leg.minOrderSize⟩) =
          if 0 < lot then some lot else none := by
        simp [usableLot, Option.filter]
      by_cases hpos : lot ≤ 0
      · rw [husable, if_neg (not_lt.mpr hpos)]
        simp only [hpos]
        exact throwPlain_alike (M := Idle m) rfl
      · rw [husable, if_pos (not_le.mp hpos)]
        simp only [hpos]
        exact .pure fun _ _ h => ⟨rfl, h⟩

/-- What a route was last asked for, once it has been asked for a market. -/
theorem routed_saw (hv : Listed venue) (hleg : leg ∈ venue.legs) (units : Nat)
    (o : Outcome (Option Nat)) :
    routed venue (m.saw ⟨.getRoute leg.symbol units, o⟩) = some (leg, units) := by
  show (Calls.spotLeg venue leg.symbol).map _ = _
  rw [hv.spotLeg hleg]
  rfl

theorem answer_buildRoute {units : Nat} (hrouted : routed venue m = some (leg, units))
    (symbol : String) :
    answer venue deploying m (.buildRoute symbol) =
      if leg.builds then .answered ((leg.buyQuote units).getD 0) else .failed 0 := by
  show ofOption ((routed venue m).bind _) = _
  rw [hrouted]
  show ofOption (if leg.builds then some ((leg.buyQuote units).getD 0) else none) = _
  cases leg.builds <;> rfl

theorem answer_swap {units : Nat} (hrouted : routed venue m = some (leg, units))
    (deploying : Bool) (kind : ActivityKind) (symbol : String) :
    answer venue deploying m (.swap kind symbol) =
      granted (if kind = .spotBuy then leg.buys units else leg.sells units).isSome := by
  show granted ((routed venue m).bind _).isSome = _
  rw [hrouted]
  rfl

theorem answer_usdcAfter {units : Nat} (hrouted : routed venue m = some (leg, units))
    (deploying : Bool) :
    answer venue deploying m .usdcAfter = .answered ((leg.sells units).getD 0) := by
  show Outcome.answered (((routed venue m).bind _).getD 0) = _
  rw [hrouted]
  rfl

/-- The allowance is raised where it falls short. -/
theorem ensureAllowance_alike {symbol : String} {units : Nat} {k : Unit → Script γ}
    {l : Unit → Adapter β} {Q : γ → β → Record → Trip → Prop} {stop : Stop}
    (hrouted : routed venue m = some (leg, units))
    (hk : ∀ m', Idle m m' → m'.route = m.route →
      Lockstep (Meets m') (k ()) (l ()) Q (BothStop M))
    (hM : ∀ m', Idle m m' → M m') :
    Lockstep (Meets m) (ensureAllowance (world venue deploying polls) symbol units >>= k)
      (Agent.orThrow leg.approves stop >>= l) Q (BothStop M) := by
  have hallowance : answer venue deploying m (.allowance symbol) =
      if leg.approves then .answered (0 : Nat) else .failed 0 := by
    show ofOption ((routed venue m).bind _) = _
    rw [hrouted]
    show ofOption (if leg.approves then some 0 else none) = _
    cases leg.approves <;> rfl
  rw [ensureAllowance, bind_assoc]
  refine ask_granted (c := .allowance symbol) hallowance rfl ?_ fun r t h => h.stops (hM _ rfl)
  by_cases hpos : 0 < units
  · rw [Effect.onlyIf, if_pos hpos, bind_assoc]
    exact ask_answers (c := .approve symbol units) (x := ()) rfl rfl (hk _ rfl rfl)
  · rw [Effect.onlyIf, if_neg hpos]
    exact hk _ rfl rfl

/-- The sale of what a close frees, once what is held has been read. -/
theorem sellSpot_alike (hv : Listed venue) (hleg : leg ∈ venue.legs)
    (hlast : m.last = some (.tokensHeld leg.symbol)) {units : Nat} (hunits : units ≠ 0) :
    Lockstep (Meets m) (sellSpot (world venue false polls) (market leg) units)
      (Agent.sellSpot leg units)
      (fun a b r t => a = (b : Int) ∧ Met (fun m' => m'.gained = m.gained + b) r t)
      (BothStop (Idle m)) := by
  have hroute : answer venue false m (.getRoute leg.symbol units) =
      .answered (if leg.sellRoute units then some 0 else none) := by
    show Outcome.answered ((Calls.spotLeg venue leg.symbol).bind _) = _
    rw [hv.spotLeg hleg, hlast]
    rfl
  have hfound : (if leg.sellRoute units then some 0 else none : Option Nat).isSome =
      leg.sellRoute units := by
    cases leg.sellRoute units <;> rfl
  have hrouted := routed_saw (m := m) hv hleg units
    (.answered (if leg.sellRoute units then some 0 else none))
  rw [sellSpot, Agent.sellSpot, if_neg hunits]
  refine ask_answers (c := .getRoute leg.symbol units) hroute rfl ?_
  refine .bind (orThrowExecution_alike (M := Idle m) hfound rfl) fun _ _ => .of_and fun _ => ?_
  refine ask_granted (c := .buildRoute leg.symbol) (answer_buildRoute hrouted _) rfl ?_
    fun r t h => h.stops rfl
  refine ensureAllowance_alike hrouted (fun m' hgained hroute' => ?_)
    fun m' hgained => hgained
  have hrouted' : routed venue m' = some (leg, units) := by
    rw [← hrouted, routed, routed, hroute']
    rfl
  refine ask_answers (c := .usdcBefore) (x := (0 : Nat)) rfl rfl ?_
  -- a sale that fails stops both with what they carry; one that settles is what is gained
  have hswap : answer venue false (m'.saw ⟨.usdcBefore, .answered (0 : Nat)⟩)
      (.swap .spotSell leg.symbol) = granted (leg.sells units).isSome :=
    answer_swap hrouted' false .spotSell leg.symbol
  have hafter : answer venue false ((m'.saw ⟨.usdcBefore, .answered (0 : Nat)⟩).saw
      ⟨.swap .spotSell leg.symbol, .answered ()⟩) .usdcAfter =
      .answered ((leg.sells units).getD 0) := answer_usdcAfter hrouted' false
  cases hsells : leg.sells units with
  | none =>
      rw [hsells] at hswap
      refine attempt_fails (c := .swap .spotSell leg.symbol) (n := 0) hswap ?_
      exact throwExecution_alike (M := Idle m) hgained
  | some proceeds =>
      rw [hsells] at hswap hafter
      refine attempt_answers (c := .swap .spotSell leg.symbol) (x := ()) hswap rfl fun id => ?_
      refine ask_answers (c := .usdcAfter) (x := proceeds) hafter rfl ?_
      refine .bind (push_alike ?_) fun _ _ => ?_
      · simp [Entry.shown, shownRow, market]
      · refine .pure fun r t h => ⟨by simp, _, ?_, h⟩
        exact congrArg (· + proceeds) hgained

/-- Closing a market: what the sale pays is gained. -/
theorem closeLeg_alike (hv : Listed venue) (hleg : leg ∈ venue.legs) (units hint : Nat) :
    Lockstep (Meets m) (closeLeg (world venue false polls) (market leg) units hint)
      (Agent.closeLeg leg units hint)
      (fun a b r t => a = (b : Int) ∧ Met (fun m' => m'.gained = m.gained + b) r t)
      (BothStop (Idle m)) := by
  refine .bind (lotUnits_alike hv hleg _) fun lot lot' => .of_and fun hlot => ?_
  subst hlot
  -- the short: an order of nothing is skipped in both
  refine .bind (Q := fun _ _ => Met (Idle m)) ?_ fun _ _ => of_met fun m' hgained => ?_
  · refine .onlyIf Iff.rfl ?_ fun _ _ h => h.met rfl
    exact to_met (createMarketOrder_alike hv hleg _ _ _ _) rfl
  -- the spot, up to what is held now
  have hheld : answer venue false m' (.tokensHeld leg.symbol) = .answered leg.balance := by
    show ofOption ((Calls.spotLeg venue leg.symbol).map _) = _
    rw [hv.spotLeg hleg]
    rfl
  refine ask_answers (c := .tokensHeld leg.symbol) hheld rfl ?_
  by_cases hsell : min units leg.balance = 0
  · rw [if_pos hsell, Agent.sellSpot, if_pos hsell]
    exact .pure fun _ _ h => ⟨rfl, h.met hgained⟩
  · rw [if_neg hsell]
    exact since hgained (sellSpot_alike hv hleg rfl hsell)

/-! ### Moving money -/

/-- The vault takes the amount back in both, or refuses it in both. -/
theorem returnToVault_alike (amount : Nat) :
    Lockstep (Meets m) (send (world venue deploying polls) (.returnToVault amount))
      (Agent.orThrow (venue.takesBack amount) .returnFailed >>= fun _ =>
        Effect.update fun t => { t with returned := t.returned + amount })
      (fun _ _ => Met fun _ => True) (BothStop fun _ => True) := by
  intro r t h
  have htaken : answer venue deploying m (.returnToVault amount) =
      granted (venue.takesBack amount) := by
    show granted (venue.takesBack (amount : Int).toNat) = _
    rw [Int.toNat_natCast]
  have hsend := send_eq venue deploying polls (.returnToVault amount) h
  rw [htaken] at hsend
  rw [hsend]
  cases venue.takesBack amount with
  | false => exact (h.saw ⟨.returnToVault amount, .failed 0⟩ rfl).stops trivial
  | true =>
      refine ⟨m.saw ⟨.returnToVault amount, .answered ()⟩, trivial, ?_, h.activity, ?_⟩
      · rw [remember_saw, h.memory]
      · show m.returned + (amount : Int).toNat = t.returned + amount
        rw [Int.toNat_natCast, h.returned]

/-- What goes back to the vault. -/
theorem returnAll_alike (amount : Nat) :
    Lockstep (Meets m) (returnAll (world venue deploying polls) amount)
      (Agent.returnAll venue amount) (fun _ _ => Met fun _ => True) (BothStop fun _ => True) := by
  by_cases hamount : amount = 0
  · rw [returnAll, Agent.returnAll, if_pos (by omega), if_pos hamount]
    exact .pure fun _ _ h => h.met trivial
  · rw [returnAll, Agent.returnAll, if_neg (by omega), if_neg hamount, ← bind_assoc]
    refine .bind (returnToVault_alike amount) fun sent _ => of_met fun m' _ => ?_
    exact to_met (push_alike rfl) trivial

theorem bridgeMargin_alike (amount : Nat) :
    Lockstep (Meets m) (bridgeMargin (world venue deploying polls) amount)
      (Agent.bridgeMargin venue amount)
      (fun a b r t => a = b ∧ Meets (m.saw ⟨.toSolana amount, .answered a⟩) r t)
      (BothStop fun _ => True) := by
  refine send_expect (c := .toSolana amount) rfl (fun _ => rfl) (fun landed id => ?_)
    fun r t h => h.stops trivial
  refine .bind (push_alike rfl) fun _ _ => .bind (push_alike rfl) fun _ _ => ?_
  exact .pure fun _ _ h => ⟨rfl, h⟩

theorem withdrawMargin_alike (withdrawable : Nat) :
    Lockstep (Meets m) (withdrawMargin (world venue deploying polls) withdrawable)
      (Agent.withdrawMargin venue withdrawable) (fun _ _ => Met (Idle m)) (BothStop (Idle m)) := by
  refine send_granted (c := .requestWithdrawal withdrawable) (x := ()) rfl rfl (fun id => ?_)
    fun r t h => h.stops rfl
  exact to_met (push_alike rfl) rfl

theorem bridgeHome_alike (crossing : Nat) :
    Lockstep (Meets m) (bridgeHome (world venue deploying polls) crossing)
      (Agent.bridgeHome venue crossing)
      (fun a b r t => a = b ∧ Met (fun m' => m'.gained = m.gained + b) r t)
      (BothStop (Idle m)) := by
  refine send_expect (c := .toBase crossing) rfl (fun _ => rfl) (fun landed id => ?_)
    fun r t h => h.stops rfl
  exact .bind (push_alike rfl) fun _ _ => .pure fun _ _ h => ⟨rfl, h.met rfl⟩

/-- USDC stated in dollars and read back. -/
theorem toUsdc_div (margin : Nat) : toUsdc (some (margin / 1000000)) = margin := by
  rw [toUsdc, Option.getD_some]
  by_cases hmargin : margin = 0
  · simp [hmargin]
  · have hpos : (0 : ℚ) < margin / 1000000 := by positivity
    rw [if_pos hpos, div_mul_cancel₀ _ (by norm_num), round_natCast, Int.toNat_natCast]

/-- What the venue states of the positions and the prices. -/
def positionsOf (legs : List Leg) : List Position :=
  legs.map fun leg => ⟨leg.perpSymbol, some leg.position, leg.entryPrice⟩

def quotesOf (legs : List Leg) : List Quote := legs.map fun leg => ⟨leg.perpSymbol, leg.mark⟩

theorem Listed.position (hv : Listed venue) (hleg : leg ∈ venue.legs) :
    (positionsOf venue.legs).find? (fun p => p.symbol = leg.perpSymbol) =
      some ⟨leg.perpSymbol, some leg.position, leg.entryPrice⟩ := by
  rw [positionsOf, List.find?_map]
  exact congrArg (Option.map _) (hv.perpLeg hleg)

theorem Listed.quote (hv : Listed venue) (hleg : leg ∈ venue.legs) :
    (quotesOf venue.legs).find? (fun q => q.symbol = leg.perpSymbol) =
      some ⟨leg.perpSymbol, leg.mark⟩ := by
  rw [quotesOf, List.find?_map]
  exact congrArg (Option.map _) (hv.perpLeg hleg)

theorem notionalOf_eq (hv : Listed venue) (hleg : leg ∈ venue.legs) :
    notionalOf (positionsOf venue.legs) (quotesOf venue.legs) (market leg) =
      retainedNotional leg := by
  have hposition : (positionsOf venue.legs).find? (fun p => p.symbol = (market leg).perpSymbol) =
      _ := hv.position hleg
  have hquote : (quotesOf venue.legs).find? (fun q => q.symbol = (market leg).perpSymbol) =
      _ := hv.quote hleg
  simp only [notionalOf, hposition, hquote]
  rfl

/-- What is kept back of the free balance leaves as much of it. -/
theorem retained_alike {k : Nat → Script γ} {y : Adapter β} {Q : γ → β → Record → Trip → Prop}
    {E : Failure → VenueFailure → Record → Trip → Prop} (hv : Listed venue) (available : Nat)
    (leverageBps : Option Nat)
    (hk : ∀ retain m', Idle m m' → available - retain =
        available - (leverageBps.map (Agent.retainedMargin venue)).getD 0 →
      Lockstep (Meets m') (k retain) y Q E) :
    Lockstep (Meets m) (retained (world venue false polls) (venue.legs.map market) available
      leverageBps >>= k) y Q E := by
  cases leverageBps with
  | none => exact hk 0 m rfl rfl
  | some leverageBps =>
      by_cases havailable : available > 0
      · have hnotional : ((venue.legs.map market).map (notionalOf (positionsOf venue.legs)
            (quotesOf venue.legs))).sum = (venue.legs.map retainedNotional).sum := by
          rw [List.map_map]
          exact congrArg List.sum (List.map_congr_left fun leg => notionalOf_eq hv)
        rw [retained, if_pos havailable, retainedMargin, bind_assoc]
        refine attempt_ask_answers (c := .positions) (x := some (positionsOf venue.legs)) rfl rfl ?_
        rw [bind_assoc]
        refine attempt_ask_answers (c := .prices) (x := quotesOf venue.legs) rfl rfl ?_
        refine hk _ _ rfl ?_
        rw [Option.getD_some, hnotional]
        rfl
      · rw [retained, if_neg havailable]
        exact hk 0 m rfl (by omega)

theorem strandedIdle_alike {k : Nat → Script γ} {y : Adapter β}
    {Q : γ → β → Record → Trip → Prop} {E : Failure → VenueFailure → Record → Trip → Prop}
    (sweepIdle : Bool)
    (hk : ∀ m', Idle m m' →
      Lockstep (Meets m') (k (if sweepIdle then venue.strandedOnSolana else 0)) y Q E) :
    Lockstep (Meets m) (strandedIdle (world venue deploying polls) sweepIdle >>= k) y Q E := by
  cases sweepIdle with
  | false => exact hk m rfl
  | true =>
      rw [strandedIdle, if_pos rfl]
      exact attempt_ask_answers (c := .solanaIdleUsdc) (x := venue.strandedOnSolana) rfl rfl
        (hk _ rfl)

/-- Freed margin on its way home: what lands is gained. -/
theorem repatriateMargin_alike (hv : Listed venue) (sweepIdle : Bool)
    (leverageBps : Option Nat) :
    Lockstep (Meets m)
      (repatriateMargin (world venue false polls) (venue.legs.map market) sweepIdle leverageBps)
      (Agent.repatriateMargin venue sweepIdle leverageBps)
      (fun a b r t => a = b ∧ Met (fun m' => m'.gained = m.gained + b) r t)
      (BothStop (Idle m)) := by
  have hanswer : answer venue false m .accountInfo =
      ofOption (venue.availableToWithdraw.map fun margin : Nat =>
        some ⟨none, some (margin / 1000000)⟩) := rfl
  rw [repatriateMargin, Agent.repatriateMargin]
  cases hread : venue.availableToWithdraw with
  | none =>
      rw [hread] at hanswer
      exact ask_fails (c := .accountInfo) hanswer (fun _ => rfl) fun r t h => h.stops rfl
  | some available =>
      rw [hread] at hanswer
      refine ask_answers (c := .accountInfo) hanswer rfl ?_
      simp only [Option.bind_some, toUsdc_div, Effect.expect, pure_bind]
      refine retained_alike hv available leverageBps fun retain m' hgained hfree => ?_
      refine strandedIdle_alike sweepIdle fun m'' hgained' => ?_
      rw [hfree]
      refine .ite Iff.rfl (fun _ => .pure fun _ _ h => ?_) fun _ => ?_
      · exact ⟨rfl, h.met (hgained'.trans hgained)⟩
      -- only the crossing brings anything to Base
      refine .bind (Q := fun _ _ => Met (Idle m)) ?_ fun _ _ => of_met fun m₃ hidle => ?_
      · refine .onlyIf (by rw [toUsdc_div, hfree]) ?_ fun _ _ h => h.met (hgained'.trans hgained)
        exact still (hgained'.trans hgained) (withdrawMargin_alike _)
      · exact since hidle (bridgeHome_alike _)

/-! ### Opening -/

theorem answer_registered (hasked : probing m = false) :
    answer venue true m .accountInfo =
      .answered (if venue.registers then some ⟨none, none⟩ else none) := by
  show (if probing m = true then _ else _) = _
  rw [hasked]
  rfl

/-- The venue knows the account at once, or not by the deadline either. -/
theorem awaitRegistration_alike (polls' : Nat) (hasked : probing m = false) :
    Lockstep (Meets m) (awaitRegistration (world venue true polls) polls')
      (Agent.orThrowExecution venue.registers .notRegistered)
      (fun _ _ => Met fun _ => True) (BothStop fun _ => True) := by
  induction polls' generalizing m with
  | zero =>
      refine ask_answers (c := .accountInfo) (answer_registered hasked) rfl ?_
      refine (orThrowExecution_alike (M := fun _ => True) ?_ trivial).consequence
        (fun _ _ h => h) (fun _ _ _ _ h => h.2.met trivial) fun _ _ _ _ h => h
      cases venue.registers <;> rfl
  | succ polls' ih =>
      refine ask_answers (c := .accountInfo) (answer_registered hasked) rfl ?_
      cases hregisters : venue.registers with
      | true => exact .pure fun _ _ h => h.met trivial
      | false =>
          rw [hregisters] at ih
          exact ih rfl

/-- The margin a deployment is sized against, right after its probe. -/
theorem backing_alike (hprobe : probing m = true) (perpMargin : Nat) :
    Lockstep (Meets m) (backing (world venue true polls) perpMargin)
      (Agent.backing venue perpMargin)
      (fun a b r t => a = b ∧ Met (fun m' => probing m' = false) r t)
      (BothStop fun _ => True) := by
  by_cases hmargin : perpMargin = 0
  -- no margin to bridge: the account is read, right after the probe
  · have hanswer : answer venue true m .accountInfo =
        ofOption (venue.unallocatedMargin.map fun margin : Nat =>
          some ⟨some (margin / 1000000), none⟩) := by
      show (if probing m = true then _ else _) = _
      rw [hprobe]
      rfl
    rw [backing, Agent.backing, if_pos hmargin, if_pos hmargin]
    cases hread : venue.unallocatedMargin with
    | none =>
        rw [hread] at hanswer
        exact ask_fails (c := .accountInfo) hanswer (fun _ => rfl) fun r t h => h.stops trivial
    | some margin =>
        rw [hread] at hanswer
        refine ask_answers (c := .accountInfo) hanswer rfl ?_
        exact .pure fun _ _ h => ⟨toUsdc_div margin, h.met rfl⟩
  · rw [backing, Agent.backing, if_neg hmargin, if_neg hmargin]
    exact (bridgeMargin_alike _).consequence (fun _ _ h => h)
      (fun _ _ _ _ h => ⟨h.1, h.2.met rfl⟩) fun _ _ _ _ h => h

theorem marketFor_alike {k : VenueMarket → Script γ} {l : Leg → Adapter β} {ticker : String}
    {Q : γ → β → Record → Trip → Prop} (hM : M m)
    (hk : ∀ leg ∈ venue.legs, Lockstep (Meets m) (k (market leg)) (l leg) Q (BothStop M)) :
    Lockstep (Meets m) (marketFor (venue.legs.map market) ticker >>= k)
      (Agent.marketFor venue ticker >>= l) Q (BothStop M) := by
  have hfind : (venue.legs.map market).find? (fun m => m.ticker = ticker) =
      (venue.legs.find? fun leg => leg.ticker = ticker).map market := List.find?_map ..
  rw [marketFor, hfind, Agent.marketFor]
  cases hfound : venue.legs.find? fun leg => leg.ticker = ticker with
  | none => exact throwPlain_alike hM
  | some leg => exact hk leg (List.mem_of_find?_eq_some hfound)

/-- A short that has nothing behind it is flattened in both, or left in both. -/
theorem closeNaked_alike (hv : Listed venue) (hleg : leg ∈ venue.legs) (units : Nat) :
    Lockstep (Meets m) (closeNaked (world venue deploying polls) (market leg) units)
      (Agent.closeNaked leg units) (fun _ _ => Met fun _ => True) (BothStop fun _ => True) :=
  .attempt (to_met (createMarketOrder_alike hv hleg _ _ _ _) trivial) fun _ _ =>
    .pure fun _ _ h => h.2.mono fun _ _ => trivial

theorem delivered_eq_zero (hlast : ∀ kind symbol, m.last ≠ some (.swap kind symbol)) :
    delivered venue m = 0 := by
  unfold delivered
  split
  · rename_i kind symbol heq
    exact absurd heq (hlast kind symbol)
  · rfl

theorem answer_spotBalance (hv : Listed venue) (hleg : leg ∈ venue.legs) {n : Nat}
    (hn : deploying = true → delivered venue m = n) (hn' : deploying = false → n = 0) :
    answer venue deploying m (.spotBalance leg.symbol) = .answered (leg.balance + n) := by
  show ofOption ((Calls.spotLeg venue leg.symbol).map _) = _
  rw [hv.spotLeg hleg]
  cases deploying with
  | true => exact congrArg (fun n => Outcome.answered (leg.balance + n)) (hn rfl)
  | false => exact congrArg (fun n => Outcome.answered (leg.balance + n)) (hn' rfl).symm

/-- The spot leg, or the short closed again. -/
theorem buySpot_alike (hv : Listed venue) (hleg : leg ∈ venue.legs) {spend : Nat}
    (hrouted : routed venue m = some (leg, spend))
    (hlast : ∀ kind symbol, m.last ≠ some (.swap kind symbol)) (shortUnits : Nat) :
    Lockstep (Meets m) (buySpot (world venue true polls) (market leg) shortUnits spend)
      (match leg.buys spend with
        | none => do
            Agent.closeNaked leg shortUnits
            Agent.throwExecution .spotBuyFailed
        | some received => Agent.push ⟨.spotBuy, .base, leg.symbol, received, spend, 0⟩)
      (fun _ _ => Met fun _ => True) (BothStop fun _ => True) := by
  refine ask_answers (c := .spotBalance leg.symbol) (answer_spotBalance hv hleg (n := 0)
    (fun _ => delivered_eq_zero hlast) fun _ => rfl) rfl ?_
  have hswap : answer venue true (m.saw ⟨.spotBalance leg.symbol, .answered (leg.balance + 0)⟩)
      (.swap .spotBuy leg.symbol) = granted (leg.buys spend).isSome :=
    answer_swap hrouted true .spotBuy leg.symbol
  cases hbuys : leg.buys spend with
  | none =>
      -- the short is closed again in both, as far as it can be
      rw [hbuys] at hswap
      refine attempt_fails (c := .swap .spotBuy leg.symbol) (n := 0) hswap ?_
      rw [bind_assoc]
      exact .bind (closeNaked_alike hv hleg _) fun _ _ => of_met fun m' _ =>
        throwExecution_alike (M := fun _ => True) trivial
  | some received =>
      rw [hbuys] at hswap
      refine attempt_answers (c := .swap .spotBuy leg.symbol) (x := ()) hswap rfl fun id => ?_
      refine ask_answers (c := .spotBalance leg.symbol) (answer_spotBalance hv hleg
        (n := received) (fun _ => ?_) nofun) rfl ?_
      · show ((routed venue m).bind fun route => route.1.buys route.2).getD 0 = received
        rw [hrouted]
        show (leg.buys spend).getD 0 = received
        rw [hbuys]
        rfl
      · exact to_met (push_alike (by simp [Entry.shown, shownRow, market])) trivial

theorem answer_getRoute (hv : Listed venue) (hleg : leg ∈ venue.legs) (amount : Nat) :
    answer venue true m (.getRoute leg.symbol amount) = .answered (leg.buyQuote amount) := by
  show Outcome.answered ((Calls.spotLeg venue leg.symbol).bind _) = _
  rw [hv.spotLeg hleg]
  rfl

/-- A spend that no route takes. -/
theorem quoteSpend_fails (hv : Listed venue) (hleg : leg ∈ venue.legs) {spend : Nat}
    {k : Nat → Script γ} {Q : γ → β → Record → Trip → Prop} (hquote : leg.buyQuote spend = none) :
    Lockstep (Meets m) (quoteSpend (world venue true polls) (market leg) spend >>= k)
      (Agent.throwExecution .noRoute) Q (BothStop fun _ => True) := by
  rw [quoteSpend, bind_assoc]
  refine ask_answers (c := .getRoute leg.symbol spend)
    ((answer_getRoute hv hleg spend).trans (congrArg _ hquote)) rfl ?_
  exact throwExecution_alike (M := fun _ => True) trivial

/-- A spend with a route, which the routes' last request then is. -/
theorem quoteSpend_alike (hv : Listed venue) (hleg : leg ∈ venue.legs) {spend expected : Nat}
    {k : Nat → Script γ} {l : Unit → Adapter β} {Q : γ → β → Record → Trip → Prop}
    (hquote : leg.buyQuote spend = some expected)
    (hk : ∀ m', routed venue m' = some (leg, spend) →
      Lockstep (Meets m') (k expected) (l ()) Q (BothStop fun _ => True)) :
    Lockstep (Meets m) (quoteSpend (world venue true polls) (market leg) spend >>= k)
      (do
        Agent.orThrow leg.builds .buildFailed
        Agent.orThrowExecution (expected ≠ 0) .quotedNothing
        l ())
      Q (BothStop fun _ => True) := by
  have hrouted := routed_saw (m := m) hv hleg spend (.answered (some expected))
  have hbuilt : answer venue true _ (.buildRoute leg.symbol) = _ :=
    answer_buildRoute hrouted leg.symbol
  rw [hquote] at hbuilt
  simp only [quoteSpend, bind_assoc]
  refine ask_answers (c := .getRoute leg.symbol spend)
    ((answer_getRoute hv hleg spend).trans (congrArg _ hquote)) rfl ?_
  refine ask_granted (c := .buildRoute leg.symbol) hbuilt rfl ?_ fun r t h => h.stops trivial
  refine .bind (orThrowExecution_alike (M := fun _ => True) rfl trivial) fun _ _ => .of_and
    fun _ => ?_
  exact hk _ hrouted

/-- A deployment. -/
theorem deploy_alike (hv : Listed venue) (cfg : Settings) (ticker : String)
    (legs : DeploymentLegs) (leverageBps : Nat) :
    Lockstep (Meets m)
      (deploy (world venue true polls) (venue.legs.map market) cfg ticker legs.spotNotional
        legs.perpMargin leverageBps)
      (Agent.deploy cfg venue ticker legs leverageBps) (fun _ _ => Met fun _ => True)
      (BothStop fun _ => True) := by
  refine marketFor_alike trivial fun leg hleg => ?_
  refine ask_answers (c := .getRoute leg.symbol legs.spotNotional)
    (answer_getRoute hv hleg _) rfl ?_
  refine .bind (orThrow_alike (M := fun _ => True) rfl trivial) fun _ _ => .of_and fun _ => ?_
  -- the margin, and what it can carry
  refine .bind (backing_alike rfl _) fun backed backed' => .of_and fun hbacked => ?_
  subst hbacked
  refine of_met fun m₁ hasked => ?_
  refine .bind (awaitRegistration_alike _ hasked) fun _ _ => of_met fun m₂ _ => ?_
  refine ask_granted (c := .updateLeverage leg.perpSymbol _) (x := ()) rfl rfl ?_
    fun r t h => h.stops trivial
  refine .bind (orThrowExecution_alike (M := fun _ => True) rfl trivial) fun _ _ => .of_and
    fun _ => ?_
  generalize min (backed * leverageBps / bps) legs.spotNotional = spend
  cases hquote : leg.buyQuote spend with
  | none => exact quoteSpend_fails hv hleg hquote
  | some expected =>
      -- the short, and the spot leg against it: the route asked for last is this spend's
      refine quoteSpend_alike hv hleg hquote (l := fun _ => _) fun m₃ hrouted => ?_
      refine .bind (anyway (lotUnits_alike hv hleg _)) fun lot lot' => .of_and fun hlot => ?_
      subst hlot
      refine .bind (orThrowExecution_alike (M := fun _ => True) rfl trivial) fun _ _ => .of_and
        fun _ => ?_
      refine ensureAllowance_alike hrouted (fun m₄ _ hroute => ?_) fun _ _ => trivial
      rw [← bind_assoc]
      refine .bind (anyway (createMarketOrder_alike hv hleg _ _ _ _)) fun _ _ => ?_
      refine buySpot_alike hv hleg ?_ ?_ _
      · rw [← hrouted, routed, routed]
        exact congrArg (fun route => Option.bind route _) hroute
      · intro kind symbol hswap
        cases hswap

/-! ### Unwinding -/

/-- A leg as the world has an unwind price it. -/
def priced (leg : Leg) : PricedLeg := ⟨market leg, leg.balance, leg.sellQuote⟩

theorem priceLegs_alike {k : List PricedLeg → Script γ} {y : Adapter β} {legs : List Leg}
    {Q : γ → β → Record → Trip → Prop} {E : Failure → VenueFailure → Record → Trip → Prop}
    (hv : Listed venue) (hlegs : ∀ leg ∈ legs, leg ∈ venue.legs)
    (hk : ∀ m', Lockstep (Meets m') (k (legs.map priced)) y Q E) :
    Lockstep (Meets m) (priceLegs (world venue false polls) (legs.map market) >>= k) y Q E := by
  induction legs generalizing m k with
  | nil => exact hk m
  | cons leg rest ih =>
      have hleg : leg ∈ venue.legs := hlegs leg (by simp)
      have hrest := fun other hother => hlegs other (List.mem_cons_of_mem _ hother)
      have hothers : ∀ m', Lockstep (Meets m') (priceLegs (world venue false polls)
          (rest.map market) >>= fun others => k (priced leg :: others)) y Q E :=
        fun m' => ih hrest hk
      simp only [List.map_cons, priceLegs, bind_assoc, pure_bind]
      refine ask_answers (c := .spotBalance leg.symbol) (x := leg.balance)
        (answer_spotBalance hv hleg (n := 0) nofun fun _ => rfl) rfl ?_
      -- nothing held is not quoted; what is held is, and a quote that fails is none
      by_cases hbalance : leg.balance = 0
      · rw [spotSellRoute, if_pos hbalance]
        rw [priced, hv.unheld leg hleg hbalance] at hothers
        exact hothers _
      · have hquoted : answer venue false
            (m.saw ⟨.spotBalance leg.symbol, .answered leg.balance⟩)
            (.getRoute leg.symbol leg.balance) = .answered leg.sellQuote := by
          show Outcome.answered ((Calls.spotLeg venue leg.symbol).bind _) = _
          rw [hv.spotLeg hleg]
          rfl
        rw [spotSellRoute, if_neg hbalance]
        exact attempt_ask_answers (c := .getRoute leg.symbol leg.balance) hquoted rfl (hothers _)

theorem sliceOf_eq (allocation : String × Nat) :
    sliceOf (venue.legs.map priced) allocation =
      (Agent.sliceOf venue allocation).map fun slice => (market slice.1, slice.2) := by
  have hfind : (venue.legs.map priced).find? (fun leg => leg.market.ticker = allocation.1) =
      (venue.legs.find? fun leg => leg.ticker = allocation.1).map priced := List.find?_map ..
  rw [sliceOf, hfind, Agent.sliceOf]
  cases venue.legs.find? fun leg => leg.ticker = allocation.1 with
  | none => rfl
  | some leg =>
      simp only [Option.map_some, Option.bind_some, priced]
      cases leg.sellQuote with
      | none => rfl
      | some value =>
          show (if value = 0 ∨ closeUnits leg.balance value allocation.2 = 0 then none else _) =
            (if value = 0 ∨ closeUnits leg.balance value allocation.2 = 0 then none
              else some _).map _
          split <;> rfl

/-- The loop over the allocations, slice by slice. -/
theorem closeSlices_alike (hv : Listed venue) (allocations : List (String × Nat)) :
    Lockstep (Meets m)
      (closeSlices (world venue false polls) (venue.legs.map priced) allocations)
      (Agent.closeSlices venue allocations)
      (fun a b r t => a = (b : Int) ∧ Met (fun _ => True) r t) (BothStop fun _ => True) := by
  induction allocations generalizing m with
  | nil => exact .pure fun _ _ h => ⟨rfl, h.met trivial⟩
  | cons allocation rest ih =>
      rw [closeSlices, Agent.closeSlices, sliceOf_eq]
      cases hslice : Agent.sliceOf venue allocation with
      | none => exact ih
      | some slice =>
          have hleg : slice.1 ∈ venue.legs := (sliceOf_some hslice).1
          refine .bind (anyway (closeLeg_alike hv hleg slice.2 allocation.2))
            fun raised raised' => .of_and fun hraised => ?_
          refine of_met fun m' _ => .bind ih fun more more' => .of_and fun hmore => ?_
          refine .pure fun _ _ h => ⟨?_, h⟩
          rw [hraised, hmore, Nat.cast_add]

/-- An unwind. -/
theorem unwind_alike (hv : Listed venue) (amount leverageBps : Nat) :
    Lockstep (Meets m)
      (unwind (world venue false polls) (venue.legs.map market) amount leverageBps)
      (Agent.unwind venue amount leverageBps) (fun _ _ => Met fun _ => True)
      (BothStop fun _ => True) := by
  refine priceLegs_alike hv (fun _ h => h) fun m₁ => ?_
  have hpriced : (venue.legs.map priced).any (fun leg => leg.value.any (· > 0)) =
      venue.legs.any fun leg => leg.sellQuote.any (· > 0) := List.any_map
  have hholdings : (venue.legs.map priced).map PricedLeg.holding = holdings venue :=
    List.map_map
  refine .bind (orThrow_alike (M := fun _ => True) hpriced trivial) fun _ _ => .of_and
    fun _ => ?_
  rw [hholdings]
  -- what the sales have paid goes home with the margin or without it
  refine .bind (closeSlices_alike hv _) fun proceeds proceeds' => .of_and fun hproceeds => ?_
  refine of_met fun m₂ _ => ?_
  refine .bind (Q := fun a b r t => a = b ∧ Met (fun _ => True) r t) ?_ fun landed landed' =>
    .of_and fun hlanded => of_met fun m₃ _ => ?_
  · refine .attempt ((repatriateMargin_alike hv _ _).consequence (fun _ _ h => h)
      (fun _ _ _ _ h => ⟨h.1, h.2.mono fun _ _ => trivial⟩) fun _ _ _ _ h => h) fun _ _ => ?_
    exact .pure fun _ _ h => ⟨rfl, h.2.mono fun _ _ => trivial⟩
  · subst hproceeds hlanded
    exact returnAll_alike (proceeds' + landed)

/-! ### Closing everything -/

theorem perpPosition_alike {k : Nat → Script γ} {y : Adapter β}
    {Q : γ → β → Record → Trip → Prop} {E : Failure → VenueFailure → Record → Trip → Prop}
    (hv : Listed venue) (hleg : leg ∈ venue.legs)
    (hk : ∀ m', Idle m m' → Lockstep (Meets m') (k (Agent.perpPosition leg)) y Q E) :
    Lockstep (Meets m) (perpPosition (world venue deploying polls) (market leg) >>= k) y Q E := by
  rw [perpPosition, bind_assoc]
  refine ask_answers (c := .positions) (x := some (positionsOf venue.legs)) rfl rfl ?_
  have hposition : (positionsOf venue.legs).find? (fun p => p.symbol = (market leg).perpSymbol) =
      _ := hv.position hleg
  simp only [Option.getD_some, hposition]
  exact hk _ rfl

theorem Carried.getD {f : Failure} {g : VenueFailure} (h : Carried f g) :
    (f.activity.getD []).map Entry.shown = (g.activity.getD []).map shownRow := by
  rcases f with ⟨_, _ | rows⟩ <;> rcases g with ⟨_, _ | rows'⟩ <;> simp_all [Carried]

/-- What a failure carries is added to what there is, in both. -/
theorem recordFailure_alike (f : Failure) (g : VenueFailure) :
    Lockstep (BothStop M f g)
      (Effect.update fun r => { r with activity := r.activity ++ f.activity.getD [] } :
        Script Unit)
      (Effect.update fun t => { t with activity := t.activity ++ g.activity.getD [] } :
        Adapter Unit)
      (fun _ _ => Met M) (BothStop fun _ => True) := by
  refine .update fun r t h => ?_
  obtain ⟨hcarried, n, hn, hmeets⟩ := h
  refine ⟨n, hn, hmeets.memory, ?_, hmeets.returned⟩
  rw [List.map_append, List.map_append, hmeets.activity, hcarried.getD]

/-- A market closed in full, or its failure counted. -/
theorem closeMarket_alike (hv : Listed venue) (hleg : leg ∈ venue.legs) :
    Lockstep (Meets m) (closeMarket (world venue false polls) (market leg))
      (Agent.closeMarket leg)
      (fun a b r t => a = b.1 ∧ Met (fun m' => m'.gained = m.gained + b.2) r t)
      (BothStop fun _ => True) := by
  refine ask_answers (c := .spotBalance leg.symbol) (x := leg.balance)
    (answer_spotBalance hv hleg (n := 0) nofun fun _ => rfl) rfl ?_
  refine perpPosition_alike hv hleg fun m₁ hgained => ?_
  refine .ite Iff.rfl (fun _ => .pure fun _ _ h => ⟨rfl, h.met hgained⟩) fun _ => ?_
  have hmax : ∀ position, (if leg.balance > position then leg.balance else position) =
      max leg.balance position := fun position => by split <;> omega
  rw [hmax]
  refine .attempt (F := BothStop (Idle m)) ?_ fun f g => ?_
  · refine .bind (since hgained (closeLeg_alike hv hleg _ 0)) fun _ raised => ?_
    exact .pure fun _ _ h => ⟨rfl, h.2⟩
  · exact .bind (recordFailure_alike f g) fun _ _ => .pure fun _ _ h => ⟨rfl, h⟩

theorem closeMarkets_alike {legs : List Leg} (hv : Listed venue)
    (hlegs : ∀ leg ∈ legs, leg ∈ venue.legs) :
    Lockstep (Meets m) (closeMarkets (world venue false polls) (legs.map market))
      (Agent.closeMarkets legs)
      (fun a b r t => a = b.1 ∧ Met (fun m' => m'.gained = m.gained + b.2) r t)
      (BothStop fun _ => True) := by
  induction legs generalizing m with
  | nil => exact .pure fun _ _ h => ⟨rfl, h.met rfl⟩
  | cons leg rest ih =>
      refine .bind (closeMarket_alike hv (hlegs leg (by simp))) fun failed closed => .of_and
        fun hfailed => of_met fun m₁ hgained => ?_
      refine .bind (ih fun other hother => hlegs other (List.mem_cons_of_mem _ hother))
        fun failed' others => .of_and fun hfailed' => .pure fun _ _ h => ?_
      refine ⟨by rw [hfailed, hfailed'], h.mono fun n hn => ?_⟩
      rw [hn, hgained]
      exact Nat.add_assoc ..

/-- Everything closed and swept home, and the whole balance returned. -/
theorem closeAll_alike (hv : Listed venue) (hfresh : m.gained = 0) :
    Lockstep (Meets m) (closeAll (world venue false polls) (venue.legs.map market))
      (Agent.closeAll venue) (fun _ _ => Met fun _ => True) (BothStop fun _ => True) := by
  refine .bind (closeMarkets_alike hv fun _ h => h) fun failed closed => .of_and
    fun hfailed => of_met fun m₁ hgained => ?_
  refine .bind (Q := fun a b r t => a = b.1 ∧ Met (fun m' => m'.gained = m₁.gained + b.2) r t)
    ?_ fun failed' swept => .of_and fun hfailed' => of_met fun m₂ hgained' => ?_
  · refine .attempt (F := BothStop (Idle m₁)) ?_ fun _ _ => ?_
    · refine .bind (repatriateMargin_alike hv _ _) fun _ _ => .pure fun _ _ h => ⟨rfl, h.2⟩
    · exact .pure fun _ _ h => ⟨rfl, h.2⟩
  -- the balance the script reads is what the venue has added up
  have hbalance : answer venue false m₂ .usdcBalance =
      .answered (venue.idleOnBase + closed.2 + swept.2) := by
    show Outcome.answered (venue.idleOnBase + m₂.gained) = _
    rw [hgained', hgained, hfresh, Nat.zero_add, Nat.add_assoc]
  refine ask_answers (c := .usdcBalance) hbalance rfl ?_
  refine .bind (returnAll_alike _) fun _ _ => of_met fun m₃ _ => ?_
  refine (orThrowExecution_alike (M := fun _ => True) ?_ trivial).consequence (fun _ _ h => h)
    (fun _ _ _ _ h => h.2.met trivial) fun _ _ _ _ h => h
  rw [hfailed, hfailed']

/-! ### Rebalancing -/

theorem minOrderNotionalUsd_alike {k : ℚ → Script γ} {y : Adapter β}
    {Q : γ → β → Record → Trip → Prop} {E : Failure → VenueFailure → Record → Trip → Prop}
    (hv : Listed venue) (hleg : leg ∈ venue.legs)
    (hk : ∀ m', Lockstep (Meets m') (k (leg.minOrderSize.getD 0)) y Q E) :
    Lockstep (Meets m) (minOrderNotionalUsd (world venue deploying polls) (market leg) >>= k)
      y Q E := by
  rw [minOrderNotionalUsd, bind_assoc]
  exact ask_answers (c := .markets leg.perpSymbol) (answer_markets hv hleg) rfl (hk _)

theorem markPriceUsd_alike {k : ℚ → Script γ} {y : Adapter β}
    {Q : γ → β → Record → Trip → Prop} {E : Failure → VenueFailure → Record → Trip → Prop}
    (hv : Listed venue) (hleg : leg ∈ venue.legs)
    (hk : ∀ m', Lockstep (Meets m') (k (leg.mark.getD 0)) y Q E) :
    Lockstep (Meets m) (markPriceUsd (world venue deploying polls) (market leg) >>= k)
      y Q E := by
  rw [markPriceUsd, bind_assoc]
  refine ask_answers (c := .prices) (x := quotesOf venue.legs) rfl rfl ?_
  have hquote : (quotesOf venue.legs).find? (fun q => q.symbol = (market leg).perpSymbol) =
      _ := hv.quote hleg
  simp only [hquote]
  exact hk _

theorem rebalance_alike (hv : Listed venue) (ticker : String) (targetUnits : Nat) :
    Lockstep (Meets m)
      (rebalance (world venue deploying polls) (venue.legs.map market) ticker targetUnits)
      (Agent.rebalance venue ticker targetUnits) (fun _ _ => Met fun _ => True)
      (BothStop fun _ => True) := by
  refine marketFor_alike trivial fun leg hleg => perpPosition_alike hv hleg fun m₁ _ => ?_
  refine .ite Iff.rfl (fun _ => .pure fun _ _ h => h.met trivial) fun _ => ?_
  refine .bind (anyway (lotUnits_alike hv hleg _)) fun lot lot' => .of_and fun hlot => ?_
  subst hlot
  refine .ite Iff.rfl (fun _ => .pure fun _ _ h => h.met trivial) fun _ => ?_
  -- the source reads the minimum and the mark only here
  refine minOrderNotionalUsd_alike hv hleg fun m₂ => markPriceUsd_alike hv hleg fun m₃ => ?_
  refine .ite Iff.rfl (fun _ => .pure fun _ _ h => h.met trivial) fun _ => ?_
  exact anyway (to_met (createMarketOrder_alike hv hleg _ _ _ _) trivial)

/-! ### Every action -/

def Action.opens : Action → Bool
  | .deploy _ _ _ _ => true
  | _ => false

/-- An action as it is carried out on a venue. -/
def onVenue (cfg : Settings) (venue : Venue) : Action → Adapter Unit
  | .deploy ticker spotNotional perpMargin leverageBps =>
      Agent.deploy cfg venue ticker ⟨spotNotional, perpMargin⟩ leverageBps
  | .unwind amount leverageBps => Agent.unwind venue amount leverageBps
  | .topUpMargin amount => Agent.topUpMargin venue amount
  | .rebalance ticker targetUnits => Agent.rebalance venue ticker targetUnits
  | .closeAll => Agent.closeAll venue

theorem run_lockstep (hv : Listed venue) (hfresh : m.gained = 0) (polls : Nat) (cfg : Settings)
    (action : Action) :
    Lockstep (Meets m)
      (run (world venue action.opens polls) (venue.legs.map market) cfg action)
      (onVenue cfg venue action) (fun _ _ => Met fun _ => True) (BothStop fun _ => True) := by
  cases action with
  | deploy ticker spotNotional perpMargin leverageBps =>
      exact deploy_alike hv cfg ticker ⟨spotNotional, perpMargin⟩ leverageBps
  | unwind amount leverageBps => exact unwind_alike hv amount leverageBps
  | topUpMargin amount =>
      exact .bind (bridgeMargin_alike amount) fun _ _ => .pure fun _ _ h => h.2.met trivial
  | rebalance ticker targetUnits => exact rebalance_alike hv ticker targetUnits
  | closeAll => exact closeAll_alike hv hfresh

/-- What has been handed back to the vault, call by call. -/
def handedBack (trace : List Event) : Nat := (remember trace).returned

/-- On a venue every action makes the same rows, returns as much to the vault and ends alike,
whether the world is asked call by call or taken as a whole. An error carries the same rows too. -/
theorem run_alike (hv : Listed venue) (polls : Nat) (cfg : Settings) (action : Action) :
    Alike
      (fun _ _ r t => r.activity.map Entry.shown = t.activity.map shownRow ∧
        handedBack r.trace = t.returned)
      (fun f g r t => Carried f g ∧ handedBack r.trace = t.returned)
      (run (world venue action.opens polls) (venue.legs.map market) cfg action {})
      (onVenue cfg venue action {}) := by
  have hmeets : Meets {} {} {} := ⟨rfl, rfl, rfl⟩
  refine (run_lockstep hv rfl polls cfg action _ _ hmeets).mono ?_ ?_
  · rintro _ _ r t ⟨m, -, h⟩
    exact ⟨h.activity, (congrArg Memory.returned h.memory).trans h.returned⟩
  · rintro f g r t ⟨hcarried, m, -, h⟩
    exact ⟨hcarried, (congrArg Memory.returned h.memory).trans h.returned⟩

end Calls

end Agent

end LemonMarket
