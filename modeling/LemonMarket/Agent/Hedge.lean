import LemonMarket.Agent.IdleReturn

/-!
# LemonMarket.Agent.Hedge

**When a rebalance that is offered is placed.** The policy (`rebalanceIsPlaceable`) and
the adapter (`rebalance`) each check a correction against the venue's lot grid and its
minimum order, from the same data, and not in the same way. The policy reads a missing lot
size as no grid, where the adapter throws; it values the correction before it is snapped to
the grid, where the adapter values what is left after; and it prices it at the entry price
when there is no mark, where the adapter prices it at nothing.

So an offer is placed exactly when the venue states a lot size, the snapped correction is
on its grid, and that is worth the minimum at the mark itself.
-/

namespace LemonMarket

namespace Agent

open Lib
open LemonVault (bps)

/-! ### The observation -/

/-- A token count in the 1e18 basis the two legs are compared in. -/
def toUnits (balance decimals : Nat) : Nat :=
  if decimals = 18 then balance
  else if decimals < 18 then balance * 10 ^ (18 - decimals)
  else balance / 10 ^ (decimals - 18)

/-- What an observation takes of a market that no order depends on. -/
structure MarketQuote where
  fundingShortPercentPerHour : ℚ
  spotBuyable : Bool
  spotGasUsd : ℚ
  spotImpactPercent : ℚ

/-- One market as `observe` reports it: the mark or the entry price, and zero for a figure
the venue does not state. -/
def observeMarket (quotes : String → MarketQuote) (leg : Leg) : MarketSnapshot where
  ticker := leg.ticker
  targetWeightBps := leg.targetWeightBps
  spotValueUsdc := leg.sellQuote.getD 0
  spotUnits := toUnits leg.balance leg.spotTokenDecimals
  perpUnits := perpPosition leg
  fundingShortPercentPerHour := (quotes leg.ticker).fundingShortPercentPerHour
  spotBuyable := leg.sellQuote.isSome && (quotes leg.ticker).spotBuyable
  spotSellable := leg.sellQuote.isSome
  markPriceUsd := if leg.mark.getD 0 > 0 then leg.mark.getD 0 else leg.entryPrice.getD 0
  lotSize := leg.lotSize.getD 0
  minOrderUsd := leg.minOrderSize.getD 0
  spotGasUsd := (quotes leg.ticker).spotGasUsd
  spotImpactPercent := (quotes leg.ticker).spotImpactPercent

/-! ### The venue's rules -/

/-- An order's size meets what the venue states: a multiple of its lot, and worth its
minimum at its mark. -/
structure MeetsSpec (leg : Leg) (size : ℚ) : Prop where
  lot : ∀ lot ∈ leg.lotSize, 0 < lot → ∃ n : Nat, size = n * lot
  minimum : ∀ minimum ∈ leg.minOrderSize, 0 < minimum → ∃ mark ∈ leg.mark, minimum ≤ size * mark

/-- How far apart the two legs are, in the 1e18 basis. -/
def legGap (leg : Leg) : Int := (toUnits leg.balance leg.spotTokenDecimals : Int) - perpPosition leg

/-- The correction a lot size leaves, in units of the underlying. -/
def snappedSize (leg : Leg) (lot : ℚ) : ℚ :=
  formatUnitsForVenue (snapToLot (legGap leg).natAbs (round (lot * 10 ^ 18)).toNat) 18

/-- The venue states a lot size, the snapped correction is on its grid, and it is worth
the minimum, if one is stated, at the mark. -/
def PlaceableAsSnapped (leg : Leg) : Prop :=
  ∃ lot, leg.lotSize = some lot ∧ 0 < lot ∧ (∃ n : Nat, snappedSize leg lot = n * lot) ∧
    (0 < leg.minOrderSize.getD 0 → leg.minOrderSize.getD 0 ≤ snappedSize leg lot * leg.mark.getD 0)

variable {cfg : Settings} {s : VaultSnapshot} {venue : Venue} {leg : Leg} {now : Nat}
  {quotes : String → MarketQuote}

/-! ### What is offered -/

/-- A rebalance on the list is of a market whose correction the policy takes to be
placeable. -/
theorem placeable_of_offered {ticker : String}
    (h : ({ kind := .rebalance, market := some ticker } : Decision) ∈
      permittedActions cfg s now) :
    ∃ m ∈ s.markets, m.ticker = ticker ∧ ∃ usd, rebalanceIsPlaceable m = .ok usd := by
  rcases growth_of_offered h (.inr rfl) with h | h
  · obtain ⟨_, -, -, _, -, h⟩ := nextDeployment_some h
    obtain ⟨_, _, -, -, -, hd⟩ := openPosition_some h
    cases hd
  · obtain ⟨m, hm, hplaceable, hd⟩ := mem_rebalances.mp h
    simp only [drifted, List.mem_insertionSort, List.mem_filter] at hm
    obtain ⟨-, hmarket⟩ : True ∧ some ticker = some m.ticker :=
      ⟨trivial, congrArg Decision.market hd⟩
    exact ⟨m, hm.1, (Option.some.inj hmarket).symm, hplaceable⟩

/-- The policy's own checks: the legs differ, by at least a lot where one is stated. -/
theorem rebalanceIsPlaceable_ok {m : MarketSnapshot} {usd : ℚ}
    (h : rebalanceIsPlaceable m = .ok usd) :
    (m.spotUnits : Int) - m.perpUnits ≠ 0 ∧
      (0 < m.lotSize → m.lotSize ≤ ((m.spotUnits : Int) - m.perpUnits).natAbs / 10 ^ 18) := by
  simp only [rebalanceIsPlaceable] at h
  split at h
  next => cases h
  next hne =>
    refine ⟨fun hz => hne (by simp [hz]), ?_⟩
    intro hlot
    split at h
    next => cases h
    next hgrid =>
      have hfloor :
          1 ≤ ⌊(((m.spotUnits : Int) - m.perpUnits).natAbs : ℚ) / 10 ^ 18 / m.lotSize⌋ := by
        by_contra hlt
        exact hgrid ⟨hlot, not_le.mp hlt⟩
      have hone := Int.le_floor.mp hfloor
      rw [Int.cast_one, one_le_div hlot] at hone
      exact hone

/-- A correction of at least a lot survives the snap. -/
theorem snapToLot_pos {units : Nat} {lot : ℚ} (hunits : 0 < units)
    (h : lot ≤ (units : ℚ) / 10 ^ 18) :
    0 < snapToLot units (round (lot * 10 ^ 18)).toNat := by
  unfold snapToLot
  split
  next => exact hunits
  next hne =>
    -- Rounding the lot to units does not take it past a whole number above it.
    have hle : round (lot * 10 ^ 18) ≤ units := by
      have hscaled : lot * 10 ^ 18 ≤ ((units : Int) : ℚ) := by
        rw [Int.cast_natCast]
        exact (le_div_iff₀ (by norm_num)).mp h
      calc round (lot * 10 ^ 18) = ⌊lot * 10 ^ 18 + 1 / 2⌋ := round_eq _
        _ ≤ ⌊((units : Int) : ℚ) + 1 / 2⌋ := Int.floor_le_floor (by linarith)
        _ = units := by rw [← round_eq, round_intCast]
    have hpos : 0 < (round (lot * 10 ^ 18)).toNat := Nat.pos_of_ne_zero hne
    exact Nat.mul_pos (Nat.div_pos (by omega) hpos) hpos

/-! ### What is placed -/

/-- Carrying out a rebalance ends well, with one order on the record, and that order meets
what the venue states. -/
def Placed (cfg : Settings) (venue : Venue) (s : VaultSnapshot) (leg : Leg) : Prop :=
  ∃ t row, execute cfg venue s { kind := .rebalance, market := some leg.ticker } {} = (.ok (), t) ∧
    t.activity = [row] ∧ MeetsSpec leg (formatUnitsForVenue row.baseAmount 18)

/-- The adapter and the worker find the same market for a ticker. -/
theorem find_observed (hobserved : s.markets = venue.legs.map (observeMarket quotes))
    {ticker : String} : (s.markets.find? fun m => m.ticker = ticker) =
      (venue.legs.find? fun leg => leg.ticker = ticker).map (observeMarket quotes) := by
  rw [hobserved, List.find?_map]
  rfl

/-- A market with a ticker of its own is the one its ticker finds. -/
theorem find_ticker {legs : List Leg} (hdistinct : (legs.map Leg.ticker).Nodup)
    (hleg : leg ∈ legs) : (legs.find? fun l => l.ticker = leg.ticker) = some leg := by
  induction legs with
  | nil => cases hleg
  | cons first rest ih =>
      obtain ⟨hfirst, hrest⟩ := List.nodup_cons.mp hdistinct
      rcases List.mem_cons.mp hleg with rfl | hleg
      · exact List.find?_cons_of_pos (by simp)
      · have hne : first.ticker ≠ leg.ticker := by
          intro heq
          exact hfirst (heq ▸ List.mem_map_of_mem hleg)
        rw [List.find?_cons_of_neg (by simpa using hne)]
        exact ih hrest hleg

/-- What a rebalance does with the correction once it is snapped. -/
def placeCorrection (leg : Leg) (correction : Nat) : Adapter Unit :=
  if correction = 0 then pure ()
  else if leg.minOrderSize.getD 0 > 0 ∧
      (correction : ℚ) / 10 ^ 18 * leg.mark.getD 0 < leg.minOrderSize.getD 0 then pure ()
  else do
    createMarketOrder leg correction 18
    push ⟨.perpRebalance, .solana, leg.perpSymbol, correction, 0, 0⟩

/-- An order is on the record only past the three checks of `placeCorrection`. -/
theorem placeCorrection_placed {correction : Nat} {row : Row} {t : Trip}
    (h : placeCorrection leg correction {} = (.ok (), t)) (hrow : t.activity = [row]) :
    row.baseAmount = correction := by
  unfold placeCorrection at h
  -- nothing to correct, or less than the venue takes: no row
  split at h
  next =>
    cases h
    cases hrow
  next =>
    split at h
    next =>
      cases h
      cases hrow
    next =>
      cases haccepted : leg.takesOrder (formatUnitsForVenue correction 18) with
      | false =>
          rw [createMarketOrder, haccepted] at h
          cases h
      | true =>
          rw [createMarketOrder, haccepted] at h
          cases h
          exact congrArg Row.baseAmount (List.singleton_inj.mp hrow).symm

/-- A correction the venue takes, worth its minimum, is placed. -/
theorem placeCorrection_ok {correction : Nat} (hpos : correction ≠ 0)
    (hminimum : 0 < leg.minOrderSize.getD 0 →
      leg.minOrderSize.getD 0 ≤ (correction : ℚ) / 10 ^ 18 * leg.mark.getD 0)
    (haccepted : leg.takesOrder (formatUnitsForVenue correction 18) = true) :
    placeCorrection leg correction {} = (.ok (),
      { activity := [⟨.perpRebalance, .solana, leg.perpSymbol, correction, 0, 0⟩] }) := by
  have hworth : ¬ (leg.minOrderSize.getD 0 > 0 ∧
      (correction : ℚ) / 10 ^ 18 * leg.mark.getD 0 < leg.minOrderSize.getD 0) := by
    rintro ⟨hstated, hlt⟩
    exact absurd (hminimum hstated) (not_le.mpr hlt)
  rw [placeCorrection, if_neg hpos, if_neg hworth, createMarketOrder, haccepted]
  rfl

/-- A rebalance of legs that differ: the lot size is read, and the rest is placed. -/
theorem rebalance_eq (cfg : Settings)
    (hobserved : s.markets = venue.legs.map (observeMarket quotes))
    (hdistinct : (venue.legs.map Leg.ticker).Nodup) (hleg : leg ∈ venue.legs)
    (hgap : legGap leg ≠ 0) :
    execute cfg venue s { kind := .rebalance, market := some leg.ticker } {} =
      (do
        let lot ← lotUnits leg 18
        placeCorrection leg (snapToLot (legGap leg).natAbs lot) : Adapter Unit) {} := by
  have hfind := find_ticker hdistinct hleg
  have htarget : (s.markets.find? fun m => m.ticker = leg.ticker) =
      some (observeMarket quotes leg) := by
    rw [find_observed hobserved, hfind]
    rfl
  have hmarket : marketFor venue leg.ticker ({} : Trip) = (.ok leg, {}) := by
    rw [marketFor, hfind]
    rfl
  show ((Effect.expect ⟨.noMarket, none⟩ (s.markets.find? fun m => m.ticker = leg.ticker) :
    Adapter MarketSnapshot) >>= fun target => rebalance venue leg.ticker target.spotUnits) {} = _
  rw [htarget]
  show rebalance venue leg.ticker (toUnits leg.balance leg.spotTokenDecimals) {} = _
  unfold legGap at hgap
  rw [rebalance, Effect.bind_of_ok hmarket]
  simp only [hgap, if_false]
  rfl

/-- The lot size is read if it is stated and positive. -/
theorem lotUnits_ok {lot : ℚ} (hlot : leg.lotSize = some lot) (hpos : 0 < lot) (t : Trip) :
    lotUnits leg 18 t = (.ok (round (lot * 10 ^ 18)).toNat, t) := by
  rw [lotUnits, hlot]
  show (if lot ≤ 0 then throwPlain .noLotSize else _ : Adapter Nat) t = _
  rw [if_neg (not_le.mpr hpos)]
  rfl

theorem lotUnits_error (hlot : ¬ ∃ lot, leg.lotSize = some lot ∧ 0 < lot) (t : Trip) :
    lotUnits leg 18 t = (.error ⟨.noLotSize, none⟩, t) := by
  unfold lotUnits
  cases hstated : leg.lotSize with
  | none => rfl
  | some lot =>
      have hle : lot ≤ 0 := not_lt.mp fun hpos => hlot ⟨lot, hstated, hpos⟩
      show (if lot ≤ 0 then throwPlain .noLotSize else _ : Adapter Nat) t = _
      rw [if_pos hle]
      rfl

/-- What the venue asks of the snapped correction, where it states a lot size: a missing
mark meets no minimum. -/
theorem meetsSpec_snapped {lot : ℚ} (hlot : leg.lotSize = some lot) (hpos : 0 < lot) :
    MeetsSpec leg (snappedSize leg lot) ↔ (∃ n : Nat, snappedSize leg lot = n * lot) ∧
      (0 < leg.minOrderSize.getD 0 →
        leg.minOrderSize.getD 0 ≤ snappedSize leg lot * leg.mark.getD 0) := by
  constructor
  · intro hspec
    refine ⟨hspec.lot lot hlot hpos, ?_⟩
    intro hminimum
    cases hstated : leg.minOrderSize with
    | none =>
        -- no minimum reads as zero
        rw [hstated] at hminimum
        exact absurd hminimum (lt_irrefl 0)
    | some minimum =>
        rw [hstated] at hminimum
        obtain ⟨mark, hmark, hle⟩ := hspec.minimum minimum hstated hminimum
        rw [Option.mem_def.mp hmark]
        exact hle
  · rintro ⟨hgrid, hworth⟩
    constructor
    · intro stated hstated _
      obtain rfl := Option.some.inj (hlot.symm.trans hstated)
      exact hgrid
    · intro minimum hminimum hminimumPos
      rw [Option.mem_def.mp hminimum] at hworth
      have hle := hworth hminimumPos
      cases hmark : leg.mark with
      | none =>
          -- no mark reads as zero, and nothing is worth a minimum at it
          rw [hmark] at hle
          simp only [Option.getD_none, Option.getD_some, mul_zero] at hle
          exact absurd hminimumPos (not_lt.mpr hle)
      | some mark =>
          rw [hmark] at hle
          exact ⟨mark, rfl, hle⟩

/-- The lot size an observed market was checked against is the one its leg states. -/
theorem lot_le_gap {lot : ℚ} (hlot : leg.lotSize = some lot) (hpos : 0 < lot) {usd : ℚ}
    (h : rebalanceIsPlaceable (observeMarket quotes leg) = .ok usd) :
    lot ≤ ((legGap leg).natAbs : ℚ) / 10 ^ 18 := by
  have hlotSize : (observeMarket quotes leg).lotSize = lot := by
    simp only [observeMarket, hlot, Option.getD_some]
  have hgrid := (rebalanceIsPlaceable_ok h).2
  rw [hlotSize] at hgrid
  exact hgrid hpos

/-- **When an offered rebalance is placed.** For a snapshot that observes the venue, and a
venue that takes every order meeting what it states, a rebalance on the list is placed if
and only if the venue states a lot size, the correction snapped to it is on its grid, and
that is worth the minimum at the mark. -/
theorem offered_rebalance_placed_iff (quotes : String → MarketQuote) (now : Nat)
    (hobserved : s.markets = venue.legs.map (observeMarket quotes))
    (hdistinct : (venue.legs.map Leg.ticker).Nodup) (hleg : leg ∈ venue.legs)
    (haccepts : ∀ size, MeetsSpec leg size → leg.takesOrder size = true)
    (hoffered : ({ kind := .rebalance, market := some leg.ticker } : Decision) ∈
      permittedActions cfg s now) :
    Placed cfg venue s leg ↔ PlaceableAsSnapped leg := by
  -- The market that was checked is the observation of this leg.
  obtain ⟨m, hm, hticker, usd, hplaceable⟩ := placeable_of_offered hoffered
  rw [hobserved] at hm
  obtain ⟨checked, hchecked, rfl⟩ := List.mem_map.mp hm
  obtain rfl : checked = leg := by
    have hfirst := find_ticker hdistinct hchecked
    rw [show checked.ticker = leg.ticker from hticker, find_ticker hdistinct hleg] at hfirst
    exact (Option.some.inj hfirst).symm
  have hgap : legGap checked ≠ 0 := (rebalanceIsPlaceable_ok hplaceable).1
  have hrun := rebalance_eq cfg hobserved hdistinct hleg hgap
  constructor
  · rintro ⟨t, row, hplaced, hrow, hspec⟩
    rw [hrun] at hplaced
    by_cases hstated : ∃ lot, checked.lotSize = some lot ∧ 0 < lot
    · obtain ⟨lot, hlot, hpos⟩ := hstated
      rw [Effect.bind_of_ok (lotUnits_ok hlot hpos {})] at hplaced
      rw [placeCorrection_placed hplaced hrow] at hspec
      exact ⟨lot, hlot, hpos, (meetsSpec_snapped hlot hpos).mp hspec⟩
    · rw [Effect.bind_of_error (lotUnits_error hstated {})] at hplaced
      cases hplaced
  · rintro ⟨lot, hlot, hpos, honGrid, hworth⟩
    have hspec := (meetsSpec_snapped hlot hpos).mpr ⟨honGrid, hworth⟩
    have hcorrection := snapToLot_pos (Int.natAbs_pos.mpr hgap) (lot_le_gap hlot hpos hplaceable)
    have hplaced := placeCorrection_ok (Nat.ne_of_gt hcorrection) hworth (haccepts _ hspec)
    have hdone := hrun.trans ((Effect.bind_of_ok (lotUnits_ok hlot hpos {})).trans hplaced)
    exact ⟨_, _, hdone, rfl, hspec⟩

/-! ### Either side of the minimum -/

/-- Tenths of a unit, at a hundred dollars and no less than fifteen: what the venue takes. -/
def takesTenths (size : ℚ) : Bool := decide (0 ≤ size ∧ (size * 10).den = 1 ∧ 15 ≤ size * 100)

/-- Such a market, one unit short against a spot leg of `tokens`. -/
def tenthsLeg (tokens : Nat) : Leg where
  ticker := "NVDA"
  symbol := "NVDAc"
  perpSymbol := "NVDA"
  spotTokenDecimals := 18
  targetWeightBps := 10000
  balance := tokens
  sellQuote := some (tokens / 10 ^ 10)
  position := 1
  entryPrice := some 100
  mark := some 100
  lotSize := some (1 / 10)
  minOrderSize := some 15
  takesOrder := takesTenths
  builds := true
  approves := true
  buyQuote := some
  buys := some
  sellRoute := fun _ => true
  sells := some

def tenthsVenue (tokens : Nat) : Venue := { openVenue 0 0 with legs := [tenthsLeg tokens] }

theorem tenthsLeg_accepts (tokens : Nat) (size : ℚ) (h : MeetsSpec (tenthsLeg tokens) size) :
    (tenthsLeg tokens).takesOrder size = true := by
  obtain ⟨n, rfl⟩ := h.lot (1 / 10) rfl (by norm_num)
  obtain ⟨mark, hmark, hworth⟩ := h.minimum 15 rfl (by norm_num)
  obtain rfl := Option.some.inj hmark
  have hwhole : (n : ℚ) * (1 / 10) * 10 = (n : ℚ) := by ring
  show takesTenths _ = true
  rw [takesTenths, hwhole]
  exact decide_eq_true ⟨by positivity, Rat.den_natCast n, hworth⟩

def quietQuotes : String → MarketQuote := fun _ => ⟨1 / 100, true, 1 / 100, 1 / 10⟩

/-- A vault with nothing to do but hedge, and what it observes of that venue. -/
def tenthsVault (tokens : Nat) : VaultSnapshot where
  risk := Test.conservativeRisk
  freeAssets := 0
  totalAssets := 300000000
  deployedAssets := 300000000
  maxDeployedBps := 9000
  withdrawWindowRemaining := 0
  idleOnBase := 0
  unallocatedMargin := 0
  perpNotionalUsdc := 100000000
  perpEquityUsdc := 200000000
  ripeRedeemAssets := 0
  pendingRedeemAssets := 0
  earliestDeadline := none
  markets := (tenthsVenue tokens).legs.map (observeMarket quietQuotes)
  closeRequested := false
  rebalanceDriftBps := 0
  venueWithdrawalFeeUsdc := 0

/-- A correction of 0.19 is worth nineteen dollars and is offered; the tenth that is left
of it on the grid is worth ten, and is not placed. -/
theorem offered_rebalance_not_placed :
    ¬ ∀ (cfg : Settings) (quotes : String → MarketQuote) (venue : Venue) (s : VaultSnapshot)
      (leg : Leg) (now : Nat), s.markets = venue.legs.map (observeMarket quotes) →
      (venue.legs.map Leg.ticker).Nodup → leg ∈ venue.legs →
      (∀ size, MeetsSpec leg size → leg.takesOrder size = true) →
      ({ kind := .rebalance, market := some leg.ticker } : Decision) ∈ permittedActions cfg s now →
      Placed cfg venue s leg := by
  intro h
  have hoffered : ({ kind := .rebalance, market := some "NVDA" } : Decision) ∈
      permittedActions Settings.default (tenthsVault (119 * 10 ^ 16)) 0 := by decide +kernel
  obtain ⟨t, row, hrun, hrow, -⟩ := h Settings.default quietQuotes (tenthsVenue (119 * 10 ^ 16))
    (tenthsVault (119 * 10 ^ 16)) (tenthsLeg (119 * 10 ^ 16)) 0 rfl (by decide)
    (List.mem_singleton_self _) (tenthsLeg_accepts _) hoffered
  have hquiet : (execute Settings.default (tenthsVenue (119 * 10 ^ 16))
      (tenthsVault (119 * 10 ^ 16)) { kind := .rebalance, market := some "NVDA" } {}).2.activity =
        [] := by decide +kernel
  rw [show (tenthsLeg (119 * 10 ^ 16)).ticker = "NVDA" from rfl] at hrun
  rw [hrun, hrow] at hquiet
  cases hquiet

/-- A correction of 0.3 is placed whole. -/
theorem offered_rebalance_placed_iff_threeTenths :
    Placed Settings.default (tenthsVenue (13 * 10 ^ 17)) (tenthsVault (13 * 10 ^ 17))
      (tenthsLeg (13 * 10 ^ 17)) :=
  (offered_rebalance_placed_iff quietQuotes 0 rfl (by decide)
    (List.mem_singleton_self _) (tenthsLeg_accepts _) (by decide +kernel)).mpr
    ⟨1 / 10, rfl, by norm_num, ⟨3, by decide +kernel⟩, fun _ => by decide +kernel⟩

end Agent

end LemonMarket
