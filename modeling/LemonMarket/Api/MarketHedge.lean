import LemonMarket.Agent.Hedge

/-!
# LemonMarket.Api.MarketHedge

**The page's account of a hedge** (`marketHedge`, over `hedgeHealth` of the registry). The
page says of every market how far its legs are apart, whether that is past the vault's
threshold and whether a correction can be placed; the agent decides the same two questions
in `permittedActions`, over integers, before it offers a rebalance.

They differ in two places. A configured threshold of zero is the default of 500 to the
agent (`||`) and zero to the page (`??`), under which legs that match are past it. And the
page asks the venue's minimum of the correction snapped to the lot grid, the agent of the
gap before it is snapped. `page_agrees_iff` says they agree everywhere else.
-/

namespace LemonMarket.Api

open Lib Agent
open LemonVault (bps)

/-! ### The registry's arithmetic -/

def rebalanceDriftThresholdPercent : ℚ := 1

inductive Exposure where
  | neutral
  | long
  | short
  deriving DecidableEq, Repr

structure HedgeHealthInput where
  spotUnits : ℚ
  perpUnits : ℚ
  markPrice : ℚ
  lotSize : ℚ

structure HedgeHealth where
  spotUnits : ℚ
  perpUnits : ℚ
  deltaUnits : ℚ
  driftPercent : ℚ
  deltaUsd : ℚ
  exposure : Exposure
  shouldRebalance : Bool
  correctionUnits : ℚ

/-- `Math.sign`. -/
def mathSign (x : ℚ) : ℚ := if x > 0 then 1 else if x < 0 then -1 else 0

/-- A correction rounded down in magnitude onto the lot grid, with its sign. -/
def snapCorrection (deltaUnits lotSize : ℚ) : ℚ :=
  if lotSize > 0 then mathSign deltaUnits * ⌊|deltaUnits| / lotSize⌋ * lotSize
  else deltaUnits

def hedgeHealth (input : HedgeHealthInput) : HedgeHealth :=
  let deltaUnits := input.spotUnits - input.perpUnits
  let driftPercent := if input.spotUnits = 0 then 0 else deltaUnits / input.spotUnits * 100
  let correctionUnits := snapCorrection deltaUnits input.lotSize
  { spotUnits := input.spotUnits
    perpUnits := input.perpUnits
    deltaUnits := deltaUnits
    driftPercent := driftPercent
    deltaUsd := deltaUnits * input.markPrice
    exposure :=
      if |driftPercent| < rebalanceDriftThresholdPercent then .neutral
      else if deltaUnits > 0 then .long
      else .short
    shouldRebalance :=
      |driftPercent| ≥ rebalanceDriftThresholdPercent ∧ |correctionUnits| > 0
    correctionUnits := correctionUnits }

/-! ### The page -/

inductive RebalanceStatus where
  | neutral
  | unknown
  | belowLotSize
  | belowMinNotional
  | ready
  deriving DecidableEq, Repr

/-- What the page has read of a market; `none` is what could not be read. -/
structure MarketHedgeInput where
  ticker : String
  spotSymbol : String
  spotTokenAddress : String
  perpSymbol : String
  spotUnits : Option ℚ
  perpUnits : Option ℚ
  markPrice : Option ℚ
  lotSize : Option ℚ
  minOrderUsd : Option ℚ
  rebalanceDriftBps : Nat

structure MarketHedge where
  ticker : String
  spotSymbol : String
  spotTokenAddress : String
  perpSymbol : String
  markPrice : Option ℚ
  rebalanceDriftBps : Nat
  thresholdPercent : ℚ
  lotSize : Option ℚ
  minOrderUsd : Option ℚ
  spotUnits : ℚ
  perpUnits : ℚ
  deltaUnits : ℚ
  driftPercent : ℚ
  deltaUsd : Option ℚ
  exposure : Exposure
  correctionUnits : ℚ
  correctionUsd : Option ℚ
  status : RebalanceStatus

/-- A market one of whose legs could not be read. -/
def unreadHedge (input : MarketHedgeInput) : MarketHedge where
  ticker := input.ticker
  spotSymbol := input.spotSymbol
  spotTokenAddress := input.spotTokenAddress
  perpSymbol := input.perpSymbol
  markPrice := input.markPrice
  rebalanceDriftBps := input.rebalanceDriftBps
  thresholdPercent := input.rebalanceDriftBps / 100
  lotSize := input.lotSize
  minOrderUsd := input.minOrderUsd
  spotUnits := input.spotUnits.getD 0
  perpUnits := input.perpUnits.getD 0
  deltaUnits := 0
  driftPercent := 0
  deltaUsd := none
  exposure := .neutral
  correctionUnits := 0
  correctionUsd := none
  status := .unknown

/-- Whether a correction past the threshold can be placed. -/
def placeability (markPrice lotSize minOrderUsd : Option ℚ) (correctionUnits : ℚ)
    (correctionUsd : Option ℚ) : RebalanceStatus :=
  match markPrice, lotSize, minOrderUsd with
  | some _, some _, some minOrder =>
      if correctionUnits = 0 then .belowLotSize
      else if minOrder > 0 ∧ correctionUsd.getD 0 < minOrder then .belowMinNotional
      else .ready
  | _, _, _ => .unknown

/-- A market both of whose legs were read. -/
def readHedge (input : MarketHedgeInput) (spotUnits perpUnits : ℚ) : MarketHedge :=
  let thresholdPercent : ℚ := input.rebalanceDriftBps / 100
  let health := hedgeHealth ⟨spotUnits, perpUnits, input.markPrice.getD 0, input.lotSize.getD 0⟩
  -- a naked short has no spot leg to take a percentage of
  let driftPercent := if spotUnits = 0 ∧ perpUnits ≠ 0 then -100 else health.driftPercent
  let past : Bool := |driftPercent| ≥ thresholdPercent
  let correctionUsd := input.markPrice.map fun mark => |health.correctionUnits * mark|
  { ticker := input.ticker
    spotSymbol := input.spotSymbol
    spotTokenAddress := input.spotTokenAddress
    perpSymbol := input.perpSymbol
    markPrice := input.markPrice
    rebalanceDriftBps := input.rebalanceDriftBps
    thresholdPercent := thresholdPercent
    lotSize := input.lotSize
    minOrderUsd := input.minOrderUsd
    spotUnits := spotUnits
    perpUnits := perpUnits
    deltaUnits := health.deltaUnits
    driftPercent := driftPercent
    deltaUsd := input.markPrice.map fun _ => health.deltaUsd
    exposure := if !past then .neutral else if health.deltaUnits > 0 then .long else .short
    correctionUnits := health.correctionUnits
    correctionUsd := correctionUsd
    status :=
      if !past then .neutral
      else placeability input.markPrice input.lotSize input.minOrderUsd health.correctionUnits
        correctionUsd }

def marketHedge (input : MarketHedgeInput) : MarketHedge :=
  match input.spotUnits, input.perpUnits with
  | some spotUnits, some perpUnits => readHedge input spotUnits perpUnits
  | _, _ => unreadHedge input

/-! ### The same market -/

variable {cfg : Settings} {s : VaultSnapshot} {m : MarketSnapshot} {input : MarketHedgeInput}
  {now : Nat}

/-- The page has read what the agent's snapshot holds of a market and of the vault's
configuration. -/
structure Describes (input : MarketHedgeInput) (s : VaultSnapshot) (m : MarketSnapshot) :
    Prop where
  ticker : input.ticker = m.ticker
  spotUnits : input.spotUnits = some ((m.spotUnits : ℚ) / 10 ^ 18)
  perpUnits : input.perpUnits = some ((m.perpUnits : ℚ) / 10 ^ 18)
  markPrice : input.markPrice = some m.markPriceUsd
  lotSize : input.lotSize = some m.lotSize
  minOrderUsd : input.minOrderUsd = some m.minOrderUsd
  rebalanceDriftBps : input.rebalanceDriftBps = s.rebalanceDriftBps

/-- How far the legs are apart, in units. -/
def gapUnits (m : MarketSnapshot) : ℚ := ((m.spotUnits : Int) - m.perpUnits).natAbs / 10 ^ 18

/-- A magnitude rounded down onto the lot grid. -/
def onGrid (lotSize units : ℚ) : ℚ :=
  if lotSize > 0 then ⌊units / lotSize⌋ * lotSize else units

/-! ### Drift -/

theorem gapUnits_eq (m : MarketSnapshot) :
    gapUnits m = |(m.spotUnits : ℚ) / 10 ^ 18 - m.perpUnits / 10 ^ 18| := by
  rw [gapUnits, ← sub_div, abs_div, abs_of_pos (show (0 : ℚ) < 10 ^ 18 by norm_num),
    Nat.cast_natAbs, Int.cast_abs]
  push_cast
  rfl

/-- The agent's drift is the exact one, cut to whole basis points, so it reaches a whole
threshold with it. -/
theorem le_drift_iff {t : Nat} (hspot : 0 < m.spotUnits) :
    t ≤ m.drift.natAbs ↔
      t * m.spotUnits ≤ ((m.spotUnits : Int) - m.perpUnits).natAbs * bps := by
  have hdrift : m.drift.natAbs =
      ((m.spotUnits : Int) - m.perpUnits).natAbs * bps / m.spotUnits := by
    rw [MarketSnapshot.drift, driftBps, if_neg hspot.ne', Int.natAbs_tdiv, Int.natAbs_mul,
      Int.natAbs_natCast, Int.natAbs_natCast]
    rfl
  rw [hdrift, Nat.le_div_iff_mul_le hspot]

/-- The drift the page shows. -/
def pageDrift (spot perp : ℚ) : ℚ :=
  if spot = 0 ∧ perp ≠ 0 then -100 else if spot = 0 then 0 else (spot - perp) / spot * 100

/-- The page's drift reaches a threshold of whole basis points when the agent's does. -/
theorem past_iff {t : Nat} :
    (t : ℚ) / 100 ≤ |pageDrift ((m.spotUnits : ℚ) / 10 ^ 18) ((m.perpUnits : ℚ) / 10 ^ 18)| ↔
      t ≤ m.drift.natAbs := by
  have hscale : (0 : ℚ) < 10 ^ 18 := by norm_num
  have hzero : ∀ n : Nat, (n : ℚ) / 10 ^ 18 = 0 ↔ n = 0 := fun n => by simp
  -- with nothing held the drift is all or nothing; else both divide the gap by the spot
  rcases Nat.eq_zero_or_pos m.spotUnits with hnone | hheld
  · rw [MarketSnapshot.drift, driftBps, if_pos hnone, pageDrift]
    by_cases hflat : m.perpUnits = 0
    · rw [if_neg fun h => h.2 ((hzero _).mpr hflat), if_pos ((hzero _).mpr hnone), if_pos hflat,
        abs_zero, div_le_iff₀ (by norm_num), zero_mul]
      norm_cast
    · rw [if_pos ⟨(hzero _).mpr hnone, mt (hzero _).mp hflat⟩, if_neg hflat, abs_neg,
        abs_of_pos (by norm_num), div_le_iff₀ (by norm_num)]
      norm_num [bps]
  · have hunits : (0 : ℚ) < m.spotUnits := by exact_mod_cast hheld
    rw [le_drift_iff hheld, pageDrift, if_neg fun h => hheld.ne' ((hzero _).mp h.1),
      if_neg fun h => hheld.ne' ((hzero _).mp h), abs_mul, abs_div, ← gapUnits_eq, gapUnits,
      abs_of_pos (div_pos hunits hscale), div_div_div_cancel_right₀ hscale.ne',
      abs_of_pos (show (0 : ℚ) < 100 by norm_num), div_mul_eq_mul_div, div_le_div_iff₀ (by norm_num)
        hunits, mul_assoc, ← Nat.cast_le (α := ℚ)]
    push_cast
    norm_num [bps]

/-! ### The correction -/

theorem gapUnits_nonneg (m : MarketSnapshot) : 0 ≤ gapUnits m := by
  rw [gapUnits_eq]
  exact abs_nonneg _

/-- Snapping is the same on either side of neutral. -/
theorem abs_snapCorrection (deltaUnits lotSize : ℚ) :
    |snapCorrection deltaUnits lotSize| = onGrid lotSize |deltaUnits| := by
  rw [snapCorrection, onGrid]
  split
  next hlot =>
    rcases eq_or_ne deltaUnits 0 with rfl | hne
    · simp
    · have hfloor : (0 : ℚ) ≤ ⌊|deltaUnits| / lotSize⌋ := by positivity
      have hsign : |mathSign deltaUnits| = 1 := by
        rw [mathSign]
        rcases hne.lt_or_gt with hneg | hpos
        · rw [if_neg hneg.not_gt, if_pos hneg, abs_neg, abs_one]
        · rw [if_pos hpos, abs_one]
      rw [abs_mul, abs_mul, hsign, one_mul, abs_of_nonneg hfloor, abs_of_pos hlot]
  next => rfl

theorem onGrid_nonneg {lotSize units : ℚ} (hunits : 0 ≤ units) : 0 ≤ onGrid lotSize units := by
  rw [onGrid]
  split
  next hlot => positivity
  next => exact hunits

theorem onGrid_le {lotSize units : ℚ} : onGrid lotSize units ≤ units := by
  rw [onGrid]
  split
  next hlot => exact (le_div_iff₀ hlot).mp (Int.floor_le _)
  next => exact le_rfl

/-- The policy's first two checks are that something is left on the grid. -/
theorem onGrid_ne_zero_iff {lotSize units : ℚ} (hunits : 0 ≤ units) :
    onGrid lotSize units ≠ 0 ↔ units ≠ 0 ∧ ¬ (lotSize > 0 ∧ ⌊units / lotSize⌋ < 1) := by
  rw [onGrid]
  split
  next hlot =>
    have hfloor : 0 ≤ ⌊units / lotSize⌋ := Int.floor_nonneg.mpr (by positivity)
    have hzero : units = 0 → ⌊units / lotSize⌋ = 0 := fun h => by simp [h]
    have hcast : ((⌊units / lotSize⌋ : Int) : ℚ) * lotSize ≠ 0 ↔ ⌊units / lotSize⌋ ≠ 0 := by
      simp [hlot.ne']
    rw [hcast]
    constructor
    · intro hne
      exact ⟨fun h => hne (hzero h), fun h => hne (by omega)⟩
    · intro hleft h
      obtain ⟨-, hlots⟩ := hleft
      exact hlots ⟨hlot, by omega⟩
  next hlot => simp [hlot]

/-! ### Agreement -/

/-- The policy's check of a market with a mark. -/
theorem placeable_iff (hmark : 0 < m.markPriceUsd) :
    (∃ usd, rebalanceIsPlaceable m = .ok usd) ↔ onGrid m.lotSize (gapUnits m) ≠ 0 ∧
      ¬ (m.minOrderUsd > 0 ∧ gapUnits m * m.markPriceUsd < m.minOrderUsd) := by
  have hgap : gapUnits m = 0 ↔ ((m.spotUnits : Int) - m.perpUnits).natAbs = 0 := by
    rw [gapUnits, div_eq_zero_iff, Nat.cast_eq_zero]
    norm_num
  rw [onGrid_ne_zero_iff (gapUnits_nonneg m), Ne, hgap, and_assoc]
  simp only [rebalanceIsPlaceable]
  split_ifs with hmatch hlots hnomark hsmall
  · simp [hmatch]
  · simp only [exists_false, false_iff]
    exact fun h => h.2.1 hlots
  · exact absurd hmark (not_lt.mpr hnomark)
  · simp only [exists_false, false_iff]
    exact fun h => h.2.2 hsmall
  · exact ⟨fun _ => ⟨hmatch, hlots, hsmall⟩, fun _ => ⟨_, rfl⟩⟩

/-- A market of its ticker is offered a rebalance when it has drifted and the venue would
take the correction. -/
theorem offered_iff (hm : m ∈ s.markets) (hdistinct : (s.markets.map (·.ticker)).Nodup) :
    ({ kind := .rebalance, market := some m.ticker } : Decision) ∈ rebalances s ↔
      driftThreshold s ≤ m.drift.natAbs ∧ ∃ usd, rebalanceIsPlaceable m = .ok usd := by
  rw [mem_rebalances]
  constructor
  · intro hoffered
    obtain ⟨m', hdrifted, hplaceable, hd⟩ := hoffered
    obtain ⟨hm', hpast⟩ := mem_drifted.mp hdrifted
    have hticker : m.ticker = m'.ticker := Option.some.inj (congrArg Decision.market hd)
    obtain rfl := List.inj_on_of_nodup_map hdistinct hm hm' hticker
    exact ⟨hpast, hplaceable⟩
  · intro hdue
    obtain ⟨hpast, hplaceable⟩ := hdue
    exact ⟨m, mem_drifted.mpr ⟨hm, hpast⟩, hplaceable, rfl⟩

/-- The page's status of a market that was read. -/
theorem status_eq (hdesc : Describes input s m) (hmark : 0 < m.markPriceUsd) :
    (marketHedge input).status =
      if m.drift.natAbs < s.rebalanceDriftBps then .neutral
      else if onGrid m.lotSize (gapUnits m) = 0 then .belowLotSize
      else if m.minOrderUsd > 0 ∧
        onGrid m.lotSize (gapUnits m) * m.markPriceUsd < m.minOrderUsd then .belowMinNotional
      else .ready := by
  have hsnap := abs_snapCorrection ((m.spotUnits : ℚ) / 10 ^ 18 - m.perpUnits / 10 ^ 18) m.lotSize
  rw [← gapUnits_eq] at hsnap
  have hnone : snapCorrection ((m.spotUnits : ℚ) / 10 ^ 18 - m.perpUnits / 10 ^ 18) m.lotSize = 0 ↔
      onGrid m.lotSize (gapUnits m) = 0 := by
    rw [← hsnap, abs_eq_zero]
  have hpast := past_iff (m := m) (t := s.rebalanceDriftBps)
  have hread : marketHedge input =
      readHedge input ((m.spotUnits : ℚ) / 10 ^ 18) ((m.perpUnits : ℚ) / 10 ^ 18) := by
    rw [marketHedge, hdesc.spotUnits, hdesc.perpUnits]
  have husd : |snapCorrection ((m.spotUnits : ℚ) / 10 ^ 18 - m.perpUnits / 10 ^ 18) m.lotSize *
      m.markPriceUsd| = onGrid m.lotSize (gapUnits m) * m.markPriceUsd := by
    rw [abs_mul, hsnap, abs_of_pos hmark]
  rw [hread]
  simp only [readHedge, placeability, hedgeHealth, hdesc.markPrice, hdesc.lotSize,
    hdesc.minOrderUsd, hdesc.rebalanceDriftBps, Option.map_some, Option.getD_some, husd, hnone]
  simp only [pageDrift] at hpast
  simp only [ge_iff_le, hpast, Bool.not_eq_true', decide_eq_false_iff_not, not_le]

/-- The page and the agent say the same of a market. -/
structure Agrees (cfg : Settings) (s : VaultSnapshot) (now : Nat) (m : MarketSnapshot)
    (hedge : MarketHedge) : Prop where
  drifted : hedge.status ≠ .neutral ↔ driftThreshold s ≤ m.drift.natAbs
  ready : hedge.status = .ready ↔
    ({ kind := .rebalance, market := some m.ticker } : Decision) ∈ permittedActions cfg s now

/-- The two thresholds, the page's and the agent's, say the same of a drift. -/
theorem threshold_agrees_iff (drift : Nat) :
    (s.rebalanceDriftBps ≤ drift ↔ driftThreshold s ≤ drift) ↔
      s.rebalanceDriftBps ≠ 0 ∨ defaultRebalanceDriftBps ≤ drift := by
  rw [driftThreshold]
  split
  next hzero => simp [hzero]
  next hset => simp [hset]

/-- The venue's minimum lies between what is left of a correction on the grid and all of
it. -/
theorem minimum_between_iff (hmark : 0 < m.markPriceUsd) :
    (m.minOrderUsd > 0 ∧ onGrid m.lotSize (gapUnits m) * m.markPriceUsd < m.minOrderUsd) ∧
        ¬ (m.minOrderUsd > 0 ∧ gapUnits m * m.markPriceUsd < m.minOrderUsd) ↔
      onGrid m.lotSize (gapUnits m) * m.markPriceUsd < m.minOrderUsd ∧
        m.minOrderUsd ≤ gapUnits m * m.markPriceUsd := by
  have hnonneg : 0 ≤ onGrid m.lotSize (gapUnits m) * m.markPriceUsd :=
    mul_nonneg (onGrid_nonneg (gapUnits_nonneg m)) hmark.le
  constructor
  · intro hbetween
    obtain ⟨⟨hmin, hsnapped⟩, hgap⟩ := hbetween
    exact ⟨hsnapped, not_lt.mp fun h => hgap ⟨hmin, h⟩⟩
  · intro hbetween
    obtain ⟨hsnapped, hgap⟩ := hbetween
    exact ⟨⟨hnonneg.trans_lt hsnapped, hsnapped⟩, fun h => absurd h.2 (not_lt.mpr hgap)⟩

/-- **Where the page and the agent agree.** Of a market both have read, with a mark and
nothing that outranks a rebalance, the page and the agent agree unless the configured
threshold is zero and the drift is below the default, or the venue's minimum lies between
what the correction is worth on the lot grid and off it. -/
theorem page_agrees_iff (hm : m ∈ s.markets) (hdistinct : (s.markets.map (·.ticker)).Nodup)
    (hmark : 0 < m.markPriceUsd) (hdesc : Describes input s m) (hclose : s.closeRequested = false)
    (hurgent : (redemptionUnwind s now).any (·.forced) = false)
    (hforced : ∀ c, mandateCorrection cfg s = some c → c.forced = true → c.kind = .hold) :
    Agrees cfg s now m (marketHedge input) ↔
      (s.rebalanceDriftBps ≠ 0 ∨ defaultRebalanceDriftBps ≤ m.drift.natAbs) ∧
      ¬ (driftThreshold s ≤ m.drift.natAbs ∧ onGrid m.lotSize (gapUnits m) ≠ 0 ∧
        onGrid m.lotSize (gapUnits m) * m.markPriceUsd < m.minOrderUsd ∧
        m.minOrderUsd ≤ gapUnits m * m.markPriceUsd) := by
  -- the three questions: drifted, placeable for the page, and offered by the agent
  have hneutral : (marketHedge input).status ≠ .neutral ↔
      s.rebalanceDriftBps ≤ m.drift.natAbs := by
    rw [status_eq hdesc hmark]
    split_ifs with hinside <;> simp <;> omega
  have hready : (marketHedge input).status = .ready ↔ s.rebalanceDriftBps ≤ m.drift.natAbs ∧
      onGrid m.lotSize (gapUnits m) ≠ 0 ∧ ¬ (m.minOrderUsd > 0 ∧
        onGrid m.lotSize (gapUnits m) * m.markPriceUsd < m.minOrderUsd) := by
    rw [status_eq hdesc hmark, ← not_lt]
    split_ifs <;> simp_all
  have hoffered : ({ kind := .rebalance, market := some m.ticker } : Decision) ∈
        permittedActions cfg s now ↔ driftThreshold s ≤ m.drift.natAbs ∧
      onGrid m.lotSize (gapUnits m) ≠ 0 ∧
        ¬ (m.minOrderUsd > 0 ∧ gapUnits m * m.markPriceUsd < m.minOrderUsd) := by
    rw [rebalance_mem_permittedActions rfl hclose hurgent hforced, offered_iff hm hdistinct,
      placeable_iff hmark]
  -- on the grid the correction is worth no more, so the page refuses where the agent does
  have hsmaller : m.minOrderUsd > 0 ∧ gapUnits m * m.markPriceUsd < m.minOrderUsd →
      m.minOrderUsd > 0 ∧ onGrid m.lotSize (gapUnits m) * m.markPriceUsd < m.minOrderUsd :=
    And.imp_right (mul_le_mul_of_nonneg_right onGrid_le hmark.le).trans_lt
  rw [← threshold_agrees_iff, ← minimum_between_iff hmark]
  constructor
  · intro hagrees
    obtain ⟨hdrifted, hsame⟩ := hagrees
    rw [hready, hoffered] at hsame
    refine ⟨hneutral.symm.trans hdrifted, ?_⟩
    intro hfails
    obtain ⟨hpast, hgrid, hsnapped, hgap⟩ := hfails
    exact (hsame.mpr ⟨hpast, hgrid, hgap⟩).2.2 hsnapped
  · intro hcond
    obtain ⟨hthreshold, hbetween⟩ := hcond
    refine ⟨hneutral.trans hthreshold, ?_⟩
    rw [hready, hoffered]
    constructor
    · intro hready
      obtain ⟨hpast, hgrid, hsnapped⟩ := hready
      exact ⟨hthreshold.mp hpast, hgrid, fun hgap => hsnapped (hsmaller hgap)⟩
    · intro hoffer
      obtain ⟨hpast, hgrid, hgap⟩ := hoffer
      exact ⟨hthreshold.mpr hpast, hgrid, fun hsnapped => hbetween ⟨hpast, hgrid, hsnapped, hgap⟩⟩

/-! ### One market -/

/-- A tenth of a unit is the lot, and ten dollars the minimum, at ninety-nine a unit. -/
def tenthLots (perpUnits : Nat) : MarketSnapshot :=
  { Test.nvda with
    spotUnits := 10 ^ 18
    perpUnits := perpUnits
    markPriceUsd := 99
    lotSize := 1 / 10
    minOrderUsd := 10 }

/-- A vault of that market, at the threshold its configuration starts with. -/
def tenthLotsVault (perpUnits : Nat) : VaultSnapshot :=
  { tenthsVault 0 with
    markets := [tenthLots perpUnits]
    rebalanceDriftBps := 500 }

/-- What the page reads of it. -/
def tenthLotsInput (perpUnits : Nat) : MarketHedgeInput where
  ticker := (tenthLots perpUnits).ticker
  spotSymbol := "NVDAx"
  spotTokenAddress := "0xnvda"
  perpSymbol := "NVDA"
  spotUnits := some (((10 ^ 18 : Nat) : ℚ) / 10 ^ 18)
  perpUnits := some ((perpUnits : ℚ) / 10 ^ 18)
  markPrice := some 99
  lotSize := some (1 / 10)
  minOrderUsd := some 10
  rebalanceDriftBps := 500

theorem tenthLots_describes (perpUnits : Nat) : Describes (tenthLotsInput perpUnits)
    (tenthLotsVault perpUnits) (tenthLots perpUnits) :=
  ⟨rfl, rfl, rfl, rfl, rfl, rfl, rfl⟩

/-- A fifth of a unit off, the page is ready and the agent offers. -/
theorem page_agrees_iff_fifth : Agrees Settings.default (tenthLotsVault (8 * 10 ^ 17)) 0
    (tenthLots (8 * 10 ^ 17)) (marketHedge (tenthLotsInput (8 * 10 ^ 17))) := by
  have hcorrection : mandateCorrection Settings.default (tenthLotsVault (8 * 10 ^ 17)) = none := by
    decide +kernel
  exact (page_agrees_iff (List.mem_singleton_self _) (by decide) (by decide +kernel)
    (tenthLots_describes _) rfl (by decide +kernel)
    (fun c hc => absurd (hcorrection.symm.trans hc) (by simp))).mpr
    ⟨.inl (by decide), by decide +kernel⟩

/-- A tenth and a two-hundredth off: worth ten dollars as it is and less on the grid, so
the agent offers what the page says is below the minimum. -/
theorem page_disagrees_between_lots :
    ¬ ∀ (cfg : Settings) (s : VaultSnapshot) (now : Nat) (m : MarketSnapshot)
        (input : MarketHedgeInput), m ∈ s.markets → (s.markets.map (·.ticker)).Nodup →
      0 < m.markPriceUsd → Describes input s m → s.closeRequested = false →
      (redemptionUnwind s now).any (·.forced) = false → mandateCorrection cfg s = none →
      Agrees cfg s now m (marketHedge input) := by
  intro h
  have hagrees := h Settings.default (tenthLotsVault (895 * 10 ^ 15)) 0 (tenthLots (895 * 10 ^ 15))
    (tenthLotsInput (895 * 10 ^ 15)) (List.mem_singleton_self _) (by decide) (by decide +kernel)
    (tenthLots_describes _) rfl (by decide +kernel) (by decide +kernel)
  exact absurd (hagrees.ready.mpr (by decide +kernel)) (by decide +kernel)

end LemonMarket.Api
