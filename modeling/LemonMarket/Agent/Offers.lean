import LemonMarket.Agent.Policy

/-!
# LemonMarket.Agent.Offers

**What a permitted action is.** One inversion lemma for each stage of the policy,
and one for the option list (`mem_permittedActions`): without a close order an
action on the list is what one of the stages answered, or the closing `hold`. From
these: an action that spends the vault's USDC never asks for more than
`deployableAmount`.
-/

namespace LemonMarket

namespace Agent

open LemonVault (bps)

variable {cfg : Settings} {s : VaultSnapshot} {d : Decision} {now : Nat}

/-! ### The stages -/

/-- What the shortfall of the queue asks for, with its buffer and under both caps. -/
def owedUnwind (s : VaultSnapshot) : Nat :=
  let shortfall := s.ripeRedeemAssets - s.freeAssets
  min (shortfall + shortfall * unwindBufferBps / bps) (min s.deployedAssets (sellableValue s))

theorem redemptionUnwind_eq : redemptionUnwind s now =
    if 0 < owedUnwind s then
      some { kind := .unwind, amount := owedUnwind s, forced := urgent s now }
    else none := by
  have hcap : ∀ a b : Nat, (if a > b then b else a) = min a b := fun a b => by split <;> omega
  simp only [redemptionUnwind, owedUnwind, ite_gt_sub, hcap]
  rcases Nat.eq_zero_or_pos (s.ripeRedeemAssets - s.freeAssets) with hzero | hpos
  · simp [hzero]
  · rw [if_pos hpos]
    rfl

/-- An unwind is offered for the queue exactly when it is short, something is deployed,
and something can be sold. -/
theorem owedUnwind_pos : 0 < owedUnwind s ↔
    s.freeAssets < s.ripeRedeemAssets ∧ 0 < s.deployedAssets ∧ 0 < sellableValue s := by
  simp only [owedUnwind, lt_min_iff]
  refine and_congr_left fun _ => ?_
  constructor
  · intro h
    by_contra hge
    rw [Nat.sub_eq_zero_of_le (Nat.le_of_not_lt hge)] at h
    simp at h
  · intro h
    exact Nat.add_pos_left (Nat.sub_pos_of_lt h) _

/-- The markets an operator has retired that still hold something sellable. -/
def retiredMarkets (s : VaultSnapshot) : List MarketSnapshot :=
  s.markets.filter fun m => m.targetWeightBps = 0 && m.spotValueUsdc > 0 && m.spotSellable

/-- What they hold. -/
def retiredValue (s : VaultSnapshot) : Nat := ((retiredMarkets s).map (·.spotValueUsdc)).sum

theorem retiredMarkets_length_pos : (retiredMarkets s).length > 0 ↔ 0 < retiredValue s := by
  rw [retiredValue]
  cases h : retiredMarkets s with
  | nil => simp
  | cons m rest =>
    have hm : m ∈ retiredMarkets s := h ▸ List.mem_cons_self
    simp only [retiredMarkets, List.mem_filter, Bool.and_eq_true, decide_eq_true_eq] at hm
    simp only [List.length_cons, List.map_cons, List.sum_cons]
    omega

theorem retiredUnwind_eq : retiredUnwind cfg s =
    if 0 < retiredValue s ∧ economicFloor cfg
        (costOf cfg .unwind (retiredValue s) (unwindFrictions s)) ≤ retiredValue s then
      some { kind := .unwind, amount := retiredValue s }
    else none := by
  change (if (retiredMarkets s).length > 0 then
      if (retiredValue s : Int) ≥ economicFloor cfg
          (costOf cfg .unwind (retiredValue s) (unwindFrictions s)) then _ else _
    else _) = _
  simp only [retiredMarkets_length_pos, ge_iff_le, ite_and]
  rfl

/-- A top-up spends from a source that covers the whole shortfall. -/
theorem marginTopUp_some {breached : Bool} (h : marginTopUp cfg s breached = some d) :
    ∃ fundedFrom available,
      (fundedFrom = .agent ∧
          available = (if breached then s.idleOnBase else resumableAmount s) ∨
        fundedFrom = .vault ∧ available = deployableAmount s) ∧
      0 < (requiredMargin cfg s : Int) - s.perpEquityUsdc ∧
      (requiredMargin cfg s : Int) - s.perpEquityUsdc ≤ available ∧
      d = { kind := .topUpMargin
            amount := min available
              (if (requiredMargin cfg s : Int) - s.perpEquityUsdc > cfg.minTopUpUsdc then
                ((requiredMargin cfg s : Int) - s.perpEquityUsdc).toNat else cfg.minTopUpUsdc)
            forced := breached
            fundedFrom := some fundedFrom } := by
  simp only [marginTopUp] at h
  split at h
  next => exact absurd h (by simp)
  next hpos =>
    cases hfind : List.find? (fun source : Funding × Nat =>
        decide ((source.2 : Int) ≥ (requiredMargin cfg s : Int) - s.perpEquityUsdc))
        [(.agent, if breached then s.idleOnBase else resumableAmount s),
          (.vault, deployableAmount s)] with
    | none => rw [hfind] at h; exact absurd h (by simp)
    -- the first source that covers it: the agent's own, then the vault
    | some source =>
      rw [hfind] at h
      have hcovers : (source.2 : Int) ≥ requiredMargin cfg s - s.perpEquityUsdc := by
        simpa using List.find?_some hfind
      have hmem := List.mem_of_find?_eq_some hfind
      refine ⟨source.1, source.2, ?_, by omega, hcovers, (Option.some.inj h).symm⟩
      rcases List.mem_cons.mp hmem with rfl | hmem
      · exact .inl ⟨rfl, rfl⟩
      · obtain rfl := List.mem_singleton.mp hmem
        exact .inr ⟨rfl, rfl⟩

/-- The expensive correction unwinds or does nothing, and is forced. -/
theorem deleverage_some (h : deleverage cfg s = some d) :
    d.forced = true ∧ d.fundedFrom = none ∧ (d.kind = .unwind ∨ d.kind = .hold) := by
  unfold deleverage at h
  extract_lets at h
  split at h
  · exact absurd h (by simp)
  · split at h
    · exact absurd h (by simp)
    · split at h
      · obtain rfl := Option.some.inj h
        exact ⟨rfl, rfl, .inr rfl⟩
      · obtain rfl := Option.some.inj h
        exact ⟨rfl, rfl, .inl rfl⟩

/-- A correction is a top-up, or under a breached mandate a smaller position. -/
theorem mandateCorrection_some (h : mandateCorrection cfg s = some d) :
    s.perpNotionalUsdc ≠ 0 ∧ ∃ breached : Bool,
      (breached ↔ s.risk.val.maxLeverageBps < leverageBps s.perpNotionalUsdc s.perpEquityUsdc) ∧
      (marginTopUp cfg s breached = some d ∨ breached ∧ deleverage cfg s = some d) := by
  simp only [mandateCorrection] at h
  split at h
  next => exact absurd h (by simp)
  next hopen =>
    split at h
    next => exact absurd h (by simp)
    next =>
      refine ⟨hopen, _, decide_eq_true_iff, ?_⟩
      split at h
      next hsome => exact .inl (hsome.trans h)
      next =>
        split at h
        next hbreached => exact .inr ⟨hbreached, h⟩
        next => exact absurd h (by simp)

/-- Inside the mandate it is a top-up, and not forced. -/
theorem mandateCorrection_inside
    (hin : leverageBps s.perpNotionalUsdc s.perpEquityUsdc ≤ s.risk.val.maxLeverageBps)
    (h : mandateCorrection cfg s = some d) : d.kind = .topUpMargin ∧ d.forced = false := by
  obtain ⟨-, breached, hbreached, h⟩ := mandateCorrection_some h
  have hnot : breached = false := by
    rw [Bool.eq_false_iff]
    exact fun hb => absurd (hbreached.mp hb) (Nat.not_lt.mpr hin)
  subst hnot
  rcases h with h | ⟨hb, -⟩
  · obtain ⟨_, _, -, -, -, rfl⟩ := marginTopUp_some h
    exact ⟨rfl, rfl⟩
  · exact absurd hb (by simp)

/-- A deployment spends on a market's room, and its legs follow the source's. -/
theorem openPosition_some {source : DeploymentSource} {market : MarketSnapshot}
    (h : openPosition cfg s source market = some d) :
    ∃ spend legs, spend = min (room s source.legs.spotNotional market) source.legs.spotNotional ∧
      cfg.minDeployUsdc ≤ spend ∧
      legs = (if source.legs.perpMargin = 0 then ⟨spend, 0⟩
        else splitDeployment (deploymentFor spend (sizingLeverageBps cfg s.risk))
          (sizingLeverageBps cfg s.risk)) ∧
      d = { kind := .deploy, amount := legs.spotNotional + legs.perpMargin,
            market := some market.ticker, fundedFrom := some source.fundedFrom,
            legs := some legs } := by
  simp only [openPosition] at h
  split at h
  next => exact absurd h (by simp)
  next hmin =>
    split at h
    next => exact absurd h (by simp)
    next =>
      split at h
      next => exact absurd h (by simp)
      next => exact ⟨_, _, rfl, Nat.le_of_not_lt hmin, rfl, (Option.some.inj h).symm⟩

theorem mem_candidates {incoming : Nat} {m : MarketSnapshot} : m ∈ candidates s incoming ↔
    m ∈ s.markets ∧ m.spotBuyable = true ∧ 0 < m.targetWeightBps ∧ 0 < room s incoming m := by
  simp only [candidates, List.mem_insertionSort, List.mem_filter, Bool.and_eq_true,
    decide_eq_true_eq, gt_iff_lt, and_assoc]

/-- The next deployment: a source with capital, into a market with room. -/
theorem nextDeployment_some (h : nextDeployment cfg s = some d) :
    ∃ source ∈ deploymentSources cfg s, source.legs.spotNotional ≠ 0 ∧
      ∃ market ∈ candidates s source.legs.spotNotional,
        openPosition cfg s source market = some d := by
  obtain ⟨source, hsource, h⟩ := List.exists_of_findSome?_eq_some h
  simp only [deploymentFrom] at h
  split at h
  next => exact absurd h (by simp)
  next hne =>
    obtain ⟨market, hmarket, h⟩ := List.exists_of_findSome?_eq_some h
    exact ⟨source, hsource, hne, market, hmarket, h⟩

/-- The threshold `permittedActions` holds a vault's markets to. -/
def driftThreshold (s : VaultSnapshot) : Nat :=
  if s.rebalanceDriftBps = 0 then defaultRebalanceDriftBps else s.rebalanceDriftBps

theorem mem_drifted {m : MarketSnapshot} :
    m ∈ drifted s ↔ m ∈ s.markets ∧ driftThreshold s ≤ m.drift.natAbs := by
  simp only [drifted, driftThreshold, List.mem_insertionSort, List.mem_filter, decide_eq_true_eq,
    ge_iff_le]

theorem mem_rebalances : d ∈ rebalances s ↔
    ∃ m ∈ drifted s, (∃ usd, rebalanceIsPlaceable m = .ok usd) ∧
      d = { kind := .rebalance, market := some m.ticker } := by
  simp only [rebalances, List.mem_filterMap]
  refine exists_congr fun m => and_congr_right fun _ => ?_
  cases rebalanceIsPlaceable m <;> simp [eq_comm]

/-! ### The option list -/

theorem mem_discretionary {options : List Decision} : d ∈ discretionary cfg s options →
    d ∈ options ∨ d ∈ rebalances s ∨ nextDeployment cfg s = some d ∨ d = { kind := .hold } := by
  intro h
  have hstages : d ∈ options ++ rebalances s ++ (nextDeployment cfg s).toList →
      d ∈ options ∨ d ∈ rebalances s ∨ nextDeployment cfg s = some d ∨ d = { kind := .hold } := by
    simp only [List.mem_append, Option.mem_toList]
    tauto
  simp only [discretionary] at h
  split at h
  next => exact hstages h
  next =>
    rcases List.mem_append.mp h with h | h
    · exact hstages h
    · exact .inr (.inr (.inr (List.mem_singleton.mp h)))

/-- The list is no less than its stages. -/
theorem mem_discretionary_of_stage {options : List Decision}
    (h : d ∈ options ++ rebalances s ++ (nextDeployment cfg s).toList) :
    d ∈ discretionary cfg s options := by
  simp only [discretionary]
  split
  next => exact h
  next => exact List.mem_append_left _ h

theorem mem_discretionary_of_mem {options : List Decision} (h : d ∈ options) :
    d ∈ discretionary cfg s options :=
  mem_discretionary_of_stage (List.mem_append_left _ (List.mem_append_left _ h))

theorem mem_discretionary_of_rebalance {options : List Decision} (h : d ∈ rebalances s) :
    d ∈ discretionary cfg s options :=
  mem_discretionary_of_stage (List.mem_append_left _ (List.mem_append_right _ h))

/-- The first stages' unwind: the queue's, and without one the retired markets'. -/
def firstUnwind (cfg : Settings) (s : VaultSnapshot) (now : Nat) : Option Decision :=
  (redemptionUnwind s now).or (retiredUnwind cfg s)

theorem firstUnwind_toList : (if (redemptionUnwind s now).isSome then
      (redemptionUnwind s now).toList else (retiredUnwind cfg s).toList) =
    (firstUnwind cfg s now).toList := by
  rw [firstUnwind]
  cases redemptionUnwind s now <;> simp

theorem firstUnwind_some (h : firstUnwind cfg s now = some d) :
    d.kind = .unwind ∧ d.fundedFrom = none := by
  simp only [firstUnwind, redemptionUnwind_eq, retiredUnwind_eq] at h
  split at h
  next =>
    obtain rfl := Option.some.inj h
    exact ⟨rfl, rfl⟩
  next =>
    rw [Option.none_or] at h
    split at h
    next =>
      obtain rfl := Option.some.inj h
      exact ⟨rfl, rfl⟩
    next => exact absurd h (by simp)

/-- Without a close order, a permitted action is what one of the stages answered. -/
theorem mem_permittedActions (hclose : s.closeRequested = false)
    (h : d ∈ permittedActions cfg s now) :
    firstUnwind cfg s now = some d ∨ mandateCorrection cfg s = some d ∨ d ∈ rebalances s ∨
      nextDeployment cfg s = some d ∨ d = { kind := .hold } := by
  simp only [permittedActions, hclose, Bool.false_eq_true, if_false, firstUnwind_toList] at h
  split at h
  next =>
    left
    rw [firstUnwind, Option.mem_toList.mp h]
    rfl
  next =>
    split at h
    next => exact (mem_discretionary h).imp Option.mem_toList.mp .inr
    next correction hcorrection =>
      have hcorrected : d ∈ [correction] → mandateCorrection cfg s = some d := fun hd => by
        rw [List.mem_singleton.mp hd, hcorrection]
      split at h
      next => exact .inr (.inl (hcorrected h))
      next =>
        rcases mem_discretionary h with h | h
        · exact (List.mem_append.mp h).imp Option.mem_toList.mp fun h => .inl (hcorrected h)
        · exact .inr (.inr h)

/-- A correction adds margin, sheds position, or does nothing. -/
theorem mandateCorrection_kind (h : mandateCorrection cfg s = some d) :
    d.kind = .topUpMargin ∨ d.kind = .unwind ∨ d.kind = .hold := by
  obtain ⟨-, _, -, h | ⟨-, h⟩⟩ := mandateCorrection_some h
  · obtain ⟨_, _, -, -, -, rfl⟩ := marginTopUp_some h
    exact .inl rfl
  · exact .inr (deleverage_some h).2.2

/-- Deployments and rebalances come from their own stages. -/
theorem growth_of_offered (h : d ∈ permittedActions cfg s now)
    (hkind : d.kind = .deploy ∨ d.kind = .rebalance) :
    nextDeployment cfg s = some d ∨ d ∈ rebalances s := by
  have hother : ∀ kind, d.kind = kind → kind ≠ .deploy → kind ≠ .rebalance → False := by
    rintro kind rfl hdeploy hrebalance
    exact hkind.elim hdeploy hrebalance
  cases hclose : s.closeRequested with
  | true =>
      simp only [permittedActions, hclose, if_true] at h
      split at h <;> rw [List.mem_singleton.mp h] at hother
      · exact (hother .hold rfl (by decide) (by decide)).elim
      · exact (hother .closeAll rfl (by decide) (by decide)).elim
  | false =>
      rcases mem_permittedActions hclose h with h | h | h | h | h
      · exact (hother _ (firstUnwind_some h).1 (by decide) (by decide)).elim
      · rcases mandateCorrection_kind h with hk | hk | hk <;>
          exact (hother _ hk (by decide) (by decide)).elim
      · exact .inr h
      · exact .inl h
      · exact (hother .hold (h ▸ rfl) (by decide) (by decide)).elim

/-- A rebalance is on the list exactly when its stage offers it. -/
theorem rebalance_mem_permittedActions (hkind : d.kind = .rebalance)
    (hclose : s.closeRequested = false) (hurgent : (redemptionUnwind s now).any (·.forced) = false)
    (hforced : ∀ c, mandateCorrection cfg s = some c → c.forced = true → c.kind = .hold) :
    d ∈ permittedActions cfg s now ↔ d ∈ rebalances s := by
  constructor
  · intro h
    rcases growth_of_offered h (.inr hkind) with h | h
    · obtain ⟨_, -, -, _, -, h⟩ := nextDeployment_some h
      obtain ⟨_, _, -, -, -, rfl⟩ := openPosition_some h
      cases hkind
    · exact h
  · intro h
    simp only [permittedActions, hclose, hurgent, Bool.false_eq_true, if_false]
    cases hcorrection : mandateCorrection cfg s with
    | none => exact mem_discretionary_of_rebalance h
    | some correction =>
        simp only
        rw [if_neg fun hc => hc.2 (hforced correction hcorrection hc.1)]
        exact mem_discretionary_of_rebalance h

/-- Inside the mandate the first stages' unwind is always on the list. -/
theorem firstUnwind_mem (hclose : s.closeRequested = false)
    (hin : leverageBps s.perpNotionalUsdc s.perpEquityUsdc ≤ s.risk.val.maxLeverageBps)
    (h : firstUnwind cfg s now = some d) : d ∈ permittedActions cfg s now := by
  have hfirst : d ∈ (firstUnwind cfg s now).toList := Option.mem_toList.mpr h
  simp only [permittedActions, hclose, Bool.false_eq_true, if_false, firstUnwind_toList]
  split
  next hurgent =>
    rw [firstUnwind] at h
    cases howed : redemptionUnwind s now with
    | none => simp [howed] at hurgent
    | some owed => simpa [howed] using h.symm
  next =>
    split
    next => exact mem_discretionary_of_mem hfirst
    next correction hcorrection =>
      rw [if_neg fun hf => absurd hf.1 (by simp [(mandateCorrection_inside hin hcorrection).2])]
      exact mem_discretionary_of_mem (List.mem_append_left _ hfirst)

/-- Under a close order nothing is spent. -/
theorem fundedFrom_of_close (hclose : s.closeRequested = true)
    (h : d ∈ permittedActions cfg s now) : d.fundedFrom = none := by
  simp only [permittedActions, hclose, if_true] at h
  split at h <;> rw [List.mem_singleton.mp h]

/-! ### A breached mandate -/

theorem mandateCorrection_of_breach (hopen : s.perpNotionalUsdc ≠ 0)
    (hbreach : s.risk.val.maxLeverageBps < leverageBps s.perpNotionalUsdc s.perpEquityUsdc)
    (h : marginTopUp cfg s true = some d) : mandateCorrection cfg s = some d := by
  have hsized : sizingLeverageBps cfg s.risk.val ≤ s.risk.val.maxLeverageBps :=
    sizing_le_max s.risk.val
  have hact : ¬ leverageBps s.perpNotionalUsdc s.perpEquityUsdc ≤
      sizingLeverageBps cfg s.risk.val +
        (s.risk.val.maxLeverageBps - sizingLeverageBps cfg s.risk.val) / 2 := by omega
  simp only [mandateCorrection, if_neg hopen, if_neg hact, gt_iff_lt, decide_eq_true hbreach, h]

/-- A forced correction that does something is all there is. -/
theorem permittedActions_of_forced (hclose : s.closeRequested = false)
    (howed : redemptionUnwind s now = none) (h : mandateCorrection cfg s = some d)
    (hforced : d.forced = true) (hkind : d.kind ≠ .hold) :
    permittedActions cfg s now = [d] := by
  simp [permittedActions, hclose, howed, h, hforced, hkind]

/-- Margin that is short by more than the agent holds, and that the vault can supply,
comes from the vault. -/
theorem marginTopUp_of_vault {short : Nat} (hpos : 0 < short)
    (hshort : (requiredMargin cfg s : Int) - s.perpEquityUsdc = short)
    (hidle : s.idleOnBase < short) (hle : short ≤ deployableAmount s) :
    marginTopUp cfg s true = some
      { kind := .topUpMargin
        amount := min (deployableAmount s)
          (if (short : Int) > cfg.minTopUpUsdc then short else cfg.minTopUpUsdc)
        forced := true
        fundedFrom := some .vault } := by
  have hne : ¬ (short : Int) ≤ 0 := by omega
  have hfind : List.find? (fun source : Funding × Nat => decide ((source.2 : Int) ≥ short))
      [(.agent, s.idleOnBase), (.vault, deployableAmount s)] =
        some (.vault, deployableAmount s) := by
    rw [List.find?_cons_of_neg (by simpa using hidle),
      List.find?_cons_of_pos (by simpa using hle)]
  simp only [marginTopUp, hshort, if_neg hne, if_true]
  rw [hfind]
  rfl

/-! ### What is spent from the vault -/

theorem topUp_le_deployable {breached : Bool} (h : marginTopUp cfg s breached = some d)
    (hv : d.fundedFrom = some .vault) : 0 < d.amount ∧ d.amount ≤ deployableAmount s := by
  obtain ⟨fundedFrom, available, hsource, hpos, hcovers, rfl⟩ := marginTopUp_some h
  obtain rfl : fundedFrom = .vault := Option.some.inj hv
  obtain ⟨hne, -⟩ | ⟨-, rfl⟩ := hsource
  · exact absurd hne (by decide)
  · refine ⟨lt_min (by omega) ?_, min_le_left _ _⟩
    split <;> omega

theorem vault_source {source : DeploymentSource} (hsource : source ∈ deploymentSources cfg s)
    (hvault : source.fundedFrom = .vault) : source.legs =
      splitDeployment (deployableAmount s) (sizingLeverageBps cfg s.risk.val) := by
  simp only [deploymentSources, List.mem_append, List.mem_ite_nil_right,
    List.mem_singleton] at hsource
  obtain ((⟨-, rfl⟩ | ⟨-, rfl⟩) | ⟨-, rfl⟩) := hsource
  · exact nomatch hvault
  · exact nomatch hvault
  · rfl

/-- A vault-funded deployment fits the deployment it was split from. -/
theorem deployment_le_deployable (h : nextDeployment cfg s = some d)
    (hv : d.fundedFrom = some .vault) : 0 < d.amount ∧ d.amount ≤ deployableAmount s := by
  obtain ⟨source, hsource, hne, market, hmarket, h⟩ := nextDeployment_some h
  obtain ⟨spend, legs, hspend, -, hlegs, rfl⟩ := openPosition_some h
  have hsizing : 0 < sizingLeverageBps cfg s.risk.val := sizing_pos s.risk
  have hpos : 0 < spend :=
    hspend ▸ lt_min (mem_candidates.mp hmarket).2.2.2 (Nat.pos_of_ne_zero hne)
  have hle : spend ≤ source.legs.spotNotional := hspend ▸ min_le_right _ _
  have hfrom := vault_source hsource (Option.some.inj hv)
  have htotal : legs.spotNotional + legs.perpMargin ≤ deployableAmount s ∧
      spend ≤ legs.spotNotional + legs.perpMargin := by
    split at hlegs
    · rw [hlegs]
      refine ⟨?_, le_rfl⟩
      calc spend + 0 ≤ source.legs.spotNotional + source.legs.perpMargin := by omega
        _ = deployableAmount s := by rw [hfrom, splitDeployment_sum]
    · rw [hlegs, splitDeployment_sum]
      exact ⟨(deploymentFor_le_iff hsizing).mpr (hfrom ▸ hle), le_deploymentFor hsizing spend⟩
  exact ⟨hpos.trans_le htotal.2, htotal.1⟩

/-- An action that draws on the vault draws something, and no more than is deployable. -/
theorem vaultFunded_le_deployable (h : d ∈ permittedActions cfg s now)
    (hv : d.fundedFrom = some .vault) : 0 < d.amount ∧ d.amount ≤ deployableAmount s := by
  have hnone : d.fundedFrom = none → 0 < d.amount ∧ d.amount ≤ deployableAmount s :=
    fun hn => absurd (hv.symm.trans hn) (by simp)
  cases hclose : s.closeRequested with
  | true => exact hnone (fundedFrom_of_close hclose h)
  | false =>
    rcases mem_permittedActions hclose h with h | h | h | h | h
    · exact hnone (firstUnwind_some h).2
    · obtain ⟨-, _, -, h | ⟨-, h⟩⟩ := mandateCorrection_some h
      · exact topUp_le_deployable h hv
      · exact hnone (deleverage_some h).2.1
    · obtain ⟨_, -, -, rfl⟩ := mem_rebalances.mp h
      exact hnone rfl
    · exact deployment_le_deployable h hv
    · exact hnone (h ▸ rfl)

end Agent

end LemonMarket
