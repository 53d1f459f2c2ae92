import LemonMarket.Agent.Worker
import LemonMarket.Contracts.Deployment

/-!
# LemonMarket.Agent.Report

**From an observation to the act stage.** What a tick does before it acts (`worker.ts`):
price the position (`valuation.ts`), decide whether a NAV report is due by the funding
period (`core/funding.ts`), post it through the client (`vault.ts`), and go on or stop by
what comes back. A report refused for its leverage is the one failure a tick goes on past,
since acting is what cures it.

The client encodes its arguments before it calls the contract, and what does not fit the
type it is encoded as fails there, as something that is not a revert. The figure reported
for an account with nothing left behind its notional is `maxSafeInteger`, and `uint32` is
what it is encoded as.
-/

namespace LemonMarket

namespace Agent

open Lib
open LemonVault (bps year)

/-! ### The funding period -/

/-- The venue settles hourly, aligned to the epoch. -/
def fundingIntervalSeconds : Nat := 3600

def fundingPeriodStart (timestamp : Nat) : Nat :=
  timestamp / fundingIntervalSeconds * fundingIntervalSeconds

def nextFundingSettlement (timestamp : Nat) : Nat :=
  fundingPeriodStart timestamp + fundingIntervalSeconds

def crossedFundingSettlement (since now : Nat) : Bool :=
  fundingPeriodStart now > fundingPeriodStart since

inductive ReportReason
  | settlementLanded
  | halfwayToStale
  deriving Repr, DecidableEq

/-- Whether a tick owes the chain a NAV, and why, or when the next one is due. -/
inductive NavReportDecision
  | due (because : ReportReason)
  | notDue (nextAt : Nat)
  deriving Repr, DecidableEq

def navReportDue (state : VaultState) (now : Nat) : NavReportDecision :=
  let floorAt := state.lastNavReportAt + state.minNavReportInterval
  let keepaliveAt := state.lastNavReportAt + state.maxNavStaleness / 2
  let settlementAt := nextFundingSettlement state.lastNavReportAt
  if now < floorAt then .notDue (max floorAt (min settlementAt keepaliveAt))
  else if crossedFundingSettlement state.lastNavReportAt now then .due .settlementLanded
  else if now ≥ keepaliveAt then .due .halfwayToStale
  else .notDue (min settlementAt keepaliveAt)

/-! ### The valuation -/

structure SpotLeg where
  ticker : String
  spotTokenBalance : Nat
  spotSellQuoteUsdc : Option Nat
  deriving Repr, DecidableEq

structure ValuationInputs where
  legs : List SpotLeg
  perpEquityUsdc : Int
  perpNotionalUsdc : Nat
  idleAtAgentUsdc : Nat
  inFlightUsdc : Nat
  deriving Repr, DecidableEq

/-- What `value` answers. Its breakdown by component and by market goes to the log. -/
structure Valuation where
  deployedAssets : Int
  leverageBps : Nat
  deriving Repr, DecidableEq

/-- Every spot leg added together. -/
def ValuationInputs.spot (inputs : ValuationInputs) : Nat :=
  (inputs.legs.map fun leg => leg.spotSellQuoteUsdc.getD 0).sum

/-- Total the components, or refuse and name the legs without a price. -/
def value (inputs : ValuationInputs) : Except (List String) Valuation :=
  let unpriceable :=
    inputs.legs.filter fun leg => leg.spotTokenBalance > 0 ∧ leg.spotSellQuoteUsdc = none
  if unpriceable.length > 0 then .error (unpriceable.map SpotLeg.ticker)
  else .ok
    { deployedAssets :=
        inputs.spot + inputs.perpEquityUsdc + inputs.idleAtAgentUsdc + inputs.inFlightUsdc
      leverageBps := leverageBps inputs.perpNotionalUsdc inputs.perpEquityUsdc }

/-! ### Posting a NAV -/

/-- Why a write fails: an argument does not fit its type, or the contract reverts. -/
inductive WriteError
  | encoding
  | reverted (e : VaultError)
  deriving DecidableEq

/-- Whether a value can be encoded as a `uint` of some width. -/
def FitsUint (bits : Nat) (value : Int) : Prop := 0 ≤ value ∧ value < 2 ^ bits

instance (bits : Nat) (value : Int) : Decidable (FitsUint bits value) :=
  inferInstanceAs (Decidable (_ ∧ _))

/-- `VaultClient.reportNav`: `uint256`, `uint32` and `uint64`, and then the contract. -/
def postNav (v : LemonVault) (msg : Msg) (s : State) (deployedAssets : Int)
    (leverageBps observedAt : Nat) : Except WriteError State :=
  if FitsUint 256 deployedAssets ∧ FitsUint 32 leverageBps ∧ FitsUint 64 observedAt then
    (v.reportNav msg s deployedAssets.toNat leverageBps observedAt).mapError .reverted
  else .error .encoding

def namedLeverageExceedsMandate : VaultError → Bool
  | .leverageExceedsMandate _ _ => true
  | _ => false

/-- Whether a write was reverted with an error of some name. -/
def isRevert (error : WriteError) (named : VaultError → Bool) : Bool :=
  match error with
  | .encoding => false
  | .reverted e => named e

/-! ### A tick, up to where it acts -/

/-- No shares, no assets, nothing deployed and nothing owed. -/
def isDormant (state : VaultState) : Bool :=
  state.totalAssets = 0 && state.totalSupply = 0 && state.deployedAssets = 0 &&
    state.claimableAssets = 0

/-- How far a tick gets. -/
inductive Reached
  /-- The tick of an empty vault, and whether its keepalive was posted. -/
  | idle (navReported : Bool) (after : State)
  /-- The position cannot be priced. -/
  | unpriced (tickers : List String)
  /-- The report was rejected, and the tick stops at it. -/
  | rejected (error : WriteError)
  | act (navReported : Bool) (after : State)

section

variable (v : LemonVault) (msg : Msg) (s : State)

/-- The tick an empty vault gets. -/
def idle (state : VaultState) (now : Nat) : Reached :=
  if now < state.lastNavReportAt + max state.minNavReportInterval (state.maxNavStaleness / 2) then
    .idle false s
  else
    match postNav v msg s 0 (leverageBps 0 0) now with
    | .ok s' => .idle true s'
    | .error _ => .idle false s

/-- The report stage. -/
def report (state : VaultState) (valuation : Valuation) (now observedAt : Nat) : Reached :=
  match navReportDue state now with
  | .notDue _ => .act false s
  | .due _ =>
      match postNav v msg s valuation.deployedAssets valuation.leverageBps observedAt with
      | .ok s' => .act true s'
      | .error e =>
          if isRevert e namedLeverageExceedsMandate then .act false s else .rejected e

/-- The stages ahead of the act stage, by the agent's clock `now`, on a chain whose block
time is the message's. -/
def tick (inputs : ValuationInputs) (now observedAt : Nat) : Reached :=
  let state := VaultState.read v s msg.timestamp
  if isDormant state then idle v msg s state now
  else
    match value inputs with
    | .error tickers => .unpriced tickers
    | .ok valuation => report v msg s state valuation now observedAt

end

/-! ### A report of a breach -/

variable {v : LemonVault} {msg : Msg} {s : State} {inputs : ValuationInputs}
  {valuation : Valuation} {now observedAt : Nat}

/-- **The correction is reached**: the tick goes on to the act stage, and a report that is
due fails in no other way than for its leverage. -/
structure ReachesAct (v : LemonVault) (msg : Msg) (s : State) (inputs : ValuationInputs)
    (now observedAt : Nat) : Prop where
  acts : ∃ navReported after, tick v msg s inputs now observedAt = .act navReported after
  refused : ∀ valuation because e, value inputs = .ok valuation →
    navReportDue (VaultState.read v s msg.timestamp) now = .due because →
    postNav v msg s valuation.deployedAssets valuation.leverageBps observedAt = .error e →
    ∃ observed ceiling, e = .reverted (.leverageExceedsMandate observed ceiling)

/-- What it takes for the contract to be the one that refuses: figures that fit the types
they are encoded as, from the agent, and no sooner than the contract's floor. -/
structure Postable (msg : Msg) (s : State) (inputs : ValuationInputs) (observedAt : Nat) :
    Prop where
  backed : 0 < inputs.perpEquityUsdc
  leverage : (inputs.perpNotionalUsdc : Int) * bps < 2 ^ 32 * inputs.perpEquityUsdc
  assets : (inputs.spot : Int) + inputs.perpEquityUsdc + inputs.idleAtAgentUsdc +
    inputs.inFlightUsdc < 2 ^ 256
  observed : observedAt < 2 ^ 64
  agent : s.hasRole .agent msg.sender = true
  spaced : s.lastNavReportAt + s.limits.val.minNavReportInterval ≤ msg.timestamp

/-- The contract's answer to a report above its ceiling. -/
def breachError (v : LemonVault) (msg : Msg) (s : State) (leverageBps : Nat) : VaultError :=
  if s.hasRole .agent msg.sender = false then .unauthorizedAccount msg.sender .agent
  else if msg.timestamp < s.lastNavReportAt + s.limits.val.minNavReportInterval then
    .navReportTooSoon
  else .leverageExceedsMandate leverageBps v.risk.val.maxLeverageBps

/-- A report above the ceiling is always refused, and for its leverage last. -/
theorem reportNav_of_breach {assets leverage : Nat} (h : v.risk.val.maxLeverageBps < leverage) :
    v.reportNav msg s assets leverage observedAt = .error (breachError v msg s leverage) := by
  unfold LemonVault.reportNav breachError
  by_cases hrole : s.hasRole .agent msg.sender = false
  · rw [if_pos hrole]
    exact bind_eq_error.mpr (.inl (revertIf_eq_error.mpr ⟨hrole, rfl⟩))
  · have hagent : onlyRole s .agent msg = .ok () := revertIf_of_not hrole
    rw [if_neg hrole, bind_of_ok hagent]
    by_cases hsoon : msg.timestamp < s.lastNavReportAt + s.limits.val.minNavReportInterval
    · rw [if_pos hsoon]
      exact bind_eq_error.mpr (.inl (revertIf_eq_error.mpr ⟨hsoon, rfl⟩))
    · rw [if_neg hsoon, bind_of_ok (revertIf_of_not hsoon)]
      exact bind_eq_error.mpr (.inl (revertIf_eq_error.mpr ⟨h, rfl⟩))

/-- It is named as such only from the agent, and past the floor. -/
theorem breachError_named {leverage : Nat} :
    namedLeverageExceedsMandate (breachError v msg s leverage) = true ↔
      s.hasRole .agent msg.sender = true ∧
        s.lastNavReportAt + s.limits.val.minNavReportInterval ≤ msg.timestamp := by
  unfold breachError
  split
  next hrole => simp [namedLeverageExceedsMandate, hrole]
  next hrole =>
    rw [Bool.not_eq_false] at hrole
    split
    next hsoon => simp [namedLeverageExceedsMandate, not_le.mpr hsoon]
    next hsoon => simp [namedLeverageExceedsMandate, hrole, not_lt.mp hsoon]

/-- What pricing answers. -/
theorem value_ok (h : value inputs = .ok valuation) :
    valuation.deployedAssets =
        inputs.spot + inputs.perpEquityUsdc + inputs.idleAtAgentUsdc + inputs.inFlightUsdc ∧
      valuation.leverageBps = leverageBps inputs.perpNotionalUsdc inputs.perpEquityUsdc := by
  simp only [value] at h
  split at h
  next => cases h
  next =>
    cases h
    exact ⟨rfl, rfl⟩

/-- It answers when every leg that is held has its price. -/
theorem value_answers_iff : (∃ valuation, value inputs = .ok valuation) ↔
    ∀ leg ∈ inputs.legs, leg.spotTokenBalance = 0 ∨ leg.spotSellQuoteUsdc.isSome := by
  have hnone : (inputs.legs.filter fun leg =>
        leg.spotTokenBalance > 0 ∧ leg.spotSellQuoteUsdc = none).length = 0 ↔
      ∀ leg ∈ inputs.legs, leg.spotTokenBalance = 0 ∨ leg.spotSellQuoteUsdc.isSome := by
    rw [List.length_eq_zero_iff, List.filter_eq_nil_iff]
    refine forall₂_congr fun leg _ => ?_
    rw [decide_eq_true_eq, not_and_or, Nat.pos_iff_ne_zero.not, not_not, ← ne_eq,
      Option.ne_none_iff_isSome]
  rw [← hnone]
  simp only [value]
  split
  next hsome => exact iff_of_false (fun ⟨_, h⟩ => by cases h) hsome.ne'
  next hempty => exact iff_of_true ⟨_, rfl⟩ (Nat.eq_zero_of_not_pos hempty)

/-- An account above its ceiling has something open. -/
theorem notional_ne_of_breach
    (h : v.risk.val.maxLeverageBps < leverageBps inputs.perpNotionalUsdc inputs.perpEquityUsdc) :
    inputs.perpNotionalUsdc ≠ 0 := by
  intro hflat
  obtain ⟨htarget, -, htier⟩ := v.risk.property
  rw [hflat, leverageBps, if_pos rfl] at h
  split at htier
  next => exact absurd h (not_lt.mpr htier.2.ge)
  next => exact absurd (htier.trans_le htarget) (not_lt.mpr h.le)

/-- The leverage of an open account fits `uint32` when there is equity enough behind it. -/
theorem fits_leverageBps_iff (hopen : inputs.perpNotionalUsdc ≠ 0) :
    FitsUint 32 (leverageBps inputs.perpNotionalUsdc inputs.perpEquityUsdc) ↔
      0 < inputs.perpEquityUsdc ∧
        (inputs.perpNotionalUsdc : Int) * bps < 2 ^ 32 * inputs.perpEquityUsdc := by
  unfold leverageBps
  rw [if_neg hopen]
  split
  next hequity =>
    -- The sentinel for an account with nothing left is past `uint32`.
    constructor
    · rintro ⟨-, hlt⟩
      exact absurd hlt (by decide)
    · rintro ⟨hpos, -⟩
      exact absurd hpos (not_lt.mpr hequity)
  next hequity =>
    have hpos : 0 < inputs.perpEquityUsdc := not_le.mp hequity
    obtain ⟨equity, hequityNat⟩ := Int.eq_ofNat_of_zero_le hpos.le
    rw [hequityNat] at hpos ⊢
    have hposNat : 0 < equity := Int.natCast_pos.mp hpos
    have hscaled : inputs.perpNotionalUsdc * bps / equity < 2 ^ 32 ↔
        inputs.perpNotionalUsdc * bps < 2 ^ 32 * equity := Nat.div_lt_iff_lt_mul hposNat
    constructor
    · rintro ⟨-, hlt⟩
      exact ⟨hpos, by exact_mod_cast hscaled.mp (by exact_mod_cast hlt)⟩
    · rintro ⟨-, hlt⟩
      exact ⟨Int.natCast_nonneg _, by exact_mod_cast hscaled.mpr (by exact_mod_cast hlt)⟩

/-- Posting the valuation of a breach is refused by the contract for its leverage exactly
when it is postable, and never accepted. -/
theorem postNav_of_breach (msg : Msg) (s : State) (observedAt : Nat)
    (hpriced : value inputs = .ok valuation)
    (hbreach : v.risk.val.maxLeverageBps < valuation.leverageBps) :
    ∃ e, postNav v msg s valuation.deployedAssets valuation.leverageBps observedAt = .error e ∧
      (isRevert e namedLeverageExceedsMandate = true ↔ Postable msg s inputs observedAt) := by
  obtain ⟨hassets, hleverage⟩ := value_ok hpriced
  have hopen := notional_ne_of_breach (hleverage ▸ hbreach)
  have hfits := fits_leverageBps_iff hopen
  rw [← hleverage] at hfits
  by_cases hencodes : FitsUint 256 valuation.deployedAssets ∧ FitsUint 32 valuation.leverageBps ∧
      FitsUint 64 observedAt
  -- what encodes reaches the contract, which refuses it by name to the agent on time
  · refine ⟨.reverted (breachError v msg s valuation.leverageBps), ?_, ?_⟩
    · rw [postNav, if_pos hencodes, reportNav_of_breach hbreach]
      rfl
    · obtain ⟨hassetsFit, hleverageFit, hobserved⟩ := hencodes
      obtain ⟨hbacked, hscaled⟩ := hfits.mp hleverageFit
      rw [isRevert, breachError_named]
      constructor
      · rintro ⟨hagent, hspaced⟩
        exact ⟨hbacked, hscaled, hassets ▸ hassetsFit.2, by exact_mod_cast hobserved.2, hagent,
          hspaced⟩
      · intro h
        exact ⟨h.agent, h.spaced⟩
  · -- What does not encode is not a revert, and not postable.
    refine ⟨.encoding, by rw [postNav, if_neg hencodes], ?_⟩
    constructor
    · intro h
      cases h
    · intro h
      have hbacked := h.backed
      have hnonneg : 0 ≤ valuation.deployedAssets := by omega
      have hbound : valuation.deployedAssets < 2 ^ 256 := hassets ▸ h.assets
      have hobserved : ((observedAt : Nat) : Int) < 2 ^ 64 := by exact_mod_cast h.observed
      exact absurd ⟨⟨hnonneg, hbound⟩, hfits.mpr ⟨h.backed, h.leverage⟩,
        Int.natCast_nonneg _, hobserved⟩ hencodes

/-- The two ways the report stage of a breach can end. -/
theorem report_of_breach {state : VaultState} (hpriced : value inputs = .ok valuation)
    (hbreach : v.risk.val.maxLeverageBps < valuation.leverageBps) :
    (∃ navReported after, report v msg s state valuation now observedAt = .act navReported after) ↔
      (∃ nextAt, navReportDue state now = .notDue nextAt) ∨ Postable msg s inputs observedAt := by
  obtain ⟨e, hrefused, hnamed⟩ :=
    postNav_of_breach msg s observedAt hpriced hbreach
  unfold report
  cases hdue : navReportDue state now with
  | notDue nextAt => simp
  | due because =>
      simp only [hrefused, reduceCtorEq, exists_const, false_or, ← hnamed]
      split
      next hrevert => simp [hrevert]
      next hrevert => simp [hrevert]

/-- A write that was reverted under the name was reverted for the leverage. -/
theorem eq_of_isRevert {e : WriteError} (h : isRevert e namedLeverageExceedsMandate = true) :
    ∃ observed ceiling, e = .reverted (.leverageExceedsMandate observed ceiling) := by
  unfold isRevert at h
  split at h
  next => cases h
  next e =>
    unfold namedLeverageExceedsMandate at h
    split at h
    next observed ceiling => exact ⟨observed, ceiling, rfl⟩
    next => cases h

/-- A tick that observes the venue goes on from a breach, and fails a due report for nothing
but its leverage, if no report is due or the contract is the one to refuse it, and only
then. -/
theorem reachesAct_of_priced (hlive : isDormant (VaultState.read v s msg.timestamp) = false)
    (hpriced : value inputs = .ok valuation)
    (hbreach : v.risk.val.maxLeverageBps < valuation.leverageBps) :
    ReachesAct v msg s inputs now observedAt ↔
      (∃ nextAt, navReportDue (VaultState.read v s msg.timestamp) now = .notDue nextAt) ∨
        Postable msg s inputs observedAt := by
  have htick : tick v msg s inputs now observedAt =
      report v msg s (VaultState.read v s msg.timestamp) valuation now observedAt := by
    simp only [tick, hlive, hpriced, Bool.false_eq_true, if_false]
  constructor
  · intro h
    have hacts := h.acts
    rw [htick] at hacts
    exact (report_of_breach hpriced hbreach).mp hacts
  · intro h
    constructor
    · rw [htick]
      exact (report_of_breach hpriced hbreach).mpr h
    · intro priced because e hpriced' hdue hrefused
      obtain rfl : valuation = priced := Except.ok.inj (hpriced.symm.trans hpriced')
      -- the report was due and refused: by the contract, if it could be posted
      obtain ⟨e', hrefused', hnamed⟩ :=
        postNav_of_breach msg s observedAt hpriced hbreach
      obtain rfl : e' = e := Except.error.inj (hrefused'.symm.trans hrefused)
      rcases h with ⟨nextAt, hnot⟩ | hpostable
      · cases hnot.symm.trans hdue
      · exact eq_of_isRevert (hnamed.mpr hpostable)

/-- Only a tick that observed and priced the position acts. -/
theorem live_and_priced_of_act {navReported : Bool} {after : State}
    (h : tick v msg s inputs now observedAt = .act navReported after) :
    isDormant (VaultState.read v s msg.timestamp) = false ∧
      ∃ valuation, value inputs = .ok valuation := by
  simp only [tick] at h
  split at h
  next =>
    -- the tick of an empty vault ends at its keepalive, posted or not
    unfold idle at h
    split at h
    next => cases h
    next => split at h <;> cases h
  next hlive =>
    refine ⟨Bool.eq_false_of_not_eq_true hlive, ?_⟩
    split at h
    next => cases h
    next valuation hpriced => exact ⟨valuation, hpriced⟩

/-- **When a breach reaches the correction.** Where the account's leverage is above the
vault's ceiling, the tick goes on to act, and fails a due report for nothing but that, if
and only if the vault is not empty, the position can be priced, and no report is due or the
report is one the contract itself can refuse. -/
theorem reachesAct_iff_postable (hbreach : v.risk.val.maxLeverageBps <
      leverageBps inputs.perpNotionalUsdc inputs.perpEquityUsdc) :
    ReachesAct v msg s inputs now observedAt ↔
      isDormant (VaultState.read v s msg.timestamp) = false ∧
      (∃ valuation, value inputs = .ok valuation) ∧
      ((∃ nextAt, navReportDue (VaultState.read v s msg.timestamp) now = .notDue nextAt) ∨
        Postable msg s inputs observedAt) := by
  constructor
  · intro h
    obtain ⟨navReported, after, hacts⟩ := h.acts
    obtain ⟨hlive, valuation, hpriced⟩ := live_and_priced_of_act hacts
    have habove := (value_ok hpriced).2.symm ▸ hbreach
    exact ⟨hlive, ⟨valuation, hpriced⟩, (reachesAct_of_priced hlive hpriced habove).mp h⟩
  · rintro ⟨hlive, ⟨valuation, hpriced⟩, h⟩
    have habove := (value_ok hpriced).2.symm ▸ hbreach
    exact (reachesAct_of_priced hlive hpriced habove).mpr h

/-! ### Either side of the encoding -/

/-- A thousand USDC, of which nine hundred are out at the venue. -/
def deployedDeposit : List Tx :=
  [Test.tx Test.alice 0 (.deposit (1000 * Test.oneUsdc) Test.alice),
   Test.tx Test.agent 0 (.agentWithdraw (900 * Test.oneUsdc))]

theorem deployedDeposit_isSome : (trace (Test.lemonVault Test.conservativeRisk).next
    (Test.world Test.defaultLimits Test.conservativeRisk) deployedDeposit).isSome := by rfl

/-- Half of it hedged, against some equity. -/
def hedgedAgainst (equity : Int) : ValuationInputs where
  legs := [⟨"NVDA", 450000000, some 450000000⟩]
  perpEquityUsdc := equity
  perpNotionalUsdc := 450000000
  idleAtAgentUsdc := 0
  inFlightUsdc := 0

/-- With no equity left the report cannot be encoded, and the tick stops at it. -/
theorem wiped_out_account_never_acts :
    ¬ ∀ (v : LemonVault) (w : World) (msg : Msg) (inputs : ValuationInputs)
      (valuation : Valuation) (now observedAt : Nat), Reachable v w → w.now ≤ msg.timestamp →
      now ≤ msg.timestamp → w.state.hasRole .agent msg.sender = true →
      isDormant (VaultState.read v w.state msg.timestamp) = false →
      value inputs = .ok valuation → v.risk.val.maxLeverageBps < valuation.leverageBps →
      ReachesAct v msg w.state inputs now observedAt := by
  intro h
  obtain ⟨⟨navReported, after, hacts⟩, -⟩ := h (Test.lemonVault Test.conservativeRisk)
    (Test.after Test.defaultLimits Test.conservativeRisk deployedDeposit (by rfl))
    ⟨Test.agent, year + 7200⟩ (hedgedAgainst 0) _ (year + 7200) (year + 7200)
    (Test.reachable_after deployedDeposit_isSome) (by decide) (by decide) (by rfl) (by rfl)
    (by rfl) (by decide)
  have hstops : tick (Test.lemonVault Test.conservativeRisk) ⟨Test.agent, year + 7200⟩
      (Test.after Test.defaultLimits Test.conservativeRisk deployedDeposit (by rfl)).state
      (hedgedAgainst 0) (year + 7200) (year + 7200) = .rejected .encoding := by rfl
  rw [hstops] at hacts
  cases hacts

/-- With a quarter of it left the tick goes on. -/
theorem reachesAct_iff_postable_quarter :
    ReachesAct (Test.lemonVault Test.conservativeRisk) ⟨Test.agent, year + 7200⟩
      (Test.after Test.defaultLimits Test.conservativeRisk deployedDeposit (by rfl)).state
      (hedgedAgainst 112500000) (year + 7200) (year + 7200) :=
  (reachesAct_iff_postable (by decide)).mpr
    ⟨by rfl, ⟨⟨562500000, 40000⟩, by rfl⟩,
      .inr ⟨by decide, by decide, by decide, by decide, by rfl, by decide⟩⟩

end Agent

end LemonMarket
