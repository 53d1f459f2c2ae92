import LemonMarket.Contracts.Rate
import Mathlib.Algebra.Order.Field.Rat
import Mathlib.Tactic.FieldSimp

/-!
# LemonMarket.Contracts.HighWater

**How often a gain is billed.** An accrual bills the price above the high-water mark and
then marks the price its own mint has diluted. Both prices are floored to one unit per whole
share while the fee is charged over the whole supply. So a gain is measured from what the
floor of the mark left to what the floor of the price leaves: what the mark dropped is
billed again, and what the price drops is not billed yet.

Along a run each state that is billed contributes both: over its supply, the remainder of
the total the mark was set at and that of its own total (`markLoss`, `priceLoss`). Where the
marks drop in all at most one unit a share, and one unit, more than the prices
(`MarksKeepUp`), the fees of the run are at most the rate on the rise of the largest total.
A run that finds the price above the mark once at most is such a run, and so is one in which
every price drops at least what the mark below it dropped.
-/

namespace LemonMarket

open Lib

namespace LemonVault

variable {v : LemonVault} {s s' : State} {msg : Msg} {w w₀ : World}
  {tr : List (Transition World Tx)}

/-! ### What is billed -/

/-- The fee an accrual at `now` mints performance shares for. -/
def billed (v : LemonVault) (now : Nat) (s : State) : Nat :=
  let elapsed := now - s.lastFeeAccrualAt
  let s := s.setAccrualClock now
  if s.shares.totalSupply = 0 then 0
  else
    let s := v.accrueManagementFee elapsed s
    if v.performanceShares s > 0 then v.performanceFeeAssets s else 0

/-- The states a transaction accrues fees in, of those that only report, accrue or move
capital. A report accrues twice: before and after it restates. -/
def accruals (v : LemonVault) (t : Transition World Tx) : List State :=
  match t.label.call with
  | .accrueFees => [t.pre.state]
  | .reportNav d l _ =>
      let now := t.label.msg.timestamp
      let rolled := rollNavEpoch now t.pre.state
      [rolled, restateNav now (v.accrueFees now rolled) d l]
  | _ => []

/-- The fees billed along a run. -/
def totalBilled (v : LemonVault) (tr : List (Transition World Tx)) : Nat :=
  (tr.map fun t => ((v.accruals t).map (v.billed t.label.msg.timestamp)).sum).sum

/-- A report, an accrual, a withdrawal, or a return of at most what is deployed. -/
def capitalCall (deployed : Nat) : Call → Bool
  | .reportNav _ _ _ | .accrueFees | .agentWithdraw _ => true
  | .agentReturn n => n ≤ deployed
  | _ => false

/-- The transaction reports, accrues, or moves capital it could. -/
def CapitalOnly (t : Transition World Tx) : Prop :=
  capitalCall t.pre.state.deployedAssets t.label.call = true

instance (t : Transition World Tx) : Decidable (CapitalOnly t) :=
  inferInstanceAs (Decidable (_ = true))

/-- The states of a run that are billed: those an accrual finds above the mark. -/
def billings (v : LemonVault) (tr : List (Transition World Tx)) : List State :=
  (tr.flatMap v.accruals).filter fun s => v.FeeDue s

/-- What flooring drops from the price of a total, over the supply of a state. -/
def floorLoss (s : State) (assets : Nat) : Nat :=
  priceUnit * (assets + 1) % (s.shares.totalSupply + virtualShares)

/-- What the marks dropped, each set at the total of the state billed before. -/
def markLoss (v : LemonVault) (last : State) : List State → Nat
  | [] => 0
  | s :: rest => floorLoss s (v.totalAssets last) + markLoss v s rest

/-- What the prices billed dropped. -/
def priceLoss (v : LemonVault) (billed : List State) : Nat :=
  (billed.map fun s => floorLoss s (v.totalAssets s)).sum

/-- The marks of a run drop at most one unit a share, and one unit, more than its prices. -/
def MarksKeepUp (v : LemonVault) (s₀ : State) (billed : List State) : Prop :=
  markLoss v s₀ billed ≤
    priceLoss v billed + (s₀.shares.totalSupply + virtualShares) + priceUnit

instance (v : LemonVault) (s₀ : State) (billed : List State) :
    Decidable (v.MarksKeepUp s₀ billed) :=
  inferInstanceAs (Decidable (_ ≤ _))

/-- The last state billed, or the first of the run. -/
def lastBilled (s₀ : State) (billed : List State) : State := billed.getLast?.getD s₀

theorem floorLoss_lt (s : State) (assets : Nat) :
    floorLoss s assets < s.shares.totalSupply + virtualShares := Nat.mod_lt _ (supply_pos s)

theorem markLoss_snoc (last s : State) (billed : List State) :
    v.markLoss last (billed ++ [s]) =
      v.markLoss last billed + floorLoss s (v.totalAssets (lastBilled last billed)) := by
  induction billed generalizing last with
  | nil => exact Nat.add_comm _ _
  | cons first rest ih =>
      have hlast : lastBilled last (first :: rest) = lastBilled first rest := by
        simp [lastBilled, List.getLast?_cons]
      rw [List.cons_append, markLoss, markLoss, ih, hlast, Nat.add_assoc]

theorem priceLoss_snoc (s : State) (billed : List State) :
    v.priceLoss (billed ++ [s]) = v.priceLoss billed + floorLoss s (v.totalAssets s) := by
  rw [priceLoss, List.map_append, List.sum_append, List.map_singleton, List.sum_singleton,
    priceLoss]

theorem lastBilled_snoc (s₀ s : State) (billed : List State) :
    lastBilled s₀ (billed ++ [s]) = s := by simp [lastBilled]

/-! ### One accrual -/

/-- The mark, weighed by the supply it is a price of. -/
def markedValue (s : State) : Nat := s.highWaterMarkPps * (s.shares.totalSupply + virtualShares)

theorem performanceFeeAssets_mul_le (s : State) :
    bps * v.performanceFeeAssets s ≤ s.limits.val.performanceFeeBps * v.gainAssets s := by
  have hfloor := mulDiv_floor_mul_le (x := v.gainAssets s)
    (y := s.limits.val.performanceFeeBps) (d := bps)
  rw [Nat.mul_comm bps, Nat.mul_comm s.limits.val.performanceFeeBps]
  exact hfloor

/-- A price and what flooring drops from it are the total. -/
theorem pricePerShare_add_floorLoss (v : LemonVault) (s : State) :
    v.pricePerShare s * (s.shares.totalSupply + virtualShares) + floorLoss s (v.totalAssets s) =
      priceUnit * (v.totalAssets s + 1) := by
  rw [pricePerShare, convertToAssets, mulDiv, floorLoss]
  exact Nat.div_add_mod' (priceUnit * (v.totalAssets s + 1)) (s.shares.totalSupply + virtualShares)

/-- The gain an accrual charges on ends at its price and starts at the mark. -/
theorem gainAssets_le (hdue : v.FeeDue s) :
    priceUnit * v.gainAssets s + markedValue s + floorLoss s (v.totalAssets s) ≤
      priceUnit * (v.totalAssets s + 1) := by
  obtain ⟨-, hrise⟩ := hdue
  have hprice := pricePerShare_add_floorLoss v s
  have hgain : v.gainAssets s * priceUnit ≤
      (v.pricePerShare s - s.highWaterMarkPps) * s.shares.totalSupply := mulDiv_floor_mul_le
  obtain ⟨rise, hsplit⟩ := Nat.exists_eq_add_of_le hrise.le
  rw [hsplit, Nat.add_sub_cancel_left] at hgain
  rw [← hprice, hsplit, markedValue, Nat.mul_comm priceUnit]
  have hvirtual : rise * s.shares.totalSupply ≤ rise * (s.shares.totalSupply + virtualShares) :=
    Nat.mul_le_mul_left _ (Nat.le_add_right _ _)
  rw [Nat.add_mul]
  omega

/-- A mark is short of the total it was set at by what flooring drops. -/
def MarkedAt (assets : Nat) (s : State) : Prop :=
  priceUnit * (assets + 1) ≤ markedValue s + floorLoss s assets

theorem MarkedAt.congr {assets : Nat} (h : MarkedAt assets s)
    (hs : s'.shares.totalSupply = s.shares.totalSupply)
    (hm : s'.highWaterMarkPps = s.highWaterMarkPps) : MarkedAt assets s' := by
  rw [MarkedAt, markedValue, floorLoss, hs, hm]
  exact h

/-- A mark that covers the price covers the total but for what flooring drops. -/
theorem markedAt_of_covers (h : v.pricePerShare s ≤ s.highWaterMarkPps) :
    MarkedAt (v.totalAssets s) s := by
  have hprice := pricePerShare_add_floorLoss v s
  rw [MarkedAt, markedValue, ← hprice]
  exact Nat.add_le_add_right (Nat.mul_le_mul_right _ h) _

/-- What an accrual bills where the price is above the mark, without rent: at most the rate
on the rise since the mark was set, with what the mark dropped and without what the price
drops. The mark is set anew. -/
theorem billed_of_due {assets : Nat} (now : Nat) (hrent : s.limits.val.managementFeeBps = 0)
    (hsupply : 0 < s.shares.totalSupply) (hmarked : MarkedAt assets s) (hdue : v.FeeDue s) :
    bps * priceUnit * v.billed now s + s.limits.val.performanceFeeBps *
        (priceUnit * (assets + 1) + floorLoss s (v.totalAssets s)) ≤
      s.limits.val.performanceFeeBps *
        (priceUnit * (v.totalAssets s + 1) + floorLoss s assets) ∧
    MarkedAt (v.totalAssets s) (v.accrueFees now s) := by
  have hholders : (s.setAccrualClock now).shares.totalSupply ≠ 0 := Nat.ne_of_gt hsupply
  have hdue' : v.FeeDue (s.setAccrualClock now) := hdue
  constructor
  -- the bill: the rate on the gain, and the gain is what lies above the mark
  · have hbilled : v.billed now s ≤ v.performanceFeeAssets s := by
      simp only [billed, if_neg hholders,
        accrueManagementFee_idle (s := s.setAccrualClock now) (.inr hrent)]
      split
      · exact le_rfl
      · exact Nat.zero_le _
    have hfee := performanceFeeAssets_mul_le (v := v) s
    have hgain := gainAssets_le hdue
    have hspan : priceUnit * v.gainAssets s +
        (priceUnit * (assets + 1) + floorLoss s (v.totalAssets s)) ≤
          priceUnit * (v.totalAssets s + 1) + floorLoss s assets := by
      have hmark : priceUnit * (assets + 1) ≤ markedValue s + floorLoss s assets := hmarked
      omega
    refine le_trans ?_ (Nat.mul_le_mul_left _ hspan)
    rw [Nat.mul_add _ (priceUnit * v.gainAssets s)]
    refine Nat.add_le_add_right ?_ _
    calc bps * priceUnit * v.billed now s ≤ bps * priceUnit * v.performanceFeeAssets s :=
          Nat.mul_le_mul_left _ hbilled
      _ = priceUnit * (bps * v.performanceFeeAssets s) := by ring
      _ ≤ priceUnit * (s.limits.val.performanceFeeBps * v.gainAssets s) :=
          Nat.mul_le_mul_left _ hfee
      _ = s.limits.val.performanceFeeBps * (priceUnit * v.gainAssets s) := by ring
  -- the mark: the price of the total as it is now
  · obtain ⟨hshares, hmark⟩ := accrueFees_of_no_rent (v := v) now hsupply (.inr hrent)
    have hrate : 0 < (s.setAccrualClock now).limits.val.performanceFeeBps := hdue.1
    have hcovers := pricePerShare_le_mark_of_performance (v := v) hrate
    have hassets : v.totalAssets (v.accruePerformanceFee (s.setAccrualClock now)) =
        v.totalAssets s := by
      rw [accruePerformanceFee_frame.totalAssets_eq, totalAssets_clock]
    have hmarked' := markedAt_of_covers hcovers
    rw [hassets] at hmarked'
    exact hmarked'.congr (by rw [hshares]) hmark

/-- Where it is not, nothing is billed and the mark stays. -/
theorem billed_of_not_due (now : Nat) (hrent : s.limits.val.managementFeeBps = 0)
    (hsupply : 0 < s.shares.totalSupply) (hidle : ¬ v.FeeDue s) :
    v.billed now s = 0 ∧ (v.accrueFees now s).shares = s.shares ∧
      (v.accrueFees now s).highWaterMarkPps = s.highWaterMarkPps := by
  have hholders : (s.setAccrualClock now).shares.totalSupply ≠ 0 := Nat.ne_of_gt hsupply
  have hidle' : ¬ v.FeeDue (s.setAccrualClock now) := hidle
  have hnone : v.performanceShares (s.setAccrualClock now) = 0 := if_neg hidle'
  obtain ⟨hshares, hmark⟩ := accrueFees_of_no_rent (v := v) now hsupply (.inr hrent)
  rw [accruePerformanceFee_idle hidle'] at hshares hmark
  refine ⟨?_, hshares, hmark⟩
  simp only [billed, if_neg hholders,
    accrueManagementFee_idle (s := s.setAccrualClock now) (.inr hrent), hnone]
  rfl

/-! ### Runs -/

/-- The account of a run from `s₀`, with the states billed so far: the rates are fixed and
holders are there, the first state billed has the supply of the start, the mark is that of
the last, and the fees are paid for by the rise up to it and what the marks dropped. -/
structure Metering (v : LemonVault) (s₀ : State) (peak fees : Nat) (billed : List State)
    (s : State) : Prop where
  rates : s.limits = s₀.limits
  supply : 0 < s.shares.totalSupply
  origin : (billed.head?.getD s).shares.totalSupply = s₀.shares.totalSupply
  assets : v.totalAssets s ≤ peak
  last : v.totalAssets (lastBilled s₀ billed) ≤ peak
  marked : 0 < s₀.limits.val.performanceFeeBps →
    MarkedAt (v.totalAssets (lastBilled s₀ billed)) s
  paid : bps * priceUnit * fees + s₀.limits.val.performanceFeeBps *
      (priceUnit * (v.totalAssets s₀ + 1) + v.priceLoss billed) ≤
    s₀.limits.val.performanceFeeBps *
      (priceUnit * (v.totalAssets (lastBilled s₀ billed) + 1) + v.markLoss s₀ billed)

variable {s₀ : State} {peak fees : Nat} {billed : List State}

/-- Only the rates, the shares, the mark and the value matter to it. -/
theorem Metering.congr (h : Metering v s₀ peak fees billed s) (hl : s'.limits = s.limits)
    (hs : s'.shares = s.shares) (hm : s'.highWaterMarkPps = s.highWaterMarkPps)
    (ha : v.totalAssets s' ≤ peak) : Metering v s₀ peak fees billed s' where
  rates := hl.trans h.rates
  supply := by rw [hs]; exact h.supply
  origin := by
    have horigin := h.origin
    cases billed with
    | nil => rwa [List.head?_nil, Option.getD_none, hs]
    | cons first rest => exact horigin
  assets := ha
  last := h.last
  marked hrate := (h.marked hrate).congr (by rw [hs]) hm
  paid := h.paid

/-- An accrual: a state it finds above the mark is billed, from the last one on. -/
theorem Metering.accrue (hrent : s₀.limits.val.managementFeeBps = 0)
    (h : Metering v s₀ peak fees billed s) (now : Nat) :
    Metering v s₀ peak (fees + v.billed now s)
      (billed ++ [s].filter fun s => v.FeeDue s) (v.accrueFees now s) := by
  have hframe := accrueFees_frame (v := v) now s
  have hlimits : (v.accrueFees now s).limits = s.limits := by rw [hframe.rest]
  have hrates := h.rates
  -- above the mark: one more term in each sum, counted from the last total billed
  by_cases hdue : v.FeeDue s
  · have hrate : 0 < s₀.limits.val.performanceFeeBps := hrates ▸ hdue.1
    obtain ⟨hpaid, hmarked⟩ := billed_of_due now (by rw [hrates]; exact hrent) h.supply
      (h.marked hrate) hdue
    rw [hrates] at hpaid
    rw [List.filter_singleton, decide_eq_true hdue, cond_true]
    refine ⟨hlimits.trans hrates, h.supply.trans_le hframe.supply, ?_, ?_, ?_, ?_, ?_⟩
    · have horigin := h.origin
      cases billed with
      | nil => exact horigin
      | cons first rest => exact horigin
    · rw [accrueFees_totalAssets]
      exact h.assets
    · rw [lastBilled_snoc]
      exact h.assets
    · rw [lastBilled_snoc]
      exact fun _ => hmarked
    · have hstep := h.paid
      rw [lastBilled_snoc, markLoss_snoc, priceLoss_snoc]
      simp only [Nat.mul_add] at hstep hpaid ⊢
      omega
  · obtain ⟨hzero, hshares, hmark⟩ := billed_of_not_due now (by rw [hrates]; exact hrent)
      h.supply hdue
    rw [List.filter_singleton, decide_eq_false hdue, cond_false, List.append_nil, hzero,
      Nat.add_zero]
    exact h.congr hlimits hshares hmark (by rw [accrueFees_totalAssets]; exact h.assets)

theorem rollNavEpoch_fields (now : Nat) (s : State) :
    (rollNavEpoch now s).limits = s.limits ∧ (rollNavEpoch now s).shares = s.shares ∧
      (rollNavEpoch now s).highWaterMarkPps = s.highWaterMarkPps ∧
      v.totalAssets (rollNavEpoch now s) = v.totalAssets s := by
  rw [rollNavEpoch]
  split <;> exact ⟨rfl, rfl, rfl, rfl⟩

/-- An accepted report: two accruals, with the restatement between them. -/
theorem Metering.reportNav {d l o : Nat} (hrent : s₀.limits.val.managementFeeBps = 0)
    (h : Metering v s₀ peak fees billed s) (hpeak : v.totalAssets s' ≤ peak)
    (hs : v.reportNav msg s d l o = .ok s') :
    Metering v s₀ peak
      (fees + v.billed msg.timestamp (rollNavEpoch msg.timestamp s) + v.billed msg.timestamp
        (restateNav msg.timestamp (v.accrueFees msg.timestamp (rollNavEpoch msg.timestamp s)) d l))
      (billed ++ [rollNavEpoch msg.timestamp s].filter (fun s => v.FeeDue s) ++
        [restateNav msg.timestamp (v.accrueFees msg.timestamp (rollNavEpoch msg.timestamp s)) d
          l].filter fun s => v.FeeDue s) s' := by
  obtain ⟨-, -, -, -, rolled, hrolled, -, restated, hrestated, hs'⟩ := reportNav_ok hs
  rw [← hrolled]
  rw [← hrestated]
  have hpost : v.totalAssets restated ≤ peak := by
    rw [hs', totalAssets_emit, accrueFees_totalAssets] at hpeak
    exact hpeak
  obtain ⟨hl, hsh, hm, ha⟩ := rollNavEpoch_fields (v := v) msg.timestamp s
  rw [← hrolled] at hl hsh hm ha
  have hbegin := (h.congr hl hsh hm (ha ▸ h.assets)).accrue hrent msg.timestamp
  have hmiddle : Metering v s₀ peak _ _ restated :=
    hbegin.congr (by rw [hrestated]; rfl) (by rw [hrestated]; rfl) (by rw [hrestated]; rfl) hpost
  have hend := hmiddle.accrue hrent msg.timestamp
  rw [hs']
  exact hend.congr rfl rfl rfl hend.assets

theorem Metering.next {w w' : World} {tx : Tx} (hrent : s₀.limits.val.managementFeeBps = 0)
    (h : Metering v s₀ peak fees billed w.state) (honly : CapitalOnly ⟨w, tx, w'⟩)
    (hpeak : v.totalAssets w'.state ≤ peak) (hn : v.next w tx = some w') :
    Metering v s₀ peak
      (fees + ((v.accruals ⟨w, tx, w'⟩).map (v.billed tx.msg.timestamp)).sum)
      (billed ++ (v.accruals ⟨w, tx, w'⟩).filter fun s => v.FeeDue s) w'.state := by
  obtain ⟨-, -, -, he⟩ := next_eq_some hn
  obtain ⟨msg, call⟩ := tx
  cases call with
  | accrueFees =>
      have hs' : v.accrueFees msg.timestamp w.state = w'.state := exec_accrueFees_ok he
      rw [← hs']
      simpa only [accruals, List.map_cons, List.map_nil, List.sum_cons, List.sum_nil,
        Nat.add_zero] using h.accrue hrent msg.timestamp
  -- a report accrues twice, before and after it restates
  | reportNav d l o =>
      have hreport := h.reportNav hrent hpeak he
      rw [List.append_assoc, ← List.filter_append, Nat.add_assoc] at hreport
      simpa only [accruals, List.map_cons, List.map_nil, List.sum_cons, List.sum_nil,
        Nat.add_zero, List.cons_append, List.nil_append] using hreport
  -- moving capital accrues nothing
  | agentWithdraw n =>
      obtain ⟨-, -, -, -, -, -, -, -, t, -, hs'⟩ := agentWithdraw_ok he
      rw [accruals, List.filter_nil, List.append_nil]
      exact h.congr (by rw [hs']) (by rw [hs']) (by rw [hs']) hpeak
  | agentReturn n =>
      obtain ⟨-, t, -, hs'⟩ := agentReturn_ok he
      rw [accruals, List.filter_nil, List.append_nil]
      exact h.congr (by rw [hs']) (by rw [hs']) (by rw [hs']) hpeak
  | _ => cases honly

theorem billings_snoc (t : Transition World Tx) : v.billings (tr ++ [t]) =
    v.billings tr ++ (v.accruals t).filter fun s => v.FeeDue s := by
  simp [billings, List.flatMap_append, List.filter_append]

theorem totalBilled_snoc (t : Transition World Tx) : v.totalBilled (tr ++ [t]) =
    v.totalBilled tr + ((v.accruals t).map (v.billed t.label.msg.timestamp)).sum := by
  simp [totalBilled, List.map_append, List.sum_append]

/-- The account of a run starts at a state that covers its price. -/
theorem Metering.start (hsupply : 0 < s₀.shares.totalSupply)
    (hcovers : 0 < s₀.limits.val.performanceFeeBps → v.pricePerShare s₀ ≤ s₀.highWaterMarkPps)
    (hpeak : v.totalAssets s₀ ≤ peak) : Metering v s₀ peak 0 [] s₀ where
  rates := rfl
  supply := hsupply
  origin := rfl
  assets := hpeak
  last := hpeak
  marked hrate := markedAt_of_covers (hcovers hrate)
  paid := by simp [priceLoss, markLoss, lastBilled]

theorem Metering.run (hrent : w₀.state.limits.val.managementFeeBps = 0)
    (h₀ : Metering v w₀.state peak 0 [] w₀.state) (hrun : Run v.next w₀ tr w)
    (honly : ∀ t ∈ tr, CapitalOnly t)
    (hpeak : ∀ t ∈ tr, v.totalAssets t.post.state ≤ peak) :
    Metering v w₀.state peak (v.totalBilled tr) (v.billings tr) w.state := by
  refine hrun.history
    (I := fun tr w => Metering v w₀.state peak (v.totalBilled tr) (v.billings tr) w.state)
    (P := fun t => CapitalOnly t ∧ v.totalAssets t.post.state ≤ peak)
    (fun t ht => ⟨honly t ht, hpeak t ht⟩) h₀ ?_
  intro tr w tx w' hstep h hs
  obtain ⟨honly, hpeak⟩ := hstep
  rw [totalBilled_snoc, billings_snoc]
  exact h.next hrent honly hpeak hs

/-- A state just accrued, with holders, covers its price. -/
theorem covers_of_accrued {now : Nat} (hs : s' = v.accrueFees now s)
    (hsupply : 0 < s'.shares.totalSupply) (hrate : 0 < s'.limits.val.performanceFeeBps) :
    v.pricePerShare s' ≤ s'.highWaterMarkPps := by
  have hlimits : s.limits = s'.limits := by rw [hs, (accrueFees_frame (v := v) now s).rest]
  subst hs
  exact pricePerShare_le_mark_of_accrued hsupply (by rw [hlimits]; exact hrate)

/-- The fees of an account whose marks keep up, against the rise of the largest total. -/
theorem Metering.fees_mul_le (h : Metering v s₀ peak fees billed s)
    (hkeep : v.MarksKeepUp s₀ billed) :
    bps * priceUnit * fees + s₀.limits.val.performanceFeeBps * priceUnit * v.totalAssets s₀ ≤
      s₀.limits.val.performanceFeeBps * priceUnit * peak +
        s₀.limits.val.performanceFeeBps * (s₀.shares.totalSupply + virtualShares) +
        s₀.limits.val.performanceFeeBps * priceUnit := by
  have hpaid := h.paid
  have hspan : priceUnit * (v.totalAssets (lastBilled s₀ billed) + 1) + v.markLoss s₀ billed ≤
      priceUnit * peak + priceUnit + (s₀.shares.totalSupply + virtualShares) + priceUnit +
        v.priceLoss billed := by
    have hlast := Nat.mul_le_mul_left priceUnit (Nat.add_le_add_right h.last 1)
    rw [Nat.mul_add _ peak, Nat.mul_one] at hlast
    have hloss : v.markLoss s₀ billed ≤
        v.priceLoss billed + (s₀.shares.totalSupply + virtualShares) + priceUnit := hkeep
    omega
  have hscaled := Nat.mul_le_mul_left s₀.limits.val.performanceFeeBps hspan
  simp only [Nat.mul_add, Nat.mul_one, ← Nat.mul_assoc] at hpaid hscaled ⊢
  omega

/-- The same bound, divided out: one unit per whole share and one more of slack. -/
theorem fees_le_of_mul_le {rate assets supply : Nat}
    (h : bps * priceUnit * fees + rate * priceUnit * assets ≤
      rate * priceUnit * peak + rate * (supply + virtualShares) + rate * priceUnit) :
    (fees : ℚ) ≤ (rate : ℚ) / 10000 * (peak - assets + ((supply : ℚ) + 10 ^ 12) / 10 ^ 18 + 1) := by
  have hq : (10000 * 10 ^ 18 * fees + rate * 10 ^ 18 * assets : ℚ) ≤
      rate * 10 ^ 18 * peak + rate * (supply + 10 ^ 12) + rate * 10 ^ 18 := by
    have hcast : ((bps * priceUnit * fees + rate * priceUnit * assets : ℕ) : ℚ) ≤
        ((rate * priceUnit * peak + rate * (supply + virtualShares) + rate * priceUnit : ℕ) :
          ℚ) := Nat.cast_le.mpr h
    norm_num [bps, priceUnit, virtualShares, assetDecimals, decimalsOffset] at hcast ⊢
    exact hcast
  have hrate : (0 : ℚ) ≤ rate := Nat.cast_nonneg rate
  have hscaled : (fees : ℚ) * (10000 * 10 ^ 18) ≤ rate / 10000 *
      (peak - assets + (supply + 10 ^ 12) / 10 ^ 18 + 1) * (10000 * 10 ^ 18) := by
    have hexpand : (rate : ℚ) / 10000 * (peak - assets + (supply + 10 ^ 12) / 10 ^ 18 + 1) *
        (10000 * 10 ^ 18) = rate * 10 ^ 18 * peak + rate * (supply + 10 ^ 12) -
          rate * 10 ^ 18 * assets + rate * 10 ^ 18 := by field_simp; ring
    rw [hexpand]
    linarith
  exact le_of_mul_le_mul_right hscaled (by norm_num)

/-- What each price drops is at least what the mark below it dropped, from the second state
billed on: then the marks keep up. So they do where no second state is billed. -/
theorem Metering.marksKeepUp (h : Metering v s₀ peak fees billed s)
    (hchain : billed.IsChain fun last s =>
      floorLoss s (v.totalAssets last) ≤ floorLoss s (v.totalAssets s)) :
    v.MarksKeepUp s₀ billed := by
  have hrest : ∀ last rest, List.IsChain (fun last s =>
      floorLoss s (v.totalAssets last) ≤ floorLoss s (v.totalAssets s)) (last :: rest) →
      v.markLoss last rest ≤ v.priceLoss rest := by
    intro last rest
    induction rest generalizing last with
    | nil => exact fun _ => le_rfl
    | cons s rest ih =>
        intro hchain
        obtain ⟨hfirst, hlater⟩ := List.isChain_cons_cons.mp hchain
        exact Nat.add_le_add hfirst (ih s hlater)
  cases billed with
  | nil => exact Nat.zero_le _
  | cons first rest =>
      -- the first mark is the start's, and drops less than one unit a share
      have horigin : first.shares.totalSupply = s₀.shares.totalSupply := h.origin
      have hfirst := floorLoss_lt first (v.totalAssets s₀)
      have hlater := hrest first rest hchain
      rw [MarksKeepUp, markLoss, ← horigin]
      have hprice : v.priceLoss (first :: rest) =
          floorLoss first (v.totalAssets first) + v.priceLoss rest := List.sum_cons
      omega

/-- So along a run: what flooring drops is made up for price by price, or one state at most is
billed. -/
theorem marksKeepUp_of_isChain {s₀ : State} {peak : Nat}
    (haccrued : w₀.state = v.accrueFees w₀.now s₀) (hsupply : 0 < w₀.state.shares.totalSupply)
    (hrent : w₀.state.limits.val.managementFeeBps = 0) (hrun : Run v.next w₀ tr w)
    (honly : ∀ t ∈ tr, CapitalOnly t) (hstart : v.totalAssets w₀.state ≤ peak)
    (hpeak : ∀ t ∈ tr, v.totalAssets t.post.state ≤ peak)
    (hchain : (v.billings tr).IsChain fun last s =>
      floorLoss s (v.totalAssets last) ≤ floorLoss s (v.totalAssets s)) :
    v.MarksKeepUp w₀.state (v.billings tr) :=
  have h₀ : Metering v w₀.state peak 0 [] w₀.state :=
    .start hsupply (covers_of_accrued haccrued hsupply) hstart
  (Metering.run hrent h₀ hrun honly hpeak).marksKeepUp hchain

/-- **A gain is billed once, where the marks keep up.** From a state just accrued, with no
rent and any performance rate, along any run of reports, accruals, withdrawals and returns
of at most what is deployed: if its marks drop in all at most one unit a share, and one
unit, more than its prices, the fees billed are at most the rate on the rise of the largest
total reached, and one unit per whole share and one more of slack. -/
theorem fees_billed_once_of_marks_keep_up {s₀ : State} {peak : Nat}
    (haccrued : w₀.state = v.accrueFees w₀.now s₀) (hsupply : 0 < w₀.state.shares.totalSupply)
    (hrent : w₀.state.limits.val.managementFeeBps = 0) (hrun : Run v.next w₀ tr w)
    (honly : ∀ t ∈ tr, CapitalOnly t) (hstart : v.totalAssets w₀.state ≤ peak)
    (hpeak : ∀ t ∈ tr, v.totalAssets t.post.state ≤ peak)
    (hkeep : v.MarksKeepUp w₀.state (v.billings tr)) :
    (v.totalBilled tr : ℚ) ≤ (w₀.state.limits.val.performanceFeeBps : ℚ) / 10000 *
      (peak - v.totalAssets w₀.state +
        ((w₀.state.shares.totalSupply : ℚ) + 10 ^ 12) / 10 ^ 18 + 1) := by
  have h₀ : Metering v w₀.state peak 0 [] w₀.state :=
    .start hsupply (covers_of_accrued haccrued hsupply) hstart
  exact fees_le_of_mul_le ((Metering.run hrent h₀ hrun honly hpeak).fees_mul_le hkeep)

/-! ### A gain billed in full -/

/-- Anyone may accrue, at any later time. -/
theorem next_accrueFees {now : Nat} {a : Address} (hnow : w.now ≤ now) (ha : a ≠ v.self) :
    v.next w ⟨⟨a, now⟩, .accrueFees⟩ = some ⟨now, v.accrueFees now w.state⟩ := by
  rw [next, if_pos ⟨hnow, ha⟩]
  rfl

/-- A deposit by Alice, part of it withdrawn, at the moment of the deployment. -/
def invested (deposit withdrawal : Nat) : List Tx :=
  [Test.tx Test.alice 0 (.deposit deposit Test.alice),
   Test.tx Test.agent 0 (.agentWithdraw withdrawal)]

/-- A million USDC in, nine hundred thousand of it out. -/
def million : World :=
  Test.after Test.onlyPerformance Test.conservativeRisk (invested (10 ^ 12) (9 * 10 ^ 11)) (by rfl)

/-- That state with its fees accrued. -/
def accruedMillion : World :=
  ⟨year, (Test.lemonVault Test.conservativeRisk).accrueFees year million.state⟩

theorem accruedMillion_reachable :
    Reachable (Test.lemonVault Test.conservativeRisk) accruedMillion := by
  have hmillion : Reachable (Test.lemonVault Test.conservativeRisk) million :=
    Test.reachable_after (by rfl)
  obtain ⟨w₀, tr, hgen, hrun⟩ := hmillion
  exact ⟨w₀, _, hgen, .snoc hrun (next_accrueFees (a := Test.bob) (by decide) (by decide))⟩

/-- Reports that take the price one unit above par, three times: the mark falls back to
par under each fee, and the second and third gains are a fifth of the first. -/
def unitGains : List Tx :=
  [Test.tx Test.agent 300 (.reportNav (9 * 10 ^ 11 + 1000001) 10000 0),
   Test.tx Test.agent 600 (.reportNav (9 * 10 ^ 11 + 1200002) 10000 0),
   Test.tx Test.agent 900 (.reportNav (9 * 10 ^ 11 + 1400003) 10000 0)]

theorem unitGains_isSome :
    (trace (Test.lemonVault Test.conservativeRisk).next accruedMillion unitGains).isSome := by rfl

def unitGainsRun : List (Transition World Tx) := (Option.get _ unitGains_isSome).1

/-- Each of the three reports is billed two tenths of a USDC, where the bound allows
less than half a USDC in all. -/
theorem unit_gains_billed_in_full :
    ¬ ∀ (v : LemonVault) (w₀ w : World) (s₀ : State) (tr : List (Transition World Tx))
        (peak : Nat), Reachable v w₀ → w₀.state = v.accrueFees w₀.now s₀ →
      0 < w₀.state.shares.totalSupply → w₀.state.limits.val.managementFeeBps = 0 →
      Run v.next w₀ tr w → (∀ t ∈ tr, CapitalOnly t) → v.totalAssets w₀.state ≤ peak →
      (∀ t ∈ tr, v.totalAssets t.post.state ≤ peak) →
      (∃ t ∈ tr, v.totalAssets t.post.state = peak) →
      (v.totalBilled tr : ℚ) ≤ (w₀.state.limits.val.performanceFeeBps : ℚ) / 10000 *
        (peak - v.totalAssets w₀.state +
          ((w₀.state.shares.totalSupply : ℚ) + 10 ^ 12) / 10 ^ 18 + 1) := by
  intro h
  have hrun : Run (Test.lemonVault Test.conservativeRisk).next accruedMillion unitGainsRun _ :=
    trace_run (Option.some_get unitGains_isSome).symm
  have hbound := h _ accruedMillion _ million.state unitGainsRun (10 ^ 12 + 1400003)
    accruedMillion_reachable rfl (by decide) (by rfl) hrun (by decide) (by decide) (by decide)
    (by decide)
  have hbilled : (Test.lemonVault Test.conservativeRisk).totalBilled unitGainsRun = 600000 := by
    decide
  have hassets : (Test.lemonVault Test.conservativeRisk).totalAssets accruedMillion.state =
      10 ^ 12 := by decide
  have hsupply : accruedMillion.state.shares.totalSupply = 10 ^ 24 := by decide
  have hrate : accruedMillion.state.limits.val.performanceFeeBps = 2000 := by rfl
  rw [hbilled, hassets, hsupply, hrate] at hbound
  norm_num at hbound

/-- Three reports of gains that are no whole price units. -/
def oddGains : List Tx :=
  [Test.tx Test.agent 300 (.reportNav (9 * 10 ^ 11 + 123456789) 10000 0),
   Test.tx Test.agent 600 (.reportNav (9 * 10 ^ 11 + 234567890) 10000 0),
   Test.tx Test.agent 900 (.reportNav (9 * 10 ^ 11 + 345678901) 10000 0)]

theorem oddGains_isSome :
    (trace (Test.lemonVault Test.conservativeRisk).next accruedMillion oddGains).isSome := by rfl

/-- Each report is billed, what the prices drop makes up for what the marks drop, and the
346 USDC are billed once. -/
theorem fees_billed_once_of_marks_keep_up_odd :
    ((Test.lemonVault Test.conservativeRisk).totalBilled (Option.get _ oddGains_isSome).1 : ℚ) ≤
      (accruedMillion.state.limits.val.performanceFeeBps : ℚ) / 10000 *
        ((10 ^ 12 + 345678901 : Nat) -
            (Test.lemonVault Test.conservativeRisk).totalAssets accruedMillion.state +
          ((accruedMillion.state.shares.totalSupply : ℚ) + 10 ^ 12) / 10 ^ 18 + 1) :=
  @fees_billed_once_of_marks_keep_up _ _ accruedMillion _ million.state _ rfl (by decide)
    (by rfl) (trace_run (Option.some_get oddGains_isSome).symm) (by decide) (by decide)
    (by decide) (by decide)

end LemonVault

end LemonMarket
