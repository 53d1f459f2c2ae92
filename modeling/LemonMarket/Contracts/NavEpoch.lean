import LemonMarket.Contracts.Solvency

/-!
# LemonMarket.Contracts.NavEpoch

**The cumulative NAV bound, and the return that switches it off.** `reportNav`
bounds each report against `navEpochAnchor`, which withdrawals raise, returns lower
(saturating at zero) and rollovers reset. Its comment relies on a zero anchor
meaning that nothing is deployed.

A return breaks that: the anchor comes down by what was returned, but the deployed
capital includes the gains reported since the anchor was set, so returning at least
the anchor and less than everything leaves capital deployed under a zero anchor.
From there the epoch check is skipped and reports compound.

The bound is proved for the runs in which no return does this. It is carried by an
invariant of the epoch's books (`EpochInv`): writing `N` for the anchor, `D` for the
deployed capital, `G` for the gain claimed this epoch, `B` for the base it is
measured against and `E` for the bound in bps, `10000 (N - D + G) + E N ≤ E B` and
`10000 G ≤ E B`. A full return of a position in profit is what moves the slack from
the first term to the second.
-/

namespace LemonMarket

open Lib

namespace LemonVault

variable {v : LemonVault} {s s' : State} {msg : Msg} {w w₀ : World}
  {tr : List (Transition World Tx)}

/-! ### The books of an epoch -/

/-- Whether a report at `now` starts a new epoch. -/
def epochRollsOver (s : State) (now : Nat) : Bool :=
  now ≥ s.navEpochStartedAt + s.limits.val.navEpochDuration

/-- One epoch: what was deployed when it began, what was withdrawn in it, and the
net gain its accepted reports claimed. -/
structure EpochBook where
  start : Nat
  withdrawn : Nat
  gain : Int
  deriving Repr, DecidableEq

/-- The books after one more transaction. -/
def EpochBook.step (b : EpochBook) (t : Transition World Tx) : EpochBook :=
  match t.label.call with
  | .agentWithdraw n => { b with withdrawn := b.withdrawn + n }
  | .reportNav d _ _ =>
      let claimed : Int := d - t.pre.state.deployedAssets
      if epochRollsOver t.pre.state t.label.msg.timestamp then
        ⟨t.pre.state.deployedAssets, 0, claimed⟩
      else { b with gain := b.gain + claimed }
  | _ => b

/-- The books of the epoch a run from a construction ends in. -/
def epochBook (tr : List (Transition World Tx)) : EpochBook := tr.foldl EpochBook.step ⟨0, 0, 0⟩

theorem epochBook_snoc (t : Transition World Tx) :
    epochBook (tr ++ [t]) = (epochBook tr).step t := by
  simp [epochBook, List.foldl_append]

/-- What the contract claims of an epoch: the gain reported in it is within the bound
on the capital it was made with, and the check is never skipped on live capital. -/
structure EpochBounded (limits : Limits) (b : EpochBook) (s : State) : Prop where
  anchored : s.navEpochAnchor = 0 → s.deployedAssets = 0
  bounded : bps * b.gain ≤ limits.maxNavEpochDeviationBps * ((b.start + b.withdrawn : Nat) : Int)

/-- A return leaves the anchor standing, or nothing deployed. -/
def KeepsAnchor (s : State) (call : Call) : Prop :=
  ∀ n ∈ call.returned, n < s.navEpochAnchor ∨ s.deployedAssets ≤ n

instance (s : State) (call : Call) : Decidable (KeepsAnchor s call) :=
  inferInstanceAs (Decidable (∀ n ∈ call.returned, _ ∨ _))

/-! ### The invariant -/

structure EpochInv (limits : Limits) (b : EpochBook) (s : State) : Prop
    extends EpochBounded limits b s where
  slack : bps * ((s.navEpochAnchor : Int) - s.deployedAssets + b.gain) +
    limits.maxNavEpochDeviationBps * (s.navEpochAnchor : Int) ≤
      limits.maxNavEpochDeviationBps * ((b.start + b.withdrawn : Nat) : Int)

theorem EpochInv.congr {limits : Limits} {b : EpochBook} (h : EpochInv limits b s)
    (hs : SameCapital s s') : EpochInv limits b s' where
  anchored := by rw [hs.navEpochAnchor, hs.deployedAssets]; exact h.anchored
  bounded := h.bounded
  slack := by rw [hs.navEpochAnchor, hs.deployedAssets]; exact h.slack

/-- A withdrawal moves capital, anchor and base together. -/
theorem EpochInv.agentWithdraw {limits : Limits} {b : EpochBook} {n : Nat}
    (h : EpochInv limits b s) (hs : v.agentWithdraw msg s n = .ok s') :
    EpochInv limits { b with withdrawn := b.withdrawn + n } s' := by
  obtain ⟨-, -, hn, -, -, -, -, -, t, -, rfl⟩ := agentWithdraw_ok hs
  have hgrow : (limits.maxNavEpochDeviationBps : Int) * ((b.start + (b.withdrawn + n) : Nat) : Int)
      = limits.maxNavEpochDeviationBps * ((b.start + b.withdrawn : Nat) : Int) +
        limits.maxNavEpochDeviationBps * (n : Int) := by push_cast; ring
  have hpos : (0 : Int) ≤ limits.maxNavEpochDeviationBps * (n : Int) := by positivity
  refine ⟨⟨?_, ?_⟩, ?_⟩
  · intro h0
    simp only at h0
    omega
  · have := h.bounded
    simp only [hgrow]
    omega
  · have hslack := h.slack
    simp only [hgrow]
    push_cast at hslack ⊢
    linarith

/-- A return that keeps the anchor keeps the bound. -/
theorem EpochInv.agentReturn {limits : Limits} {b : EpochBook} {n : Nat}
    (h : EpochInv limits b s) (hkeep : n < s.navEpochAnchor ∨ s.deployedAssets ≤ n)
    (hs : v.agentReturn msg s n = .ok s') : EpochInv limits b s' := by
  obtain ⟨-, t, -, rfl⟩ := agentReturn_ok hs
  have hslack := h.slack
  have hbounded := h.bounded
  refine ⟨⟨?_, hbounded⟩, ?_⟩
  · intro h0
    simp only at h0 ⊢
    omega
  · simp only
    by_cases hsat : s.navEpochAnchor < min n s.deployedAssets
    · -- Only a full return can exceed the anchor; it turns the slack into gain.
      have hall : min n s.deployedAssets = s.deployedAssets := by omega
      rw [hall, Nat.sub_self, Nat.sub_eq_zero_of_le (by omega)]
      simpa using hbounded
    · have hE : (0 : Int) ≤
          limits.maxNavEpochDeviationBps * ((min n s.deployedAssets : Nat) : Int) := by
        positivity
      rw [Nat.cast_sub (by omega), Nat.cast_sub (by omega)]
      linarith

/-- An accepted report stays within the anchor's bound. -/
theorem report_within {limits : ValidLimits} {d l o : Nat} (hlimits : s.limits = limits)
    (hs : v.reportNav msg s d l o = .ok s')
    (hanchored : (rollNavEpoch msg.timestamp s).navEpochAnchor = 0 → s.deployedAssets = 0) :
    bps * ((d : Int) - (rollNavEpoch msg.timestamp s).navEpochAnchor) ≤
        limits.val.maxNavEpochDeviationBps *
          ((rollNavEpoch msg.timestamp s).navEpochAnchor : Int) ∧
      ((rollNavEpoch msg.timestamp s).navEpochAnchor = 0 → d = 0) := by
  obtain ⟨-, -, -, hdev, rolled, rfl, hepoch, -⟩ := reportNav_ok hs
  have hrolled : (rollNavEpoch msg.timestamp s).limits = limits := by
    rw [rollNavEpoch]; split <;> exact hlimits
  -- over no anchor nothing may be reported
  rcases Nat.eq_zero_or_pos (rollNavEpoch msg.timestamp s).navEpochAnchor with h0 | hpos
  · have hd := (checkNavDeviation_ok hdev).1 (hanchored h0)
    simp [h0, hd]
  · have hdelta := checkNavEpoch_ok hepoch hpos
    rw [hrolled] at hdelta
    have hfloor := mulDiv_floor_mul_le (x := (rollNavEpoch msg.timestamp s).navEpochAnchor)
      (y := limits.val.maxNavEpochDeviationBps) (d := bps)
    generalize mulDiv _ _ _ _ = bound at hdelta hfloor
    generalize (rollNavEpoch msg.timestamp s).navEpochAnchor = anchor at *
    refine ⟨?_, fun h0 => by omega⟩
    have hd : (d : Int) - anchor ≤ bound := by
      simp only [deviation] at hdelta
      split at hdelta <;> omega
    calc bps * ((d : Int) - anchor) ≤ bps * (bound : Int) := by
          exact mul_le_mul_of_nonneg_left hd (by positivity)
      _ = ((bound * bps : Nat) : Int) := by push_cast; ring
      _ ≤ ((anchor * limits.val.maxNavEpochDeviationBps : Nat) : Int) := by exact_mod_cast hfloor
      _ = limits.val.maxNavEpochDeviationBps * (anchor : Int) := by push_cast; ring

/-- The first report of an epoch opens its books; the rest add to them. -/
theorem EpochInv.reportNav {limits : ValidLimits} {b : EpochBook} {d l o : Nat}
    {t : Transition World Tx} (h : EpochInv limits.val b s) (hlimits : s.limits = limits)
    (hpre : t.pre.state = s) (hlabel : t.label = ⟨msg, .reportNav d l o⟩)
    (hs : v.reportNav msg s d l o = .ok s') :
    EpochInv limits.val (b.step t) s' := by
  obtain ⟨hd, hanchor, -⟩ := reportNav_capital hs
  have hbook : b.step t = if epochRollsOver s msg.timestamp then
      ⟨s.deployedAssets, 0, (d : Int) - s.deployedAssets⟩
      else { b with gain := b.gain + ((d : Int) - s.deployedAssets) } := by
    simp only [EpochBook.step, hlabel, hpre]
  rw [hbook]
  -- a report that rolls the epoch over starts from what is deployed
  by_cases hroll : epochRollsOver s msg.timestamp
  · have hrolled : (rollNavEpoch msg.timestamp s).navEpochAnchor = s.deployedAssets := by
      rw [rollNavEpoch, if_pos (by simpa [epochRollsOver] using hroll)]
    obtain ⟨hgain, hzero⟩ := report_within hlimits hs (by rw [hrolled]; exact id)
    rw [hrolled] at hgain hzero hanchor
    rw [if_pos hroll]
    refine ⟨⟨by rw [hanchor, hd]; exact hzero, by simpa using hgain⟩, ?_⟩
    simp only [hanchor, hd]
    push_cast
    linarith
  -- one that does not adds to the gain of the epoch
  · have hrolled : (rollNavEpoch msg.timestamp s).navEpochAnchor = s.navEpochAnchor := by
      rw [rollNavEpoch, if_neg (by simpa [epochRollsOver] using hroll)]
    obtain ⟨hgain, hzero⟩ := report_within hlimits hs (by rw [hrolled]; exact h.anchored)
    rw [hrolled] at hgain hzero hanchor
    rw [if_neg hroll]
    have hslack := h.slack
    refine ⟨⟨by rw [hanchor, hd]; exact hzero, ?_⟩, ?_⟩
    · simp only
      linarith
    · simp only [hanchor, hd]
      linarith

/-! ### Runs -/

/-- One step of the invariant. -/
theorem EpochInv.next {limits : ValidLimits} {b : EpochBook} {w w' : World} {tx : Tx}
    (h : EpochInv limits.val b w.state) (hlimits : w.state.limits = limits)
    (hkeep : KeepsAnchor w.state tx.call) (hn : v.next w tx = some w') :
    EpochInv limits.val (b.step ⟨w, tx, w'⟩) w'.state := by
  obtain ⟨-, -, -, he⟩ := next_eq_some hn
  obtain ⟨msg, call⟩ := tx
  cases hcall : movesCapital call with
  | false =>
      have hbook : b.step ⟨w, ⟨msg, call⟩, w'⟩ = b := by
        cases call <;> first | rfl | cases hcall
      rw [hbook]
      exact h.congr (exec_sameCapital hcall he)
  | true =>
      cases call with
      | agentWithdraw n => exact h.agentWithdraw he
      | agentReturn n => exact h.agentReturn (hkeep n rfl) he
      | reportNav d l o => exact h.reportNav hlimits rfl rfl he
      | _ => cases hcall

/-- The invariant along a run in which limits stay put and every return keeps the
anchor. -/
theorem EpochInv.run {limits : ValidLimits} (hgen : Genesis v w₀) (hrun : Run v.next w₀ tr w)
    (hstart : w₀.state.limits = limits) (hlimits : ∀ t ∈ tr, t.post.state.limits = limits)
    (hkeep : ∀ t ∈ tr, KeepsAnchor t.pre.state t.label.call) :
    EpochInv limits.val (epochBook tr) w.state ∧ w.state.limits = limits := by
  refine hrun.history
    (I := fun tr w => EpochInv limits.val (epochBook tr) w.state ∧ w.state.limits = limits)
    (P := fun t => t.post.state.limits = limits ∧ KeepsAnchor t.pre.state t.label.call)
    (fun t ht => ⟨hlimits t ht, hkeep t ht⟩) ?_ ?_
  · obtain ⟨p, -, -, hfresh⟩ := hgen.fresh
    refine ⟨⟨⟨fun _ => hfresh.deployedAssets, ?_⟩, ?_⟩, hstart⟩
    · simp [epochBook]
    · simp [epochBook, hfresh.deployedAssets, hfresh.navEpochAnchor]
  · intro tr w tx w' hstep ih hs
    obtain ⟨hinv, hlim⟩ := ih
    rw [epochBook_snoc]
    exact ⟨hinv.next hlim hstep.2 hs, hstep.1⟩

/-- A return that does not keep the anchor leaves capital deployed under none. -/
theorem unanchored_of_not_keeps {w' : World} {tx : Tx} (hn : v.next w tx = some w')
    (hkeep : ¬ KeepsAnchor w.state tx.call) :
    w'.state.navEpochAnchor = 0 ∧ 0 < w'.state.deployedAssets := by
  simp only [KeepsAnchor, not_forall, not_or, Nat.not_lt, Nat.not_le] at hkeep
  obtain ⟨n, hcall, hanchor, hdeployed⟩ := hkeep
  obtain ⟨-, -, -, he⟩ := next_eq_some hn
  obtain ⟨msg, call⟩ := tx
  cases call with
  | agentReturn m =>
      obtain rfl : m = n := Option.some.inj hcall
      obtain ⟨-, t, -, hs'⟩ := agentReturn_ok he
      rw [hs']
      simp only
      omega
  | _ => cases hcall

/-- **The NAV epoch bound, exactly.** With fixed limits, every state a run reaches has
its epoch's gain within the bound, and its anchor zero only with nothing deployed,
if and only if no return in the run brings the anchor to zero and leaves capital
deployed. -/
theorem epoch_bounded_iff_returns_keep_anchor (hgen : Genesis v w₀)
    (hrun : Run v.next w₀ tr w)
    (hlimits : ∀ t ∈ tr, t.post.state.limits = w₀.state.limits) :
    (∀ tr' w', tr' <+: tr → Run v.next w₀ tr' w' →
      EpochBounded w₀.state.limits.val (epochBook tr') w'.state) ↔
    ∀ t ∈ tr, KeepsAnchor t.pre.state t.label.call := by
  constructor
  · intro hbounded t ht
    by_contra hkeep
    obtain ⟨tr₁, hpre, hrun₁⟩ := hrun.upto_mem ht
    obtain ⟨hzero, hpos⟩ := unanchored_of_not_keeps (hrun.step_of_mem t ht) hkeep
    exact absurd ((hbounded _ _ hpre hrun₁).anchored hzero) (Nat.ne_of_gt hpos)
  · intro hkeep tr' w' hpre hrun'
    exact (EpochInv.run hgen hrun' rfl (fun t ht => hlimits t (hpre.subset ht))
      (fun t ht => hkeep t (hpre.subset ht))).1.toEpochBounded

/-- The test limits without fees, at the widest deviation per report. -/
def wideReports : ValidLimits :=
  ⟨{ Test.noFeeLimits.val with maxNavDeviationBps := 2000 }, by decide⟩

/-- Out with a hundred, reports up to the epoch's bound of a hundred and fifty, and
back with the hundred that was the anchor: fifty stay deployed under no anchor, and
the next report takes them to sixty. -/
def partialReturn : List Tx :=
  [Test.tx Test.alice 0 (.deposit (1000 * 10 ^ 6) Test.alice),
   Test.tx Test.agent 0 (.agentWithdraw (100 * 10 ^ 6)),
   Test.tx Test.agent 300 (.reportNav (120 * 10 ^ 6) 10000 0),
   Test.tx Test.agent 600 (.reportNav (144 * 10 ^ 6) 10000 0),
   Test.tx Test.agent 900 (.reportNav (150 * 10 ^ 6) 10000 0),
   Test.tx Test.agent 900 (.agentReturn (100 * 10 ^ 6)),
   Test.tx Test.agent 1200 (.reportNav (60 * 10 ^ 6) 10000 0)]

theorem partialReturn_isSome : (trace (Test.lemonVault Test.conservativeRisk).next
    (Test.world wideReports Test.conservativeRisk) partialReturn).isSome := by rfl

/-- That run claims sixty of gain where the epoch allows fifty. -/
theorem epoch_unbounded_after_partial_return :
    ¬ ∀ (v : LemonVault) (w₀ w : World) (tr : List (Transition World Tx)), Genesis v w₀ →
      Run v.next w₀ tr w → (∀ t ∈ tr, t.post.state.limits = w₀.state.limits) →
      EpochBounded w₀.state.limits.val (epochBook tr) w.state := by
  intro h
  have hrun := Test.run_after partialReturn_isSome
  exact absurd (h _ _ _ _ (Test.testGenesis _ _) hrun (by decide)).bounded (by decide)

/-- The same run with the return one unit smaller keeps its anchor, and the bound. -/
def wholeReturn : List Tx :=
  [Test.tx Test.alice 0 (.deposit (1000 * 10 ^ 6) Test.alice),
   Test.tx Test.agent 0 (.agentWithdraw (100 * 10 ^ 6)),
   Test.tx Test.agent 300 (.reportNav (120 * 10 ^ 6) 10000 0),
   Test.tx Test.agent 300 (.agentReturn (100 * 10 ^ 6 - 1)),
   Test.tx Test.agent 300 (.agentReturn (50 * 10 ^ 6))]

theorem wholeReturn_isSome : (trace (Test.lemonVault Test.conservativeRisk).next
    (Test.world wideReports Test.conservativeRisk) wholeReturn).isSome := by rfl

theorem epoch_bounded_iff_returns_keep_anchor_whole :
    EpochBounded wideReports.val
      (epochBook (Test.transitions wideReports Test.conservativeRisk _ wholeReturn_isSome))
      (Test.after wideReports Test.conservativeRisk _ wholeReturn_isSome).state := by
  have hrun := Test.run_after wholeReturn_isSome
  exact (epoch_bounded_iff_returns_keep_anchor (Test.testGenesis _ _) hrun (by decide)).mpr
    (by decide) _ _ List.prefix_rfl hrun

end LemonVault

end LemonMarket
