import LemonMarket.Contracts.NavEpoch
import LemonMarket.Contracts.Reach

/-!
# LemonMarket.Contracts.HonestReport

**When a report that claims nothing is refused.** Moving capital moves `navEpochAnchor`
by the same amount, so that a report of what is deployed, no gain and no loss, stays
possible. The check compares it with a share of the anchor, though, and a return shrinks
that share while the gain it is measured against stays: after a gain near the bound, any
return that is not of the whole anchor makes the next honest report too large. A
withdrawal under an anchor of zero (left by returning all of it) does the same.

`EpochCovers` says that an honest report is within the bound; `KeepsCover` is what a call
has to find for it to stay so. Both are exact.
-/

namespace LemonMarket

open Lib

namespace LemonVault

variable {v : LemonVault} {s s' : State} {msg : Msg} {w w' w₀ : World}
  {tr : List (Transition World Tx)} {l o : Nat}

/-- The epoch's bound on a valuation against `anchor`. -/
def epochBound (s : State) (anchor : Nat) : Nat :=
  mulDiv anchor s.limits.val.maxNavEpochDeviationBps bps .floor

/-- What is deployed is within the epoch's bound. -/
def EpochCovers (s : State) : Prop :=
  s.navEpochAnchor = 0 ∨
    deviation s.deployedAssets s.navEpochAnchor ≤ epochBound s s.navEpochAnchor

/-- The bound on the anchor a call leaves still covers the deviation it finds. -/
def KeepsCover (s : State) : Call → Prop
  | .agentWithdraw n => s.navEpochAnchor ≠ 0 ∨ s.deployedAssets ≤ epochBound s n
  | .agentReturn n =>
      s.navEpochAnchor ≤ min n s.deployedAssets ∨
        deviation s.deployedAssets s.navEpochAnchor ≤
          epochBound s (s.navEpochAnchor - min n s.deployedAssets)
  | _ => True

instance (s : State) (call : Call) : Decidable (KeepsCover s call) := by
  cases call <;> unfold KeepsCover <;> infer_instance

/-! ### The report -/

/-- Refused for one of the two deviations. -/
def RejectedForDeviation (r : Except VaultError State) : Prop :=
  ∃ proposed bound, r = .error (.navDeviationTooLarge proposed bound) ∨
    r = .error (.navEpochDeviationTooLarge proposed bound)

/-- The agent's, after the interval and before the epoch runs out. -/
structure Timely (msg : Msg) (s : State) : Prop where
  agent : s.hasRole .agent msg.sender
  interval : s.lastNavReportAt + s.limits.val.minNavReportInterval ≤ msg.timestamp
  epoch : msg.timestamp < s.navEpochStartedAt + s.limits.val.navEpochDuration

instance (msg : Msg) (s : State) : Decidable (Timely msg s) :=
  decidable_of_iff
    (s.hasRole .agent msg.sender ∧
      s.lastNavReportAt + s.limits.val.minNavReportInterval ≤ msg.timestamp ∧
      msg.timestamp < s.navEpochStartedAt + s.limits.val.navEpochDuration)
    ⟨fun ⟨ha, hi, he⟩ => ⟨ha, hi, he⟩, fun ⟨ha, hi, he⟩ => ⟨ha, hi, he⟩⟩

@[simp] theorem deviation_self (a : Nat) : deviation a a = 0 := by
  simp [deviation]

/-- The per-report bound never refuses a report of no change. -/
theorem checkNavDeviation_same (s : State) : checkNavDeviation s s.deployedAssets = .ok () := by
  simp only [checkNavDeviation]
  split
  next hz => exact revertIf_of_not (not_not.mpr hz)
  next => exact revertIf_of_not (by simp)

/-- The epoch's bound lets what it covers through. -/
theorem checkNavEpoch_of_covers (h : EpochCovers s) :
    checkNavEpoch s s.deployedAssets = .ok () := by
  simp only [checkNavEpoch]
  split
  next hanchor =>
    rcases h with hz | hle
    · exact absurd hz hanchor
    · exact revertIf_of_not (Nat.not_lt.mpr hle)
  next => rfl

theorem checkNavEpoch_of_not_covers (h : ¬ EpochCovers s) :
    checkNavEpoch s s.deployedAssets = .error (.navEpochDeviationTooLarge
      (deviation s.deployedAssets s.navEpochAnchor) (epochBound s s.navEpochAnchor)) := by
  simp only [EpochCovers, not_or, Nat.not_le] at h
  simp only [checkNavEpoch]
  rw [if_pos h.1]
  exact if_pos h.2

/-- **An honest report is refused exactly when the epoch no longer covers what is
deployed.** -/
theorem honest_rejected_iff (ht : Timely msg s) (hl : l ≤ v.risk.val.maxLeverageBps) :
    RejectedForDeviation (v.reportNav msg s s.deployedAssets l o) ↔ ¬ EpochCovers s := by
  have hrole : onlyRole s .agent msg = .ok () := revertIf_of_not (by simp [ht.agent])
  have hroll : rollNavEpoch msg.timestamp s = s := if_neg (Nat.not_le.mpr ht.epoch)
  unfold reportNav
  rw [bind_of_ok hrole, bind_of_ok (revertIf_of_not (Nat.not_lt.mpr ht.interval)),
    bind_of_ok (revertIf_of_not (Nat.not_lt.mpr hl)), bind_of_ok (checkNavDeviation_same s)]
  simp only [hroll]
  by_cases hcover : EpochCovers s
  · rw [bind_of_ok (checkNavEpoch_of_covers hcover)]
    constructor
    · rintro ⟨a, b, h | h⟩ <;> cases h
    · intro h
      exact absurd hcover h
  · rw [checkNavEpoch_of_not_covers hcover]
    constructor
    · intro _
      exact hcover
    · intro _
      exact ⟨_, _, .inr rfl⟩

/-- An accepted report leaves its own valuation covered. -/
theorem epochCovers_of_report {d : Nat} (h : v.reportNav msg s d l o = .ok s') :
    EpochCovers s' := by
  obtain ⟨hd, hanchor, -⟩ := reportNav_capital h
  have hlimits := (reportNav_terms h).1.limits
  obtain ⟨-, -, -, -, rolled, rfl, hepoch, -⟩ := reportNav_ok h
  have hrolled : (rollNavEpoch msg.timestamp s).limits = s.limits := by
    rw [rollNavEpoch]; split <;> rfl
  rcases Nat.eq_zero_or_pos (rollNavEpoch msg.timestamp s).navEpochAnchor with hz | hpos
  · exact .inl (hanchor.trans hz)
  · have hwithin := checkNavEpoch_ok hepoch hpos
    rw [hrolled] at hwithin
    refine .inr ?_
    rw [epochBound, hd, hanchor, hlimits]
    exact hwithin

/-! ### One call -/

theorem EpochCovers.congr (hs : SameCapital s s') (hlimits : s'.limits = s.limits) :
    EpochCovers s' ↔ EpochCovers s := by
  unfold EpochCovers epochBound
  rw [hs.navEpochAnchor, hs.deployedAssets, hlimits]

theorem deviation_add_right (a b n : Nat) : deviation (a + n) (b + n) = deviation a b := by
  unfold deviation
  split <;> split <;> omega

theorem deviation_sub_right {a b n : Nat} (ha : n ≤ a) (hb : n ≤ b) :
    deviation (a - n) (b - n) = deviation a b := by
  unfold deviation
  split <;> split <;> omega

theorem epochBound_mono {a b : Nat} (h : a ≤ b) : epochBound s a ≤ epochBound s b :=
  Nat.div_le_div_right (Nat.mul_le_mul_right _ h)

/-- **A call keeps the epoch covered exactly when it finds it so.** -/
theorem epochCovers_exec_iff {call : Call} (hcall : call.isReport = false)
    (hcover : EpochCovers s) (h : v.exec msg s call = .ok s') (hlimits : s'.limits = s.limits) :
    EpochCovers s' ↔ KeepsCover s call := by
  cases hmoves : movesCapital call with
  | false =>
      have hkeeps : KeepsCover s call := by
        cases call <;> trivial
      exact iff_of_true ((EpochCovers.congr (exec_sameCapital hmoves h) hlimits).mpr hcover) hkeeps
  | true =>
      cases call with
      | agentWithdraw n =>
          obtain ⟨-, -, hn, -, -, -, -, -, t, -, rfl⟩ := agentWithdraw_ok h
          by_cases hz : s.navEpochAnchor = 0
          · -- The anchor is the withdrawal alone; what was deployed is all deviation.
            simp only [EpochCovers, KeepsCover, hz, Nat.ne_of_gt hn, false_or, ne_eq,
              not_true_eq_false, Nat.zero_add]
            rw [show deviation (s.deployedAssets + n) n = s.deployedAssets by
              simp only [deviation]; split <;> omega]
            exact Iff.rfl
          · have hle : deviation s.deployedAssets s.navEpochAnchor ≤
                epochBound s s.navEpochAnchor := hcover.resolve_left hz
            refine iff_of_true (.inr ?_) (.inl hz)
            simp only [deviation_add_right]
            exact hle.trans (epochBound_mono (Nat.le_add_right _ _))
      -- a return lowers the anchor with what is deployed, down to none
      | agentReturn n =>
          obtain ⟨-, t, -, rfl⟩ := agentReturn_ok h
          by_cases hall : s.navEpochAnchor ≤ min n s.deployedAssets
          · exact iff_of_true (.inl (Nat.sub_eq_zero_of_le hall)) (.inl hall)
          · have hlive : s.navEpochAnchor - min n s.deployedAssets ≠ 0 := by omega
            simp only [EpochCovers, KeepsCover, hall, hlive, false_or]
            rw [deviation_sub_right (Nat.min_le_right _ _) (by omega)]
            exact Iff.rfl
      | reportNav => cases hcall
      | _ => cases hmoves

/-! ### Runs -/

/-- The last report was accepted, and since then no capital moved and no limit changed. -/
def Reported (v : LemonVault) (w : World) : Prop :=
  ∃ w₁ tx w₂ tr, Reachable v w₁ ∧ tx.call.isReport ∧ v.next w₁ tx = some w₂ ∧
    Run v.next w₂ tr w ∧ ∀ t ∈ tr, movesCapital t.label.call = false ∧
      t.post.state.limits = w₂.state.limits

theorem Reported.covers (h : Reported v w) : EpochCovers w.state := by
  obtain ⟨w₁, tx, w₂, tr, -, hreport, hs, hrun, hstill⟩ := h
  have hstart : EpochCovers w₂.state := by
    obtain ⟨-, -, -, he⟩ := next_eq_some hs
    cases hcall : tx.call with
    | reportNav d l o =>
        rw [hcall] at he
        exact epochCovers_of_report he
    | _ =>
        rw [hcall] at hreport
        cases hreport
  refine (hrun.invariant_of
    (I := fun w => EpochCovers w.state ∧ w.state.limits = w₂.state.limits)
    hstill ⟨hstart, rfl⟩ ?_).1.1
  intro w tx w' hstep ih hs
  obtain ⟨-, -, -, he⟩ := next_eq_some hs
  have hsame : w'.state.limits = w.state.limits := hstep.2.trans ih.2.symm
  exact ⟨(EpochCovers.congr (exec_sameCapital hstep.1 he) hsame).mpr ih.1, hstep.2⟩

/-- **When honest reports stay possible.** After an accepted report, along any run without
another one and with fixed limits, a message that stays timely can report what is deployed
in every state reached, if and only if every call of the run finds what it needs to keep
the epoch covered. -/
theorem honest_report_accepted_iff_keeps_cover (hw₀ : Reported v w₀)
    (hrun : Run v.next w₀ tr w) (hcalls : ∀ t ∈ tr, t.label.call.isReport = false)
    (hlimits : ∀ u ∈ reached w₀ tr, u.state.limits = w₀.state.limits)
    (htimely : ∀ u ∈ reached w₀ tr, Timely msg u.state)
    (hl : l ≤ v.risk.val.maxLeverageBps) :
    (∀ u ∈ reached w₀ tr,
      ¬ RejectedForDeviation (v.reportNav msg u.state u.state.deployedAssets l o)) ↔
    ∀ t ∈ tr, KeepsCover t.pre.state t.label.call := by
  -- Each call's condition, between two states the run went through.
  have hstep : ∀ t ∈ tr, EpochCovers t.pre.state →
      (EpochCovers t.post.state ↔ KeepsCover t.pre.state t.label.call) := by
    intro t ht hpre
    obtain ⟨-, -, -, he⟩ := next_eq_some (hrun.step_of_mem t ht)
    refine epochCovers_exec_iff (hcalls t ht) hpre he ?_
    rw [hlimits _ (mem_reached.mpr (.inr ⟨t, ht, rfl⟩)), hlimits _ (hrun.pre_reached t ht)]
  constructor
  · intro haccepted t ht
    have hcovers : ∀ u ∈ reached w₀ tr, EpochCovers u.state := by
      intro u hu
      exact not_not.mp fun hno =>
        haccepted u hu ((honest_rejected_iff (htimely u hu) hl).mpr hno)
    exact (hstep t ht (hcovers _ (hrun.pre_reached t ht))).mp
      (hcovers _ (mem_reached.mpr (.inr ⟨t, ht, rfl⟩)))
  · intro hkeeps u hu hrejected
    refine (honest_rejected_iff (htimely u hu) hl).mp hrejected ?_
    have hcovered := (hrun.invariant_of (I := fun w => EpochCovers w.state)
      (P := fun t => t ∈ tr) (fun t ht => ht) hw₀.covers ?_).2
    · rcases mem_reached.mp hu with rfl | ⟨t, ht, rfl⟩
      · exact hw₀.covers
      · exact (hcovered t ht).2
    · intro w tx w' ht hpre _
      exact (hstep _ ht hpre).mpr (hkeeps _ ht)

/-- Out with a hundred, and reports up to the epoch's bound of a hundred and fifty. -/
def reportedToBound : List Tx :=
  [Test.tx Test.alice 0 (.deposit (1000 * 10 ^ 6) Test.alice),
   Test.tx Test.agent 0 (.agentWithdraw (100 * 10 ^ 6)),
   Test.tx Test.agent 300 (.reportNav (120 * 10 ^ 6) 10000 0),
   Test.tx Test.agent 600 (.reportNav (144 * 10 ^ 6) 10000 0)]

/-- The vault after them, with its last report at the bound. -/
def atBound : World :=
  Test.after wideReports Test.conservativeRisk
    (reportedToBound ++ [Test.tx Test.agent 900 (.reportNav (150 * 10 ^ 6) 10000 0)]) (by rfl)

theorem atBound_reported : Reported (Test.lemonVault Test.conservativeRisk) atBound :=
  ⟨Test.after wideReports Test.conservativeRisk reportedToBound (by rfl),
    Test.tx Test.agent 900 (.reportNav (150 * 10 ^ 6) 10000 0), atBound, [],
    Test.reachable_after _, rfl, by rfl, .nil, by simp⟩

theorem returnTen_isSome : (trace (Test.lemonVault Test.conservativeRisk).next atBound
    [Test.tx Test.agent 900 (.agentReturn (10 * 10 ^ 6))]).isSome := by rfl

/-- Ten come back, and an honest report of the hundred and forty left is refused: fifty
off an anchor of ninety. -/
theorem honest_report_refused_after_return :
    ¬ ∀ (v : LemonVault) (w₀ w : World) (tr : List (Transition World Tx)) (msg : Msg)
        (l o : Nat), Reported v w₀ → Run v.next w₀ tr w →
      (∀ t ∈ tr, t.label.call.withdrawal.isSome ∨ t.label.call.returned.isSome) →
      Timely msg w.state → l ≤ v.risk.val.maxLeverageBps →
      ¬ RejectedForDeviation (v.reportNav msg w.state w.state.deployedAssets l o) := by
  intro h
  have hrun := trace_run (Option.some_get returnTen_isSome).symm
  refine h _ _ _ _ ⟨Test.agent, year + 1200⟩ 10000 0 atBound_reported hrun (by decide)
    ⟨by rfl, by decide, by decide⟩ (by decide) ⟨50 * 10 ^ 6, 45 * 10 ^ 6, .inr ?_⟩
  rfl

theorem withdrawTen_isSome : (trace (Test.lemonVault Test.conservativeRisk).next atBound
    [Test.tx Test.agent 900 (.agentWithdraw (10 * 10 ^ 6))]).isSome := by rfl

/-- Ten more out instead, and it is accepted. -/
theorem honest_report_accepted_iff_keeps_cover_withdraw :
    ¬ RejectedForDeviation ((Test.lemonVault Test.conservativeRisk).reportNav
      ⟨Test.agent, year + 1200⟩ (Option.get _ withdrawTen_isSome).2.state
      (Option.get _ withdrawTen_isSome).2.state.deployedAssets 10000 0) := by
  have hrun := trace_run (Option.some_get withdrawTen_isSome).symm
  exact (honest_report_accepted_iff_keeps_cover (l := 10000) (o := 0) atBound_reported hrun
    (by decide) (by decide) (by decide) (by decide)).mpr (by decide) _ hrun.last_reached

end LemonVault

end LemonMarket
