import LemonMarket.Agent.Report
import LemonMarket.Core.Funding

/-!
# LemonMarket.Agent.Cadence

**When a vault is reported on.** Three clocks decide whether a tick owes the chain a NAV
(`navReportDue` of `worker.ts`): the contract's floor, half of its staleness window, and
the venue's next funding settlement after the last report. The branches are one per order
of the three, and they come to a single time: the later of the floor and of whichever of
the other two is first (`firstDue`). Before it no report is due and every answer names it,
from it on every report is due (`navReportDue_eq`).

The limits the contract validated put that time between its floor and its staleness
limit. The keepalive of an empty vault has a clock of its own, between the same two.
-/

namespace LemonMarket

namespace Agent

open Lib

variable {v : LemonVault} {msg : Msg} {s : State} {state : VaultState} {since now : Nat}

/-! ### The settlement -/

/-- The agent's clock counts whole seconds; its periods are those of any series. -/
theorem fundingPeriodStart_eq {timestamp : Nat} (h : timestamp < 2 ^ 53) :
    Core.fundingPeriodStart (.finite timestamp) (.finite fundingIntervalSeconds) =
      .finite (fundingPeriodStart timestamp) :=
  Core.fundingPeriodStart_natCast h (by decide) (by decide)

/-- A settlement has landed once the next one after the last report is reached. -/
theorem crossedFundingSettlement_iff :
    crossedFundingSettlement since now = true ↔ nextFundingSettlement since ≤ now := by
  have hinterval : 0 < fundingIntervalSeconds := by decide
  have hnext : nextFundingSettlement since =
      (since / fundingIntervalSeconds + 1) * fundingIntervalSeconds := (Nat.succ_mul _ _).symm
  rw [crossedFundingSettlement, decide_eq_true_iff, hnext, ← Nat.le_div_iff_mul_le hinterval]
  exact Nat.mul_lt_mul_right hinterval

/-! ### The first due time -/

/-- A report is due. -/
def Due (state : VaultState) (now : Nat) : Prop := ∃ because, navReportDue state now = .due because

/-- The time a report falls due: the contract's floor, or where that has passed the next
settlement or half the staleness window, whichever comes first. -/
def firstDue (state : VaultState) : Nat :=
  max (state.lastNavReportAt + state.minNavReportInterval)
    (min (nextFundingSettlement state.lastNavReportAt)
      (state.lastNavReportAt + state.maxNavStaleness / 2))

/-- Before that time every answer names it, in whichever branch it is given. -/
theorem navReportDue_of_lt (h : now < firstDue state) :
    navReportDue state now = .notDue (firstDue state) := by
  simp only [navReportDue]
  split
  next => rfl
  next hfloor =>
    -- the floor has passed, so what is left of the maximum is the earlier clock
    have hpassed : state.lastNavReportAt + state.minNavReportInterval ≤ now := not_lt.mp hfloor
    have hearlier : now < min (nextFundingSettlement state.lastNavReportAt)
        (state.lastNavReportAt + state.maxNavStaleness / 2) :=
      (lt_max_iff.mp h).resolve_left hfloor
    obtain ⟨hsettlement, hkeepalive⟩ := lt_min_iff.mp hearlier
    rw [if_neg (fun hcrossed => absurd (crossedFundingSettlement_iff.mp hcrossed) (by omega)),
      if_neg (by omega), firstDue, max_eq_right (hpassed.trans hearlier.le)]

/-- From that time on a report is due. -/
theorem due_of_le (h : firstDue state ≤ now) : Due state now := by
  obtain ⟨hfloor, hearlier⟩ := max_le_iff.mp h
  simp only [Due, navReportDue, if_neg (not_lt.mpr hfloor)]
  rcases min_le_iff.mp hearlier with hsettlement | hkeepalive
  · exact ⟨_, if_pos (crossedFundingSettlement_iff.mpr hsettlement)⟩
  · split
    · exact ⟨_, rfl⟩
    · exact ⟨_, rfl⟩

theorem due_iff : Due state now ↔ firstDue state ≤ now := by
  refine ⟨?_, due_of_le⟩
  rintro ⟨because, hdue⟩
  by_contra hlt
  rw [navReportDue_of_lt (not_le.mp hlt)] at hdue
  cases hdue

/-- What is announced is the first due time, and it is still to come. -/
theorem notDue_iff {nextAt : Nat} :
    navReportDue state now = .notDue nextAt ↔ now < firstDue state ∧ nextAt = firstDue state := by
  constructor
  · intro h
    have hlt : now < firstDue state := by
      by_contra hle
      obtain ⟨because, hdue⟩ := due_of_le (not_lt.mp hle)
      cases h.symm.trans hdue
    rw [navReportDue_of_lt hlt] at h
    cases h
    exact ⟨hlt, rfl⟩
  · rintro ⟨hlt, rfl⟩
    exact navReportDue_of_lt hlt

/-! ### The keepalive -/

/-- The time the tick of an empty vault posts from. -/
def keepaliveFrom (state : VaultState) : Nat :=
  state.lastNavReportAt + max state.minNavReportInterval (state.maxNavStaleness / 2)

theorem idle_of_lt (h : now < keepaliveFrom state) : idle v msg s state now = .idle false s :=
  if_pos h

theorem idle_of_le (h : keepaliveFrom state ≤ now) :
    (∀ s', postNav v msg s 0 (leverageBps 0 0) now = .ok s' →
      idle v msg s state now = .idle true s') ∧
    ∀ e, postNav v msg s 0 (leverageBps 0 0) now = .error e →
      idle v msg s state now = .idle false s := by
  have hnow : ¬ now < state.lastNavReportAt +
      max state.minNavReportInterval (state.maxNavStaleness / 2) := not_lt.mpr h
  constructor
  · intro s' hposted
    rw [idle, if_neg hnow, hposted]
  · intro e hrejected
    rw [idle, if_neg hnow, hrejected]

/-! ### Between the contract's two limits -/

/-- A report refused as too soon is one inside the contract's floor. -/
theorem lt_floor_of_tooSoon {d l o : Nat}
    (h : v.reportNav msg s d l o = .error .navReportTooSoon) :
    msg.timestamp < s.lastNavReportAt + s.limits.val.minNavReportInterval := by
  by_contra hspaced
  unfold LemonVault.reportNav at h
  simp only [bind_eq_error, onlyRole, revertIf_eq_error, reduceCtorEq, and_false, false_or,
    hspaced, false_and] at h
  obtain ⟨_, -, _, -, _, -, h⟩ := h
  rcases h with h | ⟨_, -, h⟩
  · -- the per-report bound has errors of its own
    unfold LemonVault.checkNavDeviation at h
    simp only at h
    split at h <;> simp only [revertIf_eq_error, reduceCtorEq, and_false] at h
  · rcases h with h | ⟨_, -, h⟩
    · unfold LemonVault.checkNavEpoch at h
      simp only at h
      split at h
      next => simp only [revertIf_eq_error, reduceCtorEq, and_false] at h
      next => cases h
    · cases h

/-- What a vault owes its chain, as far as its clocks go, read at `asOf`. -/
structure KeepsCadence (v : LemonVault) (s : State) (asOf : Nat) : Prop where
  /-- An announced time is to come, and is the first at which a report is due. -/
  announced : ∀ now nextAt, navReportDue (VaultState.read v s asOf) now = .notDue nextAt →
    now < nextAt ∧ (∀ t, now ≤ t → t < nextAt → ¬ Due (VaultState.read v s asOf) t) ∧
      ∀ t, nextAt ≤ t → Due (VaultState.read v s asOf) t
  /-- A due report is past the contract's floor, and not refused as too soon. -/
  spaced : ∀ now, Due (VaultState.read v s asOf) now →
    s.lastNavReportAt + s.limits.val.minNavReportInterval ≤ now ∧
      ∀ sender d l o, v.reportNav ⟨sender, now⟩ s d l o ≠ .error .navReportTooSoon
  /-- A report falls due while the vault is not yet stale. -/
  inTime : ∃ first, (∀ t, Due (VaultState.read v s asOf) t ↔ first ≤ t) ∧
    first ≤ s.lastNavReportAt + s.limits.val.maxNavStaleness ∧
      LemonVault.navIsStale s first = false
  /-- The tick of an empty vault posts from some time on, which lies between the two. -/
  kept : ∃ first, s.lastNavReportAt + s.limits.val.minNavReportInterval ≤ first ∧
    first ≤ s.lastNavReportAt + s.limits.val.maxNavStaleness ∧
    LemonVault.navIsStale s first = false ∧
    ∀ msg now, (now < first → idle v msg s (VaultState.read v s asOf) now = .idle false s) ∧
      (first ≤ now →
        (∀ s', postNav v msg s 0 (leverageBps 0 0) now = .ok s' →
          idle v msg s (VaultState.read v s asOf) now = .idle true s') ∧
        ∀ e, postNav v msg s 0 (leverageBps 0 0) now = .error e →
          idle v msg s (VaultState.read v s asOf) now = .idle false s)

theorem not_stale_of_le {t : Nat} (h : t ≤ s.lastNavReportAt + s.limits.val.maxNavStaleness) :
    LemonVault.navIsStale s t = false :=
  decide_eq_false (not_lt.mpr h)

/-- The limits put the first due time between the contract's floor and its staleness. -/
theorem firstDue_bounds (v : LemonVault) (s : State) (asOf : Nat) :
    s.lastNavReportAt + s.limits.val.minNavReportInterval ≤ firstDue (VaultState.read v s asOf) ∧
      firstDue (VaultState.read v s asOf) ≤ s.lastNavReportAt + s.limits.val.maxNavStaleness := by
  have houtlasts := s.limits.property.stalenessOutlasts
  refine ⟨le_max_left _ _, max_le ?_ ((min_le_right _ _).trans ?_)⟩
  · exact Nat.add_le_add_left houtlasts.le _
  · exact Nat.add_le_add_left (Nat.div_le_self _ _) _

theorem keepaliveFrom_bounds (v : LemonVault) (s : State) (asOf : Nat) :
    s.lastNavReportAt + s.limits.val.minNavReportInterval ≤
        keepaliveFrom (VaultState.read v s asOf) ∧
      keepaliveFrom (VaultState.read v s asOf) ≤
        s.lastNavReportAt + s.limits.val.maxNavStaleness := by
  have houtlasts := s.limits.property.stalenessOutlasts
  refine ⟨Nat.add_le_add_left (le_max_left _ _) _, Nat.add_le_add_left (max_le ?_ ?_) _⟩
  · exact houtlasts.le
  · exact Nat.div_le_self _ _

/-- **The cadence keeps a vault fresh and wastes no report**, whatever limits the contract
validated and whenever it was last reported on. -/
theorem keeps_cadence (v : LemonVault) (s : State) (asOf : Nat) : KeepsCadence v s asOf where
  announced now nextAt h := by
    obtain ⟨hlt, rfl⟩ := notDue_iff.mp h
    refine ⟨hlt, ?_, fun t ht => due_of_le ht⟩
    intro t _ ht hdue
    exact absurd (due_iff.mp hdue) (not_le.mpr ht)
  spaced now hdue := by
    have hfloor := (firstDue_bounds v s asOf).1.trans (due_iff.mp hdue)
    refine ⟨hfloor, ?_⟩
    intro sender d l o hsoon
    exact absurd (lt_floor_of_tooSoon hsoon) (not_lt.mpr hfloor)
  inTime := by
    have hbound := (firstDue_bounds v s asOf).2
    exact ⟨_, fun t => due_iff, hbound, not_stale_of_le hbound⟩
  kept := by
    obtain ⟨hfloor, hbound⟩ := keepaliveFrom_bounds v s asOf
    exact ⟨_, hfloor, hbound, not_stale_of_le hbound, fun msg now => ⟨idle_of_lt, idle_of_le⟩⟩

end Agent

end LemonMarket
