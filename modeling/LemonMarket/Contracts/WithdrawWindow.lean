import LemonMarket.Contracts.Solvency
import LemonMarket.Lib.Window

/-!
# LemonMarket.Contracts.WithdrawWindow

**The withdrawal cap, and the decay that lets more than it through.** The counter of
earlier withdrawals is lowered in proportion to the time since the last one, and the
clock restarts at every call. What has been drawn inside the window is then forgotten
before it is a window old: a full cap, and half a window later half a cap more.

The cap does hold over every window of the runs in which the proportional branch takes
nothing off: each withdrawal comes a whole window after the last, or so soon that the
floor of its decay is zero. Then the counter is one that accumulates or starts again,
and `Lib.Metered` applies.
-/

namespace LemonMarket

open Lib

namespace LemonVault

variable {v : LemonVault} {s s' : State} {msg : Msg} {w w₀ : World}
  {tr : List (Transition World Tx)}

/-- The withdrawals of a run, as amounts that left for the agent wallet when. -/
def withdrawals (tr : List (Transition World Tx)) : List Timed :=
  tr.filterMap fun t => t.label.call.withdrawal.map fun n => ⟨t.label.msg.timestamp, n⟩

theorem withdrawals_snoc_some {t : Transition World Tx} {n : Nat}
    (h : t.label.call.withdrawal = some n) :
    withdrawals (tr ++ [t]) = withdrawals tr ++ [⟨t.label.msg.timestamp, n⟩] := by
  simp [withdrawals, List.filterMap_append, h]

theorem withdrawals_snoc_none {t : Transition World Tx} (h : t.label.call.withdrawal = none) :
    withdrawals (tr ++ [t]) = withdrawals tr := by
  simp [withdrawals, List.filterMap_append, h]

/-- The proportional branch takes nothing off the counter: the last withdrawal is a
window old, or its decay so far rounds to zero. -/
def DecayIdle (s : State) (now : Nat) : Prop :=
  s.limits.val.agentWithdrawWindow ≤ now - s.agentWindowStartedAt ∨
    mulDiv s.agentWithdrawnInWindow (now - s.agentWindowStartedAt)
      s.limits.val.agentWithdrawWindow .floor = 0

instance (s : State) (now : Nat) : Decidable (DecayIdle s now) :=
  inferInstanceAs (Decidable (_ ∨ _))

/-- A withdrawal finds the decay idle. -/
def WithdrawsIdle (t : Transition World Tx) : Prop :=
  t.label.call.withdrawal.isSome → DecayIdle t.pre.state t.label.msg.timestamp

instance (t : Transition World Tx) : Decidable (WithdrawsIdle t) :=
  inferInstanceAs (Decidable (_ → _))

/-! ### One withdrawal -/

/-- What a withdrawal that finds the decay idle does to the counter. -/
theorem drawnInWindow_of_idle (h : DecayIdle s msg.timestamp) :
    s.limits.val.agentWithdrawWindow ≤ msg.timestamp - s.agentWindowStartedAt ∧
        drawnInWindow s msg.timestamp = 0 ∨
      drawnInWindow s msg.timestamp = s.agentWithdrawnInWindow := by
  by_cases hwin : s.limits.val.agentWithdrawWindow ≤ msg.timestamp - s.agentWindowStartedAt
  · exact .inl ⟨hwin, if_pos hwin⟩
  · right
    have hzero := h.resolve_left hwin
    simp only [drawnInWindow, if_neg hwin, hzero]
    split <;> rfl

/-- The counter never passes the cap. -/
theorem drawn_add_le_cap {n now : Nat} (hn : 0 < n) (h : n ≤ windowRemaining s now) :
    drawnInWindow s now + n ≤ s.limits.val.agentWithdrawWindowCap := by
  simp only [windowRemaining] at h
  split at h <;> omega

/-- The vault's counter meters the withdrawals of the run. -/
def WindowInv (limits : Limits) (tr : List (Transition World Tx)) (s : State) : Prop :=
  Metered limits.agentWithdrawWindow limits.agentWithdrawWindowCap (withdrawals tr)
    s.agentWindowStartedAt s.agentWithdrawnInWindow

/-- The two limits the window reads. -/
def SameWindow (limits : Limits) (s : State) : Prop :=
  s.limits.val.agentWithdrawWindow = limits.agentWithdrawWindow ∧
    s.limits.val.agentWithdrawWindowCap = limits.agentWithdrawWindowCap

instance (limits : Limits) (s : State) : Decidable (SameWindow limits s) :=
  inferInstanceAs (Decidable (_ ∧ _))

theorem WindowInv.agentWithdraw {limits : Limits} {n : Nat} (h : WindowInv limits tr s)
    (hlimits : SameWindow limits s) (hclock : s.agentWindowStartedAt ≤ msg.timestamp)
    (hidle : DecayIdle s msg.timestamp) (hs : v.agentWithdraw msg s n = .ok s') :
    Metered limits.agentWithdrawWindow limits.agentWithdrawWindowCap
      (withdrawals tr ++ [⟨msg.timestamp, n⟩]) s'.agentWindowStartedAt
      s'.agentWithdrawnInWindow := by
  obtain ⟨-, -, hn, -, -, -, -, hremaining, t, -, rfl⟩ := agentWithdraw_ok hs
  have hcap := drawn_add_le_cap hn hremaining
  rw [hlimits.2] at hcap
  rcases drawnInWindow_of_idle hidle with ⟨hwin, hdrawn⟩ | hdrawn
  · simp only [hdrawn, Nat.zero_add] at hcap ⊢
    exact h.restart (by rw [hlimits.1] at hwin; omega) hcap
  · simp only [hdrawn] at hcap ⊢
    exact h.accumulate hclock hcap

/-! ### Runs -/

/-- The window's clock is never ahead of the block's. -/
theorem clock_le_now {w' : World} {tx : Tx} (h : w.state.agentWindowStartedAt ≤ w.now)
    (hn : v.next w tx = some w') : w'.state.agentWindowStartedAt ≤ w'.now := by
  obtain ⟨hnow, -, hnow', he⟩ := next_eq_some hn
  obtain ⟨msg, call⟩ := tx
  have hle := h.trans hnow
  rw [hnow']
  cases hcall : movesCapital call with
  | false => rw [(exec_sameCapital hcall he).agentWindowStartedAt]; exact hle
  | true =>
      cases call with
      | agentWithdraw n =>
          obtain ⟨-, -, -, -, -, -, -, -, t, -, hs'⟩ := agentWithdraw_ok he
          rw [hs']
      | agentReturn n =>
          obtain ⟨-, t, -, hs'⟩ := agentReturn_ok he
          rw [hs']
          exact hle
      | reportNav d l o => rw [(reportNav_capital he).2.2.1]; exact hle
      | _ => cases hcall

theorem reachable_clock_le_now (h : Reachable v w) : w.state.agentWindowStartedAt ≤ w.now := by
  obtain ⟨w₀, tr, hgen, hrun⟩ := h
  refine (hrun.invariant (I := fun w => w.state.agentWindowStartedAt ≤ w.now) ?_
    fun w tx w' hw hn => LemonVault.clock_le_now hw hn).1
  obtain ⟨p, hnow, -, hfresh⟩ := hgen.fresh
  exact Nat.le_of_eq (hfresh.agentWindowStartedAt.trans hnow.symm)

theorem WindowInv.next {limits : Limits} {w w' : World} {tx : Tx}
    (h : WindowInv limits tr w.state) (hlimits : SameWindow limits w.state)
    (hclock : w.state.agentWindowStartedAt ≤ w.now) (hidle : WithdrawsIdle ⟨w, tx, w'⟩)
    (hn : v.next w tx = some w') : WindowInv limits (tr ++ [⟨w, tx, w'⟩]) w'.state := by
  obtain ⟨hnow, -, -, he⟩ := next_eq_some hn
  obtain ⟨msg, call⟩ := tx
  cases hcall : movesCapital call with
  -- only the calls that move capital touch the window
  | false =>
      have hsame := exec_sameCapital hcall he
      have hnone : call.withdrawal = none := by cases call <;> first | rfl | cases hcall
      rw [WindowInv, withdrawals_snoc_none hnone, hsame.agentWindowStartedAt,
        hsame.agentWithdrawnInWindow]
      exact h
  | true =>
      cases call with
      | agentWithdraw n =>
          rw [WindowInv, withdrawals_snoc_some (n := n) rfl]
          exact h.agentWithdraw hlimits (hclock.trans hnow) (hidle rfl) he
      -- and of these a withdrawal alone adds to it
      | agentReturn n =>
          obtain ⟨-, t, -, hs'⟩ := agentReturn_ok he
          rw [WindowInv, withdrawals_snoc_none rfl, hs']
          exact h
      | reportNav d l o =>
          obtain ⟨-, -, hstart, hdrawn⟩ := reportNav_capital he
          rw [WindowInv, withdrawals_snoc_none rfl, hstart, hdrawn]
          exact h
      | _ => cases hcall

theorem WindowInv.run {limits : Limits} (hclock : w₀.state.agentWindowStartedAt ≤ w₀.now)
    (hstart : SameWindow limits w₀.state) (hrun : Run v.next w₀ tr w)
    (hlimits : ∀ t ∈ tr, SameWindow limits t.post.state) (hidle : ∀ t ∈ tr, WithdrawsIdle t) :
    WindowInv limits tr w.state ∧ SameWindow limits w.state ∧
      w.state.agentWindowStartedAt ≤ w.now := by
  refine hrun.history
    (I := fun tr w => WindowInv limits tr w.state ∧ SameWindow limits w.state ∧
      w.state.agentWindowStartedAt ≤ w.now)
    (P := fun t => SameWindow limits t.post.state ∧ WithdrawsIdle t)
    (fun t ht => ⟨hlimits t ht, hidle t ht⟩) ⟨Metered.nil, hstart, hclock⟩ ?_
  intro tr w tx w' hstep ih hs
  obtain ⟨hinv, hsame, hclock⟩ := ih
  exact ⟨hinv.next hsame hclock hstep.2 hs, hstep.1, LemonVault.clock_le_now hclock hs⟩

/-- **The cap over every window, where the decay stays idle.** With the cap and the
window constant along a run from a reachable state, and every withdrawal in it finding
the proportional decay idle, no interval of one window's length carries more than the
cap. -/
theorem window_cap_of_decay_idle (hw₀ : Reachable v w₀) (hrun : Run v.next w₀ tr w)
    (hlimits : ∀ t ∈ tr, SameWindow w₀.state.limits.val t.post.state)
    (hidle : ∀ t ∈ tr, WithdrawsIdle t) (lo : Nat) :
    within (withdrawals tr) lo w₀.state.limits.val.agentWithdrawWindow ≤
      w₀.state.limits.val.agentWithdrawWindowCap :=
  (WindowInv.run (reachable_clock_le_now hw₀) ⟨rfl, rfl⟩ hrun hlimits hidle).1.capped lo

/-- The whole cap, and half an hour later half the cap again. -/
def halfHourApart : List Tx :=
  [Test.tx Test.alice 0 (.deposit (1000 * 10 ^ 6) Test.alice),
   Test.tx Test.agent 0 (.agentWithdraw (100 * 10 ^ 6)),
   Test.tx Test.agent 1800 (.agentWithdraw (50 * 10 ^ 6))]

theorem halfHourApart_isSome : (trace (Test.lemonVault Test.conservativeRisk).next
    (Test.world Test.hourlyCap Test.conservativeRisk) halfHourApart).isSome := by rfl

/-- A hundred and fifty leave inside one hour of a hundred's cap. -/
theorem window_cap_exceeded_half_hour_apart :
    ¬ ∀ (v : LemonVault) (w₀ w : World) (tr : List (Transition World Tx)), Reachable v w₀ →
      Run v.next w₀ tr w → (∀ t ∈ tr, SameWindow w₀.state.limits.val t.post.state) →
      ∀ lo, within (withdrawals tr) lo w₀.state.limits.val.agentWithdrawWindow ≤
        w₀.state.limits.val.agentWithdrawWindowCap := by
  intro h
  have hrun := Test.run_after halfHourApart_isSome
  exact absurd (h _ _ _ _ ⟨_, [], Test.testGenesis _ _, .nil⟩ hrun (by decide) year) (by decide)

/-- The same two withdrawals a whole hour apart. -/
def hourApart : List Tx :=
  [Test.tx Test.alice 0 (.deposit (1000 * 10 ^ 6) Test.alice),
   Test.tx Test.agent 0 (.agentWithdraw (100 * 10 ^ 6)),
   Test.tx Test.agent 3600 (.agentWithdraw (50 * 10 ^ 6))]

theorem hourApart_isSome : (trace (Test.lemonVault Test.conservativeRisk).next
    (Test.world Test.hourlyCap Test.conservativeRisk) hourApart).isSome := by rfl

theorem window_cap_of_decay_idle_hour_apart :
    within (withdrawals (Test.transitions Test.hourlyCap Test.conservativeRisk _ hourApart_isSome))
      (year + 1) 3600 ≤ 100 * 10 ^ 6 :=
  window_cap_of_decay_idle ⟨_, [], Test.testGenesis _ _, .nil⟩
    (Test.run_after hourApart_isSome) (by decide) (by decide) (year + 1)

end LemonVault

end LemonMarket
