import LemonMarket.Agent.IdleReturn

/-!
# LemonMarket.Agent.Buffer

**The margin held back, and what the venue holds back.** The policy (`bufferMargin`) and
the adapter (`retainedMargin`) keep what a position needs at the leverage it is sized at,
less what the venue has reserved already. Both take the reservation to be the whole
notional, as it is at the venue's 1x. But a deployment sets the venue's leverage to the
sizing leverage rounded up to a whole number, and the venue reserves the notional over
that.

At 1x and below the two agree, and at a whole leverage the venue's reservation is the
sizing margin itself. In between, the venue reserves less, and the difference reads as
free: it is spent on more hedge, or sent home.
-/

namespace LemonMarket

namespace Agent

open Lib
open LemonVault (bps)

/-- The whole leverage a deployment sets at the venue. -/
def venueLeverage (leverageBps : Nat) : Nat := max 1 ((leverageBps + (bps - 1)) / bps)

/-- The free balance read of a venue that reserves the notional over its leverage. -/
def freeMargin (equity : Int) (notional leverage : Nat) : Nat :=
  (round (max 0 ((equity : ℚ) - notional / leverage))).toNat

variable {cfg : Settings} {s : VaultSnapshot} {d : Decision} {now : Nat}

/-- **The buffer is neither spent nor sent home**, for a profile under some settings: not
by the deployment offered against margin already at the venue, and not by what a partial
unwind withdraws. -/
structure BuffersKept (cfg : Settings) (risk : ValidRiskProfile) : Prop where
  deployed : ∀ (s : VaultSnapshot) (now : Nat) (d : Decision) (spot : Nat), s.risk = risk →
    0 < s.perpNotionalUsdc →
    s.unallocatedMargin = freeMargin s.perpEquityUsdc s.perpNotionalUsdc
      (venueLeverage (sizingLeverageBps cfg risk.val)) →
    d ∈ permittedActions cfg s now → d.kind = .deploy → d.fundedFrom = some .agent →
    d.legs = some ⟨spot, 0⟩ →
    ((s.perpNotionalUsdc + spot : Nat) : Int) * bps ≤
      sizingLeverageBps cfg risk.val * (s.perpEquityUsdc + 1)
  withdrawn : ∀ (venue : Venue) (equity : Int) (row : Row),
    0 < (venue.legs.map retainedNotional).sum →
    venue.availableToWithdraw = some (freeMargin equity (venue.legs.map retainedNotional).sum
      (venueLeverage (sizingLeverageBps cfg risk.val))) →
    row ∈ (repatriateMargin venue false (some (sizingLeverageBps cfg risk.val)) {}).2.activity →
    row.kind = .venueWithdraw →
    (((venue.legs.map retainedNotional).sum : Nat) : Int) * bps ≤
      (equity - row.baseAmount + 1) * sizingLeverageBps cfg risk.val

/-! ### What is offered and what is withdrawn -/

/-- A deployment on the list is the next one. -/
theorem nextDeployment_of_offered (h : d ∈ permittedActions cfg s now) (hkind : d.kind = .deploy) :
    nextDeployment cfg s = some d := by
  rcases growth_of_offered h (.inl hkind) with h | h
  · exact h
  · obtain ⟨_, -, -, rfl⟩ := mem_rebalances.mp h
    cases hkind

/-- Only a split of nothing leaves nothing for margin. -/
theorem splitDeployment_perpMargin_pos {total l : Nat} (h : 0 < total) :
    0 < (splitDeployment total l).perpMargin := by
  have hlt : total * l / (l + bps) < total := by
    apply Nat.div_lt_of_lt_mul
    rw [Nat.mul_comm total, Nat.add_mul]
    exact Nat.lt_add_of_pos_right (Nat.mul_pos (by decide) h)
  exact Nat.sub_pos_of_lt hlt

/-- A deployment without margin of its own is built on the spare margin at the venue. -/
theorem spareMargin_of_marginless {spot : Nat} (h : nextDeployment cfg s = some d)
    (hfunded : d.fundedFrom = some .agent) (hlegs : d.legs = some ⟨spot, 0⟩) :
    0 < spareMargin cfg s ∧
      spot * bps ≤ spareMargin cfg s * sizingLeverageBps cfg s.risk.val := by
  obtain ⟨source, hsource, hne, market, hmarket, h⟩ := nextDeployment_some h
  obtain ⟨spend, legs, hspend, -, hsplit, rfl⟩ := openPosition_some h
  obtain rfl := Option.some.inj hlegs
  have hroom : 0 < spend :=
    hspend ▸ lt_min (mem_candidates.mp hmarket).2.2.2 (Nat.pos_of_ne_zero hne)
  have hmarginless : source.legs.perpMargin = 0 ∧ spot = spend := by
    split at hsplit
    next hzero => exact ⟨hzero, (DeploymentLegs.mk.inj hsplit).1⟩
    next =>
      have hsizing : 0 < sizingLeverageBps cfg s.risk.val := sizing_pos s.risk
      have hpos := splitDeployment_perpMargin_pos (l := sizingLeverageBps cfg s.risk.val)
        (hroom.trans_le (le_deploymentFor hsizing spend))
      rw [← hsplit] at hpos
      exact absurd hpos (Nat.lt_irrefl 0)
  simp only [deploymentSources, List.mem_append, List.mem_ite_nil_right,
    List.mem_singleton] at hsource
  -- Idle USDC is split with a part for margin, and the vault's is not the agent's.
  obtain ((⟨⟨-, hspare⟩, rfl⟩ | ⟨hidle, rfl⟩) | ⟨-, rfl⟩) := hsource
  · refine ⟨hspare, ?_⟩
    have hle : spot ≤ spareMargin cfg s * sizingLeverageBps cfg s.risk.val / bps := by
      rw [hmarginless.2, hspend]
      exact (min_le_right _ _).trans (min_le_right _ _)
    exact (Nat.le_div_iff_mul_le (by decide)).mp hle
  · exact absurd hmarginless.1 (Nat.ne_of_gt (splitDeployment_perpMargin_pos hidle))
  · cases hfunded

/-- The rows of margin that is withdrawn and sent home: what came of it follows the
withdrawal. -/
theorem withdrawHome_activity (venue : Venue) {w : Nat} (hw : 0 < w) :
    ((do Effect.onlyIf (w > 0) (withdrawMargin venue w)
         bridgeHome venue (w + 0) : Adapter Nat) {}).2.activity =
      if venue.withdraws then
        ⟨.venueWithdraw, .solana, "USDC", w, w, 0⟩ ::
          (venue.toBase w).toList.map fun landed =>
            ⟨.bridgeOut, .solana, "USDC", w, w, w - landed⟩
      else [] := by
  rw [Effect.onlyIf, if_pos hw, Nat.add_zero]
  cases hwithdraws : venue.withdraws with
  | false =>
      have hstop : withdrawMargin venue w ({} : Trip) =
          (.error ⟨.withdrawalRejected, none⟩, {}) := by
        rw [withdrawMargin, hwithdraws]
        rfl
      rw [Effect.bind_of_error hstop]
      rfl
  | true =>
      have hpushed : withdrawMargin venue w ({} : Trip) =
          (.ok (), { activity := [⟨.venueWithdraw, .solana, "USDC", w, w, 0⟩] }) := by
        rw [withdrawMargin, hwithdraws]
        rfl
      rw [Effect.bind_of_ok hpushed, bridgeHome]
      cases venue.toBase w <;> rfl

/-- A partial unwind reads the free balance, and leaves the buffer. -/
theorem repatriateMargin_eq {venue : Venue} {available l : Nat}
    (havailable : venue.availableToWithdraw = some available) :
    repatriateMargin venue false (some l) {} =
      if available - retainedMargin venue l = 0 then (.ok 0, {})
      else (do
        Effect.onlyIf (available - retainedMargin venue l > 0)
          (withdrawMargin venue (available - retainedMargin venue l))
        bridgeHome venue (available - retainedMargin venue l + 0) : Adapter Nat) {} := by
  have hread : (Effect.expect ⟨.marginUnread, none⟩ venue.availableToWithdraw : Adapter Nat) {} =
      (.ok available, {}) := by
    rw [havailable]
    rfl
  unfold repatriateMargin
  rw [Effect.bind_of_ok hread]
  simp only [Option.map_some, Option.getD_some, Bool.false_eq_true, if_false, and_true]
  split <;> rfl

/-- What a partial unwind withdraws is what is free beyond the buffer. -/
theorem withdrawn_eq {venue : Venue} {available l : Nat} {row : Row}
    (havailable : venue.availableToWithdraw = some available)
    (h : row ∈ (repatriateMargin venue false (some l) {}).2.activity)
    (hkind : row.kind = .venueWithdraw) :
    0 < available - retainedMargin venue l ∧
      row.baseAmount = available - retainedMargin venue l := by
  rw [repatriateMargin_eq havailable] at h
  split at h
  next => cases h
  next hpos =>
    rw [withdrawHome_activity venue (Nat.pos_of_ne_zero hpos)] at h
    split at h
    next =>
      rcases List.mem_cons.mp h with rfl | h
      · exact ⟨Nat.pos_of_ne_zero hpos, rfl⟩
      · obtain ⟨landed, -, rfl⟩ := List.mem_map.mp h
        cases hkind
    next => cases h

/-! ### Where the two agree -/

/-- The sizing leverages at which the venue reserves what the policy takes it to. -/
def ReservesAsSized (leverageBps : Nat) : Prop := leverageBps ≤ bps ∨ bps ∣ leverageBps

instance (leverageBps : Nat) : Decidable (ReservesAsSized leverageBps) :=
  inferInstanceAs (Decidable (_ ∨ _))

/-- What is kept back of a notional beyond the notional itself. -/
def heldBack (notional leverageBps : Nat) : Nat := notional * bps / leverageBps - notional

theorem bufferMargin_eq (hopen : 0 < s.perpNotionalUsdc) :
    bufferMargin cfg s = heldBack s.perpNotionalUsdc (sizingLeverageBps cfg s.risk.val) := by
  simp only [bufferMargin, ite_gt_sub, requiredMargin, if_neg (Nat.ne_of_gt hopen), heldBack]

theorem retainedMargin_eq {venue : Venue} {l : Nat}
    (hopen : 0 < (venue.legs.map retainedNotional).sum) :
    retainedMargin venue l = heldBack (venue.legs.map retainedNotional).sum l := by
  simp only [retainedMargin, if_neg (Nat.ne_of_gt hopen), ite_gt_sub, heldBack]

theorem venueLeverage_of_le {l : Nat} (h : l ≤ bps) : venueLeverage l = 1 := by
  simp only [venueLeverage, bps] at h ⊢
  omega

theorem venueLeverage_mul {k : Nat} (h : 0 < k) : venueLeverage (bps * k) = k := by
  simp only [venueLeverage, bps]
  omega

theorem freeMargin_one (equity : Int) (notional : Nat) :
    freeMargin equity notional 1 = (equity - notional).toNat := by
  have hwhole : max 0 ((equity : ℚ) - notional / (1 : Nat)) =
      ((max 0 (equity - notional) : Int) : ℚ) := by
    push_cast
    rw [div_one]
  rw [freeMargin, hwhole, round_intCast]
  omega

/-- The free balance at a whole leverage is the margin beyond it, to half a unit. -/
theorem freeMargin_mul_le {equity : Int} {notional k : Nat} (hk : 0 < k)
    (hpos : 0 < freeMargin equity notional k) :
    2 * ((freeMargin equity notional k : Int) * k + notional) ≤ 2 * (equity * k) + k := by
  have hround := round_le_add_half (max 0 ((equity : ℚ) - notional / k))
  unfold freeMargin at hpos ⊢
  have hnonneg : 0 < round (max 0 ((equity : ℚ) - notional / k)) := by omega
  rw [Int.toNat_of_nonneg hnonneg.le]
  have hfree : max 0 ((equity : ℚ) - notional / k) = (equity : ℚ) - notional / k := by
    apply max_eq_right
    by_contra hneg
    rw [max_eq_left (le_of_not_ge hneg), round_zero] at hnonneg
    exact lt_irrefl 0 hnonneg
  rw [hfree] at hround ⊢
  have hkq : (0 : ℚ) < k := by exact_mod_cast hk
  have hscaled := mul_le_mul_of_nonneg_right hround hkq.le
  have hq : (2 : ℚ) * ((round ((equity : ℚ) - notional / k) : ℚ) * k + notional) ≤
      2 * (equity * k) + k := by
    have hcancel : (notional : ℚ) / k * k = notional := div_mul_cancel₀ _ hkq.ne'
    rw [add_mul, sub_mul, hcancel] at hscaled
    linarith
  exact_mod_cast hq

/-- **Free margin beyond what is held back.** Where the venue reserves as sized, spending
it at the sizing leverage, or taking it away, leaves the notional within the leverage. -/
theorem within_of_reserves {equity : Int} {notional l : Nat} (hl : 0 < l)
    (hreserves : ReservesAsSized l) (hpos : 0 < freeMargin equity notional (venueLeverage l) -
      heldBack notional l) :
    (notional : Int) * bps + ((freeMargin equity notional (venueLeverage l) -
      heldBack notional l : Nat) : Int) * l ≤ l * (equity + 1) := by
  rcases Nat.lt_or_ge bps l with hlarge | hsmall
  · -- A whole leverage above one: nothing is held back, and the venue reserves the margin.
    obtain ⟨k, rfl⟩ := hreserves.resolve_left (Nat.not_le.mpr hlarge)
    have hk : 0 < k := Nat.pos_of_mul_pos_left hl
    have hnone : heldBack notional (bps * k) = 0 := by
      rw [heldBack, Nat.mul_comm bps k, Nat.mul_div_mul_right _ _ (by decide : 0 < bps)]
      exact Nat.sub_eq_zero_of_le (Nat.div_le_self _ _)
    rw [hnone, Nat.sub_zero, venueLeverage_mul hk] at hpos ⊢
    have hfree := freeMargin_mul_le hk hpos
    have hkz : (0 : Int) ≤ k := Int.natCast_nonneg k
    simp only [bps]
    push_cast
    linarith
  · -- At most one: the venue reserves the notional, and the rest is held back.
    rw [venueLeverage_of_le hsmall, freeMargin_one] at hpos ⊢
    have hrequired : notional ≤ notional * bps / l :=
      (Nat.le_div_iff_mul_le hl).mpr (Nat.mul_le_mul_left _ hsmall)
    have hlt : notional * bps < (notional * bps / l + 1) * l := Nat.lt_mul_of_div_lt (by omega) hl
    unfold heldBack at hpos ⊢
    generalize notional * bps / l = required at *
    have hequity : (((equity - notional).toNat - (required - notional) : Nat) : Int) =
        equity - required := by omega
    rw [hequity]
    have hltz : (notional : Int) * bps < (required + 1) * l := by exact_mod_cast hlt
    linarith

/-! ### Where they do not -/

/-- A venue with one open short worth `notional`, backed by as much equity. -/
def backedVenue (notional leverage : Nat) : Venue :=
  { openVenue 0 0 with
    legs := (openVenue 0 0).legs.map fun leg =>
      { leg with position := 1, mark := some (notional / 10 ^ 6) }
    availableToWithdraw := some (freeMargin notional notional leverage) }

theorem backedVenue_notional (leverage : Nat) {notional : Nat} (h : 0 < notional) :
    ((backedVenue notional leverage).legs.map retainedNotional).sum = notional := by
  have hmark : ¬ ((notional : ℚ) / 10 ^ 6 ≤ 0) := by
    have hq : (0 : ℚ) < notional := by exact_mod_cast h
    exact not_le.mpr (div_pos hq (by norm_num))
  have hvalue : (notional : ℚ) / 10 ^ 6 * 1000000 = (notional : ℚ) := by ring
  simp only [backedVenue, openVenue, List.map_cons, List.map_nil, List.sum_cons, List.sum_nil,
    retainedNotional, Option.orElse_some, Option.getD_some, abs_one, hmark, or_false, one_mul,
    hvalue, round_natCast, Int.toNat_natCast, Nat.add_zero]
  norm_num

/-- A whole number of the venue's leverage is free down to its quotient. -/
theorem freeMargin_backed {k m : Nat} (hk : 0 < k) :
    freeMargin ((k * m : Nat) : Int) (k * m) k = k * m - m := by
  have hkq : (k : ℚ) ≠ 0 := by exact_mod_cast hk.ne'
  have hle : m ≤ k * m := Nat.le_mul_of_pos_left m hk
  have hwhole : max 0 ((((k * m : Nat) : Int) : ℚ) - ((k * m : Nat) : ℚ) / k) =
      ((k * m - m : Nat) : ℚ) := by
    have hquot : ((k * m : Nat) : ℚ) / k = m := by
      push_cast
      exact mul_div_cancel_left₀ _ hkq
    rw [hquot, Nat.cast_sub hle, Int.cast_natCast]
    exact max_eq_right (sub_nonneg.mpr (by exact_mod_cast hle))
  rw [freeMargin, hwhole, round_natCast]
  rfl

/-- Between whole leverages above one, the venue's is strictly above the sizing leverage. -/
theorem lt_venueLeverage {l : Nat} (h : ¬ ReservesAsSized l) :
    bps < l ∧ 1 < venueLeverage l ∧ l < venueLeverage l * bps := by
  obtain ⟨hlarge, hwhole⟩ := not_or.mp h
  have hmod : l % bps ≠ 0 := fun hz => hwhole (Nat.dvd_of_mod_eq_zero hz)
  simp only [venueLeverage, bps] at hmod hlarge ⊢
  omega

/-- There, a notional of `l + 1` times the venue's leverage holds nothing back, and an
unwind withdraws all that is free. -/
theorem backedVenue_withdraws {k l : Nat} (hk : 1 < k) (hl : bps < l) :
    (⟨.venueWithdraw, .solana, "USDC", k * (l + 1) - (l + 1), k * (l + 1) - (l + 1), 0⟩ : Row) ∈
      (repatriateMargin (backedVenue (k * (l + 1)) k) false (some l) {}).2.activity := by
  have hopen : 0 < k * (l + 1) := Nat.mul_pos (Nat.lt_of_succ_lt hk) (Nat.succ_pos l)
  have hsum := backedVenue_notional k hopen
  -- at a leverage above one nothing is held back
  have hnone : heldBack (k * (l + 1)) l = 0 := by
    apply Nat.sub_eq_zero_of_le
    apply Nat.div_le_of_le_mul
    rw [Nat.mul_comm l]
    exact Nat.mul_le_mul_left _ (Nat.le_of_lt hl)
  have hwithdrawable : 0 < k * (l + 1) - (l + 1) := by
    have hmore : (l + 1) * 1 < (l + 1) * k := Nat.mul_lt_mul_of_pos_left hk (Nat.succ_pos l)
    rw [Nat.mul_comm k]
    omega
  have havailable : (backedVenue (k * (l + 1)) k).availableToWithdraw =
      some (k * (l + 1) - (l + 1)) :=
    congrArg some (freeMargin_backed (m := l + 1) (Nat.lt_of_succ_lt hk))
  have hretained : retainedMargin (backedVenue (k * (l + 1)) k) l = 0 := by
    rw [retainedMargin_eq (hsum.symm ▸ hopen), hsum, hnone]
  rw [repatriateMargin_eq havailable, hretained, Nat.sub_zero,
    if_neg (Nat.ne_of_gt hwithdrawable), withdrawHome_activity _ hwithdrawable]
  exact List.mem_cons_self

/-- Between whole leverages an unwind sends part of the buffer home. -/
theorem not_buffersKept {risk : ValidRiskProfile}
    (h : ¬ ReservesAsSized (sizingLeverageBps cfg risk.val)) : ¬ BuffersKept cfg risk := by
  intro hkept
  have hwithdrawn := hkept.withdrawn
  generalize sizingLeverageBps cfg risk.val = l at h hwithdrawn
  obtain ⟨hlarge, hkone, hk⟩ := lt_venueLeverage h
  generalize venueLeverage l = k at hkone hk hwithdrawn
  -- A notional of `l + 1` times that leverage, backed by as much equity, of which all but
  -- `l + 1` is withdrawn.
  have hopen : 0 < k * (l + 1) := Nat.mul_pos (Nat.lt_of_succ_lt hkone) (Nat.succ_pos l)
  have hsum := backedVenue_notional k hopen
  have hfree : (backedVenue (k * (l + 1)) k).availableToWithdraw = some (freeMargin
      ((k * (l + 1) : Nat) : Int) ((backedVenue (k * (l + 1)) k).legs.map retainedNotional).sum
      k) := by
    rw [hsum]
    rfl
  have hbound := hwithdrawn _ ((k * (l + 1) : Nat) : Int) _ (hsum.symm ▸ hopen) hfree
    (backedVenue_withdraws hkone hlarge) rfl
  rw [hsum] at hbound
  have hle : l + 1 ≤ k * (l + 1) := Nat.le_mul_of_pos_left _ (Nat.lt_of_succ_lt hkone)
  have hleft : ((k * (l + 1) : Nat) : Int) - ((k * (l + 1) - (l + 1) : Nat) : Int) = l + 1 := by
    rw [Nat.cast_sub hle]
    push_cast
    ring
  simp only [hleft] at hbound
  push_cast at hbound
  have hkz : (l : Int) + 1 ≤ k * bps := by exact_mod_cast hk
  have hscaled : ((l : Int) + 1) * (l + 1) ≤ k * bps * (l + 1) :=
    mul_le_mul_of_nonneg_right hkz (by omega)
  linarith

/-- **Where the buffer is kept.** For a profile under some settings, deployments against
margin at the venue and partial unwinds keep the account within the leverage it is sized
at, whatever is open and whatever backs it, if and only if that leverage is at most one or
a whole number. -/
theorem buffersKept_iff (cfg : Settings) (risk : ValidRiskProfile) :
    BuffersKept cfg risk ↔ ReservesAsSized (sizingLeverageBps cfg risk.val) := by
  constructor
  · intro hkept
    exact not_not.mp fun hnot => not_buffersKept hnot hkept
  · intro hreserves
    have hsizing : 0 < sizingLeverageBps cfg risk.val := sizing_pos risk
    constructor
    -- a deployment takes of the margin to spare
    · rintro s now d spot rfl hopen hfree hd hkind hfunded hlegs
      obtain ⟨hspare, hspot⟩ :=
        spareMargin_of_marginless (nextDeployment_of_offered hd hkind) hfunded hlegs
      have hspareEq : spareMargin cfg s = freeMargin s.perpEquityUsdc s.perpNotionalUsdc
          (venueLeverage (sizingLeverageBps cfg s.risk.val)) -
            heldBack s.perpNotionalUsdc (sizingLeverageBps cfg s.risk.val) := by
        simp only [spareMargin, ite_gt_sub, hfree, bufferMargin_eq hopen]
      rw [hspareEq] at hspare hspot
      have hwithin := within_of_reserves hsizing hreserves hspare
      have hspotz := Int.ofNat_le.mpr hspot
      push_cast at hspotz hwithin ⊢
      linarith
    -- a partial unwind withdraws what the retained margin leaves
    · intro venue equity row hopen havailable hrow hkind
      obtain ⟨hpos, hamount⟩ := withdrawn_eq havailable hrow hkind
      rw [retainedMargin_eq hopen] at hpos hamount
      have hwithin := within_of_reserves hsizing hreserves hpos
      rw [hamount]
      linarith

/-- A vault sized at one and a half, with a thousand USDC short and as much behind it. -/
def halfReserved : VaultSnapshot where
  risk := ⟨⟨.leveraged, 15000, 30000⟩, by decide⟩
  freeAssets := 0
  totalAssets := 2800000000
  deployedAssets := 2800000000
  maxDeployedBps := 9000
  withdrawWindowRemaining := 0
  idleOnBase := 800000000
  unallocatedMargin := 500000000
  perpNotionalUsdc := 1000000000
  perpEquityUsdc := 1000000000
  ripeRedeemAssets := 0
  pendingRedeemAssets := 0
  earliestDeadline := none
  markets := [{ Test.nvda with spotValueUsdc := 1000000000 }]
  closeRequested := false
  rebalanceDriftBps := 0
  venueWithdrawalFeeUsdc := 0

/-- What the policy offers it: three quarters of the notional, bought against the half the
venue reads as free. -/
def halfReservedOffer : Decision where
  kind := .deploy
  amount := 750000000
  market := some "NVDA"
  fundedFrom := some .agent
  legs := some ⟨750000000, 0⟩

/-- That is 1750 short on a thousand, at a leverage of one and a half. -/
theorem buffer_spent_between_whole_leverages :
    ¬ ∀ (cfg : Settings) (risk : ValidRiskProfile), BuffersKept cfg risk := by
  intro h
  have hfree : halfReserved.unallocatedMargin = freeMargin halfReserved.perpEquityUsdc
      halfReserved.perpNotionalUsdc
      (venueLeverage (sizingLeverageBps Settings.default halfReserved.risk.val)) := by
    decide +kernel
  have hoffered : halfReservedOffer ∈ permittedActions Settings.default halfReserved 0 := by
    decide +kernel
  have hkept := (h Settings.default halfReserved.risk).deployed halfReserved 0 _ 750000000 rfl
    (by decide) hfree hoffered rfl rfl rfl
  exact absurd hkept (by decide)

end Agent

end LemonMarket
