import LemonMarket.Agent.Bridge

/-!
# LemonMarket.Agent.InFlight

**USDC counts once while it crosses, where every call ends with a truthful row.**
`createRelayBridge` rebuilds the counter each tick from the rows that are pending or
sent, and `awaitFill` means a crossing that timed out to stay counted "until it lands".
But nothing outside the call that opened a row ever closes it: a fill or a refund that
comes after a timeout or a crash leaves the row open, and the amount counts twice from
then on. In the same way a row is left open by a settling write that does not go
through or by a crash before the send, and closed too early by a receipt that is lost
after the money left.

`careful` is the condition on a step under which none of this happens.
`crossings_counted_once_of_careful` is the property over runs of careful steps, with
crashes, lost transactions and failed reads among them.
-/

namespace LemonMarket

namespace Agent

namespace Bridge

open Lib

variable {s s' : State} {a : Act} {id : Nat} {c : Crossing}

/-! ### What a change of one row does -/

theorem accounted_settle (s : State) (id : Nat) (status : TransferStatus) (written : Bool) :
    (s.settle id status written).accounted = s.accounted := by
  have hair : (s.settle id status written).airborne = s.airborne := by
    cases written with
    | false => rfl
    | true => exact rowsTotal_modify_of_same _ fun _ => ⟨rfl, rfl⟩
  rw [State.accounted, hair]
  rfl

theorem accounted_record (s : State) (d : Direction) (n : Nat) :
    (s.record d n).accounted = s.accounted := by
  have hair : (s.record d n).airborne = s.airborne := rowsTotal_append_of_not rfl
  rw [State.accounted, hair]
  rfl

theorem airborne_moveTo (hc : s.crossings[id]? = some c) (money : Whereabouts) :
    (s.moveTo id money).airborne + (if c.money = .inAir then c.amountUsdc else 0) =
      s.airborne + (if money = .inAir then c.amountUsdc else 0) := by
  have hchange := rowsTotal_modify (p := Crossing.inAir) (w := Crossing.amountUsdc)
    ({ · with money := money }) hc
  simpa [Crossing.inAir, State.airborne, State.moveTo] using hchange

/-- Out of a wallet, into the air. -/
theorem accounted_leaves (wallet : Wallet) (hc : s.crossings[id]? = some c)
    (hout : c.money = .submitted) (hle : c.amountUsdc ≤ s.balance wallet) :
    ((s.debit wallet c.amountUsdc).moveTo id .inAir).accounted = s.accounted := by
  have hmove := airborne_moveTo hc .inAir
  simp only [hout, reduceCtorEq, ↓reduceIte, State.airborne, State.moveTo] at hmove
  cases wallet <;>
  · simp only [State.balance] at hle
    simp only [State.accounted, State.airborne, State.moveTo, State.debit]
    omega

/-- Out of the air, into a wallet, less what the relay keeps. -/
theorem accounted_lands {wallet : Wallet} {fee : Nat} {money : Whereabouts}
    (hc : s.crossings[id]? = some c) (hair : c.money = .inAir) (hfee : fee ≤ c.amountUsdc)
    (hmoney : money ≠ .inAir) :
    ({ (s.credit wallet (c.amountUsdc - fee)).moveTo id money with
      fees := s.fees + fee } : State).accounted = s.accounted := by
  have hmove := airborne_moveTo hc money
  simp only [hair, hmoney, ↓reduceIte, State.airborne, State.moveTo] at hmove
  cases wallet <;>
  · simp only [State.accounted, State.airborne, State.moveTo, State.credit]
    omega

/-- Between places that are not the air. -/
theorem airborne_grounded (money : Whereabouts) (hc : s.crossings[id]? = some c)
    (hout : c.money ≠ .inAir) (hmoney : money ≠ .inAir) :
    (s.moveTo id money).airborne = s.airborne := by
  simpa [hout, hmoney] using airborne_moveTo hc money

theorem accounted_grounded {money : Whereabouts} (hc : s.crossings[id]? = some c)
    (hout : c.money ≠ .inAir) (hmoney : money ≠ .inAir) :
    (s.moveTo id money).accounted = s.accounted := by
  rw [State.accounted, airborne_grounded money hc hout hmoney]
  rfl

theorem accounted_letGo {status : TransferStatus} {written : Bool}
    (h : s.letGo id status written = some s') :
    s'.accounted = s.accounted ∧ s'.drawn = s.drawn := by
  obtain ⟨c, -, rfl⟩ := Option.map_eq_some_iff.mp h
  exact ⟨accounted_settle s id status written, rfl⟩

/-- Nothing any step does loses or makes a dollar. -/
theorem step_accounted (h : step s a = some s') :
    s'.accounted + s.drawn = s.accounted + s'.drawn := by
  cases a with
  | start d amount insertion =>
      simp only [step, Option.ite_none_right_eq_some] at h
      cases insertion with
      | refused =>
          obtain ⟨-, h⟩ := h
          cases h
          rfl
      | recorded | unacknowledged =>
          obtain ⟨-, h⟩ := h
          cases h
          exact congrArg (· + s.drawn) (accounted_record s d amount)
  | send balanceRead =>
      obtain ⟨id, c, before, -, hc, hmoney, rfl⟩ := send_some h
      exact congrArg (· + s.drawn) (accounted_grounded hc (by simp [hmoney]) (by decide))
  | confirm written =>
      obtain ⟨id, before, -, rfl⟩ := confirm_some h
      exact congrArg (· + s.drawn) (accounted_settle s id .sent written)
  | fillSeen =>
      obtain ⟨id, before, -, rfl⟩ := fillSeen_some h
      rfl
  | sendFails written | failSeen written | arrives written =>
      obtain ⟨id, status, -, -, hgo⟩ := settles_some h rfl
      obtain ⟨hsame, hdrawn⟩ := accounted_letGo hgo
      omega
  | timeout | balanceTimeout =>
      obtain rfl := givesUp_some h rfl
      rfl
  | mined id =>
      obtain ⟨c, hc, hout, hle, rfl⟩ := mined_some h
      rw [accounted_leaves c.direction.origin hc hout hle]
      cases c.direction <;> rfl
  | reverted id =>
      obtain ⟨c, hc, hout, rfl⟩ := reverted_some h
      exact congrArg (· + s.drawn) (accounted_grounded hc (by simp [hout]) (by decide))
  | fills id fee | refunds id fee =>
      obtain ⟨c, wallet, money, hc, hair, hfee, hmoney, rfl⟩ := lands_some h rfl
      rw [accounted_lands hc hair hfee hmoney]
      cases wallet <;> rfl
  | _ =>
      -- what is left moves amounts between places, or none
      simp only [step, Option.ite_none_right_eq_some, Option.some.injEq] at h
      obtain ⟨hg, rfl⟩ := h
      simp only [State.accounted, State.airborne] <;> omega

/-! ### Careful steps -/

/-- **A step that keeps the rows truthful.** A read that fails loses nothing, an insertion
is answered for, a call ends with its row open exactly if the money is in the air, and
the money of a crossing moves only while the call that runs it does. -/
def careful (s : State) : Act → Bool
  | .tick rowsRead => rowsRead || s.airborne == 0
  | .observe solanaRead => (solanaRead || s.solana == 0) && s.settling == 0
  | .start _ _ insertion => insertion != .unacknowledged
  | .sendFails written | .failSeen written | .arrives written => written == !s.runningInAir
  | .timeout | .balanceTimeout | .crash => s.phase.crossing == none || s.runningInAir
  | .mined id | .fills id _ | .refunds id _ => s.phase.crossing == some id
  | _ => true

/-- The rows as they stand between two steps: all truthful, but for the one whose call is
under way, which is open. -/
structure Books (s : State) : Prop where
  truthful : ∀ id c, s.crossings[id]? = some c → s.phase.crossing ≠ some id → c.Truthful
  running : ∀ id c, s.crossings[id]? = some c → s.phase.crossing = some id → c.unfinished = true
  counted : s.phase = .seeded → s.inFlight = s.airborne

namespace Books

/-- With no call under way, the rows add up to what is in the air. -/
theorem pendingTotal (h : Books s) (hidle : s.phase.crossing = none) :
    s.pendingTotal = s.airborne := by
  apply rowsTotal_congr
  intro c hc
  obtain ⟨id, hid⟩ := List.mem_iff_getElem?.mp hc
  exact h.truthful id c hid (by simp [hidle])

/-- A step that touches no row and ends no call. -/
theorem stays (h : Books s) (hrows : s'.crossings = s.crossings)
    (hphase : s'.phase.crossing = s.phase.crossing)
    (hcounted : s'.phase = .seeded → s'.inFlight = s.airborne) : Books s' where
  truthful id c hc hne := h.truthful id c (hrows ▸ hc) (hphase ▸ hne)
  running id c hc he := h.running id c (hrows ▸ hc) (hphase ▸ he)
  counted hs := by rw [hcounted hs, State.airborne, State.airborne, hrows]

/-- A new row is open, under the call that made it. -/
theorem opens {c : Crossing} (h : Books s) (hidle : s.phase.crossing = none)
    (hrows : s'.crossings = s.crossings ++ [c]) (hopen : c.unfinished = true)
    (hphase : s'.phase.crossing = some s.crossings.length) (hnot : s'.phase ≠ .seeded) :
    Books s' where
  truthful id c hc hne := by
    rw [hrows] at hc
    rcases getElem?_of_insert hc with hc | ⟨rfl, -⟩
    · exact h.truthful id c hc (by simp [hidle])
    · exact absurd hphase hne
  running id c hc he := by
    obtain rfl : s.crossings.length = id := Option.some_inj.mp (hphase.symm.trans he)
    rw [hrows] at hc
    rcases getElem?_of_insert hc with hc | ⟨-, rfl⟩
    · simp at hc
    · exact hopen
  counted hs := absurd hs hnot

/-- A call that leaves its row behind, with the money in the air. -/
theorem abandons (h : Books s) (hrows : s'.crossings = s.crossings)
    (hair : s.phase.crossing = none ∨ s.runningInAir = true) (hphase : s'.phase.crossing = none)
    (hnot : s'.phase ≠ .seeded) : Books s' where
  truthful id c hc _ := by
    rw [hrows] at hc
    by_cases hrun : s.phase.crossing = some id
    · have hopen := h.running id c hc hrun
      simp only [State.runningInAir, hrun, Option.bind_some, hc, reduceCtorEq, false_or] at hair
      exact hopen.trans hair.symm
    · exact h.truthful id c hc hrun
  running id c _ he := by simp [hphase] at he
  counted hs := absurd hs hnot

/-- A call that settles its row exactly if the money is not in the air. -/
theorem letGo {status : TransferStatus} {written : Bool} (h : Books s)
    (hrun : s.phase.crossing = some id) (hstatus : status = .failed ∨ status = .complete)
    (hwritten : written = !s.runningInAir) (hgo : s.letGo id status written = some s') :
    Books s' := by
  obtain ⟨c, hc, rfl⟩ := Option.map_eq_some_iff.mp hgo
  have hair : s.runningInAir = c.inAir := by simp [State.runningInAir, hrun, hc]
  refine ⟨?_, fun _ _ _ he => by simp [Phase.crossing] at he, fun hs => by cases hs⟩
  intro id' c' hc' _
  obtain ⟨c₀, hc₀, rfl⟩ : ∃ c₀, s.crossings[id']? = some c₀ ∧
      c' = if written ∧ id = id' then { c₀ with status := status } else c₀ := by
    cases written with
    | false => exact ⟨c', hc', by simp⟩
    | true => simpa using getElem?_of_modify hc'
  by_cases hid : id = id'
  · subst hid
    obtain rfl : c = c₀ := Option.some_inj.mp (hc.symm.trans hc₀)
    cases written with
    | false =>
        -- the row is still open, and the money in the air
        have hopen := h.running _ _ hc hrun
        rw [hair] at hwritten
        simpa [Crossing.Truthful, hopen] using hwritten
    | true =>
        have hclosed : ({ c with status := status } : Crossing).unfinished = false := by
          rcases hstatus with rfl | rfl <;> rfl
        have hground : c.inAir = false := by simpa [hair] using hwritten
        rw [if_pos ⟨rfl, rfl⟩]
        exact hclosed.trans hground.symm
  · simpa [hid] using h.truthful id' c₀ hc₀ (by simpa [hrun] using hid)

/-- A change to a row that leaves its status, under the call that runs it or between
places that are not the air. -/
theorem changes {f : Crossing → Crossing} (h : Books s)
    (hrows : s'.crossings = s.crossings.modify id f)
    (hopen : ∀ c, s.crossings[id]? = some c → (f c).unfinished = c.unfinished)
    (hair : s.phase.crossing = some id ∨ ∀ c, s.crossings[id]? = some c → (f c).inAir = c.inAir)
    (hphase : s'.phase.crossing = s.phase.crossing)
    (hcounted : s'.phase = .seeded → s'.inFlight = s'.airborne) : Books s' := by
  refine ⟨?_, ?_, hcounted⟩
  -- another row is as it was; this one is as unfinished and as much in the air
  · intro id' c' hc' hne
    rw [hrows] at hc'
    rw [hphase] at hne
    obtain ⟨c₀, hc₀, rfl⟩ := getElem?_of_modify hc'
    have hold := h.truthful id' c₀ hc₀ hne
    by_cases hid : id = id'
    · subst hid
      have hsame := hair.resolve_left hne c₀ hc₀
      simpa [Crossing.Truthful, hopen c₀ hc₀, hsame] using hold
    · simpa [hid] using hold
  · intro id' c' hc' he
    rw [hrows] at hc'
    rw [hphase] at he
    obtain ⟨c₀, hc₀, rfl⟩ := getElem?_of_modify hc'
    have hold := h.running id' c₀ hc₀ he
    by_cases hid : id = id'
    · subst hid
      simpa [hopen c₀ hc₀] using hold
    · simpa [hid] using hold

/-- The money of the crossing being run gets somewhere. -/
theorem moves (h : Books s) (hrun : s.phase.crossing = some id) (money : Whereabouts)
    (hrows : s'.crossings = s.crossings.modify id ({ · with money := money }))
    (hphase : s'.phase = s.phase) : Books s' :=
  h.changes hrows (fun _ _ => rfl) (.inl hrun) (by rw [hphase]) fun hs => by
    rw [← hphase, hs] at hrun
    cases hrun

/-- **Every careful step keeps the books.** -/
theorem step (h : Books s) (hcareful : careful s a = true) (hs : step s a = some s') :
    Books s' := by
  cases a with
  | tick rowsRead =>
      simp only [Bridge.step, Option.ite_none_right_eq_some, Option.some.injEq] at hs
      obtain ⟨hphase, rfl⟩ := hs
      have hnone : s.phase.crossing = none := by simp [hphase, Phase.crossing]
      refine h.stays rfl hnone.symm fun _ => ?_
      cases rowsRead with
      | true => exact h.pendingTotal hnone
      | false =>
          simp only [careful, Bool.false_or, beq_iff_eq] at hcareful
          exact hcareful.symm
  -- a crossing is opened, sent and confirmed
  | start d amount insertion =>
      simp only [Bridge.step, Option.ite_none_right_eq_some] at hs
      obtain ⟨⟨hphase, -⟩, hs⟩ := hs
      cases insertion with
      | refused => cases hs; exact h
      | unacknowledged => simp [careful] at hcareful
      | recorded =>
          cases hs
          exact h.opens (by simp [hphase, Phase.crossing]) rfl rfl rfl (by simp)
  | send balanceRead =>
      obtain ⟨id, c, before, hphase, -, -, rfl⟩ := send_some hs
      exact h.changes rfl (fun _ _ => rfl) (.inl (by simp [hphase, Phase.crossing]))
        (by simp [hphase, Phase.crossing]) (by simp)
  | confirm written =>
      obtain ⟨id, before, hphase, rfl⟩ := confirm_some hs
      have hrun : s.phase.crossing = some id := by simp [hphase, Phase.crossing]
      cases written with
      | false => exact h.stays rfl hrun.symm (by simp)
      | true =>
          refine h.changes rfl ?_ (.inl hrun) hrun.symm (by simp)
          intro c hc
          exact (h.running id c hc hrun).symm
  | fillSeen =>
      obtain ⟨id, before, hphase, rfl⟩ := fillSeen_some hs
      exact h.stays rfl (by simp [hphase, Phase.crossing]) (by simp)
  -- the tick lets go of the crossing: settled in the table or, past the deadline, given up
  | sendFails written | failSeen written | arrives written =>
      obtain ⟨id, status, hrun, hstatus, hgo⟩ := settles_some hs rfl
      exact h.letGo hrun hstatus (by simpa [careful] using hcareful) hgo
  | timeout | balanceTimeout =>
      obtain rfl := givesUp_some hs rfl
      exact h.abandons rfl (by simpa [careful] using hcareful) rfl (by simp)
  | crash =>
      simp only [Bridge.step, Option.ite_none_right_eq_some, Option.some.injEq] at hs
      obtain ⟨-, rfl⟩ := hs
      exact h.abandons rfl (by simpa [careful] using hcareful) rfl (by simp)
  -- the money moves, and careful it is the crossing whose call is under way
  | mined id =>
      obtain ⟨c, -, -, -, rfl⟩ := mined_some hs
      exact h.moves (by simpa [careful] using hcareful) .inAir (by cases c.direction <;> rfl)
        (by cases c.direction <;> rfl)
  | fills id fee | refunds id fee =>
      obtain ⟨c, wallet, money, -, -, -, -, rfl⟩ := lands_some hs rfl
      exact h.moves (by simpa [careful] using hcareful) money (by cases wallet <;> rfl)
        (by cases wallet <;> rfl)
  | reverted id =>
      obtain ⟨c, hc, hout, rfl⟩ := reverted_some hs
      have hair := airborne_grounded .atOrigin hc (by simp [hout]) (by decide)
      refine h.changes rfl (fun _ _ => rfl) (.inr ?_) rfl ?_
      · intro c' hc'
        obtain rfl : c = c' := Option.some_inj.mp (hc.symm.trans hc')
        simp [Crossing.inAir, hout]
      · intro hp
        exact (h.counted hp).trans hair.symm
  -- no crossing is touched
  | restart | observe =>
      simp only [Bridge.step, Option.ite_none_right_eq_some, Option.some.injEq] at hs
      obtain ⟨hphase, rfl⟩ := hs
      exact h.stays rfl (by simp [hphase, Phase.crossing]) (by simp)
  | endTick =>
      simp only [Bridge.step, Option.ite_none_right_eq_some, Option.some.injEq] at hs
      obtain ⟨hphase, rfl⟩ := hs
      have hnone : s.phase.crossing = none := by
        rcases hphase with hphase | hphase <;> simp [hphase, Phase.crossing]
      exact h.stays rfl hnone.symm (by simp)
  | draw | giveBack | depositMargin | withdrawMargin | reachesVenue | reachesSolana =>
      simp only [Bridge.step, Option.ite_none_right_eq_some, Option.some.injEq] at hs
      obtain ⟨-, rfl⟩ := hs
      exact h.stays rfl rfl h.counted

end Books

/-! ### Runs -/

/-- At a valuation, what is between the chains is in flight and nothing else is, and the
total is what left the vault and has neither come back nor gone to a relay. -/
def CountedOnce (t : Transition State Act) : Prop :=
  ∀ solanaRead, t.label = .observe solanaRead →
    t.pre.inFlight = t.pre.airborne ∧
      t.pre.valuation solanaRead + t.pre.fees + t.pre.returned = t.pre.drawn

/-- What the agent starts from: no rows, nothing drawn. -/
def start : State := {}

theorem start_books : Books start where
  truthful _ _ hc := by simp [start] at hc
  running _ _ hc := by simp [start] at hc
  counted hs := by cases hs

/-- In every state of every run, careful or not, each dollar drawn is somewhere. -/
theorem run_accounted {tr : List (Transition State Act)} (h : Run step start tr s) :
    s.accounted = s.drawn ∧ ∀ t ∈ tr, t.pre.accounted = t.pre.drawn := by
  have hall := h.invariant (I := fun s => s.accounted = s.drawn) rfl fun s a s' hs hstep => by
    have := step_accounted hstep
    omega
  exact ⟨hall.1, fun t ht => (hall.2 t ht).1⟩

/-- **Counted exactly once.** In every run whose steps are all careful, every valuation
counts each dollar that has left the vault once, up to the relays' fees, with exactly
what is between the chains in flight. -/
theorem crossings_counted_once_of_careful {tr : List (Transition State Act)}
    (h : Run step start tr s) (hcareful : ∀ t ∈ tr, careful t.pre t.label = true) :
    ∀ t ∈ tr, CountedOnce t := by
  intro t ht solanaRead hlabel
  have hbooks := ((h.invariant_of hcareful start_books
    fun _ _ _ hc hb hs => hb.step hc hs).2 t ht).1
  have hsum := (run_accounted h).2 t ht
  have hstep := h.step_of_mem t ht
  have hread := hcareful t ht
  simp only [hlabel, step, Option.ite_none_right_eq_some] at hstep
  simp only [hlabel, careful, Bool.and_eq_true, Bool.or_eq_true, beq_iff_eq] at hread
  have hflight := hbooks.counted hstep.1
  have hsolana : (if solanaRead then t.pre.solana else 0) = t.pre.solana := by
    rcases hread.1 with hr | hr <;> simp [hr]
  refine ⟨hflight, ?_⟩
  simp only [State.accounted] at hsum
  simp only [State.valuation, hsolana, hflight]
  omega

/-- A hundred USDC cross to Solana and into the venue, half of it comes home, and the
crossing after that is given back by the relay; a crash finds nothing under way. -/
def completeCrossings : List Act :=
  [.tick true, .observe false, .draw (100 * 10 ^ 6),
   .start .toSolana (100 * 10 ^ 6) .recorded, .send true, .mined 0, .confirm false,
   .fills 0 50000, .fillSeen, .arrives true, .depositMargin 99950000, .reachesVenue 99950000,
   .endTick, .tick true, .observe true, .withdrawMargin (50 * 10 ^ 6),
   .reachesSolana (50 * 10 ^ 6), .start .toBase (50 * 10 ^ 6) .recorded, .send true, .mined 1,
   .confirm true, .refunds 1 0, .failSeen true, .crash, .restart, .tick true, .observe true]

theorem completeCrossings_isSome : (trace step start completeCrossings).isSome := by decide

/-- The run those steps take. -/
def completeRun : List (Transition State Act) :=
  ((trace step start completeCrossings).get completeCrossings_isSome).1

theorem crossings_counted_once_of_careful_complete :
    CountedOnce (completeRun.getLast (by decide)) :=
  crossings_counted_once_of_careful (trace_run (Option.some_get completeCrossings_isSome).symm)
    (by decide) _ (List.getLast_mem (by decide))

/-- A hundred USDC sent to Solana, given up on, and filled after the tick is over. -/
def lateFill : List Act :=
  [.tick true, .observe true, .draw (100 * 10 ^ 6),
   .start .toSolana (100 * 10 ^ 6) .recorded, .send true, .mined 0, .confirm true, .timeout,
   .endTick, .fills 0 50000, .tick true, .observe true]

theorem lateFill_isSome : (trace step start lateFill).isSome := by decide

/-- The next valuation counts it on Solana and in flight, 199.95 for 100. -/
theorem crossing_counted_twice_after_late_fill :
    ¬ ∀ (s : State) (tr : List (Transition State Act)), Run step start tr s →
      ∀ t ∈ tr, CountedOnce t := by
  intro h
  have hrun := trace_run (Option.some_get lateFill_isSome).symm
  have hlast := h _ _ hrun _ (List.getLast_mem (by decide)) true (by decide)
  exact absurd hlast.2 (by decide)

end Bridge

end Agent

end LemonMarket
