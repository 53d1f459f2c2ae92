import LemonMarket.Indexer.Index
import Mathlib.Data.List.Sort

/-!
# LemonMarket.Indexer.RedeemQueue

**The queue the agent works.** `GET /queue` lists the requests with something pending,
oldest first and no more than five hundred, and calls one ripe from its `eligibleAt` on.
The contract keeps no such date: it adds the delay now in force to the date of the request.
The index keeps the date the request was told with.

So the listing is always the contract's (`queue_lists`), and what it calls ripe is, as long
as the delay does not change while something is pending (`queue_is_contracts`): a row is
not rewritten when the operator changes the delay, and stays wrong until it is fulfilled or
topped up (`keepsDelay_of_dated`).
-/

namespace LemonMarket.Indexer

open Lib LemonVault

variable {v : LemonVault} {s : State} {db : Db} {w w₀ : World} {c : Address} {now : Nat}
  {row : RedeemRequestRow} {blocks : List (Block World Tx)}

/-! ### The endpoint -/

/-- The query, for one vault. Rows eligible at the same time are in no particular order. -/
def queueRows (db : Db) : List (Address × RedeemRequestRow) :=
  ((db.redeemRequest.rows.filter fun r => 0 < r.2.pendingShares).insertionSort
    fun a b => a.2.eligibleAt ≤ b.2.eligibleAt).take 500

structure QueueResponse where
  now : Nat
  ripe : List (Address × RedeemRequestRow)
  waiting : List (Address × RedeemRequestRow)
  overdue : List (Address × RedeemRequestRow)

/-- The answer at a time. -/
def queue (now : Nat) (db : Db) : QueueResponse :=
  let rows := queueRows db
  { now := now
    ripe := rows.filter fun r => r.2.eligibleAt ≤ now
    waiting := rows.filter fun r => r.2.eligibleAt > now
    overdue := rows.filter fun r => r.2.fulfillBy < now }

/-! ### What it lists -/

/-- At most so many controllers have shares pending. -/
def PendingAtMost (n : Nat) (s : State) : Prop :=
  ∃ controllers : List Address, controllers.length ≤ n ∧
    ∀ c, 0 < (s.redeem c).pendingShares → c ∈ controllers

/-- The limit cuts no row off where the rows selected are of few controllers. -/
theorem mem_queueRows (hreq : Mirrors db.redeemRequest s.redeem) (hfew : PendingAtMost 500 s) :
    (c, row) ∈ queueRows db ↔
      db.redeemRequest.lookup c = some row ∧ 0 < (s.redeem c).pendingShares := by
  obtain ⟨controllers, hlength, hall⟩ := hfew
  have hpending : ∀ {c row}, db.redeemRequest.lookup c = some row →
      row.pendingShares = (s.redeem c).pendingShares := by
    intro c row hrow
    rw [← hreq.pendingShares c, Table.column_of_lookup hrow]
  have hselected : ∀ {c row}, (c, row) ∈ (db.redeemRequest.rows.filter
        fun r => 0 < r.2.pendingShares) ↔
      db.redeemRequest.lookup c = some row ∧ 0 < (s.redeem c).pendingShares := by
    intro c row
    rw [List.mem_filter, Table.mem_rows]
    refine and_congr_right fun hrow => ?_
    simp [hpending hrow]
  -- the rows selected are of distinct controllers, all among the few
  have hnodup : ((db.redeemRequest.rows.filter fun r => 0 < r.2.pendingShares).map
      Prod.fst).Nodup := Table.nodup_rows.sublist (List.filter_sublist.map Prod.fst)
  have hsub : (db.redeemRequest.rows.filter fun r => 0 < r.2.pendingShares).map Prod.fst ⊆
      controllers := by
    intro c hc
    obtain ⟨⟨c, row⟩, hrow, rfl⟩ := List.mem_map.mp hc
    exact hall c (hselected.mp hrow).2
  have hfew : (db.redeemRequest.rows.filter fun r => 0 < r.2.pendingShares).length ≤ 500 := by
    have hle := (hnodup.subperm hsub).length_le
    rw [List.length_map] at hle
    exact hle.trans hlength
  rw [queueRows, List.take_of_length_le (by rwa [List.length_insertionSort]),
    List.mem_insertionSort]
  exact hselected

/-- Nobody is listed twice. -/
theorem nodup_queueRows (db : Db) : ((queueRows db).map Prod.fst).Nodup := by
  have hsorted := (db.redeemRequest.rows.filter fun r => 0 < r.2.pendingShares).perm_insertionSort
    fun a b => a.2.eligibleAt ≤ b.2.eligibleAt
  have hselected : ((db.redeemRequest.rows.filter fun r => 0 < r.2.pendingShares).map
      Prod.fst).Nodup := Table.nodup_rows.sublist (List.filter_sublist.map Prod.fst)
  exact ((hsorted.map Prod.fst).nodup_iff.mpr hselected).sublist
    ((List.take_sublist _ _).map Prod.fst)

/-- The contract's check of the delay: what `fulfillRedeem` reverts with
`RedeemDelayNotElapsed` without. -/
def DelayElapsed (s : State) (c : Address) (now : Nat) : Prop :=
  (s.redeem c).requestedAt + s.limits.val.minRedeemDelay ≤ now

instance (s : State) (c : Address) (now : Nat) : Decidable (DelayElapsed s c now) :=
  inferInstanceAs (Decidable (_ ≤ _))

/-- The endpoint lists the contract's queue: everyone with shares pending, with what is
pending. -/
structure Lists (db : Db) (s : State) : Prop where
  once : ((queueRows db).map Prod.fst).Nodup
  listed : ∀ c, c ∈ (queueRows db).map Prod.fst ↔ 0 < (s.redeem c).pendingShares
  amounts : ∀ c row, (c, row) ∈ queueRows db → row.pendingShares = (s.redeem c).pendingShares

/-- What it calls ripe at any time is what the contract's check lets through then. -/
def RipeAgrees (db : Db) (s : State) : Prop :=
  ∀ now c, c ∈ (queue now db).ripe.map Prod.fst ↔
    0 < (s.redeem c).pendingShares ∧ DelayElapsed s c now

theorem lists_of_mirrors (hreq : Mirrors db.redeemRequest s.redeem)
    (hfew : PendingAtMost 500 s) : Lists db s := by
  refine ⟨nodup_queueRows db, ?_, ?_⟩
  · intro c
    constructor
    · intro hc
      obtain ⟨⟨c, row⟩, hrow, rfl⟩ := List.mem_map.mp hc
      exact ((mem_queueRows hreq hfew).mp hrow).2
    · intro hpending
      obtain ⟨row, hrow⟩ := Table.exists_row (t := db.redeemRequest) (g := (·.pendingShares))
        (k := c) (by rw [hreq.pendingShares]; omega)
      exact List.mem_map.mpr ⟨(c, row), (mem_queueRows hreq hfew).mpr ⟨hrow, hpending⟩, rfl⟩
  · intro c row hrow
    obtain ⟨hlookup, -⟩ := (mem_queueRows hreq hfew).mp hrow
    rw [← hreq.pendingShares c, Table.column_of_lookup hlookup]

/-- **The listing is the contract's** after every run. -/
theorem queue_lists (hgenesis : Genesis v w₀) (hrun : BlockRun v.next w₀ blocks w)
    (hfew : PendingAtMost 500 w.state) (limits : Option Terms) (created : Nat) :
    ∃ db, index v (onVaultCreated limits created) blocks = some db ∧ Lists db w.state := by
  obtain ⟨db, hindex, hfollows⟩ := index_follows (follows_genesis limits created hgenesis) hrun
  exact ⟨db, hindex, lists_of_mirrors hfollows.requests hfew⟩

/-! ### When it calls them ripe -/

/-- Every pending request is eligible once the delay from its date is over. -/
def Dated (t : Table Address RedeemRequestRow) (redeem : Address → RedeemState) (delay : Nat) :
    Prop :=
  ∀ c row, t.lookup c = some row → 0 < (redeem c).pendingShares →
    row.eligibleAt = (redeem c).requestedAt + delay

theorem ripe_of_dated (hreq : Mirrors db.redeemRequest s.redeem) (hfew : PendingAtMost 500 s)
    (hdated : Dated db.redeemRequest s.redeem s.limits.val.minRedeemDelay) :
    RipeAgrees db s := by
  intro now c
  have hlisted := (lists_of_mirrors hreq hfew).listed c
  constructor
  · intro hc
    obtain ⟨⟨c, row⟩, hrow, rfl⟩ := List.mem_map.mp hc
    obtain ⟨hrow, hripe⟩ := List.mem_filter.mp hrow
    obtain ⟨hlookup, hpending⟩ := (mem_queueRows hreq hfew).mp hrow
    refine ⟨hpending, ?_⟩
    rw [DelayElapsed, ← hdated c row hlookup hpending]
    exact of_decide_eq_true hripe
  · rintro ⟨hpending, helapsed⟩
    obtain ⟨⟨c, row⟩, hrow, rfl⟩ := List.mem_map.mp (hlisted.mpr hpending)
    obtain ⟨hlookup, -⟩ := (mem_queueRows hreq hfew).mp hrow
    refine List.mem_map.mpr ⟨(c, row), List.mem_filter.mpr ⟨hrow, decide_eq_true ?_⟩, rfl⟩
    rw [DelayElapsed, ← hdated c row hlookup hpending] at helapsed
    exact helapsed

/-- What is called ripe says what the dates are. -/
theorem dated_of_ripe (hreq : Mirrors db.redeemRequest s.redeem) (hfew : PendingAtMost 500 s)
    (hripe : RipeAgrees db s) :
    Dated db.redeemRequest s.redeem s.limits.val.minRedeemDelay := by
  intro c row hlookup hpending
  have hcalled : ∀ now, row.eligibleAt ≤ now ↔ DelayElapsed s c now := by
    intro now
    constructor
    · intro hle
      have hrow := (mem_queueRows hreq hfew).mpr ⟨hlookup, hpending⟩
      exact ((hripe now c).mp (List.mem_map.mpr
        ⟨(c, row), List.mem_filter.mpr ⟨hrow, decide_eq_true hle⟩, rfl⟩)).2
    · intro helapsed
      obtain ⟨⟨c, row'⟩, hrow, rfl⟩ := List.mem_map.mp ((hripe now c).mpr ⟨hpending, helapsed⟩)
      obtain ⟨hrow, hle⟩ := List.mem_filter.mp hrow
      obtain ⟨hlookup', -⟩ := (mem_queueRows hreq hfew).mp hrow
      obtain rfl := Option.some.inj (hlookup.symm.trans hlookup')
      exact of_decide_eq_true hle
  exact Nat.le_antisymm ((hcalled _).mpr le_rfl) ((hcalled _).mp le_rfl)

/-- Neither a fulfilment nor a claim moves the dates. -/
theorem Dated.updated {t u : Table Address RedeemRequestRow} {redeem : Address → RedeemState}
    {delay : Nat} {f : RedeemRequestRow → RedeemRequestRow} {r : RedeemState}
    (h : Dated t redeem delay) (hu : t.update c f = some u)
    (hf : ∀ row, (f row).eligibleAt = row.eligibleAt)
    (hpending : 0 < r.pendingShares → 0 < (redeem c).pendingShares)
    (hat : r.requestedAt = (redeem c).requestedAt) :
    Dated u (Function.update redeem c r) delay := by
  intro c' row hrow hmore
  by_cases hc : c' = c
  · subst hc
    rw [Function.update_self] at hmore ⊢
    obtain ⟨old, hold, -⟩ := Table.update_eq_some.mp hu
    obtain rfl : f old = row :=
      Option.some.inj ((Table.lookup_update_self hold hu).symm.trans hrow)
    rw [hf, hat]
    exact h c' old hold (hpending hmore)
  · rw [Function.update_of_ne hc] at hmore ⊢
    exact h c' row ((Table.lookup_update_of_ne hc hu).symm.trans hrow) hmore

/-- **A told event keeps the dates**: it is told with the delay in force. -/
theorem Dated.tell {vault : Address} {read : Views} {delay : Nat} {msg : Msg} {call : Call}
    {k k' : Custody} {e : Option Event} {db' : Db} (h : Dated db.redeemRequest k.redeem delay)
    (htells : Tells vault delay msg call k e k')
    (hhandled : handleTold vault read now db e = some db') :
    Dated db'.redeemRequest k'.redeem delay := by
  cases htells with
  | silent _ _ redeem =>
      obtain rfl := Option.some.inj hhandled
      rwa [redeem]
  | reported _ rest =>
      rwa [(handleTold_plain rest hhandled).redeemRequest]
  -- a transfer touches no queue
  | moved _ _ _ _ _ redeem =>
      obtain rfl := Option.some.inj (handleTold_some.symm.trans hhandled)
      rw [onTransfer_rest, redeem]
      exact h
  | deposited _ redeem =>
      obtain rfl := Option.some.inj (handleTold_some.symm.trans hhandled)
      rw [redeem]
      exact h
  | @queued _ _ n _ c _ _ _ _ redeem =>
      obtain rfl := Option.some.inj (handleTold_some.symm.trans hhandled)
      rw [redeem]
      intro c' row hrow hpending
      by_cases hc : c' = c
      · -- a request and a top-up both write the date they are told with
        subst hc
        have hself := Table.lookup_upsert_self.symm.trans hrow
        rw [Function.update_self]
        rcases hold : db.redeemRequest.lookup c' with _ | old
        · rw [hold] at hself
          rw [← Option.some.inj hself]
          rfl
        · rw [hold] at hself
          rw [← Option.some.inj hself]
          rfl
      · rw [Function.update_of_ne hc] at hpending ⊢
        exact h c' row ((Table.lookup_upsert_of_ne hc).symm.trans hrow) hpending
  -- a fulfilment and a claim keep the date of the row they write
  | @fulfilled _ _ c n a positive pending _ _ redeem =>
      obtain ⟨t, ht, hdb⟩ := Option.bind_eq_some_iff.mp (handleTold_some.symm.trans hhandled)
      obtain rfl := Option.some.inj hdb
      rw [redeem]
      exact h.updated ht (fun _ => rfl) (fun _ => positive.trans_le pending) rfl
  | @claimed _ _ _ c _ n a positive covered _ redeem =>
      obtain ⟨t, ht, hdb⟩ := Option.bind_eq_some_iff.mp (handleTold_some.symm.trans hhandled)
      obtain rfl := Option.some.inj hdb
      rw [redeem]
      exact h.updated ht (fun _ => rfl) (fun hpending => hpending) rfl

/-- The redemption delay a call sets. -/
def delaySet : Call → Option Nat
  | .setLimits next => some next.minRedeemDelay
  | _ => none

/-- A transaction keeps the redemption delay, or changes it with nothing pending. -/
def KeepsDelay (t : Transition World Tx) : Prop :=
  ∀ delay ∈ delaySet t.label.call, delay = t.pre.state.limits.val.minRedeemDelay ∨
    t.pre.state.totalPendingRedeemShares = 0

instance (t : Transition World Tx) : Decidable (KeepsDelay t) :=
  inferInstanceAs (Decidable (∀ delay ∈ delaySet t.label.call, _))

theorem setLimits_kept {msg : Msg} {l : Limits} {s' : State}
    (h : v.exec msg s (.setLimits l) = .ok s') :
    s'.redeem = s.redeem ∧ s'.limits.val = l := by
  obtain ⟨-, lead, rfl, hl, rfl⟩ := setLimits_ok h
  exact ⟨accrueFees_redeem _, rfl⟩

theorem delaySet_eq_some {call : Call} {delay : Nat} (h : delaySet call = some delay) :
    ∃ l, call = .setLimits l ∧ l.minRedeemDelay = delay := by
  cases call with
  | setLimits l => exact ⟨l, rfl, Option.some.inj h⟩
  | _ => cases h

/-- The dates are kept by a transaction that keeps the delay. -/
theorem Dated.heard {read : Views} {tx : Tx} {w' : World} {lead : State} {e : Option Event}
    {db' : Db} (hkeeps : KeepsDelay ⟨w, tx, w'⟩) (hn : v.next w tx = some w')
    (hheard : Heard v read w tx w' lead e db db')
    (h : Dated db.redeemRequest w.state.redeem w.state.limits.val.minRedeemDelay) :
    Dated db'.redeemRequest w'.state.redeem w'.state.limits.val.minRedeemDelay := by
  have hafter : Dated db'.redeemRequest w'.state.redeem w.state.limits.val.minRedeemDelay :=
    Dated.tell (hheard.charged.redeem ▸ h) hheard.tells hheard.handled
  rcases hheard.limits with hsame | ⟨l, hcall, hset⟩
  · rwa [hsame]
  · rcases hkeeps l.minRedeemDelay (by simp [hcall, delaySet]) with hkept | hnone
    · rwa [hset, hkept]
    · -- with nothing pending there is no date to keep
      intro c row hrow hpending
      have he := (next_eq_some hn).2.2.2
      rw [hcall] at he
      rw [(setLimits_kept he).1] at hpending
      have hle : (w.state.redeem c).pendingShares ≤ 0 := hnone ▸ hheard.escrow.pending_le c
      exact absurd hpending (Nat.not_lt.mpr hle)

/-- And by no other: with the delay changed under a pending request, its row keeps a date the
contract no longer has. -/
theorem keepsDelay_of_dated {read : Views} {tx : Tx} {w' : World} {lead : State}
    {e : Option Event} {db' : Db} (hheard : Heard v read w tx w' lead e db db')
    (hn : v.next w tx = some w')
    (h : Dated db.redeemRequest w.state.redeem w.state.limits.val.minRedeemDelay)
    (hreq : Mirrors db'.redeemRequest w'.state.redeem)
    (hafter : Dated db'.redeemRequest w'.state.redeem w'.state.limits.val.minRedeemDelay) :
    KeepsDelay ⟨w, tx, w'⟩ := by
  intro delay hdelay
  obtain ⟨l, hcall, rfl⟩ := delaySet_eq_some hdelay
  rw [or_iff_not_imp_right]
  intro hsome
  have he := (next_eq_some hn).2.2.2
  rw [hcall] at he
  obtain ⟨c, -, hpending⟩ : ∃ c ∈ Finset.univ, (w.state.redeem c).pendingShares ≠ 0 :=
    Finset.exists_ne_zero_of_sum_ne_zero (hheard.escrow.reconciled.trans_ne hsome)
  obtain ⟨hstill, hset⟩ := setLimits_kept he
  obtain ⟨row, hrow⟩ := Table.exists_row (t := db'.redeemRequest) (g := (·.pendingShares))
    (k := c) (by rw [hreq.pendingShares, hstill]; omega)
  have hold : Dated db'.redeemRequest w'.state.redeem w.state.limits.val.minRedeemDelay :=
    Dated.tell (hheard.charged.redeem ▸ h) hheard.tells hheard.handled
  have hdates := (hold c row hrow (by rw [hstill]; omega)).symm.trans
    (hafter c row hrow (by rw [hstill]; omega))
  rw [hset] at hdates
  exact (Nat.add_left_cancel hdates).symm

/-- **The indexed queue is the contract's.** After any run whose transactions keep the
redemption delay or change it with nothing pending, and with at most five hundred controllers
pending, the endpoint lists exactly these with what they have pending, and calls ripe at any
time those the contract's delay has elapsed for. -/
theorem queue_is_contracts (hgenesis : Genesis v w₀) (hrun : BlockRun v.next w₀ blocks w)
    (hkeeps : ∀ b ∈ blocks, ∀ t ∈ b.transitions, KeepsDelay t)
    (hfew : PendingAtMost 500 w.state) (limits : Option Terms) (created : Nat) :
    ∃ db, index v (onVaultCreated limits created) blocks = some db ∧ Lists db w.state ∧
      RipeAgrees db w.state := by
  have hstart := follows_genesis limits created hgenesis
  obtain ⟨db, hindex, hfollows, hdated⟩ := index_keeps
    (I := fun db s => Dated db.redeemRequest s.redeem s.limits.val.minRedeemDelay)
    (fun hsame hdated => hsame.redeemRequest ▸ hdated)
    (fun _ _ _ _ _ _ _ _ hkeeps hn hheard hdated => hdated.heard hkeeps hn hheard)
    hstart (fun c row hrow _ => by cases hrow) hrun hkeeps
  exact ⟨db, hindex, lists_of_mirrors hfollows.requests hfew,
    ripe_of_dated hfollows.requests hfew hdated⟩

/-- Whoever has all that is pending is alone in the queue. -/
theorem pendingAtMost_of_all (hescrow : Custody.Escrowed v.self s.custody)
    (hall : s.totalPendingRedeemShares ≤ (s.redeem c).pendingShares) : PendingAtMost 500 s := by
  refine ⟨[c], by simp, ?_⟩
  intro c' hpending
  rw [List.mem_singleton]
  by_contra hne
  have hpair : ∑ x ∈ {c', c}, (s.redeem x).pendingShares ≤ s.totalPendingRedeemShares :=
    (Finset.sum_le_univ_sum_of_nonneg fun _ => Nat.zero_le _).trans hescrow.reconciled.le
  rw [Finset.sum_pair hne] at hpair
  omega

/-- The default limits with a delay of five days for three. -/
def fiveDays : Limits := { Test.defaultLimits.val with minRedeemDelay := 5 * 86400 }

/-- The delay is raised with nothing pending; then a request, a top-up a day later, and a part
of it is fulfilled. -/
def raisedFirst : List Tx :=
  [Test.tx Test.alice 0 (.deposit (1000 * 10 ^ 6) Test.alice),
   Test.tx Test.admin 60 (.setLimits fiveDays),
   Test.tx Test.alice 120 (.requestRedeem (10 ^ 18) Test.alice Test.alice),
   Test.tx Test.alice 86520 (.requestRedeem (10 ^ 18) Test.alice Test.alice),
   Test.tx Test.agent (6 * 86400 + 120) (.reportNav 0 10000 0),
   Test.tx Test.agent (6 * 86400 + 120) (.fulfillRedeem Test.alice (10 ^ 17))]

theorem raisedFirst_isSome : (trace (Test.lemonVault Test.conservativeRisk).next
    (Test.world Test.defaultLimits Test.conservativeRisk) raisedFirst).isSome := by rfl

theorem queue_is_contracts_raisedFirst :
    ∃ db, index (Test.lemonVault Test.conservativeRisk) (onVaultCreated none 0)
        (testBlocks _ _ raisedFirst raisedFirst_isSome) = some db ∧
      Lists db (Test.after _ _ raisedFirst raisedFirst_isSome).state ∧
      RipeAgrees db (Test.after _ _ raisedFirst raisedFirst_isSome).state :=
  queue_is_contracts (Test.testGenesis _ _) (testBlocks_run raisedFirst_isSome) (by decide)
    (pendingAtMost_of_all (c := Test.alice)
      (escrowed_reachable (Test.reachable_after raisedFirst_isSome)) (by decide)) none 0

/-- A request, and the delay raised a minute later. -/
def raised : List Tx :=
  [Test.tx Test.alice 0 (.deposit (1000 * 10 ^ 6) Test.alice),
   Test.tx Test.alice 120 (.requestRedeem (10 ^ 18) Test.alice Test.alice),
   Test.tx Test.admin 180 (.setLimits fiveDays)]

theorem raised_isSome : (trace (Test.lemonVault Test.conservativeRisk).next
    (Test.world Test.defaultLimits Test.conservativeRisk) raised).isSome := by rfl

/-- Three days after the request it is called ripe, and cannot be fulfilled for two more. -/
theorem queue_ripe_too_early :
    ¬ ∀ (v : LemonVault) (w₀ w : World) (blocks : List (Block World Tx))
      (limits : Option Terms) (created : Nat),
      Genesis v w₀ → BlockRun v.next w₀ blocks w → PendingAtMost 500 w.state →
      ∃ db, index v (onVaultCreated limits created) blocks = some db ∧ Lists db w.state ∧
        RipeAgrees db w.state := by
  intro h
  obtain ⟨db, hindex, -, hripe⟩ := h _ _ _ _ none 0 (Test.testGenesis _ _)
    (testBlocks_run raised_isSome) (pendingAtMost_of_all (c := Test.alice)
      (escrowed_reachable (Test.reachable_after raised_isSome)) (by decide))
  have hcalled : (index (Test.lemonVault Test.conservativeRisk) (onVaultCreated none 0)
      (testBlocks _ _ raised raised_isSome)).map
        (fun db => (queue (year + 120 + 3 * 86400) db).ripe.map Prod.fst) =
      some [Test.alice.val] := by decide
  rw [hindex, Option.map_some] at hcalled
  have hmem : Test.alice.val ∈ (queue (year + 120 + 3 * 86400) db).ripe.map Prod.fst := by
    simp [Option.some.inj hcalled]
  exact absurd ((hripe _ _).mp hmem).2 (by decide)

end LemonMarket.Indexer
