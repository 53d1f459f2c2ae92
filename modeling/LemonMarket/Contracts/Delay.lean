import LemonMarket.Contracts.Escrow
import LemonMarket.Lib.Lots

/-!
# LemonMarket.Contracts.Delay

**No share leaves before its delay.** The contract keeps one counter and one timestamp a
controller; `bucket c tr` is what a run put into that counter, as lots with the time each
was escrowed, first in, first out. `Aged` ties the two together: the lots come to the
counter, and the timestamp is no earlier than any request into the bucket.

A fulfilment is refused until the whole delay after that timestamp, so the youngest share
of the bucket has waited, and with it every share that is burned.
-/

namespace LemonMarket

open Lib

/-- The shares a call puts into the bucket of `c`. -/
def Call.requested (c : Address) : Call → Option Nat
  | .requestRedeem n controller _ => if controller = c then some n else none
  | _ => none

/-- The shares a call takes out of the bucket of `c`. -/
def Call.settled (c : Address) : Call → Option Nat
  | .fulfillRedeem controller n => if controller = c then some n else none
  | _ => none

/-- The shares a call burns out of escrow. -/
def Call.burned : Call → Nat
  | .fulfillRedeem _ n => n
  | _ => 0

variable {c : Address} {call : Call} {n : Nat}

theorem Call.requested_eq_some :
    call.requested c = some n ↔ ∃ o, call = .requestRedeem n c o := by
  cases call <;> simp [Call.requested, and_comm]

theorem Call.settled_eq_some : call.settled c = some n ↔ call = .fulfillRedeem c n := by
  cases call <;> simp [Call.settled]

/-- What one transition does to the lots of `c`. -/
def relot (c : Address) (ls : List Timed) (t : Transition World Tx) : List Timed :=
  match t.label.call.requested c, t.label.call.settled c with
  | some n, _ => ls ++ [⟨t.label.msg.timestamp, n⟩]
  | none, some n => left ls n
  | none, none => ls

/-- The lots a history leaves in the bucket of `c`, oldest first. -/
def bucket (c : Address) (tr : List (Transition World Tx)) : List Timed :=
  tr.foldl (relot c) []

@[simp] theorem bucket_nil : bucket c [] = [] := rfl

@[simp] theorem bucket_snoc (tr : List (Transition World Tx)) (t : Transition World Tx) :
    bucket c (tr ++ [t]) = relot c (bucket c tr) t := by
  simp [bucket]

/-! ### One call -/

namespace Custody

variable {vault : Address} {msg : Msg} {k k' : Custody}

/-- Only a request into the bucket and a fulfilment out of it touch it. -/
theorem Step.quiet (hs : k.Step vault msg call k') (hin : call.requested c = none)
    (hout : call.settled c = none) :
    (k'.redeem c).pendingShares = (k.redeem c).pendingShares ∧
      (k'.redeem c).requestedAt = (k.redeem c).requestedAt := by
  cases hs with
  | stay | appoint | token => exact ⟨rfl, rfl⟩
  | @enqueue n d o k t owner controller escrowed =>
      have hd : c ≠ d := by
        rintro rfl
        simp [Call.requested] at hin
      simp [Function.update_of_ne hd]
  | @settle d n a k t pending burnt =>
      have hd : c ≠ d := by
        rintro rfl
        simp [Call.settled] at hout
      simp [Function.update_of_ne hd]
  | @claim call d n a k claimant authority =>
      by_cases hd : c = d
      · subst hd; simp
      · simp [Function.update_of_ne hd]

/-- The vault's own shares go down only by what a fulfilment burns. -/
theorem Step.burns (h : Escrowed vault k) (hvault : vault ≠ msg.sender)
    (hs : k.Step vault msg call k') :
    k.shares.balanceOf vault ≤ k'.shares.balanceOf vault + call.burned := by
  cases hs with
  | stay | appoint | claim => exact Nat.le_add_right _ _
  | token moved =>
      exact (TokenCall.exec_spares hvault (h.unapproved _) moved).1.trans (Nat.le_add_right _ _)
  | @enqueue n d o k t owner controller escrowed =>
      have hout : vault ≠ o := by
        rintro rfl
        rcases owner with hsender | hop
        · exact hvault hsender
        · simp [h.unappointed] at hop
      obtain ⟨hn, rfl⟩ := Erc20.transferBetween_ok escrowed
      exact (Ledger.le_move hn hout).trans (Nat.le_add_right _ _)
  | @settle d n a k t pending burnt =>
      obtain ⟨hn, rfl⟩ := Erc20.burn_ok burnt
      simp only [Erc20.balanceOf, Ledger.debit_self, Call.burned]
      omega

end Custody

namespace LemonVault

open Custody (Escrowed)

variable {v : LemonVault} {s s' : State} {msg : Msg} {w w' w₀ : World} {tx : Tx}
  {tr : List (Transition World Tx)}

theorem exec_quiet (h : v.exec msg s call = .ok s') (hin : call.requested c = none)
    (hout : call.settled c = none) :
    (s'.redeem c).pendingShares = (s.redeem c).pendingShares ∧
      (s'.redeem c).requestedAt = (s.redeem c).requestedAt := by
  obtain ⟨k, hgrow, hstep⟩ := (exec_custody h).step
  have hentry : k.redeem c = s.redeem c := by rw [hgrow.rest]; rfl
  rw [← hentry]
  exact hstep.quiet hin hout

theorem exec_requested (h : v.exec msg s call = .ok s') (hin : call.requested c = some n) :
    (s'.redeem c).pendingShares = (s.redeem c).pendingShares + n ∧
      (s'.redeem c).requestedAt = msg.timestamp := by
  obtain ⟨o, rfl⟩ := Call.requested_eq_some.mp hin
  have hredeem : (v.accrueFees msg.timestamp s).redeem = s.redeem := by
    rw [(accrueFees_frame (v := v) msg.timestamp s).rest]
  obtain ⟨-, -, -, lead, rfl, t, -, rfl⟩ := requestRedeem_ok h
  simp [hredeem]

/-- A fulfilment finds what it takes, after the whole delay. -/
theorem exec_settled (h : v.exec msg s call = .ok s') (hout : call.settled c = some n) :
    n ≤ (s.redeem c).pendingShares ∧
      (s.redeem c).requestedAt + s.limits.val.minRedeemDelay ≤ msg.timestamp ∧
      (s'.redeem c).pendingShares = (s.redeem c).pendingShares - n ∧
      (s'.redeem c).requestedAt = (s.redeem c).requestedAt := by
  obtain rfl := Call.settled_eq_some.mp hout
  obtain ⟨a, hful⟩ := exec_fulfillRedeem_ok h
  obtain ⟨-, -, lead, rfl, -, hpending, hripe, -, -, t, -, rfl⟩ := fulfillRedeem_ok hful
  rw [accrueFees_redeem] at hpending hripe
  rw [accrueFees_limits] at hripe
  simp only [accrueFees_redeem, Function.update_self, and_true]
  exact ⟨hpending, hripe⟩

/-! ### Runs -/

/-- The lots of `c` come to its pending shares, and its timestamp is that of the last
request into the bucket. -/
structure Aged (c : Address) (tr : List (Transition World Tx)) (w : World) : Prop where
  comes_to : total (bucket c tr) = (w.state.redeem c).pendingShares
  lots : ∀ l ∈ bucket c tr, l.time ≤ (w.state.redeem c).requestedAt
  requests : ∀ t ∈ tr, (t.label.call.requested c).isSome →
    t.label.msg.timestamp ≤ (w.state.redeem c).requestedAt
  past : (w.state.redeem c).requestedAt ≤ w.now

theorem aged_genesis (h : Genesis v w) : Aged c [] w := by
  obtain ⟨p, -, -, hfresh⟩ := h.fresh
  refine ⟨?_, by simp, by simp, ?_⟩
  · simp [hfresh.redeem]
  · simp [hfresh.redeem]

/-- The bucket was last written to no later than this call is made. -/
theorem Aged.requestedAt_le (h : Aged c tr w) (hs : v.next w tx = some w') :
    (w.state.redeem c).requestedAt ≤ tx.msg.timestamp :=
  h.past.trans (next_eq_some hs).1

/-- A request adds a lot, and is the last one. -/
theorem Aged.requested (h : Aged c tr w) (hs : v.next w tx = some w')
    (hin : tx.call.requested c = some n) : Aged c (tr ++ [⟨w, tx, w'⟩]) w' := by
  have hlater := h.requestedAt_le hs
  obtain ⟨-, -, hnow, he⟩ := next_eq_some hs
  obtain ⟨hpending, hat⟩ := exec_requested he hin
  have hlots : bucket c (tr ++ [⟨w, tx, w'⟩]) = bucket c tr ++ [⟨tx.msg.timestamp, n⟩] := by
    simp [relot, hin]
  refine ⟨?_, ?_, ?_, ?_⟩
  · rw [hlots, total_snoc, h.comes_to, hpending]
  -- every lot is as old as the last request or older
  · intro l hl
    rw [hat]
    rw [hlots] at hl
    rcases List.mem_append.mp hl with hl | hl
    · exact (h.lots l hl).trans hlater
    · obtain rfl := List.mem_singleton.mp hl
      exact Nat.le_refl _
  · intro t ht hreq
    rw [hat]
    rcases List.mem_append.mp ht with ht | ht
    · exact (h.requests t ht hreq).trans hlater
    · obtain rfl := List.mem_singleton.mp ht
      exact Nat.le_refl _
  · rw [hat, hnow]

/-- Any other call leaves the timestamp, and draws from the lots what it takes off the
counter. -/
theorem Aged.drawn (h : Aged c tr w) (hs : v.next w tx = some w')
    (hin : tx.call.requested c = none)
    (hat : (w'.state.redeem c).requestedAt = (w.state.redeem c).requestedAt)
    (htotal : total (bucket c (tr ++ [⟨w, tx, w'⟩])) = (w'.state.redeem c).pendingShares)
    (hlots : ∀ l ∈ bucket c (tr ++ [⟨w, tx, w'⟩]), ∃ m ∈ bucket c tr, m.time = l.time) :
    Aged c (tr ++ [⟨w, tx, w'⟩]) w' := by
  have hlater := h.requestedAt_le hs
  obtain ⟨-, -, hnow, -⟩ := next_eq_some hs
  refine ⟨htotal, ?_, ?_, ?_⟩
  · intro l hl
    obtain ⟨m, hm, hml⟩ := hlots l hl
    rw [hat, ← hml]
    exact h.lots m hm
  · intro t ht hreq
    rw [hat]
    rcases List.mem_append.mp ht with ht | ht
    · exact h.requests t ht hreq
    · obtain rfl := List.mem_singleton.mp ht
      simp [hin] at hreq
  · rw [hat, hnow]
    exact hlater

/-- **One step keeps the bucket in line with the counter.** -/
theorem Aged.step (h : Aged c tr w) (hs : v.next w tx = some w') :
    Aged c (tr ++ [⟨w, tx, w'⟩]) w' := by
  obtain ⟨-, -, -, he⟩ := next_eq_some hs
  cases hin : tx.call.requested c with
  -- a request puts a lot in
  | some n => exact h.requested hs hin
  | none =>
      cases hout : tx.call.settled c with
      | some n =>
          -- a fulfilment draws on the oldest lots
          obtain ⟨hn, -, hpending, hat⟩ := exec_settled he hout
          have hlots : bucket c (tr ++ [⟨w, tx, w'⟩]) = left (bucket c tr) n := by
            simp [relot, hin, hout]
          refine h.drawn hs hin hat ?_ ?_
          · have htotal : total (left (bucket c tr) n) + n = total (bucket c tr) :=
              total_left (by rw [h.comes_to]; exact hn)
            rw [h.comes_to] at htotal
            rw [hlots, hpending]
            exact Nat.eq_sub_of_add_eq htotal
          · intro l hl
            rw [hlots] at hl
            exact left_time hl
      | none =>
          -- any other call leaves bucket and counter
          obtain ⟨hpending, hat⟩ := exec_quiet he hin hout
          have hlots : bucket c (tr ++ [⟨w, tx, w'⟩]) = bucket c tr := by
            simp [relot, hin, hout]
          refine h.drawn hs hin hat ?_ ?_
          · rw [hlots, hpending, h.comes_to]
          · intro l hl
            exact ⟨l, hlots ▸ hl, rfl⟩

/-- **The bucket is in line along every run.** -/
theorem aged_run {tr : List (Transition World Tx)} (h₀ : Genesis v w₀)
    (h : Run v.next w₀ tr w) : Aged c tr w := by
  induction h with
  | nil => exact aged_genesis h₀
  | snoc run hs ih => exact ih.step hs

/-- **No share leaves before its delay.** At every transition of every run: if it is a
fulfilment, the shares it burns are the oldest of the bucket, each escrowed at least a day
before, and every request into that bucket so far is at least the delay in force old; and
whatever it is, no bucket and no share of the vault's goes down but by a fulfilment of as
many. -/
theorem burned_only_after_delay {tr tr₁ tr₂ : List (Transition World Tx)}
    {t : Transition World Tx} (h₀ : Genesis v w₀) (h : Run v.next w₀ tr w)
    (ht : tr = tr₁ ++ t :: tr₂) :
    (∀ c n, t.label.call = .fulfillRedeem c n →
      total (drawn (bucket c tr₁) n) = n ∧
      (∀ l ∈ drawn (bucket c tr₁) n, l.time + minRedeemDelay ≤ t.label.msg.timestamp) ∧
      (∀ u ∈ tr₁, (u.label.call.requested c).isSome → u.label.msg.timestamp +
        t.pre.state.limits.val.minRedeemDelay ≤ t.label.msg.timestamp)) ∧
    (∀ c, (t.pre.state.redeem c).pendingShares ≤
      (t.post.state.redeem c).pendingShares + (t.label.call.settled c).getD 0) ∧
    t.pre.state.shares.balanceOf v.self ≤
      t.post.state.shares.balanceOf v.self + t.label.call.burned := by
  obtain ⟨hrun, hstep⟩ := h.split ht
  obtain ⟨-, hsender, -, he⟩ := next_eq_some hstep
  refine ⟨?_, ?_, ?_⟩
  -- a fulfilment: its shares are the oldest, and each lot of them has come of age
  · intro c n hcall
    have haged : Aged c tr₁ t.pre := aged_run h₀ hrun
    obtain ⟨hn, hripe, -, -⟩ := exec_settled he (Call.settled_eq_some.mpr hcall)
    have hfloor := t.pre.state.limits.property.redeemDelayFloor
    refine ⟨total_drawn (by rw [haged.comes_to]; exact hn), ?_, ?_⟩
    · intro l hl
      obtain ⟨m, hm, hml⟩ := drawn_time hl
      have hlot := haged.lots m hm
      omega
    · intro u hu hreq
      have hlast := haged.requests u hu hreq
      omega
  · intro c
    -- a bucket goes down only in a fulfilment of it
    cases hin : t.label.call.requested c with
    | some n =>
        obtain ⟨hpending, -⟩ := exec_requested he hin
        omega
    | none =>
        cases hout : t.label.call.settled c with
        | some n =>
            obtain ⟨-, -, hpending, -⟩ := exec_settled he hout
            simp only [Option.getD_some]
            omega
        | none => exact (exec_quiet he hin hout).1.ge
  -- the shares of the vault are all escrowed, and leave by a burn
  · obtain ⟨k, hgrow, hmove⟩ := (exec_custody he).step
    have hescrow := (escrowed_run (escrowed_genesis h₀) hrun).grow hgrow
    exact (hgrow.balance v.self).trans (hmove.burns hescrow (Ne.symm hsender))

/-- A top-up half a day after the first request, and everything burned three days after
that. -/
def toppedUp : List Tx :=
  [Test.tx Test.alice 0 (.deposit (1000 * 10 ^ 6) Test.alice),
   Test.tx Test.alice 0 (.requestRedeem (10 ^ 18) Test.alice Test.alice),
   Test.tx Test.alice 43200 (.requestRedeem (10 ^ 18) Test.alice Test.alice),
   Test.tx Test.agent 302400 (.reportNav 0 10000 0),
   Test.tx Test.agent 302400 (.fulfillRedeem Test.alice (2 * 10 ^ 18))]

theorem toppedUp_isSome : (trace (Test.lemonVault Test.conservativeRisk).next
    (Test.world Test.noFeeLimits Test.conservativeRisk) toppedUp).isSome := by rfl

/-- The transitions of that run before the fulfilment. -/
def queuedTwice : List (Transition World Tx) :=
  (Test.transitions Test.noFeeLimits Test.conservativeRisk _ toppedUp_isSome).take 4

theorem burned_only_after_delay_toppedUp :
    total (drawn (bucket Test.alice queuedTwice) (2 * 10 ^ 18)) = 2 * 10 ^ 18 ∧
      ∀ l ∈ drawn (bucket Test.alice queuedTwice) (2 * 10 ^ 18),
        l.time + minRedeemDelay ≤ year + 302400 := by
  have hsplit : Test.transitions Test.noFeeLimits Test.conservativeRisk _ toppedUp_isSome =
      queuedTwice ++
        (Test.transitions Test.noFeeLimits Test.conservativeRisk _ toppedUp_isSome).get
          ⟨4, by decide⟩ :: [] := by rfl
  obtain ⟨hburn, -, -⟩ := burned_only_after_delay (Test.testGenesis _ _)
    (Test.run_after toppedUp_isSome) hsplit
  obtain ⟨htotal, hold, -⟩ := hburn Test.alice (2 * 10 ^ 18) (by rfl)
  exact ⟨htotal, hold⟩

end LemonVault

end LemonMarket
