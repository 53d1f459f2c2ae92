import LemonMarket.Lib.Rows
import LemonMarket.Lib.Run

/-!
# LemonMarket.Agent.Bridge

**Crossing between the chains** (`bridge.ts`), as a system of the agent's process, the
transfer rows in the database, the two chains, the relay and the venue's own queue. An
`Act` is one step of any of them, and every await of the source is a place where the
process may crash or the world move. A boolean an act carries says whether a call or a
write went through; `settle` and `markSent` swallow a write that does not.

Amounts are USDC units. Trading is left out: it changes what the capital is worth, not
where it is. So are the texts of rows and errors, and `landedUsdc`, which no total reads.
-/

namespace LemonMarket

namespace Agent

namespace Bridge

open Lib

/-! ### Crossings -/

/-- The agent's own address on either chain. -/
inductive Wallet
  | base | solana
  deriving Repr, DecidableEq

inductive Direction
  | toSolana | toBase
  deriving Repr, DecidableEq

def Direction.origin : Direction → Wallet
  | .toSolana => .base
  | .toBase => .solana

def Direction.destination : Direction → Wallet
  | .toSolana => .solana
  | .toBase => .base

/-- `PENDING`, `SENT`, `COMPLETE`, `FAILED`. -/
inductive TransferStatus
  | pending | sent | complete | failed
  deriving Repr, DecidableEq

/-- Where the money of a crossing really is. -/
inductive Whereabouts
  | atOrigin
  /-- The origin transaction is signed and broadcast, and not mined yet. -/
  | submitted
  | inAir
  | atDestination
  | refunded
  deriving Repr, DecidableEq

/-- A `BridgeTransfer` row, and what became of the money. -/
structure Crossing where
  direction : Direction
  amountUsdc : Nat
  status : TransferStatus
  money : Whereabouts
  deriving Repr, DecidableEq

/-- `status: { in: ["PENDING", "SENT"] }`. -/
def Crossing.unfinished (c : Crossing) : Bool := c.status == .pending || c.status == .sent

def Crossing.inAir (c : Crossing) : Bool := c.money == .inAir

/-- The row says what the money does: it counts exactly while the money is in the air. -/
def Crossing.Truthful (c : Crossing) : Prop := c.unfinished = c.inAir

instance (c : Crossing) : Decidable c.Truthful := inferInstanceAs (Decidable (_ = _))

/-! ### The state -/

/-- How far the agent's process is. In a crossing, the row it runs and the destination
balance it read before sending. -/
inductive Phase
  | down
  | idle
  /-- `createRelayBridge` has read the rows, and the valuation not yet the balances. -/
  | seeded
  | acting
  | quoted (id : Nat)
  | broadcast (id before : Nat)
  | sent (id before : Nat)
  | filled (id before : Nat)
  deriving Repr, DecidableEq

/-- The row of the crossing being run. -/
def Phase.crossing : Phase → Option Nat
  | .quoted id | .broadcast id _ | .sent id _ | .filled id _ => some id
  | _ => none

structure State where
  phase : Phase := .idle
  crossings : List Crossing := []
  /-- The process's counter of what is between the chains. -/
  inFlight : Nat := 0
  /-- The agent's USDC on either chain, and the venue's equity. -/
  base : Nat := 0
  solana : Nat := 0
  venue : Nat := 0
  /-- Between the Solana wallet and the venue account. -/
  settling : Nat := 0
  /-- What has left the vault, what it was given back, and what relays charged. -/
  drawn : Nat := 0
  returned : Nat := 0
  fees : Nat := 0
  deriving Repr, DecidableEq

namespace State

variable (s : State)

/-- Total of every crossing this vault has started and not finished. -/
def pendingTotal : Nat := rowsTotal Crossing.unfinished Crossing.amountUsdc s.crossings

/-- What is really between the chains. -/
def airborne : Nat := rowsTotal Crossing.inAir Crossing.amountUsdc s.crossings

/-- What the valuation adds up; a Solana balance that cannot be read counts as zero. -/
def valuation (solanaRead : Bool) : Nat :=
  s.venue + (s.base + if solanaRead then s.solana else 0) + s.inFlight

/-- Everything accounted for, wherever it is. -/
def accounted : Nat :=
  s.base + s.solana + s.venue + s.settling + s.airborne + s.fees + s.returned

/-- Whether the crossing being run has its money in the air. -/
def runningInAir : Bool :=
  match s.phase.crossing.bind fun id => s.crossings[id]? with
  | some c => c.inAir
  | none => false

def balance : Wallet → Nat
  | .base => s.base
  | .solana => s.solana

/-- Put `n` into a wallet. -/
def credit (wallet : Wallet) (n : Nat) : State :=
  match wallet with
  | .base => { s with base := s.base + n }
  | .solana => { s with solana := s.solana + n }

/-- Take `n` out of a wallet. -/
def debit (wallet : Wallet) (n : Nat) : State :=
  match wallet with
  | .base => { s with base := s.base - n }
  | .solana => { s with solana := s.solana - n }

/-- The money of a crossing gets somewhere. -/
def moveTo (id : Nat) (money : Whereabouts) : State :=
  { s with crossings := s.crossings.modify id ({ · with money := money }) }

/-- Write a row's status, if the write goes through. -/
def settle (id : Nat) (status : TransferStatus) (written : Bool) : State :=
  { s with
    crossings := if written then s.crossings.modify id ({ · with status := status })
      else s.crossings }

/-- A new row, before any money moves. -/
def record (direction : Direction) (amountUsdc : Nat) : State :=
  { s with crossings := s.crossings ++ [⟨direction, amountUsdc, .pending, .atOrigin⟩] }

/-- The call lets a crossing go: its row is settled and the counter comes down. -/
def letGo (id : Nat) (status : TransferStatus) (written : Bool) : Option State :=
  (s.crossings[id]?).map fun c =>
    { s.settle id status written with phase := .acting, inFlight := s.inFlight - c.amountUsdc }

end State

/-! ### Steps -/

/-- What an insertion did: written, not written, or written with the answer lost. -/
inductive Insertion
  | recorded | refused | unacknowledged
  deriving Repr, DecidableEq

inductive Act
  -- the process
  | restart
  | crash
  | tick (rowsRead : Bool)
  | observe (solanaRead : Bool)
  | endTick
  | draw (amount : Nat)
  | giveBack (amount : Nat)
  | depositMargin (amount : Nat)
  | withdrawMargin (amount : Nat)
  | start (direction : Direction) (amountUsdc : Nat) (insertion : Insertion)
  | send (balanceRead : Bool)
  | sendFails (written : Bool)
  | confirm (written : Bool)
  | fillSeen
  | failSeen (written : Bool)
  | timeout
  | arrives (written : Bool)
  | balanceTimeout
  -- the world
  | mined (id : Nat)
  | reverted (id : Nat)
  | fills (id fee : Nat)
  | refunds (id fee : Nat)
  | reachesVenue (amount : Nat)
  | reachesSolana (amount : Nat)
  deriving Repr, DecidableEq

/-- The acts that end a call by settling its row, and whether the write goes through. -/
def Act.settles : Act → Option Bool
  | .sendFails written | .failSeen written | .arrives written => some written
  | _ => none

/-- The acts that end a call and leave its row as it is. -/
def Act.givesUp : Act → Bool
  | .timeout | .balanceTimeout => true
  | _ => false

/-- The acts that land a crossing's money in a wallet, and what the relay keeps. -/
def Act.lands : Act → Option (Nat × Nat)
  | .fills id fee | .refunds id fee => some (id, fee)
  | _ => none

/-- One step, when it can be taken. -/
def step (s : State) : Act → Option State
  | .restart => if s.phase = .down then some { s with phase := .idle } else none
  | .crash => if s.phase ≠ .down then some { s with phase := .down, inFlight := 0 } else none
  -- `createRelayBridge`: a query that fails is a query that finds nothing
  | .tick rowsRead =>
      if s.phase = .idle then
        some { s with phase := .seeded, inFlight := if rowsRead then s.pendingTotal else 0 }
      else none
  | .observe _ => if s.phase = .seeded then some { s with phase := .acting } else none
  | .endTick =>
      if s.phase = .seeded ∨ s.phase = .acting then some { s with phase := .idle } else none
  | .draw amount =>
      if s.phase = .acting then
        some { s with base := s.base + amount, drawn := s.drawn + amount }
      else none
  | .giveBack amount =>
      if s.phase = .acting ∧ amount ≤ s.base then
        some { s with base := s.base - amount, returned := s.returned + amount }
      else none
  | .depositMargin amount =>
      if s.phase = .acting ∧ amount ≤ s.solana then
        some { s with solana := s.solana - amount, settling := s.settling + amount }
      else none
  | .withdrawMargin amount =>
      if s.phase = .acting ∧ amount ≤ s.venue then
        some { s with venue := s.venue - amount, settling := s.settling + amount }
      else none
  -- up to the `try`; `toBase` has waited for the balance to cover the amount
  | .start direction amountUsdc insertion =>
      if s.phase = .acting ∧ (direction = .toBase → amountUsdc ≤ s.solana) then
        match insertion with
        | .refused => some s
        | .unacknowledged => some (s.record direction amountUsdc)
        | .recorded =>
            some { s.record direction amountUsdc with
              phase := .quoted s.crossings.length, inFlight := s.inFlight + amountUsdc }
      else none
  -- a Solana balance that cannot be read is zero, a Base one throws
  | .send balanceRead =>
      match s.phase with
      | .quoted id =>
          (s.crossings[id]?).bind fun c =>
            if c.money = .atOrigin ∧ (balanceRead ∨ c.direction = .toSolana) then
              some { s.moveTo id .submitted with
                phase := .broadcast id
                  (if balanceRead then s.balance c.direction.destination else 0) }
            else none
      | _ => none
  -- the `catch`, at stage `quoted`: before the broadcast, or on its receipt
  | .sendFails written =>
      match s.phase with
      | .quoted id | .broadcast id _ => s.letGo id .failed written
      | _ => none
  -- a receipt that says success, and `markSent`
  | .confirm written =>
      match s.phase with
      | .broadcast id before =>
          (s.crossings[id]?).bind fun c =>
            if c.money ≠ .atOrigin ∧ c.money ≠ .submitted then
              some { s.settle id .sent written with phase := .sent id before }
            else none
      | _ => none
  | .fillSeen =>
      match s.phase with
      | .sent id before => some { s with phase := .filled id before }
      | _ => none
  -- `awaitFill` settles the row, and the `catch` lets a `BridgeRefunded` go
  | .failSeen written =>
      match s.phase with
      | .sent id _ => s.letGo id .failed written
      | _ => none
  -- the `catch`, at stage `sent`: still counted
  | .timeout =>
      match s.phase with
      | .sent _ _ => some { s with phase := .acting }
      | _ => none
  -- the destination balance has moved
  | .arrives written =>
      match s.phase with
      | .filled id before =>
          (s.crossings[id]?).bind fun c =>
            if before < s.balance c.direction.destination then s.letGo id .complete written
            else none
      | _ => none
  | .balanceTimeout =>
      match s.phase with
      | .filled _ _ => some { s with phase := .acting }
      | _ => none
  | .mined id =>
      (s.crossings[id]?).bind fun c =>
        if c.money = .submitted ∧ c.amountUsdc ≤ s.balance c.direction.origin then
          some ((s.debit c.direction.origin c.amountUsdc).moveTo id .inAir)
        else none
  | .reverted id =>
      (s.crossings[id]?).bind fun c =>
        if c.money = .submitted then some (s.moveTo id .atOrigin) else none
  | .fills id fee =>
      (s.crossings[id]?).bind fun c =>
        if c.money = .inAir ∧ fee ≤ c.amountUsdc then
          some { (s.credit c.direction.destination (c.amountUsdc - fee)).moveTo id .atDestination
            with fees := s.fees + fee }
        else none
  | .refunds id fee =>
      (s.crossings[id]?).bind fun c =>
        if c.money = .inAir ∧ fee ≤ c.amountUsdc then
          some { (s.credit c.direction.origin (c.amountUsdc - fee)).moveTo id .refunded
            with fees := s.fees + fee }
        else none
  | .reachesVenue amount =>
      if amount ≤ s.settling then
        some { s with settling := s.settling - amount, venue := s.venue + amount }
      else none
  | .reachesSolana amount =>
      if amount ≤ s.settling then
        some { s with settling := s.settling - amount, solana := s.solana + amount }
      else none

/-! ### What a step can do -/

variable {s s' : State} {a : Act} {id fee : Nat} {written : Bool}

theorem send_some {balanceRead : Bool} (h : step s (.send balanceRead) = some s') :
    ∃ id c before, s.phase = .quoted id ∧ s.crossings[id]? = some c ∧ c.money = .atOrigin ∧
      s' = { s.moveTo id .submitted with phase := .broadcast id before } := by
  unfold step at h
  cases hphase : s.phase with
  | quoted id =>
      simp only [hphase, Option.bind_eq_some_iff, Option.ite_none_right_eq_some,
        Option.some.injEq] at h
      obtain ⟨c, hc, hmoney, hs⟩ := h
      exact ⟨id, c, _, rfl, hc, hmoney.1, hs.symm⟩
  | _ => simp [hphase] at h

theorem confirm_some (h : step s (.confirm written) = some s') :
    ∃ id before, s.phase = .broadcast id before ∧
      s' = { s.settle id .sent written with phase := .sent id before } := by
  unfold step at h
  cases hphase : s.phase with
  | broadcast id before =>
      simp only [hphase, Option.bind_eq_some_iff, Option.ite_none_right_eq_some,
        Option.some.injEq] at h
      obtain ⟨c, -, -, hs⟩ := h
      exact ⟨id, before, rfl, hs.symm⟩
  | _ => simp [hphase] at h

theorem fillSeen_some (h : step s .fillSeen = some s') :
    ∃ id before, s.phase = .sent id before ∧ s' = { s with phase := .filled id before } := by
  unfold step at h
  cases hphase : s.phase with
  | sent id before =>
      simp only [hphase, Option.some.injEq] at h
      exact ⟨id, before, rfl, h.symm⟩
  | _ => simp [hphase] at h

theorem settles_some (h : step s a = some s') (ha : a.settles = some written) :
    ∃ id status, s.phase.crossing = some id ∧ (status = .failed ∨ status = .complete) ∧
      s.letGo id status written = some s' := by
  cases a with
  -- the send fails, the crossing is seen to have failed, or it arrives
  | sendFails w =>
      obtain rfl : w = written := Option.some_inj.mp ha
      unfold step at h
      cases hphase : s.phase with
      | quoted id | broadcast id before =>
          exact ⟨id, .failed, rfl, .inl rfl, by simpa [hphase] using h⟩
      | _ => simp [hphase] at h
  | failSeen w =>
      obtain rfl : w = written := Option.some_inj.mp ha
      unfold step at h
      cases hphase : s.phase with
      | sent id before => exact ⟨id, .failed, rfl, .inl rfl, by simpa [hphase] using h⟩
      | _ => simp [hphase] at h
  | arrives w =>
      obtain rfl : w = written := Option.some_inj.mp ha
      unfold step at h
      cases hphase : s.phase with
      | filled id before =>
          simp only [hphase, Option.bind_eq_some_iff, Option.ite_none_right_eq_some] at h
          obtain ⟨c, -, -, hs⟩ := h
          exact ⟨id, .complete, rfl, .inr rfl, hs⟩
      | _ => simp [hphase] at h
  | _ => cases ha

theorem givesUp_some (h : step s a = some s') (ha : a.givesUp = true) :
    s' = { s with phase := .acting } := by
  cases a with
  | timeout =>
      unfold step at h
      cases hphase : s.phase with
      | sent id before => simpa [hphase, eq_comm] using h
      | _ => simp [hphase] at h
  | balanceTimeout =>
      unfold step at h
      cases hphase : s.phase with
      | filled id before => simpa [hphase, eq_comm] using h
      | _ => simp [hphase] at h
  | _ => cases ha

theorem mined_some (h : step s (.mined id) = some s') :
    ∃ c, s.crossings[id]? = some c ∧ c.money = .submitted ∧
      c.amountUsdc ≤ s.balance c.direction.origin ∧
      s' = (s.debit c.direction.origin c.amountUsdc).moveTo id .inAir := by
  unfold step at h
  simp only [Option.bind_eq_some_iff, Option.ite_none_right_eq_some, Option.some.injEq] at h
  obtain ⟨c, hc, ⟨hmoney, hle⟩, hs⟩ := h
  exact ⟨c, hc, hmoney, hle, hs.symm⟩

theorem reverted_some (h : step s (.reverted id) = some s') :
    ∃ c, s.crossings[id]? = some c ∧ c.money = .submitted ∧ s' = s.moveTo id .atOrigin := by
  unfold step at h
  simp only [Option.bind_eq_some_iff, Option.ite_none_right_eq_some, Option.some.injEq] at h
  obtain ⟨c, hc, hmoney, hs⟩ := h
  exact ⟨c, hc, hmoney, hs.symm⟩

theorem lands_some (h : step s a = some s') (ha : a.lands = some (id, fee)) :
    ∃ c wallet money, s.crossings[id]? = some c ∧ c.money = .inAir ∧ fee ≤ c.amountUsdc ∧
      money ≠ .inAir ∧
      s' = { (s.credit wallet (c.amountUsdc - fee)).moveTo id money with
        fees := s.fees + fee } := by
  cases a with
  | fills i f | refunds i f =>
      obtain ⟨rfl, rfl⟩ := Prod.mk.inj (Option.some_inj.mp ha)
      unfold step at h
      simp only [Option.bind_eq_some_iff, Option.ite_none_right_eq_some, Option.some.injEq] at h
      obtain ⟨c, hc, ⟨hair, hfee⟩, hs⟩ := h
      exact ⟨c, _, _, hc, hair, hfee, by decide, hs.symm⟩
  | _ => cases ha

end Bridge

end Agent

end LemonMarket
