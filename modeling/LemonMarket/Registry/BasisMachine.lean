import LemonMarket.Lib.Run

/-!
# LemonMarket.Registry.BasisMachine

**The status of a position** (`basis-machine.ts`). A position is a token bought and a perp sold
against it, and either leg can land without the other. The machine says which status an event
moves a position to; the legs say what is held, and `repairActionsFor` what is to be done where
only one is.

A `Position` is both: the events it takes and what they say of the legs. Along every run a failed
position has traded nothing and a closed one holds nothing, and whatever else has been traded can
be closed in two events (`position_recoverable`).
-/

namespace LemonMarket

namespace Registry

namespace BasisMachine

open Lib

/-! ### The machine -/

inductive BasisStatus
  | validating | spotFilled | opened | unwinding | spotClosed | closed | orphaned | failed
  deriving DecidableEq

inductive Leg
  | spot | perp
  deriving DecidableEq

inductive BasisEvent
  | spotFilled
  | perpOpened
  | legFailed (leg : Leg)
  | unwindStarted
  | spotClosed
  | closed
  deriving DecidableEq

def allowedTransitions : BasisStatus → List BasisStatus
  | .validating => [.spotFilled, .failed]
  | .spotFilled => [.opened, .orphaned, .unwinding]
  | .opened => [.unwinding]
  | .unwinding => [.spotClosed, .closed, .orphaned]
  | .spotClosed => [.closed, .orphaned]
  | .orphaned => [.opened, .unwinding, .closed, .failed]
  | .closed => []
  | .failed => []

def terminalStatuses : List BasisStatus := [.closed, .failed]

def canTransition (source target : BasisStatus) : Bool :=
  (allowedTransitions source).contains target

/-- The status an event is about. A failed leg is final only where nothing has landed. -/
def targetOf (current : BasisStatus) : BasisEvent → BasisStatus
  | .spotFilled => .spotFilled
  | .perpOpened => .opened
  | .legFailed _ => if current = .validating then .failed else .orphaned
  | .unwindStarted => .unwinding
  | .spotClosed => .spotClosed
  | .closed => .closed

def nextStatus (current : BasisStatus) (event : BasisEvent) : Option BasisStatus :=
  let target := targetOf current event
  if canTransition current target then some target else none

/-! ### The legs -/

structure LegState where
  spotOpened : Bool
  spotClosed : Bool
  perpOpened : Bool
  perpClosed : Bool
  deriving DecidableEq

def LegState.spotLive (legs : LegState) : Bool := legs.spotOpened && !legs.spotClosed

def LegState.perpLive (legs : LegState) : Bool := legs.perpOpened && !legs.perpClosed

def isUnhedged (legs : LegState) : Bool := legs.spotLive != legs.perpLive

inductive RepairAction
  | retryPerp | unwindSpot | closePerp
  deriving DecidableEq

def repairActionsFor (legs : LegState) : List RepairAction :=
  if legs.spotLive && !legs.perpLive then [.retryPerp, .unwindSpot]
  else if legs.perpLive && !legs.spotLive then [.closePerp]
  else []

/-! ### A position -/

/-- What an event says of the legs. -/
def LegState.after (legs : LegState) : BasisEvent → LegState
  | .spotFilled => { legs with spotOpened := true }
  | .perpOpened => { legs with perpOpened := true }
  | .legFailed _ => legs
  | .unwindStarted => legs
  | .spotClosed => { legs with spotClosed := true }
  | .closed => { legs with spotClosed := legs.spotOpened, perpClosed := legs.perpOpened }

structure Position where
  status : BasisStatus
  legs : LegState
  deriving DecidableEq

def next (p : Position) (event : BasisEvent) : Option Position :=
  (nextStatus p.status event).map fun status => ⟨status, p.legs.after event⟩

def untraded : LegState := ⟨false, false, false, false⟩

def start : Position := ⟨.validating, untraded⟩

variable {p p' : Position} {e : BasisEvent} {tr : List (Transition Position BasisEvent)}

/-- All that an event can do. -/
theorem next_cases (h : next p e = some p') :
    (e = .spotFilled ∧ p.status = .validating ∧ p'.status = .spotFilled) ∨
      (e = .perpOpened ∧ (p.status = .spotFilled ∨ p.status = .orphaned) ∧
        p'.status = .opened) ∨
      ((∃ leg, e = .legFailed leg) ∧ (p.status = .validating ∧ p'.status = .failed ∨
        (p.status = .spotFilled ∨ p.status = .unwinding ∨ p.status = .spotClosed) ∧
          p'.status = .orphaned)) ∨
      (e = .unwindStarted ∧ (p.status = .spotFilled ∨ p.status = .opened ∨
        p.status = .orphaned) ∧ p'.status = .unwinding) ∨
      (e = .spotClosed ∧ p.status = .unwinding ∧ p'.status = .spotClosed) ∨
      (e = .closed ∧ (p.status = .unwinding ∨ p.status = .spotClosed ∨ p.status = .orphaned) ∧
        p'.status = .closed) := by
  obtain ⟨status, legs⟩ := p
  obtain ⟨target, htarget, rfl⟩ := Option.map_eq_some_iff.mp h
  cases e <;> cases status <;>
    simp_all [nextStatus, targetOf, canTransition, allowedTransitions]

theorem legs_next (h : next p e = some p') : p'.legs = p.legs.after e := by
  obtain ⟨target, -, rfl⟩ := Option.map_eq_some_iff.mp h
  rfl

/-- What a status says of the legs. -/
def Traded (p : Position) : Prop :=
  match p.status with
  | .validating | .failed => p.legs = untraded
  | .spotFilled => p.legs = { untraded with spotOpened := true }
  | .opened => p.legs.spotOpened = true ∧ p.legs.perpLive = true
  | .unwinding | .orphaned => p.legs.spotOpened = true ∧ p.legs.perpClosed = false
  | .spotClosed => p.legs.spotOpened = true ∧ p.legs.spotLive = false ∧
      p.legs.perpClosed = false
  | .closed => p.legs.spotOpened = true ∧ p.legs.spotLive = false ∧ p.legs.perpLive = false

theorem traded_next (h : next p e = some p') (hp : Traded p) : Traded p' := by
  have hlegs := legs_next h
  obtain ⟨status, legs⟩ := p
  obtain ⟨status', legs'⟩ := p'
  dsimp only at hlegs
  obtain ⟨rfl, rfl, rfl⟩ | ⟨rfl, rfl | rfl, rfl⟩ |
    ⟨⟨leg, rfl⟩, ⟨rfl, rfl⟩ | ⟨rfl | rfl | rfl, rfl⟩⟩ | ⟨rfl, rfl | rfl | rfl, rfl⟩ |
    ⟨rfl, rfl, rfl⟩ | ⟨rfl, rfl | rfl | rfl, rfl⟩ := next_cases h <;>
  simp_all [Traded, LegState.after, LegState.spotLive, LegState.perpLive, untraded]

/-! ### Recovering -/

/-- An event is refused whatever it is in the terminal statuses alone. -/
theorem stuck_iff : (∀ e, next p e = none) ↔ p.status ∈ terminalStatuses := by
  simp only [next, Option.map_eq_none_iff]
  generalize p.status = status
  constructor
  · intro h
    have hfailed := h (.legFailed .spot)
    have hunwind := h .unwindStarted
    have hclosed := h .closed
    cases status <;>
      simp_all [nextStatus, targetOf, canTransition, allowedTransitions, terminalStatuses]
  · intro h e
    cases status <;> simp [terminalStatuses] at h <;>
      simp [nextStatus, canTransition, allowedTransitions]

/-- Nothing is held. -/
def Flat (p : Position) : Prop :=
  p.status = .closed ∧ p.legs.spotLive = false ∧ p.legs.perpLive = false

theorem flat_of_closed (hp : Traded p) (hclosed : p.status = .closed) : Flat p := by
  rw [Traded, hclosed] at hp
  exact ⟨hclosed, hp.2⟩

theorem close_accepted
    (h : p.status = .unwinding ∨ p.status = .spotClosed ∨ p.status = .orphaned) :
    ∃ q, next p .closed = some q ∧ q.status = .closed := by
  refine ⟨⟨.closed, p.legs.after .closed⟩, ?_, rfl⟩
  rcases h with h | h | h <;> rw [next, h] <;> rfl

theorem unwind_accepted (h : p.status = .spotFilled ∨ p.status = .opened) :
    ∃ q, next p .unwindStarted = some q ∧ q.status = .unwinding := by
  refine ⟨⟨.unwinding, p.legs.after .unwindStarted⟩, ?_, rfl⟩
  rcases h with h | h <;> rw [next, h] <;> rfl

/-- What has been traded can be closed, in two events at most. -/
theorem closed_in_two (hp : Traded p) (hstarted : p.status ≠ .validating)
    (hstanding : p.status ∉ terminalStatuses) :
    ∃ tr q, Run next p tr q ∧ tr.length ≤ 2 ∧ Flat q := by
  have hclose : ∀ m, Traded m →
      (m.status = .unwinding ∨ m.status = .spotClosed ∨ m.status = .orphaned) →
        ∃ q, next m .closed = some q ∧ Flat q := by
    intro m hm hstatus
    obtain ⟨q, hq, hclosed⟩ := close_accepted hstatus
    exact ⟨q, hq, flat_of_closed (traded_next hq hm) hclosed⟩
  have hstatus : (p.status = .spotFilled ∨ p.status = .opened) ∨
      p.status = .unwinding ∨ p.status = .spotClosed ∨ p.status = .orphaned := by
    generalize p.status = status at hstarted hstanding
    cases status <;> simp_all [terminalStatuses]
  obtain hboth | hone := hstatus
  · obtain ⟨m, hunwind, hunwinding⟩ := unwind_accepted hboth
    obtain ⟨q, hq, hflat⟩ := hclose m (traded_next hunwind hp) (.inl hunwinding)
    exact ⟨_, q, (Run.nil.snoc hunwind).snoc hq, le_refl 2, hflat⟩
  · obtain ⟨q, hq, hflat⟩ := hclose p hp hone
    exact ⟨_, q, Run.nil.snoc hq, Nat.le_succ 1, hflat⟩

/-- One leg is held without the other only by a position that has not ended. -/
theorem standing_of_unhedged (hp : Traded p) (h : isUnhedged p.legs = true) :
    p.status ≠ .validating ∧ p.status ∉ terminalStatuses := by
  have huntraded : p.legs ≠ untraded := by
    intro hlegs
    rw [hlegs] at h
    cases h
  constructor
  · intro hvalidating
    rw [Traded, hvalidating] at hp
    exact huntraded hp
  · intro hterminal
    obtain hclosed | hfailed : p.status = .closed ∨ p.status = .failed := by
      simpa [terminalStatuses] using hterminal
    · obtain ⟨-, hspot, hperp⟩ := flat_of_closed hp hclosed
      rw [isUnhedged, hspot, hperp] at h
      cases h
    · rw [Traded, hfailed] at hp
      exact huntraded hp

theorem repairs_of_unhedged {legs : LegState} (h : isUnhedged legs = true) :
    repairActionsFor legs ≠ [] := by
  rw [isUnhedged] at h
  rw [repairActionsFor]
  cases hspot : legs.spotLive <;> cases hperp : legs.perpLive <;> simp_all

theorem retryPerp_offered {legs : LegState} :
    .retryPerp ∈ repairActionsFor legs ↔ legs.spotLive = true ∧ legs.perpLive = false := by
  rw [repairActionsFor]
  cases legs.spotLive <;> cases legs.perpLive <;> simp

/-- A perp is opened only where the repairs offer it. -/
def Offered (t : Transition Position BasisEvent) : Prop :=
  t.label = .perpOpened → .retryPerp ∈ repairActionsFor t.pre.legs

/-- An open position holds both legs, if the last perp was opened where it was missing. -/
def Hedged (p : Position) : Prop :=
  p.status = .opened → p.legs.spotLive = true ∧ p.legs.perpLive = true

theorem hedged_next (h : next p e = some p') (hp : Traded p) (hoffered : Offered ⟨p, e, p'⟩) :
    Hedged p' := by
  intro hopened
  have htraded := traded_next h hp
  rw [Traded, hopened] at htraded
  obtain ⟨-, -, hto⟩ | ⟨rfl, -, -⟩ | ⟨-, ⟨-, hto⟩ | ⟨-, hto⟩⟩ | ⟨-, -, hto⟩ | ⟨-, -, hto⟩ |
    ⟨-, -, hto⟩ := next_cases h
  case inr.inl =>
    have hspot : p.legs.spotLive = true := (retryPerp_offered.mp (hoffered rfl)).1
    rw [legs_next h] at htraded ⊢
    exact ⟨hspot, htraded.2⟩
  all_goals
    rw [hopened] at hto
    cases hto

/-- **No position is stranded.** Along every run of events: a failed position has traded nothing,
and a closed one holds nothing; an event is accepted until then; where one leg is held without the
other there is a repair to offer, and two events at most close what is held; and as long as a perp
is opened only where the repairs offer it, an open position holds both legs. -/
theorem position_recoverable (hrun : Run next start tr p) :
    (p.status = .failed → p.legs = untraded) ∧
      (p.status = .closed → Flat p) ∧
      ((∀ e, next p e = none) ↔ p.status ∈ terminalStatuses) ∧
      (isUnhedged p.legs = true → repairActionsFor p.legs ≠ [] ∧
        ∃ tr' q, Run next p tr' q ∧ tr'.length ≤ 2 ∧ Flat q) ∧
      ((∀ t ∈ tr, Offered t) → Hedged p) := by
  have htraded : Traded p :=
    (hrun.invariant (I := Traded) rfl fun _ _ _ hs hstep => traded_next hstep hs).1
  refine ⟨?_, flat_of_closed htraded, stuck_iff, ?_, ?_⟩
  · intro hfailed
    rwa [Traded, hfailed] at htraded
  · intro hunhedged
    obtain ⟨hstarted, hstanding⟩ := standing_of_unhedged htraded hunhedged
    exact ⟨repairs_of_unhedged hunhedged, closed_in_two htraded hstarted hstanding⟩
  · intro hoffered
    refine (hrun.invariant_of (I := fun s => Traded s ∧ Hedged s) hoffered ⟨rfl, ?_⟩ ?_).1.2
    · intro hopened
      cases hopened
    · exact fun s l s' ht hs hstep => ⟨traded_next hstep hs.1, hedged_next hstep hs.1 ht⟩

namespace Test

/-- The spot leg landed and the perp did not. -/
def orphan : Position := ⟨.orphaned, { untraded with spotOpened := true }⟩

theorem position_recoverable_orphan : repairActionsFor orphan.legs ≠ [] ∧
    ∃ tr q, Run next orphan tr q ∧ tr.length ≤ 2 ∧ Flat q := by
  have htrace : trace next start [.spotFilled, .legFailed .perp] =
      some ([⟨start, .spotFilled, ⟨.spotFilled, { untraded with spotOpened := true }⟩⟩,
        ⟨⟨.spotFilled, { untraded with spotOpened := true }⟩, .legFailed .perp, orphan⟩],
          orphan) := rfl
  exact (position_recoverable (trace_run htrace)).2.2.2.1 rfl

-- the machine alone reopens the perp of a position whose spot leg is already sold
example : (trace next start [.spotFilled, .perpOpened, .unwindStarted, .spotClosed,
    .legFailed .perp, .perpOpened]).map (fun t => (t.2.status, isUnhedged t.2.legs)) =
      some (.opened, true) := rfl

end Test

end BasisMachine

end Registry

end LemonMarket
