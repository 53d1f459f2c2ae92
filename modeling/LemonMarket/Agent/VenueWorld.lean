import LemonMarket.Agent.Calls
import LemonMarket.Lib.Lockstep

/-!
# LemonMarket.Agent.VenueWorld

**A venue as a world of calls.** `Agent.Venue` has the world answer for the length of an action,
`Agent.Calls` call by call. A venue is one such world (`world`). What it answers depends on the
last call, on what a route was last asked for and on what the wallet has been paid, and of the
calls so far nothing else is remembered (`Memory`).

`Meets m` says of the two sides of an action that they have made the same rows and returned as
much, with `m` to remember. The rules carry it past one call of the script, against what the venue
has at that place: an answer, a `require`, or nothing.
-/

namespace LemonMarket

namespace Agent

namespace Calls

open Lib Lib.Effect
open LemonVault (bps)

/-! ### The world a venue is -/

/-- What an answer may depend on of the calls before it. -/
structure Memory where
  last : Option Call := none
  /-- The token and the amount a route was last asked for. -/
  route : Option (String × Nat) := none
  /-- The USDC that sales and crossings have brought to Base. -/
  gained : Nat := 0
  /-- The USDC the vault has taken back. -/
  returned : Nat := 0

def Memory.saw (m : Memory) (e : Event) : Memory where
  last := some e.call
  route :=
    match e.call with
    | .getRoute symbol amount => some (symbol, amount)
    | _ => m.route
  gained :=
    match e with
    | ⟨.usdcAfter, .answered paid⟩ => m.gained + paid
    | ⟨.toBase _, .answered landed⟩ => m.gained + landed
    | _ => m.gained
  returned :=
    match e with
    | ⟨.returnToVault amount, .answered _⟩ => m.returned + amount.toNat
    | _ => m.returned

def remember (trace : List Event) : Memory := trace.foldl Memory.saw {}

def ofOption {α : Type} : Option α → Outcome α
  | some a => .answered a
  | none => .failed 0

def granted (c : Bool) : Outcome Unit := if c then .answered () else .failed 0

/-- The market as the calls name it. -/
def market (leg : Leg) : VenueMarket where
  ticker := leg.ticker
  symbol := leg.symbol
  perpSymbol := leg.perpSymbol
  spotTokenDecimals := leg.spotTokenDecimals
  targetWeightBps := leg.targetWeightBps

section

variable (venue : Venue)

def spotLeg (symbol : String) : Option Leg := venue.legs.find? fun leg => leg.symbol = symbol

def perpLeg (perpSymbol : String) : Option Leg :=
  venue.legs.find? fun leg => leg.perpSymbol = perpSymbol

/-- The market a route was last asked for, with the amount. -/
def routed (m : Memory) : Option (Leg × Nat) :=
  m.route.bind fun route => (spotLeg venue route.1).map fun leg => (leg, route.2)

/-- The last call was for a route: a deployment has nothing behind it yet but its probe. -/
def probing (m : Memory) : Bool :=
  match m.last with
  | some (.getRoute _ _) => true
  | _ => false

/-- The tokens a purchase that has just gone through has delivered. -/
def delivered (m : Memory) : Nat :=
  match m.last with
  | some (.swap _ _) => ((routed venue m).bind fun route => route.1.buys route.2).getD 0
  | _ => 0

/-- What the venue answers. A deployment asks for a route into a token; an unwind first for one
out of all of it, and when it is to sell, for one out of what it sells. -/
def answer (deploying : Bool) (m : Memory) : (c : Call) → Outcome c.Result
  | .getRoute symbol amount =>
      .answered ((spotLeg venue symbol).bind fun leg =>
        if deploying then leg.buyQuote amount
        else
          match m.last with
          | some (.tokensHeld _) => if leg.sellRoute amount then some 0 else none
          | _ => leg.sellQuote)
  | .buildRoute _ => ofOption ((routed venue m).bind fun route =>
      if route.1.builds then some ((route.1.buyQuote route.2).getD 0) else none)
  | .spotBalance symbol => ofOption ((spotLeg venue symbol).map fun leg =>
      leg.balance + if deploying then delivered venue m else 0)
  | .usdcBalance => .answered (venue.idleOnBase + m.gained)
  | .tokensHeld symbol => ofOption ((spotLeg venue symbol).map (·.balance))
  | .usdcBefore => .answered 0
  | .usdcAfter => .answered (((routed venue m).bind fun route => route.1.sells route.2).getD 0)
  | .allowance _ => ofOption ((routed venue m).bind fun route =>
      if route.1.approves then some 0 else none)
  | .approve _ _ => .answered ()
  | .swap kind _ => granted (((routed venue m).bind fun route =>
      if kind = .spotBuy then route.1.buys route.2 else route.1.sells route.2).isSome)
  | .returnToVault amount => granted (venue.takesBack amount.toNat)
  | .accountInfo =>
      if deploying then
        if probing m then
          ofOption (venue.unallocatedMargin.map fun margin : Nat =>
            some { availableToSpend := some (margin / 1000000), availableToWithdraw := none })
        else .answered (if venue.registers then some ⟨none, none⟩ else none)
      else ofOption (venue.availableToWithdraw.map fun margin : Nat =>
        some { availableToSpend := none, availableToWithdraw := some (margin / 1000000) })
  | .positions => .answered (some (venue.legs.map fun leg =>
      ⟨leg.perpSymbol, some leg.position, leg.entryPrice⟩))
  | .prices => .answered (venue.legs.map fun leg => ⟨leg.perpSymbol, leg.mark⟩)
  | .markets perpSymbol => .answered ((perpLeg venue perpSymbol).map fun leg =>
      ⟨leg.lotSize, leg.minOrderSize⟩)
  | .updateLeverage _ _ => granted venue.setsLeverage
  | .order _ perpSymbol size =>
      granted ((perpLeg venue perpSymbol).any fun leg => leg.takesOrder size)
  | .requestWithdrawal _ => granted venue.withdraws
  | .solanaIdleUsdc => .answered venue.strandedOnSolana
  | .toSolana amount => ofOption (venue.toSolana amount)
  | .toBase amount => ofOption (venue.toBase amount)

/-- The world of a venue, for a deployment or for another action. -/
def world (deploying : Bool) (polls : Nat) : World where
  outcome trace c := answer venue deploying (remember trace) c
  registrationPolls := polls

end

/-- The markets of a venue are told apart by their tokens and by their perps, and what is not held
is priced at nothing. -/
structure Listed (venue : Venue) : Prop where
  symbols : (venue.legs.map (·.symbol)).Nodup
  perpSymbols : (venue.legs.map (·.perpSymbol)).Nodup
  unheld : ∀ leg ∈ venue.legs, leg.balance = 0 → leg.sellQuote = some 0

/-! ### What the two have in common -/

/-- A row or an entry, but for the reference. -/
abbrev Shown := ActivityKind × Chain × String × Int × Int × Int

def Entry.shown (entry : Entry) : Shown :=
  (entry.kind, entry.chain, entry.symbol, entry.baseAmount, entry.notionalAssets, entry.feeAssets)

/-- The same of a row on a venue. -/
def shownRow (row : Row) : Shown :=
  (row.kind, row.chain, row.symbol, row.baseAmount, row.notionalAssets, row.feeAssets)

/-- The same activity, and as much returned, with this to remember. -/
structure Meets (m : Memory) (r : Record) (t : Trip) : Prop where
  memory : remember r.trace = m
  activity : r.activity.map Entry.shown = t.activity.map shownRow
  returned : m.returned = t.returned

/-- Two errors carry the same activity, or none. -/
def Carried (f : Failure) (g : VenueFailure) : Prop :=
  f.activity.map (List.map Entry.shown) = g.activity.map (List.map shownRow)

/-- They have met, with something of this kind to remember. -/
def Met (M : Memory → Prop) (r : Record) (t : Trip) : Prop := ∃ m, M m ∧ Meets m r t

/-- Both have stopped, and what they carry is the same. -/
def BothStop (M : Memory → Prop) (f : Failure) (g : VenueFailure) (r : Record) (t : Trip) : Prop :=
  Carried f g ∧ Met M r t

variable {venue : Venue} {deploying : Bool} {polls : Nat} {m : Memory} {r : Record} {t : Trip}
  {leg : Leg} {M M' : Memory → Prop} {α β γ : Type}

theorem Meets.met (h : Meets m r t) (hM : M m) : Met M r t := ⟨m, hM, h⟩

theorem Met.mono (h : Met M r t) (hM : ∀ m, M m → M' m) : Met M' r t := by
  obtain ⟨m, hm, hmeets⟩ := h
  exact ⟨m, hM m hm, hmeets⟩

/-- What they have met on may be taken apart first. -/
theorem of_met {x : Script α} {y : Adapter β} {Q : α → β → Record → Trip → Prop}
    {E : Failure → VenueFailure → Record → Trip → Prop}
    (h : ∀ m, M m → Lockstep (Meets m) x y Q E) : Lockstep (Met M) x y Q E :=
  .of_exists fun m => .of_and (h m)

theorem to_met {m' : Memory} {x : Script α} {y : Adapter β}
    {E : Failure → VenueFailure → Record → Trip → Prop}
    (h : Lockstep (Meets m) x y (fun _ _ => Meets m') E) (hM : M m') :
    Lockstep (Meets m) x y (fun _ _ => Met M) E :=
  h.consequence (fun _ _ h => h) (fun _ _ _ _ h => h.met hM) fun _ _ _ _ h => h

theorem remember_saw (r : Record) (e : Event) :
    remember (r.saw e).trace = (remember r.trace).saw e := by
  rw [Record.saw, remember, List.foldl_append]
  rfl

theorem Meets.saw (h : Meets m r t) (e : Event) (hreturned : (m.saw e).returned = m.returned) :
    Meets (m.saw e) (r.saw e) t where
  memory := by rw [remember_saw, h.memory]
  activity := h.activity
  returned := hreturned.trans h.returned

theorem Meets.stops {cause : Cause} {stop : Stop} (h : Meets m r t) (hM : M m) :
    BothStop M ⟨cause, none⟩ ⟨stop, none⟩ r t := ⟨rfl, m, hM, h⟩

/-! ### Rules -/

section

variable {c : Call} {k : Nat × c.Result → Script γ} {y : Adapter β}
  {Q : γ → β → Record → Trip → Prop} {E : Failure → VenueFailure → Record → Trip → Prop}

variable (venue deploying polls c) in
theorem send_eq (h : Meets m r t) :
    send (world venue deploying polls) c r =
      match answer venue deploying m c with
      | .answered x => (.ok (r.trace.length, x), r.saw ⟨c, .answered x⟩)
      | .failed n => (.error ⟨.call c, none⟩, r.saw ⟨c, .failed n⟩) := by
  rw [← h.memory]
  rfl

theorem send_ok {x : c.Result} (hx : answer venue deploying m c = .answered x)
    (h : Meets m r t) :
    send (world venue deploying polls) c r =
      (.ok (r.trace.length, x), r.saw ⟨c, .answered x⟩) := by
  rw [send_eq venue deploying polls c h, hx]

theorem send_error {n : Nat} (hx : answer venue deploying m c = .failed n) (h : Meets m r t) :
    send (world venue deploying polls) c r =
      (.error ⟨.call c, none⟩, r.saw ⟨c, .failed n⟩) := by
  rw [send_eq venue deploying polls c h, hx]

/-- A step that is sure to make one call, and to go on with its number and answer. -/
theorem answers_alone {x : Script (Nat × c.Result)} {a : c.Result}
    (hx : ∀ r t, Meets m r t → x r = (.ok (r.trace.length, a), r.saw ⟨c, .answered a⟩))
    (hreturned : (m.saw ⟨c, .answered a⟩).returned = m.returned)
    (hk : ∀ id, Lockstep (Meets (m.saw ⟨c, .answered a⟩)) (k (id, a)) y Q E) :
    Lockstep (Meets m) (x >>= k) y Q E := by
  refine .alone (Q := fun sent r t => sent.2 = a ∧ Meets (m.saw ⟨c, .answered a⟩) r t)
    (fun r t h => ⟨_, _, hx r t h, rfl, h.saw _ hreturned⟩) fun sent => .of_and fun hsent => ?_
  rw [← Prod.eta sent, hsent]
  exact hk sent.1

/-- A call that is answered. -/
theorem send_answers {x : c.Result} (hx : answer venue deploying m c = .answered x)
    (hreturned : (m.saw ⟨c, .answered x⟩).returned = m.returned)
    (hk : ∀ id, Lockstep (Meets (m.saw ⟨c, .answered x⟩)) (k (id, x)) y Q E) :
    Lockstep (Meets m) (send (world venue deploying polls) c >>= k) y Q E :=
  answers_alone (fun _ _ h => send_ok hx h) hreturned hk

/-- A call that fails where the venue stops. -/
theorem send_fails {n : Nat} {g : VenueFailure}
    (hx : answer venue deploying m c = .failed n) (hy : ∀ t, y t = (.error g, t))
    (hE : ∀ r t, Meets (m.saw ⟨c, .failed n⟩) r t → E ⟨.call c, none⟩ g r t) :
    Lockstep (Meets m) (send (world venue deploying polls) c >>= k) y Q E := by
  intro r t h
  rw [bind_of_error (send_error hx h), hy]
  exact hE _ t (h.saw _ (by cases c <;> rfl))

/-- A call that the venue answers or stops at. -/
theorem send_expect {o : Option c.Result} {g : VenueFailure} {l : c.Result → Adapter β}
    (hx : answer venue deploying m c = ofOption o)
    (hreturned : ∀ x, (m.saw ⟨c, .answered x⟩).returned = m.returned)
    (hk : ∀ x id, Lockstep (Meets (m.saw ⟨c, .answered x⟩)) (k (id, x)) (l x) Q E)
    (hE : ∀ r t, Meets (m.saw ⟨c, .failed 0⟩) r t → E ⟨.call c, none⟩ g r t) :
    Lockstep (Meets m) (send (world venue deploying polls) c >>= k) (Effect.expect g o >>= l)
      Q E := by
  cases o with
  | some x => exact send_answers hx (hreturned x) (hk x)
  | none => exact send_fails hx (fun _ => rfl) hE

/-- A call that the venue grants or stops at. -/
theorem send_granted {b : Bool} {x : c.Result} {g : VenueFailure} {l : Unit → Adapter β}
    (hx : answer venue deploying m c = if b then .answered x else .failed 0)
    (hreturned : (m.saw ⟨c, .answered x⟩).returned = m.returned)
    (hk : ∀ id, Lockstep (Meets (m.saw ⟨c, .answered x⟩)) (k (id, x)) (l ()) Q E)
    (hE : ∀ r t, Meets (m.saw ⟨c, .failed 0⟩) r t → E ⟨.call c, none⟩ g r t) :
    Lockstep (Meets m) (send (world venue deploying polls) c >>= k)
      (Effect.require b g >>= l) Q E := by
  cases b with
  | true => exact send_answers hx hreturned hk
  | false => exact send_fails hx (fun _ => rfl) hE

/-- A call whose failure would be handled. -/
theorem attempt_answers {handle : Failure → Script (Nat × c.Result)} {x : c.Result}
    (hx : answer venue deploying m c = .answered x)
    (hreturned : (m.saw ⟨c, .answered x⟩).returned = m.returned)
    (hk : ∀ id, Lockstep (Meets (m.saw ⟨c, .answered x⟩)) (k (id, x)) y Q E) :
    Lockstep (Meets m) (Effect.attempt (send (world venue deploying polls) c) handle >>= k)
      y Q E :=
  answers_alone (fun _ _ h => attempt_of_ok (send_ok hx h)) hreturned hk

/-- A call whose failure is handled. -/
theorem attempt_fails {handle : Failure → Script (Nat × c.Result)} {n : Nat}
    (hx : answer venue deploying m c = .failed n)
    (hk : Lockstep (Meets (m.saw ⟨c, .failed n⟩)) (handle ⟨.call c, none⟩ >>= k) y Q E) :
    Lockstep (Meets m) (Effect.attempt (send (world venue deploying polls) c) handle >>= k)
      y Q E := by
  intro r t h
  rw [bind_eq_of_eq (attempt_of_error (send_error hx h))]
  exact hk _ t (h.saw _ (by cases c <;> rfl))

variable {l : c.Result → Script γ}

theorem ask_bind (w : World) (l : c.Result → Script γ) :
    (ask w c >>= l) = (send w c >>= fun sent => l sent.2) := by
  rw [ask, bind_assoc]
  simp only [pure_bind]

theorem ask_answers {x : c.Result} (hx : answer venue deploying m c = .answered x)
    (hreturned : (m.saw ⟨c, .answered x⟩).returned = m.returned)
    (hl : Lockstep (Meets (m.saw ⟨c, .answered x⟩)) (l x) y Q E) :
    Lockstep (Meets m) (ask (world venue deploying polls) c >>= l) y Q E := by
  rw [ask_bind]
  exact send_answers hx hreturned fun _ => hl

theorem ask_fails {n : Nat} {g : VenueFailure}
    (hx : answer venue deploying m c = .failed n) (hy : ∀ t, y t = (.error g, t))
    (hE : ∀ r t, Meets (m.saw ⟨c, .failed n⟩) r t → E ⟨.call c, none⟩ g r t) :
    Lockstep (Meets m) (ask (world venue deploying polls) c >>= l) y Q E := by
  rw [ask_bind]
  exact send_fails hx hy hE

theorem ask_granted {b : Bool} {x : c.Result} {g : VenueFailure} {y : Unit → Adapter β}
    (hx : answer venue deploying m c = if b then .answered x else .failed 0)
    (hreturned : (m.saw ⟨c, .answered x⟩).returned = m.returned)
    (hl : Lockstep (Meets (m.saw ⟨c, .answered x⟩)) (l x) (y ()) Q E)
    (hE : ∀ r t, Meets (m.saw ⟨c, .failed 0⟩) r t → E ⟨.call c, none⟩ g r t) :
    Lockstep (Meets m) (ask (world venue deploying polls) c >>= l)
      (Effect.require b g >>= y) Q E := by
  rw [ask_bind]
  exact send_granted hx hreturned (fun _ => hl) hE

/-- A read whose failure would be handled. -/
theorem attempt_ask_answers {handle : Failure → Script c.Result} {x : c.Result}
    (hx : answer venue deploying m c = .answered x)
    (hreturned : (m.saw ⟨c, .answered x⟩).returned = m.returned)
    (hl : Lockstep (Meets (m.saw ⟨c, .answered x⟩)) (l x) y Q E) :
    Lockstep (Meets m) (Effect.attempt (ask (world venue deploying polls) c) handle >>= l)
      y Q E := by
  refine .alone (Q := fun a r t => a = x ∧ Meets (m.saw ⟨c, .answered x⟩) r t)
    (fun r t h => ⟨x, _, attempt_of_ok (bind_of_ok (send_ok hx h)), rfl, h.saw _ hreturned⟩)
    fun a => .of_and fun ha => ?_
  rw [ha]
  exact hl

end

/-- A row, and its entry. -/
theorem push_alike {entry : Entry} {row : Row} (h : entry.shown = shownRow row) {E} :
    Lockstep (Meets m) (push entry) (Agent.push row) (fun _ _ => Meets m) E := by
  refine .update fun r t hmeets => ⟨hmeets.memory, ?_, hmeets.returned⟩
  rw [List.map_append, List.map_append, hmeets.activity, List.map_singleton, List.map_singleton, h]

theorem throwPlain_alike {stop stop' : Stop} {Q : α → β → Record → Trip → Prop} (hM : M m) :
    Lockstep (Meets m) (throwPlain stop) (Agent.throwPlain stop') Q (BothStop M) :=
  .fail fun _ _ h => ⟨rfl, m, hM, h⟩

theorem throwExecution_alike {stop stop' : Stop} {Q : α → β → Record → Trip → Prop} (hM : M m) :
    Lockstep (Meets m) (throwExecution stop) (Agent.throwExecution stop') Q (BothStop M) :=
  .failWith fun _ _ h => ⟨congrArg some h.activity, m, hM, h⟩

/-- A condition on both sides. -/
theorem orThrow_alike {b b' : Bool} {stop stop' : Stop} (hb : b = b') (hM : M m) :
    Lockstep (Meets m) (orThrow b stop) (Agent.orThrow b' stop')
      (fun _ _ r t => b' = true ∧ Meets m r t) (BothStop M) := by
  subst hb
  cases b with
  | true => exact .pure fun _ _ h => ⟨rfl, h⟩
  | false => exact throwPlain_alike hM

theorem orThrowExecution_alike {b b' : Bool} {stop stop' : Stop} (hb : b = b') (hM : M m) :
    Lockstep (Meets m) (orThrowExecution b stop) (Agent.orThrowExecution b' stop')
      (fun _ _ r t => b' = true ∧ Meets m r t) (BothStop M) := by
  subst hb
  cases b with
  | true => exact .pure fun _ _ h => ⟨rfl, h⟩
  | false => exact throwExecution_alike hM

/-! ### A market of the venue -/

theorem find_of_mem {κ : Type} [DecidableEq κ] {f : Leg → κ} {legs : List Leg}
    (h : (legs.map f).Nodup) (hleg : leg ∈ legs) :
    legs.find? (fun other => f other = f leg) = some leg := by
  induction legs with
  | nil => cases hleg
  | cons first rest ih =>
      rw [List.map_cons, List.nodup_cons] at h
      rcases List.mem_cons.mp hleg with rfl | hrest
      · simp
      · have hne : f first ≠ f leg := fun heq => h.1 (heq ▸ List.mem_map_of_mem hrest)
        rw [List.find?_cons_of_neg (by simpa using hne)]
        exact ih h.2 hrest

theorem Listed.spotLeg (h : Listed venue) (hleg : leg ∈ venue.legs) :
    spotLeg venue leg.symbol = some leg := find_of_mem h.symbols hleg

theorem Listed.perpLeg (h : Listed venue) (hleg : leg ∈ venue.legs) :
    perpLeg venue leg.perpSymbol = some leg := find_of_mem h.perpSymbols hleg

/-- Nothing has been gained since. -/
abbrev Idle (m m' : Memory) : Prop := m'.gained = m.gained

section

variable {x : Script α} {y : Adapter β} {m' : Memory}

/-- What is gained since is gained in all, where nothing was gained before. -/
theorem since {P : Record → Trip → Prop} {R : α → β → Prop} {f : β → Nat} (h : Idle m m')
    (hxy : Lockstep P x y (fun a b r t => R a b ∧ Met (fun n => n.gained = m'.gained + f b) r t)
      (BothStop (Idle m'))) :
    Lockstep P x y (fun a b r t => R a b ∧ Met (fun n => n.gained = m.gained + f b) r t)
      (BothStop (Idle m)) := by
  refine hxy.consequence (fun _ _ h => h) ?_ ?_
  · rintro a b r t ⟨hab, hmet⟩
    exact ⟨hab, hmet.mono fun _ hn => hn.trans (congrArg (· + f b) h)⟩
  · rintro f g r t ⟨hcarried, hmet⟩
    exact ⟨hcarried, hmet.mono fun _ hn => hn.trans h⟩

theorem still {P : Record → Trip → Prop} (h : Idle m m')
    (hxy : Lockstep P x y (fun _ _ => Met (Idle m')) (BothStop (Idle m'))) :
    Lockstep P x y (fun _ _ => Met (Idle m)) (BothStop (Idle m)) := by
  refine hxy.consequence (fun _ _ h => h) ?_ ?_
  · rintro a b r t hmet
    exact hmet.mono fun _ hn => hn.trans h
  · rintro f g r t ⟨hcarried, hmet⟩
    exact ⟨hcarried, hmet.mono fun _ hn => hn.trans h⟩

theorem anyway {P : Record → Trip → Prop} {Q : α → β → Record → Trip → Prop}
    (hxy : Lockstep P x y Q (BothStop M)) : Lockstep P x y Q (BothStop fun _ => True) :=
  hxy.consequence (fun _ _ h => h) (fun _ _ _ _ h => h) fun _ _ _ _ h =>
    ⟨h.1, h.2.mono fun _ _ => trivial⟩

end

end Calls

end Agent

end LemonMarket
