import LemonMarket.Agent.Calls
import LemonMarket.Lib.Triple

/-!
# LemonMarket.Agent.Feed

**Which legs reach the feed.** The worker publishes the activity an action returns, or the
activity its error carries. Three things come between a leg and its row: a call that fails
after executing it; an error that is not a `VenueExecutionError`, which takes every row
recorded so far with it; and `closeAll`, which adds the rows a market's failure carries to
the array they are already in.

`Fine` says of one call, given the calls before it, that it does none of these, and
`Recorded` of a whole trace. The proof carries one invariant through the program text: so
far either every call was fine and the rows are the executed legs, or one was not and the
rows are wrong beyond repair.
-/

namespace LemonMarket

namespace Agent

namespace Calls

open Lib Lib.Effect

/-! ### What may go wrong with a call -/

/-- Calls that end in an error: those that fail, and a listing without a usable lot size. -/
def Event.stops : Event → Bool
  | ⟨_, .failed _⟩ => true
  | ⟨.markets _, .answered info⟩ => (usableLot info).isNone
  | _ => false

/-- Those whose error carries the activity. -/
def Event.carries : Event → Bool
  | ⟨.swap _ _, .failed _⟩ => true
  | ⟨.getRoute _ _, .answered none⟩ => true
  | _ => false

/-- The calls whose errors an action catches, or passes on with the activity. -/
def Action.survives : Action → Call → Bool
  | .deploy .., .swap .. => true
  | .deploy .., .order .perpClose .. => true
  | .unwind .., .swap .. => true
  | .unwind .., .accountInfo => true
  | .unwind .., .positions => true
  | .unwind .., .prices => true
  | .unwind .., .requestWithdrawal _ => true
  | .unwind .., .toBase _ => true
  | .closeAll, .spotBalance _ => false
  | .closeAll, .positions => false
  | .closeAll, .usdcBalance => false
  | .closeAll, .usdcAfter => false
  | .closeAll, .returnToVault _ => false
  | .closeAll, _ => true
  | _, _ => false

/-- A call an action makes loses no row and repeats none: it has not executed what it fails
at, no leg was executed before an error the action does not survive, and none before one
`closeAll` would repeat the activity for. -/
structure Fine (a : Action) (before : List Event) (e : Event) : Prop where
  whole : e.failed = true → e.executed = []
  survived : e.stops = true → executed before ≠ [] → a.survives e.call = true
  unrepeated : a = .closeAll → e.carries = true → executed before = []

/-- Every call of a trace is fine after the ones before it. -/
def Recorded (a : Action) (trace : List Event) : Prop := Each (Fine a) trace

/-- **Each executed leg is published exactly once.** -/
structure PublishedOnce (ended : Except Failure Unit × Record) : Prop where
  all : ∀ leg ∈ executed ended.2.trace, leg ∈ (published ended).map Entry.leg
  once : ((published ended).map Entry.leg).Nodup

/-! ### The invariant -/

def Record.filed (r : Record) (entries : List Entry) : Record :=
  { r with activity := r.activity ++ entries }

/-- The legs there are rows for. -/
def Record.legs (r : Record) : List (ActivityKind × Nat) := r.activity.map Entry.leg

/-- Some call was not fine, and the rows are wrong for good: a leg of a past call has none,
or one has two. -/
structure Spoiled (a : Action) (r : Record) : Prop where
  notRecorded : ¬ Recorded a r.trace
  ran : executed r.trace ≠ []
  wrong : (∃ leg ∈ executed r.trace, leg ∉ r.legs) ∨ ¬ r.legs.Nodup

structure FeedInv (a : Action) (r : Record) : Prop where
  past : ∀ leg ∈ r.legs, leg.2 < r.trace.length
  state : (Recorded a r.trace ∧ r.legs = executed r.trace) ∨ Spoiled a r

/-- Nothing was executed yet, and nothing can have gone wrong. -/
structure Fresh (a : Action) (r : Record) : Prop where
  recorded : Recorded a r.trace
  ran : executed r.trace = []
  empty : r.activity = []

/-- Where an action stops without its activity: every call was fine if nothing was lost. -/
def Verdict (a : Action) (r : Record) : Prop := Recorded a r.trace ↔ executed r.trace = []

/-- Once rows are there for some legs that were just executed, the invariant holds. -/
def Settles (a : Action) (legs : List (ActivityKind × Nat)) (r : Record) : Prop :=
  ∀ entries, entries.map Entry.leg = legs → FeedInv a (r.filed entries)

/-- The rows of a call that has been answered are still to be filed. -/
structure Owing (a : Action) (legs : List (ActivityKind × Nat)) (r : Record) : Prop where
  settles : Settles a legs r
  ran : ∀ leg ∈ legs, leg ∈ executed r.trace
  past : ∀ leg ∈ r.legs, leg.2 < r.trace.length
  unfiled : ∀ leg ∈ legs, leg ∉ r.legs

variable {a : Action} {r : Record} {e : Event} {entries : List Entry}

@[simp] theorem legs_saw : (r.saw e).legs = r.legs := rfl

@[simp] theorem legs_filed : (r.filed entries).legs = r.legs ++ entries.map Entry.leg := by
  rw [Record.legs, Record.filed, List.map_append]
  rfl

@[simp] theorem filed_nil : r.filed [] = r := by
  rw [Record.filed, List.append_nil]

@[simp] theorem trace_filed : (r.filed entries).trace = r.trace := rfl

@[simp] theorem length_saw : (r.saw e).trace.length = r.trace.length + 1 := by
  simp [Record.saw]

theorem executed_saw : executed (r.saw e).trace =
    executed r.trace ++ e.executed.map fun leg => (leg, r.trace.length) := numbered_snoc

theorem executed_saw_of_none (h : e.executed = []) :
    executed (r.saw e).trace = executed r.trace := by
  rw [executed_saw, h]
  exact List.append_nil _

theorem recorded_saw : Recorded a (r.saw e).trace ↔ Recorded a r.trace ∧ Fine a r.trace e :=
  each_snoc

theorem executed_saw_ne (h : executed r.trace ≠ []) : executed (r.saw e).trace ≠ [] := by
  intro hnil
  rw [executed_saw] at hnil
  exact h (List.append_eq_nil_iff.mp hnil).1

/-! ### Events -/

/-- An error leaves nothing executed but what a failed call has. -/
theorem executed_of_stops (hstops : e.stops = true) (hanswered : e.failed = false) :
    e.executed = [] := by
  unfold Event.stops at hstops
  split at hstops
  next => cases hanswered
  next => rfl
  next => cases hstops

theorem stops_of_failed (h : e.failed = true) : e.stops = true := by
  obtain ⟨c, x | n⟩ := e
  · cases h
  · rfl

theorem executed_failed {c : Call} {n : Nat} (hlegs : c.legs = []) :
    (⟨c, .failed n⟩ : Event).executed = [] := by
  rw [Event.executed, hlegs]
  exact List.take_nil

/-- Nothing is wrong with any call that executes nothing while nothing was executed. -/
theorem fine_of_fresh (hran : executed r.trace = []) (hnone : e.executed = []) :
    Fine a r.trace e where
  whole _ := hnone
  survived _ hne := absurd hran hne
  unrepeated _ _ := hran

theorem fine_of_goes_on (hstops : e.stops = false)
    (honce : a = .closeAll → e.carries = false) : Fine a r.trace e where
  whole h := absurd (hstops.symm.trans (stops_of_failed h)) Bool.false_ne_true
  survived h _ := absurd (hstops.symm.trans h) Bool.false_ne_true
  unrepeated hclose h := absurd ((honce hclose).symm.trans h) Bool.false_ne_true

/-! ### What a call does to the invariant -/

theorem Spoiled.saw (h : Spoiled a r) : Spoiled a (r.saw e) where
  notRecorded hrec := h.notRecorded (recorded_saw.mp hrec).1
  ran := executed_saw_ne h.ran
  wrong := by
    rcases h.wrong with ⟨leg, hran, hmissing⟩ | htwice
    · refine .inl ⟨leg, ?_, hmissing⟩
      rw [executed_saw]
      exact List.mem_append_left _ hran
    · exact .inr htwice

theorem FeedInv.past_saw (h : FeedInv a r) :
    ∀ leg ∈ (r.saw e).legs, leg.2 < (r.saw e).trace.length := by
  intro leg hleg
  rw [length_saw]
  exact Nat.lt_succ_of_lt (h.past leg hleg)

/-- A call that is fine and executes nothing. -/
theorem FeedInv.saw (h : FeedInv a r) (hfine : Fine a r.trace e) (hnone : e.executed = []) :
    FeedInv a (r.saw e) := by
  refine ⟨h.past_saw, ?_⟩
  rcases h.state with ⟨hrec, hlegs⟩ | hspoiled
  · refine .inl ⟨recorded_saw.mpr ⟨hrec, hfine⟩, ?_⟩
    rw [executed_saw_of_none hnone]
    exact hlegs
  · exact .inr (hspoiled.saw)

/-- A call that failed after executing something. -/
theorem FeedInv.lost (h : FeedInv a r) (hfailed : e.failed = true) (hsome : e.executed ≠ []) :
    Spoiled a (r.saw e) where
  notRecorded hrec := hsome ((recorded_saw.mp hrec).2.whole hfailed)
  ran := by
    intro hnil
    rw [executed_saw] at hnil
    exact hsome (List.map_eq_nil_iff.mp (List.append_eq_nil_iff.mp hnil).2)
  wrong := by
    obtain ⟨leg, hleg⟩ := List.exists_mem_of_ne_nil _ hsome
    -- its number is that of the call, and every row is of an earlier one
    refine .inl ⟨(leg, r.trace.length), ?_, ?_⟩
    · rw [executed_saw]
      exact List.mem_append_right _ (List.mem_map_of_mem hleg)
    · intro hfiled
      exact absurd (h.past _ hfiled) (Nat.lt_irrefl _)

theorem failed_of_executed (hstops : e.stops = true) (hsome : e.executed ≠ []) :
    e.failed = true := by
  by_contra hanswered
  exact hsome (executed_of_stops hstops (Bool.eq_false_of_not_eq_true hanswered))

/-- An error the action survives. -/
theorem FeedInv.kept (h : FeedInv a r) (hstops : e.stops = true)
    (hsurvives : a.survives e.call = true) (honce : a = .closeAll → e.carries = false) :
    FeedInv a (r.saw e) := by
  by_cases hnone : e.executed = []
  · refine h.saw ⟨fun _ => hnone, fun _ _ => hsurvives, ?_⟩ hnone
    intro hclose hcarries
    exact absurd ((honce hclose).symm.trans hcarries) Bool.false_ne_true
  · exact ⟨h.past_saw, .inr (h.lost (failed_of_executed hstops hnone) hnone)⟩

/-- An error it does not survive. -/
theorem FeedInv.stopped (h : FeedInv a r) (hstops : e.stops = true)
    (hnot : a.survives e.call = false) : Verdict a (r.saw e) := by
  rcases h.state with ⟨hrec, hlegs⟩ | hspoiled
  · by_cases hnone : e.executed = []
    · -- The rows go with the error, which is fine exactly if there are none.
      unfold Verdict
      rw [executed_saw_of_none hnone, recorded_saw]
      constructor
      · rintro ⟨-, hfine⟩
        by_contra hran
        exact absurd (hnot.symm.trans (hfine.survived hstops hran)) Bool.false_ne_true
      · intro hran
        exact ⟨hrec, fine_of_fresh hran hnone⟩
    · have hlost := h.lost (failed_of_executed hstops hnone) hnone
      exact iff_of_false hlost.notRecorded hlost.ran
  · have hlost := hspoiled.saw (e := e)
    exact iff_of_false hlost.notRecorded hlost.ran

/-- A call that was answered: its legs are to be filed. -/
theorem FeedInv.sent (h : FeedInv a r) (hstops : e.stops = false)
    (honce : a = .closeAll → e.carries = false) :
    Owing a (e.executed.map fun leg => (leg, r.trace.length)) (r.saw e) where
  settles := by
    intro entries hentries
    refine ⟨?_, ?_⟩
    · intro leg hleg
      rw [legs_filed, List.mem_append] at hleg
      rcases hleg with hleg | hleg
      · exact h.past_saw leg hleg
      · rw [hentries] at hleg
        obtain ⟨kind, -, rfl⟩ := List.mem_map.mp hleg
        rw [trace_filed, length_saw]
        exact Nat.lt_succ_self _
    · rcases h.state with ⟨hrec, hlegs⟩ | hspoiled
      · refine .inl ⟨recorded_saw.mpr ⟨hrec, fine_of_goes_on hstops honce⟩, ?_⟩
        rw [legs_filed, legs_saw, hlegs, hentries, trace_filed, executed_saw]
      · have hstill := hspoiled.saw (e := e)
        refine .inr ⟨hstill.notRecorded, hstill.ran, ?_⟩
        rw [legs_filed, legs_saw, hentries]
        -- the rows to come bear this call's number: none is of the missing leg
        rcases hspoiled.wrong with ⟨leg, hran, hmissing⟩ | htwice
        · refine .inl ⟨leg, ?_, ?_⟩
          · rw [trace_filed, executed_saw]
            exact List.mem_append_left _ hran
          · rw [List.mem_append]
            rintro (hfiled | hnew)
            · exact hmissing hfiled
            · obtain ⟨kind, -, rfl⟩ := List.mem_map.mp hnew
              exact absurd (numbered_lt hran) (Nat.lt_irrefl _)
        · exact .inr fun hnodup => htwice (List.Nodup.of_append_left hnodup)
  ran leg hleg := by
    rw [executed_saw]
    exact List.mem_append_right _ hleg
  past := h.past_saw
  unfiled leg hleg hfiled := by
    obtain ⟨kind, -, rfl⟩ := List.mem_map.mp hleg
    exact absurd (h.past _ hfiled) (Nat.lt_irrefl _)

theorem Fresh.inv (h : Fresh a r) : FeedInv a r where
  past leg hleg := by
    rw [Record.legs, h.empty] at hleg
    cases hleg
  state := by
    refine .inl ⟨h.recorded, ?_⟩
    rw [Record.legs, h.empty, h.ran]
    rfl

theorem Fresh.verdict (h : Fresh a r) : Verdict a r := iff_of_true h.recorded h.ran

theorem Fresh.saw (h : Fresh a r) (hnone : e.executed = []) : Fresh a (r.saw e) where
  recorded := recorded_saw.mpr ⟨h.recorded, fine_of_fresh h.ran hnone⟩
  ran := (executed_saw_of_none hnone).trans h.ran
  empty := h.empty

theorem fresh_start : Fresh a {} := ⟨each_nil, rfl, rfl⟩

/-! ### Rules for what the adapter does -/

/-- How a routine may stop: in a plain error, or in one that carries the activity. -/
def Ended (plain carried : Record → Prop) (f : Failure) (r : Record) : Prop :=
  match f.activity with
  | none => plain r
  | some rows => rows = r.activity ∧ carried r

/-- Outside any handler. -/
def Bare (a : Action) : Failure → Record → Prop := Ended (Verdict a) (FeedInv a)

/-- Inside one that goes on. -/
def Kept (a : Action) : Failure → Record → Prop := fun _ r => FeedInv a r

variable {w : World} {c : Call} {P : Record → Prop} {E : Failure → Record → Prop}

theorem send_rule {Q : Nat × c.Result → Record → Prop}
    (hanswered : ∀ r x, P r → Q (r.trace.length, x) (r.saw ⟨c, .answered x⟩))
    (hfailed : ∀ r n, P r → E ⟨.call c, none⟩ (r.saw ⟨c, .failed n⟩)) :
    Triple P (send w c) Q E := by
  intro r hr
  unfold send
  -- the world may do either, whatever was asked before
  cases w.outcome r.trace c with
  | answered x => exact hanswered r x hr
  | failed n => exact hfailed r n hr

theorem ask_rule {Q : c.Result → Record → Prop}
    (hanswered : ∀ r x, P r → Q x (r.saw ⟨c, .answered x⟩))
    (hfailed : ∀ r n, P r → E ⟨.call c, none⟩ (r.saw ⟨c, .failed n⟩)) :
    Triple P (ask w c) Q E :=
  .bind (send_rule (Q := fun sent r => Q sent.2 r) hanswered hfailed) fun _ => .pure fun _ h => h

theorem push_rule {entry : Entry} {leg : ActivityKind × Nat} {legs : List (ActivityKind × Nat)}
    (hentry : entry.leg = leg) :
    Triple (Settles a (leg :: legs)) (push entry) (fun _ => Settles a legs) E := by
  apply Triple.update
  intro r hr entries hentries
  have hsettled := hr (entry :: entries) (by rw [List.map_cons, hentry, hentries])
  rw [Record.filed, List.append_cons] at hsettled
  exact hsettled

theorem inv_of_settles (h : Settles a [] r) : FeedInv a r := by
  have hinv := h [] rfl
  rw [filed_nil] at hinv
  exact hinv

/-- The row of a call with one leg. -/
theorem file_rule {entry : Entry} {leg : ActivityKind × Nat} (hentry : entry.leg = leg) :
    Triple (Owing a [leg]) (push entry) (fun _ => FeedInv a) E :=
  (push_rule hentry).consequence (fun _ h => h.settles) (fun _ _ h => inv_of_settles h)
    fun _ _ h => h

/-- What holds where a call ends in a plain error. -/
def FailsTo (a : Action) (E : Failure → Record → Prop) (c : Call) : Prop :=
  ∀ r (o : Outcome c.Result) cause, (⟨c, o⟩ : Event).stops = true → FeedInv a r →
    E ⟨cause, none⟩ (r.saw ⟨c, o⟩)

theorem failsTo_bare (hnot : a.survives c = false) : FailsTo a (Bare a) c := by
  intro r o cause hstops h
  exact h.stopped hstops hnot

/-- Whether a call's error is one `closeLeg` passes on with the activity. -/
def Call.isSwap : Call → Bool
  | .swap _ _ => true
  | _ => false

theorem carries_of_stops (hswap : c.isSwap = false) {o : Outcome c.Result}
    (hstops : (⟨c, o⟩ : Event).stops = true) : (⟨c, o⟩ : Event).carries = false := by
  cases o with
  | answered x =>
      cases c with
      | getRoute symbol amount => cases hstops
      | _ => rfl
  | failed n =>
      cases c with
      | swap leg symbol => cases hswap
      | _ => rfl

theorem failsTo_kept (hsurvives : a.survives c = true)
    (honce : a = .closeAll → c.isSwap = false) : FailsTo a (Kept a) c := by
  intro r o cause hstops h
  exact h.kept hstops hsurvives fun hclose => carries_of_stops (honce hclose) hstops

/-- Calls that execute nothing, and whose answers are all the same to the feed. -/
def Call.quiet : Call → Bool
  | .getRoute _ _ => false
  | .markets _ => false
  | c => c.legs.isEmpty

theorem quiet_legs (h : c.quiet = true) : c.legs = [] := by
  unfold Call.quiet at h
  split at h
  next => cases h
  next => cases h
  next => exact List.isEmpty_iff.mp h

theorem goes_on_of_quiet (h : c.quiet = true) (x : c.Result) :
    (⟨c, .answered x⟩ : Event).stops = false ∧ (⟨c, .answered x⟩ : Event).carries = false := by
  cases c <;> first | exact ⟨rfl, rfl⟩ | cases h

theorem ask_quiet (hc : c.quiet = true) (hE : FailsTo a E c) :
    Triple (FeedInv a) (ask w c) (fun _ => FeedInv a) E := by
  apply ask_rule
  · intro r x hr
    obtain ⟨hstops, hcarries⟩ := goes_on_of_quiet hc x
    exact hr.saw (fine_of_goes_on hstops fun _ => hcarries) (quiet_legs hc)
  · intro r n hr
    exact hE r _ _ rfl hr

/-- A quote for an action that does not go on past one that carries the activity. -/
theorem ask_route {symbol : String} {amount : Nat} (ha : a ≠ .closeAll)
    (hE : FailsTo a E (.getRoute symbol amount)) :
    Triple (FeedInv a) (ask w (.getRoute symbol amount)) (fun _ => FeedInv a) E := by
  apply ask_rule
  · intro r x hr
    exact hr.saw (fine_of_goes_on rfl fun hclose => absurd hclose ha) rfl
  · intro r n hr
    exact hE r _ _ rfl hr

/-- A call that executes legs: once it is answered their rows are owed. -/
theorem send_owing (hgoes : ∀ x, (⟨c, .answered x⟩ : Event).stops = false)
    (honce : ∀ x, (⟨c, .answered x⟩ : Event).carries = false) (hE : FailsTo a E c) :
    Triple (FeedInv a) (send w c)
      (fun sent => Owing a (c.legs.map fun leg => (leg, sent.1))) E := by
  apply send_rule
  · intro r x hr
    exact hr.sent (hgoes x) fun _ => honce x
  · intro r n hr
    exact hE r _ _ rfl hr

theorem Owing.saw {legs : List (ActivityKind × Nat)} (h : Owing a legs r)
    (hfine : Fine a r.trace e) (hnone : e.executed = []) : Owing a legs (r.saw e) where
  settles entries hentries := (h.settles entries hentries).saw hfine hnone
  ran leg hleg := by
    rw [executed_saw_of_none hnone]
    exact h.ran leg hleg
  past leg hleg := by
    rw [length_saw]
    exact Nat.lt_succ_of_lt (h.past leg hleg)
  unfiled := h.unfiled

/-- An error the action does not survive, with rows still owed. -/
theorem Owing.stopped {legs : List (ActivityKind × Nat)} (h : Owing a legs r)
    (hstops : e.stops = true) (hnot : a.survives e.call = false) : Verdict a (r.saw e) := by
  have hentries : (legs.map fun leg =>
      (⟨leg.1, .base, "", 0, 0, 0, leg.2⟩ : Entry)).map Entry.leg = legs := by
    rw [List.map_map]
    exact List.map_id _
  exact (h.settles _ hentries).stopped hstops hnot

/-- A read between a trade and its row. -/
theorem ask_owing {legs : List (ActivityKind × Nat)} (hc : c.quiet = true)
    (hE : ∀ r n, Owing a legs r → E ⟨.call c, none⟩ (r.saw ⟨c, .failed n⟩)) :
    Triple (Owing a legs) (ask w c) (fun _ => Owing a legs) E := by
  apply ask_rule
  · intro r x hr
    obtain ⟨hstops, hcarries⟩ := goes_on_of_quiet hc x
    exact hr.saw (fine_of_goes_on hstops fun _ => hcarries) (quiet_legs hc)
  · intro r n hr
    exact hE r n hr

theorem throwExecution_bare {α : Type} {stop : Stop} {Q : α → Record → Prop} :
    Triple (FeedInv a) (throwExecution stop) Q (Bare a) :=
  .failWith fun _ h => ⟨rfl, h⟩

theorem orThrowExecution_bare {b : Bool} {stop : Stop} :
    Triple (FeedInv a) (orThrowExecution b stop) (fun _ => FeedInv a) (Bare a) :=
  .ite (fun _ => .pure fun _ h => h) fun _ => throwExecution_bare

/-- A read that an action makes while nothing was executed. -/
theorem ask_fresh (hlegs : c.legs = []) :
    Triple (Fresh a) (ask w c) (fun _ => Fresh a) (Bare a) := by
  apply ask_rule
  · intro r x hr
    exact hr.saw hlegs
  · intro r n hr
    exact (hr.saw (executed_failed hlegs)).verdict

theorem throwPlain_fresh {α : Type} {stop : Stop} {Q : α → Record → Prop} :
    Triple (Fresh a) (throwPlain stop) Q (Bare a) :=
  .fail fun _ h => h.verdict

theorem orThrow_fresh {b : Bool} {stop : Stop} :
    Triple (Fresh a) (orThrow b stop) (fun _ => Fresh a) (Bare a) :=
  .ite (fun _ => .pure fun _ h => h) fun _ => throwPlain_fresh

end Calls

end Agent

end LemonMarket
