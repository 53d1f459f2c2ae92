import LemonMarket.Indexer.Events

/-!
# LemonMarket.Indexer.Index

**The index of a chain.** `index` folds the blocks of a run through the handlers, from the
rows the vault starts with. Whatever is called by whomever, no handler throws, and the
amounts of every redemption request are the contract's (`Mirrors`): what `RedeemQueued`,
`RedeemFulfilled` and `RedeemClaimed` carry is all that ever happens to a request, and a
request that can be fulfilled or claimed has something to update.

`indexTx_rows` is what the rest builds on: the rows after a transaction are those the
handler of the one event it tells makes of the rows before.
-/

namespace LemonMarket.Indexer

open Lib LemonVault
open Custody (Escrowed)

variable {v : LemonVault} {vault : Address} {read : Views} {now : Nat} {msg : Msg} {call : Call}
  {db db' : Db} {w w' w₀ : World} {tx : Tx} {blocks : List (Block World Tx)}

/-! ### The fold -/

/-- What the vault emitted in a transaction. -/
def emitted (t : Transition World Tx) : List Event :=
  t.post.state.log.drop t.pre.state.log.length

/-- The handlers of one transaction's events, the vault read back as `read`. -/
def indexTx (v : LemonVault) (read : Views) (db : Db) (t : Transition World Tx) : Option Db :=
  fold v.self read t.label.msg.timestamp db (emitted t)

/-- Those of one block's. The vault is read as the block leaves it. -/
def indexBlock (v : LemonVault) (db : Db) (b : Block World Tx) : Option Db :=
  b.transitions.foldlM (indexTx v (views v b.post.state)) db

def index (v : LemonVault) (db : Db) (blocks : List (Block World Tx)) : Option Db :=
  blocks.foldlM (indexBlock v) db

/-! ### One transaction -/

/-- The event that is told, by its handler. -/
def handleTold (vault : Address) (read : Views) (now : Nat) (db : Db) (e : Option Event) :
    Option Db := fold vault read now db e.toList

theorem handleTold_some {e : Event} :
    handleTold vault read now db (some e) = handle vault read now db e := by
  rw [handleTold, Option.toList_some, fold_cons]
  exact Option.bind_fun_some _

/-- A plain event is told to no row. -/
theorem handleTold_plain {e : Event} (he : plain vault e = true)
    (h : handleTold vault read now db (some e) = some db') : SameRows db db' := by
  obtain ⟨db₁, hhandle, hsame⟩ : ∃ db₁, handle vault read now db e = some db₁ ∧
      SameRows db db₁ := handle_plain he
  rw [handleTold_some, hhandle] at h
  exact Option.some.inj h ▸ hsame

theorem Carries.prepend {events fees : List Event} {e : Option Event}
    (hfees : ∀ e ∈ fees, plain vault e = true) (h : Carries vault events e) :
    Carries vault (fees ++ events) e := by
  have hmore : ∀ before : List Event, (∀ e ∈ before, plain vault e = true) →
      ∀ e ∈ fees ++ before, plain vault e = true := by
    intro before hbefore e he
    rcases List.mem_append.mp he with he | he
    · exact hfees e he
    · exact hbefore e he
  cases h with
  | none plain => exact .none (hmore _ plain)
  | some before after before_plain after_plain =>
      rw [← List.append_assoc]
      exact .some _ _ (hmore _ before_plain) after_plain

/-- The plain events around the one that is told do nothing to the rows. -/
theorem fold_carries {events : List Event} {e : Option Event} (h : Carries vault events e)
    {P : Db → Prop} (congr : ∀ {db₁ db₂}, SameRows db₁ db₂ → P db₁ → P db₂)
    (told : ∀ db₁, SameRows db db₁ → ∃ db₂, handleTold vault read now db₁ e = some db₂ ∧ P db₂) :
    ∃ db', fold vault read now db events = some db' ∧ P db' := by
  cases h with
  | none plain =>
      obtain ⟨db₁, hfold, hsame⟩ := fold_plain plain
      obtain ⟨db₂, hnone, hP⟩ := told db₁ hsame
      obtain rfl := Option.some.inj hnone
      exact ⟨_, hfold, hP⟩
  | @some before after e before_plain after_plain =>
      obtain ⟨db₁, hbefore, hsame⟩ := fold_plain before_plain
      obtain ⟨db₂, htold, hP⟩ := told db₁ hsame
      obtain ⟨db₃, hafter, hrest⟩ := fold_plain after_plain
      refine ⟨db₃, ?_, congr hrest hP⟩
      rw [handleTold_some] at htold
      rw [fold_append, hbefore, Option.bind_some, fold_cons, htold]
      exact hafter

/-- What a transaction of a run did, and told in the events it emitted. -/
theorem next_told (hescrow : Escrowed v.self w.state.custody) (hn : v.next w tx = some w') :
    ∃ lead e, Charged v.self (feesMinted v tx.msg w.state tx.call) w.state lead ∧
      Tells v.self w.state.limits.val.minRedeemDelay tx.msg tx.call lead.custody e
        w'.state.custody ∧
      (w'.state.limits = w.state.limits ∨
        ∃ l, tx.call = .setLimits l ∧ w'.state.limits.val = l) ∧
      Carries v.self (emitted ⟨w, tx, w'⟩) e := by
  obtain ⟨-, hsender, -, he⟩ := next_eq_some hn
  have htold := exec_told hsender hescrow.unapproved he
  obtain ⟨lead, events, e, hcharged, htells, hlog, hcarries⟩ := htold.told
  obtain ⟨fees, hfees, hplain⟩ := hcharged.told
  refine ⟨lead, e, hcharged, htells, htold.limits, ?_⟩
  have hemitted : emitted ⟨w, tx, w'⟩ = fees ++ events := by
    rw [emitted, hlog, hfees, List.append_assoc, List.drop_left]
  rw [hemitted]
  exact hcarries.prepend hplain

/-! ### The amounts of a request -/

/-- Every amount of a request is the contract's, nothing where there is no row. -/
structure Mirrors (t : Table Address RedeemRequestRow) (redeem : Address → RedeemState) :
    Prop where
  pendingShares : ∀ c, t.column (·.pendingShares) c = (redeem c).pendingShares
  claimableShares : ∀ c, t.column (·.claimableShares) c = (redeem c).claimableShares
  claimableAssets : ∀ c, t.column (·.claimableAssets) c = (redeem c).claimableAssets

/-- A column that a write moves by as much as the contract moves its amount. -/
theorem column_follows {t u : Table Address RedeemRequestRow} {g : RedeemRequestRow → Int}
    {p : RedeemState → Nat} {redeem : Address → RedeemState} {c : Address} {r : RedeemState}
    {d : Int} (h : ∀ x, t.column g x = p (redeem x))
    (hu : ∀ x, u.column g x = t.column g x + if x = c then d else 0)
    (hp : (p r : Int) = p (redeem c) + d) (x : Address) :
    u.column g x = p (Function.update redeem c r x) := by
  rw [hu, h]
  by_cases hx : x = c
  · subst hx
    rw [if_pos rfl, Function.update_self, hp]
  · rw [if_neg hx, Function.update_of_ne hx, Int.add_zero]

/-- A request with something pending or claimable has a row to update. -/
theorem Mirrors.update {t : Table Address RedeemRequestRow} {redeem : Address → RedeemState}
    {c : Address} {f : RedeemRequestRow → RedeemRequestRow} (h : Mirrors t redeem)
    (hc : 0 < (redeem c).pendingShares ∨ 0 < (redeem c).claimableShares ∨
      0 < (redeem c).claimableAssets) : ∃ u, t.update c f = some u := by
  have hpending := h.pendingShares c
  have hshares := h.claimableShares c
  have hassets := h.claimableAssets c
  rcases hc with hc | hc | hc
  · exact Table.update_of_column (g := (·.pendingShares)) (by omega)
  · exact Table.update_of_column (g := (·.claimableShares)) (by omega)
  · exact Table.update_of_column (g := (·.claimableAssets)) (by omega)

/-- **Requests keep up**, and no handler throws. -/
theorem Mirrors.tell {k k' : Custody} {delay : Nat} {e : Option Event}
    (h : Mirrors db.redeemRequest k.redeem) (ht : Tells vault delay msg call k e k') :
    ∃ db', handleTold vault read now db e = some db' ∧ Mirrors db'.redeemRequest k'.redeem := by
  cases ht with
  | silent _ _ redeem => exact ⟨db, rfl, redeem ▸ h⟩
  | reported _ rest =>
      obtain ⟨db', hhandle, hsame⟩ := handle_plain rest
      exact ⟨db', handleTold_some.trans hhandle, hsame.redeemRequest ▸ h⟩
  | moved _ _ _ _ _ redeem =>
      refine ⟨_, handleTold_some, ?_⟩
      rw [onTransfer_rest, redeem]
      exact h
  | deposited _ redeem => exact ⟨_, handleTold_some, redeem ▸ h⟩
  -- from here on a column of the request goes up or down with what is told
  | queued _ _ _ redeem =>
      refine ⟨_, handleTold_some, ?_⟩
      rw [redeem]
      constructor
      · exact column_follows h.pendingShares
          (fun x => Table.column_upsert rfl fun _ => rfl) (by push_cast; rfl)
      · exact column_follows h.claimableShares
          (fun x => Table.column_upsert rfl fun _ => (Int.add_zero _).symm) (Int.add_zero _).symm
      · exact column_follows h.claimableAssets
          (fun x => Table.column_upsert rfl fun _ => (Int.add_zero _).symm) (Int.add_zero _).symm
  | @fulfilled k k' c n a positive pending _ _ redeem =>
      -- there is a row to update: shares are pending of it
      obtain ⟨t, ht⟩ := h.update (.inl (positive.trans_le pending))
      refine ⟨_, handleTold_some.trans (congrArg (Option.bind · _) ht), ?_⟩
      rw [redeem]
      constructor
      · exact column_follows h.pendingShares
          (fun x => Table.column_update (fun _ => rfl) ht) (by push_cast [pending]; rfl)
      · exact column_follows h.claimableShares
          (fun x => Table.column_update (fun _ => rfl) ht) (by push_cast; rfl)
      · exact column_follows h.claimableAssets
          (fun x => Table.column_update (fun _ => rfl) ht) (by push_cast; rfl)
  | @claimed call k k' c r n a positive covered _ redeem =>
      obtain ⟨t, ht⟩ := h.update
        (.inr (positive.imp covered.1.trans_lt' covered.2.trans_lt'))
      refine ⟨_, handleTold_some.trans (congrArg (Option.bind · _) ht), ?_⟩
      rw [redeem]
      constructor
      · exact column_follows h.pendingShares
          (fun x => Table.column_update (d := 0) (fun _ => by simp) ht) (Int.add_zero _).symm
      · exact column_follows h.claimableShares
          (fun x => Table.column_update (fun _ => rfl) ht) (by push_cast [covered.1]; rfl)
      · exact column_follows h.claimableAssets
          (fun x => Table.column_update (fun _ => rfl) ht) (by push_cast [covered.2]; rfl)

/-! ### Runs -/

/-- What every run keeps: the escrow on the chain's side, and the requests that follow it. -/
structure Follows (v : LemonVault) (db : Db) (w : World) : Prop where
  escrow : Escrowed v.self w.state.custody
  requests : Mirrors db.redeemRequest w.state.redeem

theorem follows_genesis (limits : Option Terms) (created : Nat) (h : Genesis v w) :
    Follows v (onVaultCreated limits created) w := by
  obtain ⟨p, -, -, hfresh⟩ := h.fresh
  refine ⟨escrowed_genesis h, ?_⟩
  rw [hfresh.redeem]
  exact ⟨fun _ => Table.column_empty, fun _ => Table.column_empty, fun _ => Table.column_empty⟩

/-- One transaction as the handlers hear of it: fees up to `lead`, the event `e` it tells, and
what that event's handler makes of the rows. -/
structure Heard (v : LemonVault) (read : Views) (w : World) (tx : Tx) (w' : World) (lead : State)
    (e : Option Event) (db db' : Db) : Prop where
  escrow : Escrowed v.self w.state.custody
  charged : Charged v.self (feesMinted v tx.msg w.state tx.call) w.state lead
  tells : Tells v.self w.state.limits.val.minRedeemDelay tx.msg tx.call lead.custody e
    w'.state.custody
  limits : w'.state.limits = w.state.limits ∨
    ∃ l, tx.call = .setLimits l ∧ w'.state.limits.val = l
  requests : Mirrors db.redeemRequest w.state.redeem
  handled : handleTold v.self read tx.msg.timestamp db e = some db'

section keeps

-- a relation between the rows of the index and the state of the vault
variable {I : Db → State → Prop}

/-- What the one event a transaction tells keeps, the transaction keeps. -/
theorem indexTx_keeps (congr : ∀ {db₁ db₂ s}, SameRows db₁ db₂ → I db₁ s → I db₂ s)
    (h : Follows v db w) (hI : I db w.state) (hn : v.next w tx = some w')
    (heard : ∀ lead e db₁ db₂, Heard v read w tx w' lead e db₁ db₂ → I db₁ w.state →
      I db₂ w'.state) :
    ∃ db', indexTx v read db ⟨w, tx, w'⟩ = some db' ∧ Follows v db' w' ∧ I db' w'.state := by
  obtain ⟨-, hsender, -, he⟩ := next_eq_some hn
  have hescrow := escrowed_exec h.escrow hsender he
  obtain ⟨lead, e, hcharged, htells, hlimits, hcarries⟩ := next_told h.escrow hn
  refine fold_carries hcarries (P := fun db' => Follows v db' w' ∧ I db' w'.state) ?_ ?_
  · intro db₁ db₂ hsame hkept
    exact ⟨⟨hkept.1.escrow, hsame.redeemRequest ▸ hkept.1.requests⟩, congr hsame hkept.2⟩
  · intro db₁ hsame
    have hbefore : Mirrors db₁.redeemRequest w.state.redeem :=
      hsame.redeemRequest ▸ h.requests
    obtain ⟨db₂, hhandle, hafter⟩ : ∃ db₂, handleTold v.self read tx.msg.timestamp db₁ e =
        some db₂ ∧ Mirrors db₂.redeemRequest w'.state.redeem :=
      Mirrors.tell (hcharged.redeem ▸ hbefore) htells
    exact ⟨db₂, hhandle, ⟨hescrow, hafter⟩, heard lead e db₁ db₂
      ⟨h.escrow, hcharged, htells, hlimits, hbefore, hhandle⟩ (congr hsame hI)⟩

variable {P : Transition World Tx → Prop} {b : Block World Tx}

theorem indexBlock_keeps (congr : ∀ {db₁ db₂ s}, SameRows db₁ db₂ → I db₁ s → I db₂ s)
    (heard : ∀ read w tx w' lead e db₁ db₂, P ⟨w, tx, w'⟩ → v.next w tx = some w' →
      Heard v read w tx w' lead e db₁ db₂ → I db₁ w.state → I db₂ w'.state)
    (h : Follows v db w) (hI : I db w.state) (hrun : Run v.next w b.transitions b.post)
    (meets : ∀ t ∈ b.transitions, P t) :
    ∃ db', indexBlock v db b = some db' ∧ Follows v db' b.post ∧ I db' b.post.state :=
  hrun.fold (J := fun db w => Follows v db w ∧ I db w.state) meets ⟨h, hI⟩
    fun _ w tx w' hP hJ hn => indexTx_keeps congr hJ.1 hJ.2 hn fun lead e db₁ db₂ =>
      heard _ w tx w' lead e db₁ db₂ hP hn

/-- **What every told event keeps, the index of every run keeps.** -/
theorem index_keeps (congr : ∀ {db₁ db₂ s}, SameRows db₁ db₂ → I db₁ s → I db₂ s)
    (heard : ∀ read w tx w' lead e db₁ db₂, P ⟨w, tx, w'⟩ → v.next w tx = some w' →
      Heard v read w tx w' lead e db₁ db₂ → I db₁ w.state → I db₂ w'.state)
    (h : Follows v db w₀) (hI : I db w₀.state) (hrun : BlockRun v.next w₀ blocks w)
    (meets : ∀ b ∈ blocks, ∀ t ∈ b.transitions, P t) :
    ∃ db', index v db blocks = some db' ∧ Follows v db' w ∧ I db' w.state :=
  hrun.fold (J := fun db w => Follows v db w ∧ I db w.state)
    (P := fun b => ∀ t ∈ b.transitions, P t) meets ⟨h, hI⟩
    fun _ _ _ hP hJ hblock => indexBlock_keeps congr heard hJ.1 hJ.2 hblock hP

end keeps

/-- **No handler throws**, and the requests keep up, whatever is called. -/
theorem indexBlock_follows {b : Block World Tx} (h : Follows v db w)
    (hrun : Run v.next w b.transitions b.post) :
    ∃ db', indexBlock v db b = some db' ∧ Follows v db' b.post := by
  obtain ⟨db', hindex, hafter, -⟩ := indexBlock_keeps (I := fun _ _ => True) (P := fun _ => True)
    (fun _ _ => trivial) (fun _ _ _ _ _ _ _ _ _ _ _ _ => trivial) h trivial hrun
    fun _ _ => trivial
  exact ⟨db', hindex, hafter⟩

theorem index_follows (h : Follows v db w₀) (hrun : BlockRun v.next w₀ blocks w) :
    ∃ db', index v db blocks = some db' ∧ Follows v db' w :=
  hrun.fold (J := Follows v) (P := fun _ => True) (fun _ _ => trivial) h
    fun _ _ _ _ hfollows hblock => indexBlock_follows hfollows hblock

/-- A run from the test deployment with a block for each transaction. -/
def testBlocks (limits : ValidLimits) (risk : ValidRiskProfile) (txs : List Tx)
    (h : (trace (Test.lemonVault risk).next (Test.world limits risk) txs).isSome) :
    List (Block World Tx) :=
  (Test.transitions limits risk txs h).map Block.single

theorem testBlocks_run {limits : ValidLimits} {risk : ValidRiskProfile} {txs : List Tx}
    (h : (trace (Test.lemonVault risk).next (Test.world limits risk) txs).isSome) :
    BlockRun (Test.lemonVault risk).next (Test.world limits risk) (testBlocks limits risk txs h)
      (Test.after limits risk txs h) :=
  (Test.run_after h).singles

end LemonMarket.Indexer
