import LemonMarket.Indexer.Index

/-!
# LemonMarket.Indexer.Shares

**The indexed share ledger.** A position's shares are added up from three events. `Deposit`
credits a receiver, `RedeemQueued` debits a controller, and a `Transfer` between two wallets
moves; mints, burns and transfers with the vault at one end are skipped, as already
accounted for by the event that caused them.

Three of them are not. Fee shares are minted to the insurance fund with no other event than
`FeesAccrued`, which writes no position; a request takes the owner's shares, and the
position debited is the controller's; and shares sent straight to the vault leave their
holder in no event but the skipped one. In a run with none of these (`Tracked`) the ledger
is the token's, whoever calls what (`shares_are_balances`).
-/

namespace LemonMarket.Indexer

open Lib LemonVault

variable {v : LemonVault} {vault : Address} {s : State} {db : Db} {w w₀ : World} {now n : Nat}
  {blocks : List (Block World Tx)}

/-- Every holder but the vault has the shares of their position. -/
def Agrees (vault : Address) (position : Table Address PositionRow) (shares : Erc20 Address) :
    Prop :=
  ∀ owner, owner ≠ vault → position.column (·.shares) owner = shares.balanceOf owner

/-! ### What is tracked -/

/-- The calls whose own share movements are told: a request for another controller than the
owner is told of the wrong account, and shares sent to the vault are not told. -/
def tracks (vault : Address) : Call → Bool
  | .requestRedeem _ controller owner => controller = owner
  | .shares (.transfer receiver amount) | .shares (.transferFrom _ receiver amount) =>
      receiver ≠ vault ∨ amount = 0
  | _ => true

/-- A transaction whose share movements are all told: it mints no fee shares but to the vault
itself. -/
structure Tracked (v : LemonVault) (t : Transition World Tx) : Prop where
  fees : (∀ s ∈ v.accrualStates t.label.msg t.pre.state t.label.call,
    v.FeeFree t.label.msg.timestamp s) ∨ t.pre.state.insuranceFund = v.self
  call : tracks v.self t.label.call = true

instance (v : LemonVault) (t : Transition World Tx) : Decidable (Tracked v t) :=
  decidable_of_iff (_ ∧ _) ⟨fun h => ⟨h.1, h.2⟩, fun h => ⟨h.fees, h.call⟩⟩

/-! ### One event -/

/-- The fees of a tracked transaction leave the ledger. -/
theorem Agrees.charged {lead : State} (h : Agrees v.self db.position s.shares)
    (hfees : n = 0 ∨ s.insuranceFund = v.self) (hcharged : Charged v.self n s lead) :
    Agrees v.self db.position lead.shares := by
  intro owner howner
  rw [h owner howner, hcharged.balance]
  rcases hfees with rfl | hfund
  · rw [ite_self, Nat.add_zero]
  · rw [if_neg (by rw [hfund]; exact howner), Nat.add_zero]

/-- A transfer between two wallets moves the shares of their positions. -/
theorem onTransfer_column (now : Nat) (owner : Address) {a b : Address} (hzero : a ≠ 0 ∧ b ≠ 0)
    (hvault : a = vault ∨ b = vault → n = 0)
    (hheld : a ≠ vault → (n : Int) ≤ db.position.column (·.shares) a) :
    (onTransfer vault now db a b n).position.column (·.shares) owner +
        (if owner = a then (n : Int) else 0) =
      db.position.column (·.shares) owner + if owner = b then (n : Int) else 0 := by
  rcases Nat.eq_zero_or_pos n with rfl | hpos
  · have hskip : onTransfer vault now db a b 0 = db := by
      simp only [onTransfer, if_true, ite_self]
    rw [hskip]
    simp
  · have hwallets : ¬ (a = vault ∨ b = vault) := fun h => hpos.ne' (hvault h)
    have hrow : db.position.column (·.shares) a ≠ 0 := by
      have := hheld fun ha => hwallets (.inl ha)
      omega
    simp only [onTransfer, if_neg (not_or.mpr hzero), if_neg hwallets, if_neg hpos.ne']
    rw [Table.column_upsert (d := (n : Int)), Table.column_tryUpdate (d := -(n : Int))]
    · split <;> split <;> omega
    · exact fun _ => rfl
    · exact .inl hrow
    · rfl
    · exact fun _ => rfl

/-- A transfer with the vault at no end, or of nothing, is told as it moves. -/
theorem Agrees.moved {k k' : Erc20 Address} {a b : Address} (h : Agrees vault db.position k)
    (hzero : a ≠ 0 ∧ b ≠ 0) (hvault : a = vault ∨ b = vault → n = 0)
    (held : n ≤ k.ledger.balance a) (hmove : k'.ledger = k.ledger.move a b n held) :
    Agrees vault (onTransfer vault now db a b n).position k' := by
  have hheld : a ≠ vault → (n : Int) ≤ db.position.column (·.shares) a := by
    intro ha
    rw [h a ha]
    exact Int.ofNat_le.mpr held
  intro owner howner
  have hmoved := onTransfer_column now owner hzero hvault hheld
  have hbalance : ((k'.balanceOf owner : Int) + if owner = a then (n : Int) else 0) =
      k.balanceOf owner + if owner = b then (n : Int) else 0 := by
    rw [Erc20.balanceOf, hmove]
    exact_mod_cast Ledger.move_add (b := b) held owner
  rw [h owner howner] at hmoved
  exact add_right_cancel (hmoved.trans hbalance.symm)

/-- Shares sent to the vault leave the position that a write debits by as much. -/
theorem Agrees.escrowed {k k' : Erc20 Address} {t : Table Address PositionRow} {c : Address}
    {f : PositionRow → PositionRow} (h : Agrees vault t k) (hn : 0 < n)
    (held : n ≤ k.ledger.balance c) (hmove : k'.ledger = k.ledger.move c vault n held)
    (hf : ∀ row, (f row).shares = row.shares + -(n : Int)) :
    Agrees vault (t.tryUpdate c f) k' := by
  intro owner howner
  have hbalance := Ledger.move_add (b := vault) held owner
  rw [if_neg howner, Nat.add_zero, ← hmove] at hbalance
  by_cases hc : owner = c
  · subst hc
    have hrow : t.column (·.shares) owner ≠ 0 := by
      rw [h owner howner]
      exact Int.ofNat_ne_zero.mpr (hn.trans_le held).ne'
    rw [if_pos rfl] at hbalance
    rw [Table.column_tryUpdate hf (.inl hrow), if_pos rfl, h owner howner, Erc20.balanceOf,
      Erc20.balanceOf]
    omega
  · rw [if_neg hc, Nat.add_zero] at hbalance
    rw [Table.column_tryUpdate_of_ne hc, h owner howner]
    exact congrArg Nat.cast hbalance.symm

/-- **A told event keeps the ledger**, if it is tracked. -/
theorem Agrees.tell {read : Views} {delay : Nat} {msg : Msg} {call : Call} {k k' : Custody}
    {e : Option Event} {db' : Db} (hcall : tracks vault call = true)
    (htells : Tells vault delay msg call k e k')
    (hhandled : handleTold vault read now db e = some db')
    (h : Agrees vault db.position k.shares) : Agrees vault db'.position k'.shares := by
  cases htells with
  | silent _ balance _ =>
      obtain rfl := Option.some.inj hhandled
      intro owner howner
      rw [h owner howner, balance]
  | reported _ rest =>
      rwa [(handleTold_plain rest hhandled).position]
  | @moved call k k' a b n target nonzero own held shares redeem =>
      obtain rfl := Option.some.inj (handleTold_some.symm.trans hhandled)
      refine h.moved nonzero ?_ held shares
      -- a tracked transfer has the vault on neither side
      rintro (ha | hb)
      · exact own ha
      · cases call with
        | approve => cases target
        | transfer r m | transferFrom o r m =>
            obtain ⟨rfl, rfl⟩ := Prod.mk.inj (Option.some.inj target)
            simpa [tracks, hb] using hcall
  | @deposited call k k' sender r a n shares redeem =>
      obtain rfl := Option.some.inj (handleTold_some.symm.trans hhandled)
      intro owner howner
      refine (Table.column_upsert (d := (n : Int)) (by rfl) fun _ => rfl).trans ?_
      rw [h owner howner, Erc20.balanceOf, Erc20.balanceOf, shares]
      by_cases hr : owner = r
      · subst hr
        rw [if_pos rfl, Ledger.credit_self, Int.natCast_add]
      · rw [if_neg hr, Ledger.credit_of_ne hr, Int.add_zero]
  | @queued k k' n fulfillBy c o positive held shares redeem =>
      obtain rfl := Option.some.inj (handleTold_some.symm.trans hhandled)
      -- only a request for one's own shares is tracked
      obtain rfl : c = o := by simpa [tracks] using hcall
      exact h.escrowed positive held shares fun _ => rfl
  -- the shares burned are those in escrow, and what is claimed is USDC
  | fulfilled _ _ held shares _ =>
      obtain ⟨t, ht, hdb⟩ := Option.bind_eq_some_iff.mp (handleTold_some.symm.trans hhandled)
      obtain rfl := Option.some.inj hdb
      intro owner howner
      rw [Erc20.balanceOf, shares, Ledger.debit_of_ne held howner]
      exact h owner howner
  | claimed _ _ shares _ =>
      obtain ⟨t, ht, hdb⟩ := Option.bind_eq_some_iff.mp (handleTold_some.symm.trans hhandled)
      obtain rfl := Option.some.inj hdb
      intro owner howner
      rw [shares, ← h owner howner]
      refine (Table.column_tryUpdate (d := 0) (fun _ => by simp) (.inr rfl)).trans ?_
      rw [ite_self, Int.add_zero]

/-! ### Runs -/

/-- **The indexed share ledger is the token's.** After any run of tracked transactions every
account but the vault has the shares of its position, none where it has no position. -/
theorem shares_are_balances (hgenesis : Genesis v w₀) (hrun : BlockRun v.next w₀ blocks w)
    (htracked : ∀ b ∈ blocks, ∀ t ∈ b.transitions, Tracked v t) (limits : Option Terms)
    (created : Nat) :
    ∃ db, index v (onVaultCreated limits created) blocks = some db ∧
      Agrees v.self db.position w.state.shares := by
  have hstart : Agrees v.self (onVaultCreated limits created).position w₀.state.shares := by
    obtain ⟨p, -, -, hfresh⟩ := hgenesis.fresh
    rw [hfresh.shares]
    exact fun _ _ => Table.column_empty
  obtain ⟨db, hindex, -, hagrees⟩ := index_keeps
    (I := fun db s => Agrees v.self db.position s.shares)
    (fun hsame hagrees => hsame.position ▸ hagrees)
    (fun _ _ _ _ _ _ _ _ htracked _ hheard hagrees =>
      Agrees.tell htracked.call hheard.tells hheard.handled
        (hagrees.charged (htracked.fees.imp_left feesMinted_eq_zero_iff.mpr) hheard.charged))
    (follows_genesis limits created hgenesis) hstart hrun htracked
  exact ⟨db, hindex, hagrees⟩

/-- A deposit, a transfer, a request an operator makes for its owner, part of it fulfilled and
claimed. -/
def roundTrip : List Tx :=
  [Test.tx Test.alice 0 (.deposit (1000 * 10 ^ 6) Test.alice),
   Test.tx Test.alice 60 (.shares (.transfer Test.bob (10 ^ 18))),
   Test.tx Test.alice 60 (.setOperator Test.bob true),
   Test.tx Test.bob 120 (.requestRedeem (10 ^ 19) Test.alice Test.alice),
   Test.tx Test.agent (4 * 86400) (.reportNav 0 10000 0),
   Test.tx Test.agent (4 * 86400) (.fulfillRedeem Test.alice (10 ^ 18)),
   Test.tx Test.bob (4 * 86400) (.redeem (10 ^ 17) Test.bob Test.alice)]

theorem roundTrip_isSome : (trace (Test.lemonVault Test.conservativeRisk).next
    (Test.world Test.noFeeLimits Test.conservativeRisk) roundTrip).isSome := by rfl

theorem shares_are_balances_roundTrip :
    ∃ db, index (Test.lemonVault Test.conservativeRisk) (onVaultCreated none 0)
        (testBlocks _ _ roundTrip roundTrip_isSome) = some db ∧
      Agrees Test.vault db.position (Test.after _ _ roundTrip roundTrip_isSome).state.shares :=
  shares_are_balances (Test.testGenesis _ _) (testBlocks_run roundTrip_isSome) (by decide) none 0

/-- A deposit, and a year's fees accrued on it. -/
def yearsFees : List Tx :=
  [Test.tx Test.alice 0 (.deposit (1000 * 10 ^ 6) Test.alice),
   Test.tx Test.bob year .accrueFees]

theorem yearsFees_isSome : (trace (Test.lemonVault Test.conservativeRisk).next
    (Test.world Test.defaultLimits Test.conservativeRisk) yearsFees).isSome := by rfl

/-- The insurance fund holds the fee shares, and has no position. -/
theorem shares_miss_fees :
    ¬ ∀ (v : LemonVault) (w₀ w : World) (blocks : List (Block World Tx))
      (limits : Option Terms) (created : Nat), Genesis v w₀ → BlockRun v.next w₀ blocks w →
      ∃ db, index v (onVaultCreated limits created) blocks = some db ∧
        ∀ owner : Address, owner ≠ v.self → owner ≠ 0 →
          db.position.column (·.shares) owner = w.state.shares.balanceOf owner := by
  intro h
  obtain ⟨db, hindex, hagrees⟩ := h _ _ _ _ none 0 (Test.testGenesis _ _)
    (testBlocks_run yearsFees_isSome)
  have hcolumn : (index (Test.lemonVault Test.conservativeRisk) (onVaultCreated none 0)
      (testBlocks _ _ yearsFees yearsFees_isSome)).map
        (fun db => db.position.column (·.shares) Test.insurance) = some 0 := by decide
  rw [hindex, Option.map_some] at hcolumn
  have hfund := hagrees Test.insurance (by decide) (by decide)
  rw [Option.some.inj hcolumn] at hfund
  exact absurd hfund (by decide)

end LemonMarket.Indexer
