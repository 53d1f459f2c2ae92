import LemonMarket.Agent.Published
import LemonMarket.Agent.References
import LemonMarket.Api.Explorer

/-!
# LemonMarket.Api.PublishedLinks

**Which published references can be followed.** The agent puts a Base transaction's hash on
a row as it is, and packs the base58 text of a Solana signature into hex (`refToHex`). The
page reads the reference of a Solana row as the signature's 64 bytes, so it finds none in
that text, nor in the hash that a deposit at the venue is filed under.

A row links to its transaction exactly if it is tagged with Base
(`published_link_iff`).
-/

namespace LemonMarket

namespace Api

open Lib Agent Agent.Calls

/-! ### Transactions -/

/-- What a transaction on Base is known by. -/
structure Hash where
  bytes : List UInt8
  size : bytes.length = 32

/-- What a transaction on Solana is known by. -/
structure Signature where
  bytes : List UInt8
  size : bytes.length = 64

/-- A signature is written in base 58. -/
def Signature.text (signature : Signature) : Text := base58Encode signature.bytes

inductive Transaction
  | onBase (hash : Hash)
  | onSolana (signature : Signature)

namespace Transaction

/-- What the agent puts on a row. -/
def txRef : Transaction → Text
  | onBase hash => '0' :: 'x' :: Hex.ofBytes hash.bytes
  | onSolana signature => refToHex signature.text

/-- The page that names the transaction. -/
def page : Transaction → Text
  | onBase hash => "https://basescan.org/tx/0x".toList ++ Hex.ofBytes hash.bytes
  | onSolana signature => "https://solscan.io/tx/".toList ++ signature.text

end Transaction

/-! ### What a reference is read as -/

/-- Base58 packed into bytes: one to the character, and none of them zero. -/
theorem utf8_base58 (text : Text) (h : ∀ c ∈ text, c ∈ base58Alphabet) :
    (text.flatMap String.utf8EncodeChar).length = text.length ∧
      ∀ byte ∈ text.flatMap String.utf8EncodeChar, byte ≠ 0 := by
  induction text with
  | nil => exact ⟨rfl, nofun⟩
  | cons c rest ih =>
      obtain ⟨hc, hrest⟩ := List.forall_mem_cons.mp h
      obtain ⟨hpos, hlt⟩ := ascii_base58Alphabet hc
      obtain ⟨byte, hbyte, hne⟩ := Hex.utf8_ascii hpos hlt
      obtain ⟨hlength, hall⟩ := ih hrest
      rw [List.flatMap_cons, hbyte, List.singleton_append]
      exact ⟨by rw [List.length_cons, List.length_cons, hlength],
        List.forall_mem_cons.mpr ⟨hne, hall⟩⟩

/-- The text of a signature, packed into hex, is never read as that signature: where it has
the length of one, it is read as a number too long. -/
theorem explorerUrlFor_packed_ne (signature : Signature) :
    explorerUrlFor .solana (refToHex signature.text) ≠
      some ("https://solscan.io/tx/".toList ++ signature.text) := by
  obtain ⟨hlength, hne⟩ := utf8_base58 signature.text fun c hc => mem_base58Encode hc
  rw [refToHex]
  generalize hpacked : signature.text.flatMap String.utf8EncodeChar = packed at hlength hne
  by_cases hsize : (Hex.ofBytes packed).length = 128
  · rw [explorerUrlFor_solana hsize, Hex.bytesOf_ofBytes]
    rw [Hex.length_ofBytes] at hsize
    intro hlink
    have hsame : base58Encode packed = signature.text :=
      List.append_cancel_left (Option.some.inj hlink)
    cases packed with
    | nil => cases hsize
    | cons byte rest =>
        have hlonger := lt_length_base58Encode (hne byte List.mem_cons_self)
          (show rest.length = 63 by rw [List.length_cons] at hsize; omega)
        rw [hsame] at hlonger
        omega
  · rw [explorerUrlFor_solana_none hsize]
    nofun

/-- On a Solana row nothing is linked to its own page. -/
theorem explorerUrlFor_solana_ne (tx : Transaction) :
    explorerUrlFor .solana tx.txRef ≠ some tx.page := by
  cases tx with
  | onBase hash =>
      rw [Transaction.txRef, explorerUrlFor_solana_none]
      · nofun
      · rw [Hex.length_ofBytes, hash.size]
        decide
  | onSolana signature => exact explorerUrlFor_packed_ne signature

theorem explorerUrlFor_onBase (hash : Hash) :
    explorerUrlFor .base (Transaction.onBase hash).txRef = some (Transaction.onBase hash).page :=
  explorerUrlFor_base (by rw [Hex.length_ofBytes, hash.size])

/-! ### The rows an action publishes -/

/-- What the chains name the transactions of an action's calls. -/
structure Names where
  hash : Nat → Hash
  signature : Nat → Signature

/-- The transaction a call's rows refer to. An order and a withdrawal have an order id and a
label instead. -/
def transactionOf (names : Names) (number : Nat) : Calls.Call → Option Transaction
  | .swap _ _ => some (.onBase (names.hash number))
  | .returnToVault _ => some (.onBase (names.hash number))
  | .toSolana _ => some (.onBase (names.hash number))
  | .toBase _ => some (.onSolana (names.signature number))
  | _ => none

def entryTransaction (names : Names) (made : List Calls.Event) (entry : Calls.Entry) :
    Option Transaction :=
  (made[entry.txRef]?.map Calls.Event.call).bind (transactionOf names entry.txRef)

/-- What is tagged with Base is a transaction there. -/
theorem transactionOf_base {names : Names} {number : Nat} {c : Calls.Call} {tx : Transaction}
    (htag : Chain.base ∈ c.taggedOn) (htx : transactionOf names number c = some tx) :
    ∃ hash, tx = .onBase hash := by
  cases c with
  | swap leg symbol => exact ⟨_, (Option.some.inj htx).symm⟩
  | returnToVault amount => exact ⟨_, (Option.some.inj htx).symm⟩
  | toSolana amount => exact ⟨_, (Option.some.inj htx).symm⟩
  | toBase amount => cases List.mem_singleton.mp htag
  | _ => cases htx

theorem near_not_tagged {c : Calls.Call} : Chain.near ∉ c.taggedOn := by
  cases c <;> simp [Calls.Call.taggedOn]

/-- **Which rows link to their transaction.** Of every row with a transaction that an action
publishes, whatever the world outside did, the link made of its own chain and reference
names that transaction if and only if the row is tagged with Base. -/
theorem published_link_iff (names : Names) (w : Calls.World) (venueMarkets : List VenueMarket)
    (cfg : Settings) (a : Calls.Action) (entry : Calls.Entry) (tx : Transaction)
    (hentry : entry ∈ published (run w venueMarkets cfg a {}))
    (htx : entryTransaction names (run w venueMarkets cfg a {}).2.trace entry = some tx) :
    explorerUrlFor entry.chain tx.txRef = some tx.page ↔ entry.chain = .base := by
  obtain ⟨e, hmade, htag⟩ := published_refers w venueMarkets cfg a hentry
  have hcall : transactionOf names entry.txRef e.call = some tx := by
    rw [entryTransaction, hmade] at htx
    exact htx
  cases hchain : entry.chain with
  | base =>
      rw [hchain] at htag
      obtain ⟨hash, rfl⟩ := transactionOf_base htag hcall
      exact iff_of_true (explorerUrlFor_onBase hash) rfl
  | solana => exact iff_of_false (explorerUrlFor_solana_ne tx) nofun
  | near => exact absurd (hchain ▸ htag) near_not_tagged

/-! ### A crossing out, and one home -/

/-- Every hash and signature made of one byte. -/
def namesOf (byte : UInt8) : Names where
  hash _ := ⟨List.replicate 32 byte, List.length_replicate⟩
  signature _ := ⟨List.replicate 64 byte, List.length_replicate⟩

/-- A world where every call is answered, with five dollars to withdraw from the venue. -/
def homing : Calls.World where
  outcome made c :=
    match c with
    | .accountInfo => .answered (some ⟨none, some 5⟩)
    | c => (answering true true).outcome made c
  registrationPolls := 24

/-- Topping up the margin: the crossing out links to its transaction, the deposit at its end
does not. -/
theorem published_link_iff_topUp :
    explorerUrlFor .base (Transaction.onBase ((namesOf 1).hash 0)).txRef =
        some (Transaction.onBase ((namesOf 1).hash 0)).page ∧
      explorerUrlFor .solana (Transaction.onBase ((namesOf 1).hash 0)).txRef ≠
        some (Transaction.onBase ((namesOf 1).hash 0)).page := by
  constructor
  · exact (published_link_iff (namesOf 1) homing oneMarket Settings.default
      (.topUpMargin 50000000) ⟨.bridgeOut, .base, "USDC", 50000000, 50000000, 0, 0⟩ _
      (by decide +kernel) rfl).mpr rfl
  · intro hlink
    cases (published_link_iff (namesOf 1) homing oneMarket Settings.default
      (.topUpMargin 50000000) ⟨.venueDeposit, .solana, "USDC", 50000000, 50000000, 0, 0⟩ _
      (by decide +kernel) rfl).mp hlink

/-- Closing everything brings margin home on Solana, and the row of that crossing does not
link to it. -/
theorem crossing_home_not_linked :
    ¬ ∀ (names : Names) (w : Calls.World) (venueMarkets : List VenueMarket) (cfg : Settings)
      (a : Calls.Action) (entry : Calls.Entry) (tx : Transaction),
      entry ∈ published (run w venueMarkets cfg a {}) →
      entryTransaction names (run w venueMarkets cfg a {}).2.trace entry = some tx →
      explorerUrlFor entry.chain tx.txRef = some tx.page := by
  intro h
  have hcall : (run homing oneMarket Settings.default .closeAll {}).2.trace[15]?.map
      Calls.Event.call = some (.toBase 5000000) := by decide +kernel
  refine explorerUrlFor_solana_ne (.onSolana ((namesOf 1).signature 15)) ?_
  refine h (namesOf 1) homing oneMarket Settings.default .closeAll
    ⟨.bridgeOut, .solana, "USDC", 5000000, 5000000, 0, 15⟩ _ (by decide +kernel) ?_
  rw [entryTransaction, hcall]
  rfl

end Api

end LemonMarket
