import LemonMarket.Core.Units
import LemonMarket.Lib.Guard
import LemonMarket.NearMpc.Paths

/-!
# LemonMarket.Api.GasWithdraw

**Taking gas back out of an agent's wallets** (`gas-withdraw.ts`). A withdrawal is prepared from
what the indexer, the derivation and the chains answer, and refused until everything about it is
in order; then the one transfer is encoded, and NEAR is asked to sign the encoding. viem may refuse
to encode what the checks here let through: they take every text of forty hexadecimal digits.

`prepare_ok_iff` says what is in order: `Payable`. `gas_withdrawn` follows: what is signed for is
a payable transfer out of the vault's own stopped agent that can be encoded, no other, and the
answer accounts for the whole balance.
-/

namespace LemonMarket

namespace Api

namespace GasWithdraw

open Lib NumberText NearMpc LemonMarket.Core

inductive Chain
  | base | solana
  deriving DecidableEq

/-- Why a withdrawal is refused, with what the text of it says. -/
inductive AdminError
  | notConfigured
  | noVault (vault : JsString)
  | stillRunning (name : JsString)
  | noPath (vault : JsString)
  | otherWallet (path derived vault wallet : JsString)
  | notAnAddress (chain : Chain) (recipient : JsString)
  | notAnAmount (chain : Chain) (amount : JsString)
  | holdsNothing (chain : Chain) (wallet : JsString)
  | notCovered (chain : Chain) (wallet : JsString) (balance cost : Nat)
  | tooMuch (chain : Chain) (value spendable : Int) (cost : Nat)
  | belowRent (remaining : Int) (rentMinimum : Nat)
  | rejected (hash : JsString)
  deriving DecidableEq

def AdminError.status : AdminError → Nat
  | notConfigured => 503
  | noVault _ => 404
  | stillRunning _ | noPath _ | otherWallet .. | holdsNothing .. | notCovered .. => 409
  | notAnAddress .. | notAnAmount .. | tooMuch .. | belowRent .. => 400
  | rejected _ => 502

/-- What a call throws: an error of its own, or one it passes on. -/
inductive Thrown
  | admin (error : AdminError)
  | passedOn
  deriving DecidableEq

/-- A value, or what its absence throws. -/
def orThrow {α : Type} (error : Thrown) : Option α → Except Thrown α
  | some a => .ok a
  | none => .error error

@[simp] theorem orThrow_eq_ok {α : Type} {error : Thrown} {o : Option α} {a : α} :
    orThrow error o = .ok a ↔ o = some a := by
  cases o <;> simp [orThrow]

/-! ### Amounts -/

/-- The test `/^\d+(\.\d{1,places})?$/`. -/
def isPlain (places : Nat) (s : JsString) : Bool :=
  !(s.takeWhile (isDigit 10)).isEmpty &&
    match s.dropWhile (isDigit 10) with
    | [] => true
    | point :: fraction =>
        point = unit '.' && fraction.all (isDigit 10) &&
          (1 ≤ fraction.length && fraction.length ≤ places)

/-- The digits of both sides of the point, as one number of so many places. -/
def placed (places : Nat) (trimmed : JsString) : Except Thrown Int := do
  let parts := trimmed.splitOn (unit '.')
  let whole ← orThrow .passedOn (toBigInt (parts[0]?.getD []))
  let fraction ← orThrow .passedOn (toBigInt (padEnd (parts[1]?.getD []) places (digit 0)))
  return whole * 10 ^ places + fraction

def parseSol (amount : JsString) : Except Thrown Int := do
  revertIf (isPlain 9 (trim amount) = false) (.admin (.notAnAmount .solana amount))
  placed 9 (trim amount)

/-- `parseEther` is viem's. -/
def safeParseEther (parseEther : JsString → Int) (amount : JsString) : Except Thrown Int := do
  revertIf (isPlain 18 (trim amount) = false) (.admin (.notAnAmount .base amount))
  return parseEther (trim amount)

/-- A plain decimal: no sign, no exponent, a digit before the point, and one up to so many after
it if there is a point. -/
structure Plain (places : Nat) (m : Decimal) : Prop where
  sign : m.sign = .none
  exponent : m.exponent = none
  whole : m.whole ≠ []
  fraction : ∀ f ∈ m.fraction, 1 ≤ f.length ∧ f.length ≤ places

section

variable {places : Nat} {m : Decimal}

theorem Plain.text_eq (h : Plain places m) : m.text = m.whole ++ pointed m.fraction := by
  rw [Decimal.text, Decimal.unsigned, Decimal.exponentText, h.sign, h.exponent]
  simp [Sign.text]

theorem isPlain_iff {s : JsString} :
    isPlain places s = true ↔ ∃ m, Plain places m ∧ m.text = s := by
  constructor
  -- the digits up to the point are the whole part, and what follows it the fraction
  · intro h
    rw [isPlain, Bool.and_eq_true] at h
    obtain ⟨hwhole, hrest⟩ := h
    have hwhole : s.takeWhile (isDigit 10) ≠ [] := by simpa using hwhole
    have hdigits : ∀ c ∈ s.takeWhile (isDigit 10), isDigit 10 c = true :=
      fun c hc => List.mem_takeWhile_imp hc
    have hsplit := List.takeWhile_append_dropWhile (p := isDigit 10) (l := s)
    split at hrest
    next hnil =>
      rw [hnil] at hsplit
      refine ⟨⟨.none, s.takeWhile (isDigit 10), none, none, hdigits, by simp, .inl hwhole⟩,
        ⟨rfl, rfl, hwhole, by simp⟩, ?_⟩
      simpa [Decimal.text, Decimal.unsigned, Decimal.exponentText, Sign.text, pointed] using hsplit
    next point fraction hcons =>
      simp only [Bool.and_eq_true, decide_eq_true_eq, List.all_eq_true] at hrest
      obtain ⟨⟨rfl, hfraction⟩, hlength⟩ := hrest
      rw [hcons] at hsplit
      refine ⟨⟨.none, s.takeWhile (isDigit 10), some fraction, none, hdigits, hfraction,
        .inl hwhole⟩, ⟨rfl, rfl, hwhole, by simpa using hlength⟩, ?_⟩
      simpa [Decimal.text, Decimal.unsigned, Decimal.exponentText, Sign.text, pointed] using hsplit
  -- of a plain text the run of digits ends at the point, or at the end
  · rintro ⟨m, h, rfl⟩
    have hhead : ∀ c ∈ (pointed m.fraction).head?, isDigit 10 c = false := by
      intro c hc
      cases hfraction : m.fraction with
      | none => simp [hfraction, pointed] at hc
      | some f =>
          obtain rfl : unit '.' = c := by simpa [hfraction, pointed] using hc
          rfl
    obtain ⟨htake, hdrop⟩ := takeWhile_digits m.isDigit_whole hhead
    rw [isPlain, h.text_eq, htake, hdrop, Bool.and_eq_true]
    refine ⟨by simpa using h.whole, ?_⟩
    cases hfraction : m.fraction with
    | none => rfl
    | some f =>
        have hdigits : ∀ c ∈ f, isDigit 10 c = true := fun c hc =>
          m.isDigit_fraction c (by rwa [hfraction])
        have hlength := h.fraction f hfraction
        simpa [pointed, hlength] using hdigits

theorem Plain.length_fraction (h : Plain places m) : (m.fraction.getD []).length ≤ places := by
  cases hfraction : m.fraction with
  | none => exact Nat.zero_le _
  | some f => exact (h.fraction f hfraction).2

/-- The digits of a plain decimal, to the last place wanted, are the number it denotes. -/
theorem Plain.numeral_scaled (h : Plain places m) :
    ((numeral 10 (scaled m places) : Int) : ℚ) = m.value * 10 ^ places := by
  obtain ⟨f, hf⟩ : ∃ f, m.fraction.getD [] = f := ⟨_, rfl⟩
  have hle : f.length ≤ places := hf ▸ h.length_fraction
  have hexponent : m.exponentValue = 0 := by
    rw [Decimal.exponentValue, h.exponent]
    rfl
  rw [numeral_scaled_of_le m h.length_fraction, Decimal.value, h.sign, hexponent,
    Decimal.mantissa, hf]
  obtain ⟨k, rfl⟩ := Nat.exists_eq_add_of_le hle
  rw [Nat.add_sub_cancel_left, pow_add]
  push_cast
  simp only [Sign.apply, mul_one]
  field_simp

theorem Plain.parts (h : Plain places m) :
    (m.text.splitOn (unit '.'))[0]?.getD [] = m.whole ∧
      (m.text.splitOn (unit '.'))[1]?.getD [] = m.fraction.getD [] := by
  have htext : m.text = (Core.kept m.sign).text ++ m.unsigned := by
    rw [Decimal.text, h.sign]
    rfl
  have hexponent : m.exponentText = [] := by
    rw [Decimal.exponentText, h.exponent]
    rfl
  rw [htext]
  cases hfraction : m.fraction with
  | none =>
      rw [splitOn_of_none m hfraction, h.sign, hexponent]
      simp [Core.kept, Sign.text]
  | some f =>
      rw [splitOn_of_some m hfraction, h.sign, hexponent]
      simp [Core.kept, Sign.text]

/-- What is read of a plain decimal is the number it denotes, in the smallest unit. -/
theorem Plain.placed_eq (h : Plain places m) (hplaces : 0 < places) :
    placed places m.text = .ok (numeral 10 (scaled m places) : Int) := by
  obtain ⟨f, hf⟩ : ∃ f, m.fraction.getD [] = f := ⟨_, rfl⟩
  have hle : f.length ≤ places := hf ▸ h.length_fraction
  have htake : f.take places = f := List.take_of_length_le hle
  have hlength : (padEnd f places (digit 0)).length = places := by
    rw [← htake, length_padEnd]
  have hdigits : ∀ c ∈ padEnd f places (digit 0), isDigit 10 c = true := by
    rw [← htake]
    exact isDigit_padEnd (hf ▸ m.isDigit_fraction) places
  have hne : padEnd f places (digit 0) ≠ [] := by
    rw [← List.length_pos_iff, hlength]
    exact hplaces
  have hwhole : toBigInt m.whole = some (numeral 10 m.whole : Int) :=
    toBigInt_digits .none m.isDigit_whole h.whole
  have hpadded : toBigInt (padEnd f places (digit 0)) =
      some (numeral 10 (padEnd f places (digit 0)) : Int) := toBigInt_digits .none hdigits hne
  -- the digits before the point and the padded ones after it, put together
  have hscaled : numeral 10 (scaled m places) =
      numeral 10 m.whole * 10 ^ places + numeral 10 (padEnd f places (digit 0)) := by
    rw [scaled, hf, htake, numeral_append, hlength]
  obtain ⟨hbefore, hafter⟩ := h.parts
  rw [placed, hbefore, hafter, hf, hwhole, hpadded, hscaled]
  simp [orThrow]

/-- The amount a text is of: the number it denotes, in the smallest unit. -/
def Typed (places : Nat) (text : JsString) (value : Int) : Prop :=
  ∃ m, Plain places m ∧ m.text = trim text ∧ (value : ℚ) = m.value * 10 ^ places

theorem parseSol_ok_iff {amount : JsString} {value : Int} :
    parseSol amount = .ok value ↔ Typed 9 amount value := by
  simp only [parseSol, bind_eq_ok, revertIf_eq_ok, Bool.not_eq_false, isPlain_iff]
  constructor
  · rintro ⟨-, ⟨m, hm, htext⟩, hvalue⟩
    rw [← htext, hm.placed_eq (by decide)] at hvalue
    obtain rfl := Except.ok.inj hvalue
    exact ⟨m, hm, htext, hm.numeral_scaled⟩
  · rintro ⟨m, hm, htext, hvalue⟩
    refine ⟨(), ⟨m, hm, htext⟩, ?_⟩
    rw [← htext, hm.placed_eq (by decide)]
    rw [← hm.numeral_scaled] at hvalue
    exact congrArg Except.ok (Int.cast_injective hvalue).symm

/-- viem reads a plain decimal of up to eighteen places as the number of wei it denotes. -/
def ReadsEther (parseEther : JsString → Int) : Prop :=
  ∀ m, Plain 18 m → (parseEther m.text : ℚ) = m.value * 10 ^ 18

theorem safeParseEther_ok_iff {parseEther : JsString → Int} (hreads : ReadsEther parseEther)
    {amount : JsString} {value : Int} :
    safeParseEther parseEther amount = .ok value ↔ Typed 18 amount value := by
  simp only [safeParseEther, bind_eq_ok, revertIf_eq_ok, Bool.not_eq_false, isPlain_iff,
    pure_eq_ok]
  constructor
  · rintro ⟨-, ⟨m, hm, htext⟩, rfl⟩
    exact ⟨m, hm, htext, htext ▸ hreads m hm⟩
  · rintro ⟨m, hm, htext, hvalue⟩
    refine ⟨(), ⟨m, hm, htext⟩, ?_⟩
    rw [← hreads m hm, htext] at hvalue
    exact (Int.cast_injective hvalue).symm

end

/-! ### The agent -/

/-- What the indexer's view of a vault says of its agent. -/
structure VaultView where
  address : JsString
  ticker : Option JsString
  agentEnabled : Bool
  agentPath : Option JsString
  agentWallet : JsString

/-- The addresses of a derivation path. -/
structure DerivedKeys where
  evmAddress : JsString
  solanaAddress : JsString

structure Agent where
  vault : VaultView
  path : JsString
  evm : JsString
  solana : JsString

/-! ### The chains -/

variable {Key : Type}

structure TransferCost where
  gas : Nat
  maxFeePerGas : Nat
  maxPriorityFeePerGas : Nat

def TransferCost.cost (fee : TransferCost) : Nat := fee.gas * fee.maxFeePerGas

/-- A transfer of native units, as it is signed. -/
inductive Transaction (Key : Type)
  | eip1559 (recipient : JsString) (value : Int) (fee : TransferCost) (nonce : Nat)
  | solTransfer (source destination : Key) (lamports : Int) (blockhash : JsString)

/-- What a node of Base answers. -/
structure BaseNode where
  balance : JsString → Nat
  pendingNonce : JsString → Nat
  maxFeePerGas : Nat
  maxPriorityFeePerGas : Nat
  /-- The gas of a transfer, where it can be estimated. -/
  estimateGas : JsString → JsString → Option Nat

/-- What a node of Solana answers. -/
structure SolanaNode (Key : Type) where
  balance : Key → Nat
  rentMinimum : Nat
  blockhash : JsString
  feeForMessage : Transaction Key → Option Nat

/-- What the service works with. A node is missing where a call to it throws. -/
structure Env (Key : Type) where
  casing : Casing
  /-- `clients.nearMpc`, by what it derives. -/
  nearMpc : Option (JsString → DerivedKeys)
  getVault : JsString → Except Thrown (Option VaultView)
  parseEther : JsString → Int
  publicKey : JsString → Option Key
  base : Option BaseNode
  solana : Option (SolanaNode Key)
  /-- Whether a transaction can be encoded for its signature. viem refuses an address with a
  wrong checksum, a fee over its cap and a tip over the fee. -/
  encodes : Transaction Key → Bool
  /-- The hash of a transaction that is signed under a path and sent. -/
  signAndSend : JsString → Transaction Key → Option JsString
  /-- Whether a sent transaction is confirmed without an error. -/
  confirm : JsString → Option Bool

/-! ### Preparing a withdrawal -/

/-- A withdrawal that is in order, and what is to be signed for it. -/
structure Prepared (Key : Type) where
  agent : Agent
  source : JsString
  recipient : JsString
  transaction : Transaction Key
  balance : Nat
  amount : Int
  feeReserved : Nat

def Prepared.remaining (p : Prepared Key) : Int := p.balance - p.amount - p.feeReserved

def ethTransferGas : Nat := 21000

def baseTransferCost (node : BaseNode) (source recipient : JsString) : TransferCost where
  gas := (node.estimateGas source recipient).getD ethTransferGas
  maxFeePerGas := node.maxFeePerGas
  maxPriorityFeePerGas := node.maxPriorityFeePerGas

/-- What a wallet can spare when its own transfer is paid for. -/
def spendable (balance cost : Nat) : Int := if balance > cost then balance - cost else 0

/-- The amount that is sent: what was asked for, or all there is. -/
def valueOf (chain : Chain) (wallet : JsString) (balance cost : Nat) (amount : Option Int) :
    Except Thrown Int := do
  let value := amount.getD (spendable balance cost)
  revertIf (value ≤ 0) (.admin
    (if balance = 0 then .holdsNothing chain wallet else .notCovered chain wallet balance cost))
  revertIf (value > spendable balance cost)
    (.admin (.tooMuch chain value (spendable balance cost) cost))
  return value

section

variable (env : Env Key)

def resolveAgent (vaultAddress : JsString) : Except Thrown Agent := do
  let derive ← orThrow (.admin .notConfigured) env.nearMpc
  let view ← env.getVault vaultAddress
  let vault ← orThrow (.admin (.noVault vaultAddress)) view
  revertIf (vault.agentEnabled = true) (.admin (.stillRunning (vault.ticker.getD vaultAddress)))
  let path ← orThrow (.admin (.noPath vaultAddress)) vault.agentPath
  -- an empty path is none
  revertIf (path = []) (.admin (.noPath vaultAddress))
  let derived := derive path
  revertIf (env.casing.toLowerCase derived.evmAddress ≠ env.casing.toLowerCase vault.agentWallet)
    (.admin (.otherWallet path derived.evmAddress vaultAddress vault.agentWallet))
  return ⟨vault, path, vault.agentWallet, derived.solanaAddress⟩

def withdrawBaseGas (agent : Agent) (recipient : JsString) (amount : Option Int) :
    Except Thrown (Prepared Key) := do
  let node ← orThrow .passedOn env.base
  let balance := node.balance agent.evm
  let fee := baseTransferCost node agent.evm recipient
  let value ← valueOf .base agent.evm balance fee.cost amount
  return {
    agent
    source := agent.evm
    recipient
    transaction := .eip1559 recipient value fee (node.pendingNonce agent.evm)
    balance
    amount := value
    feeReserved := fee.cost }

def withdrawSolanaGas (agent : Agent) (recipient : JsString) (amount : Option Int) :
    Except Thrown (Prepared Key) := do
  let destination ← orThrow (.admin (.notAnAddress .solana recipient)) (env.publicKey recipient)
  let source ← orThrow .passedOn (env.publicKey agent.solana)
  let node ← orThrow .passedOn env.solana
  let balance := node.balance source
  -- the fee does not depend on the amount
  let probe := .solTransfer source destination 1 node.blockhash
  let fee := (node.feeForMessage probe).getD 5000
  let lamports ← valueOf .solana agent.solana balance fee amount
  let remaining : Int := balance - lamports - fee
  revertIf (remaining > 0 ∧ remaining < node.rentMinimum)
    (.admin (.belowRent remaining node.rentMinimum))
  return {
    agent
    source := agent.solana
    recipient
    transaction := .solTransfer source destination lamports node.blockhash
    balance
    amount := lamports
    feeReserved := fee }

structure Params where
  vault : JsString
  chain : Chain
  recipient : JsString
  amount : Option JsString

/-- The test `/^0x[a-fA-F0-9]{40}$/`. -/
def isEvmAddress (s : JsString) : Bool :=
  s.take 2 = js "0x" && (s.drop 2).all (isDigit 16) && s.length = 42

/-- An amount is read unless it is missing or empty. -/
def typed (parse : JsString → Except Thrown Int) (amount : Option JsString) :
    Except Thrown (Option Int) :=
  match amount with
  | none => .ok none
  | some text => if text = [] then .ok none else some <$> parse text

/-- `withdrawGas`, up to the signature. -/
def prepare (params : Params) : Except Thrown (Prepared Key) := do
  let agent ← resolveAgent env params.vault
  let recipient := trim params.recipient
  match params.chain with
  | .base => do
      revertIf (isEvmAddress recipient = false) (.admin (.notAnAddress .base params.recipient))
      let amount ← typed (safeParseEther env.parseEther) params.amount
      withdrawBaseGas env agent recipient amount
  | .solana => do
      let amount ← typed parseSol params.amount
      withdrawSolanaGas env agent recipient amount

structure GasWithdrawal where
  chain : Chain
  vault : JsString
  source : JsString
  recipient : JsString
  amount : Int
  feeReserved : Nat
  remaining : Int
  hash : JsString
  explorerUrl : JsString

def explorerUrl (chain : Chain) (hash : JsString) : JsString :=
  match chain with
  | .base => js "https://basescan.org/tx/" ++ hash
  | .solana => js "https://solscan.io/tx/" ++ hash

/-- What a request does: what it asks NEAR to sign under which path, and what it answers. -/
structure Outcome (Key : Type) where
  signed : List (JsString × Transaction Key)
  answer : Except Thrown GasWithdrawal

/-- On Solana a transfer is waited for. -/
def awaitConfirmation (chain : Chain) (hash : JsString) : Except Thrown Unit :=
  match chain with
  | .base => .ok ()
  | .solana => do
      let confirmed ← orThrow .passedOn (env.confirm hash)
      revertIf (confirmed = false) (.admin (.rejected hash))

def settle (chain : Chain) (p : Prepared Key) : Except Thrown GasWithdrawal := do
  let hash ← orThrow .passedOn (env.signAndSend p.agent.path p.transaction)
  awaitConfirmation env chain hash
  return {
    chain
    vault := p.agent.vault.address
    source := p.source
    recipient := p.recipient
    amount := p.amount
    feeReserved := p.feeReserved
    remaining := p.remaining
    hash
    explorerUrl := explorerUrl chain hash }

def withdrawGas (params : Params) : Outcome Key :=
  match prepare env params with
  | .error e => ⟨[], .error e⟩
  | .ok p =>
      -- what is signed is the encoding, so without one NEAR is asked nothing
      if env.encodes p.transaction then
        ⟨[(p.agent.path, p.transaction)], settle env params.chain p⟩
      else ⟨[], .error .passedOn⟩

/-- What a wallet could send; the note names the cost it does not cover. -/
structure GasWithdrawable where
  address : JsString
  balance : Nat
  spendable : Int
  note : Option Nat

structure Withdrawable where
  vault : JsString
  agentEnabled : Bool
  base : GasWithdrawable
  solana : GasWithdrawable

def withdrawableOf (address : JsString) (balance cost : Nat) : GasWithdrawable where
  address
  balance
  spendable := spendable balance cost
  note := if balance > 0 ∧ spendable balance cost = 0 then some cost else none

def withdrawableGas (vaultAddress : JsString) : Except Thrown Withdrawable := do
  let agent ← resolveAgent env vaultAddress
  let node ← orThrow .passedOn env.base
  let cluster ← orThrow .passedOn env.solana
  let wallet ← orThrow .passedOn (env.publicKey agent.solana)
  -- the destination is not known yet
  let fee := baseTransferCost node agent.evm agent.evm
  return {
    vault := agent.vault.address
    agentEnabled := agent.vault.agentEnabled
    base := withdrawableOf agent.evm (node.balance agent.evm) fee.cost
    solana := withdrawableOf agent.solana (cluster.balance wallet) 5000 }

end

/-! ### What is in order -/

variable {env : Env Key} {params : Params} {p : Prepared Key}

/-- The agent of a vault, which is stopped, and whose wallets a path recorded for it derives. -/
structure Stopped (env : Env Key) (vaultAddress : JsString) (agent : Agent) : Prop where
  found : env.getVault vaultAddress = .ok (some agent.vault)
  stopped : agent.vault.agentEnabled = false
  path : agent.vault.agentPath = some agent.path
  path_ne : agent.path ≠ []
  derives : ∃ derive, env.nearMpc = some derive ∧
    env.casing.toLowerCase (derive agent.path).evmAddress = env.casing.toLowerCase agent.evm ∧
      (derive agent.path).solanaAddress = agent.solana
  evm : agent.vault.agentWallet = agent.evm

theorem resolveAgent_ok_iff {vaultAddress : JsString} {agent : Agent} :
    resolveAgent env vaultAddress = .ok agent ↔ Stopped env vaultAddress agent := by
  simp only [resolveAgent, bind_eq_ok, orThrow_eq_ok, revertIf_eq_ok, pure_eq_ok, ne_eq, not_not,
    Bool.not_eq_true]
  constructor
  · rintro ⟨derive, hderive, _, hview, view, rfl, -, hstopped, path, hpath, -, hne, -, hown, rfl⟩
    exact ⟨hview, hstopped, hpath, hne, ⟨derive, hderive, hown, rfl⟩, rfl⟩
  · intro h
    obtain ⟨derive, hderive, hown, hsolana⟩ := h.derives
    refine ⟨derive, hderive, some agent.vault, h.found, agent.vault, rfl, (), h.stopped,
      agent.path, h.path, (), h.path_ne, (), h.evm ▸ hown, ?_⟩
    rw [h.evm, hsolana]

theorem valueOf_ok_iff {chain : Chain} {wallet : JsString} {balance cost : Nat}
    {amount : Option Int} {value : Int} : valueOf chain wallet balance cost amount = .ok value ↔
      value = amount.getD (spendable balance cost) ∧ 0 < value ∧ value + cost ≤ balance := by
  simp only [valueOf, bind_eq_ok, revertIf_eq_ok, pure_eq_ok, not_le, gt_iff_lt, not_lt]
  constructor
  · rintro ⟨-, hpos, -, hle, hvalue⟩
    rw [hvalue] at hpos hle
    refine ⟨hvalue.symm, hpos, ?_⟩
    rw [spendable] at hle
    split at hle <;> omega
  · rintro ⟨rfl, hpos, hcovered⟩
    refine ⟨(), hpos, (), ?_, rfl⟩
    have hmore : balance > cost := by omega
    rw [spendable, if_pos hmore] at hcovered ⊢
    omega

/-- A transfer of ether, as it is signed. -/
def BaseTransfer (env : Env Key) (p : Prepared Key) : Prop :=
  p.source = p.agent.evm ∧ ∃ node, env.base = some node ∧
    let fee := baseTransferCost node p.source p.recipient
    p.balance = node.balance p.source ∧ p.feeReserved = fee.cost ∧
      p.transaction = .eip1559 p.recipient p.amount fee (node.pendingNonce p.source)

/-- A transfer of lamports, which leaves the wallet nothing or enough to stay. -/
def SolanaTransfer (env : Env Key) (p : Prepared Key) : Prop :=
  p.source = p.agent.solana ∧ ∃ node source destination, env.solana = some node ∧
    env.publicKey p.source = some source ∧ env.publicKey p.recipient = some destination ∧
      p.balance = node.balance source ∧
      p.feeReserved =
        (node.feeForMessage (.solTransfer source destination 1 node.blockhash)).getD 5000 ∧
      p.transaction = .solTransfer source destination p.amount node.blockhash ∧
      (p.remaining ≤ 0 ∨ node.rentMinimum ≤ p.remaining)

/-- The amount a request is for: the one typed, or all the wallet can spare. -/
def Asked (places : Nat) (amount : Option JsString) (spendable value : Int) : Prop :=
  match amount with
  | none => value = spendable
  | some text => if text = [] then value = spendable else Typed places text value

def Chain.places : Chain → Nat
  | base => 18
  | solana => 9

def Placed (env : Env Key) : Chain → Prepared Key → Prop
  | .base, p => isEvmAddress p.recipient = true ∧ BaseTransfer env p
  | .solana, p => SolanaTransfer env p

/-- A withdrawal that answers a request: out of the stopped agent's own wallet, to where it is to
go, of what is asked for, and covered with its fee. -/
structure Payable (env : Env Key) (params : Params) (p : Prepared Key) : Prop where
  agent : Stopped env params.vault p.agent
  recipient : p.recipient = trim params.recipient
  asked : Asked params.chain.places params.amount (spendable p.balance p.feeReserved) p.amount
  positive : 0 < p.amount
  covered : p.amount + p.feeReserved ≤ p.balance
  placed : Placed env params.chain p

theorem typed_asked {parse : JsString → Except Thrown Int} {places : Nat}
    (hparse : ∀ text value, parse text = .ok value ↔ Typed places text value)
    {amount : Option JsString} {spendable value : Int} :
    Asked places amount spendable value ↔
      ∃ a, typed parse amount = .ok a ∧ value = a.getD spendable := by
  cases amount with
  | none => simp [Asked, typed]
  | some text =>
      rw [Asked, typed]
      split
      · simp
      · simp only [map_eq_ok, ← hparse]
        constructor
        · exact fun h => ⟨some value, ⟨value, h, rfl⟩, rfl⟩
        · rintro ⟨-, ⟨v, hv, rfl⟩, rfl⟩
          exact hv

theorem withdrawBaseGas_ok_iff {agent : Agent} {recipient : JsString} {amount : Option Int} :
    withdrawBaseGas env agent recipient amount = .ok p ↔
      p.agent = agent ∧ p.recipient = recipient ∧
        p.amount = amount.getD (spendable p.balance p.feeReserved) ∧ 0 < p.amount ∧
          p.amount + p.feeReserved ≤ p.balance ∧ BaseTransfer env p := by
  simp only [withdrawBaseGas, bind_eq_ok, orThrow_eq_ok, valueOf_ok_iff, pure_eq_ok]
  constructor
  · rintro ⟨node, hnode, value, ⟨hvalue, hpos, hcovered⟩, rfl⟩
    exact ⟨rfl, rfl, hvalue, hpos, hcovered, rfl, node, hnode, rfl, rfl, rfl⟩
  · obtain ⟨agent', source, recipient', transaction, balance, value, feeReserved⟩ := p
    dsimp only [BaseTransfer]
    rintro ⟨rfl, rfl, hvalue, hpos, hcovered, rfl, node, hnode, rfl, rfl, rfl⟩
    exact ⟨node, hnode, value, ⟨hvalue, hpos, hcovered⟩, rfl⟩

theorem withdrawSolanaGas_ok_iff {agent : Agent} {recipient : JsString} {amount : Option Int} :
    withdrawSolanaGas env agent recipient amount = .ok p ↔
      p.agent = agent ∧ p.recipient = recipient ∧
        p.amount = amount.getD (spendable p.balance p.feeReserved) ∧ 0 < p.amount ∧
          p.amount + p.feeReserved ≤ p.balance ∧ SolanaTransfer env p := by
  simp only [withdrawSolanaGas, bind_eq_ok, orThrow_eq_ok, valueOf_ok_iff, revertIf_eq_ok,
    pure_eq_ok, not_and_or, gt_iff_lt, not_lt]
  constructor
  · rintro ⟨destination, hdestination, source, hsource, node, hnode, value,
      ⟨hvalue, hpos, hcovered⟩, -, hrent, rfl⟩
    exact ⟨rfl, rfl, hvalue, hpos, hcovered, rfl, node, source, destination, hnode, hsource,
      hdestination, rfl, rfl, rfl, hrent⟩
  · obtain ⟨agent', wallet, recipient', transaction, balance, value, feeReserved⟩ := p
    dsimp only [SolanaTransfer]
    rintro ⟨rfl, rfl, hvalue, hpos, hcovered, rfl, node, source, destination, hnode, hsource,
      hdestination, rfl, rfl, rfl, hrent⟩
    exact ⟨destination, hdestination, source, hsource, node, hnode, value,
      ⟨hvalue, hpos, hcovered⟩, (), hrent, rfl⟩

/-- A withdrawal is prepared exactly when it is payable. -/
theorem prepare_ok_iff (hreads : ReadsEther env.parseEther) :
    prepare env params = .ok p ↔ Payable env params p := by
  obtain ⟨vault, chain, recipient, amount⟩ := params
  simp only [prepare, bind_eq_ok, resolveAgent_ok_iff]
  cases chain with
  | base =>
      simp only [bind_eq_ok, revertIf_eq_ok, Bool.not_eq_false, withdrawBaseGas_ok_iff]
      constructor
      -- on Base the recipient is refused before the amount is read, on Solana after
      · rintro ⟨agent, hstopped, -, haddress, a, ha, rfl, hrecipient, hvalue, hpos, hcovered, htx⟩
        exact ⟨hstopped, hrecipient,
          (typed_asked fun _ _ => safeParseEther_ok_iff hreads).mpr ⟨a, ha, hvalue⟩, hpos,
          hcovered, hrecipient ▸ haddress, htx⟩
      · intro h
        obtain ⟨haddress, htx⟩ := h.placed
        obtain ⟨a, ha, hvalue⟩ := (typed_asked fun _ _ => safeParseEther_ok_iff hreads).mp h.asked
        exact ⟨p.agent, h.agent, (), h.recipient ▸ haddress, a, ha, rfl, h.recipient, hvalue,
          h.positive, h.covered, htx⟩
  | solana =>
      simp only [bind_eq_ok, withdrawSolanaGas_ok_iff]
      constructor
      · rintro ⟨agent, hstopped, a, ha, rfl, hrecipient, hvalue, hpos, hcovered, htx⟩
        exact ⟨hstopped, hrecipient, (typed_asked fun _ _ => parseSol_ok_iff).mpr ⟨a, ha, hvalue⟩,
          hpos, hcovered, htx⟩
      · intro h
        obtain ⟨a, ha, hvalue⟩ := (typed_asked fun _ _ => parseSol_ok_iff).mp h.asked
        exact ⟨p.agent, h.agent, a, ha, rfl, h.recipient, hvalue, h.positive, h.covered, h.placed⟩

/-- A request for all there is. -/
def Params.sweeps (params : Params) : Prop := params.amount = none ∨ params.amount = some []

theorem asked_all (hsweep : params.sweeps) {places : Nat} {all value : Int} :
    Asked places params.amount all value ↔ value = all := by
  rcases hsweep with hnone | hempty
  · rw [hnone, Asked]
  · rw [hempty, Asked, if_pos rfl]

theorem spendable_add {balance cost : Nat} (h : 0 < spendable balance cost) :
    spendable balance cost + cost = balance := by
  rw [spendable] at h ⊢
  split at h
  next hmore => simp [hmore]
  next => exact absurd h (lt_irrefl 0)

/-- Without an amount everything goes. -/
theorem Payable.swept (h : Payable env params p) (hsweep : params.sweeps) : p.remaining = 0 := by
  have hall := (asked_all hsweep).mp h.asked
  have hpos := h.positive
  rw [hall] at hpos
  have hadd := spendable_add hpos
  rw [Prepared.remaining, hall]
  omega

theorem settle_ok {w : GasWithdrawal} (h : settle env params.chain p = .ok w) :
    env.signAndSend p.agent.path p.transaction = some w.hash ∧
      w.vault = p.agent.vault.address ∧ w.source = p.source ∧ w.recipient = p.recipient ∧
        w.amount = p.amount ∧ w.feeReserved = p.feeReserved ∧ w.remaining = p.remaining := by
  simp only [settle, bind_eq_ok, orThrow_eq_ok, pure_eq_ok] at h
  obtain ⟨hash, hsent, -, -, rfl⟩ := h
  exact ⟨hsent, rfl, rfl, rfl, rfl, rfl, rfl⟩

theorem withdrawGas_of_error {e : Thrown} (h : prepare env params = .error e) :
    withdrawGas env params = ⟨[], .error e⟩ := by
  rw [withdrawGas, h]

theorem withdrawGas_of_ok (h : prepare env params = .ok p)
    (hencodes : env.encodes p.transaction = true) : withdrawGas env params =
      ⟨[(p.agent.path, p.transaction)], settle env params.chain p⟩ := by
  simp only [withdrawGas, h, hencodes, if_true]

theorem withdrawGas_of_not_encodes (h : prepare env params = .ok p)
    (hencodes : ¬ env.encodes p.transaction = true) :
    withdrawGas env params = ⟨[], .error .passedOn⟩ := by
  simp only [withdrawGas, h, if_neg hencodes]

/-- What is signed for is the payable transfer, where it can be encoded. -/
theorem mem_signed_iff (hreads : ReadsEther env.parseEther) {path : JsString}
    {tx : Transaction Key} : (path, tx) ∈ (withdrawGas env params).signed ↔
      ∃ p, Payable env params p ∧ env.encodes p.transaction = true ∧
        path = p.agent.path ∧ tx = p.transaction := by
  cases hprepare : prepare env params with
  | error e =>
      rw [withdrawGas_of_error hprepare]
      refine iff_of_false List.not_mem_nil ?_
      rintro ⟨p, hp, -⟩
      rw [(prepare_ok_iff hreads).mpr hp] at hprepare
      cases hprepare
  | ok p =>
      have hpayable : Payable env params p := (prepare_ok_iff hreads).mp hprepare
      -- what is payable is what was prepared, so there is one at most
      have honly : ∀ p', Payable env params p' → p' = p := by
        intro p' hp'
        rw [(prepare_ok_iff hreads).mpr hp'] at hprepare
        exact Except.ok.inj hprepare
      by_cases hencodes : env.encodes p.transaction = true
      · rw [withdrawGas_of_ok hprepare hencodes, List.mem_singleton, Prod.mk.injEq]
        constructor
        · exact fun h => ⟨p, hpayable, hencodes, h⟩
        · rintro ⟨p', hp', -, h⟩
          obtain rfl := honly p' hp'
          exact h
      · rw [withdrawGas_of_not_encodes hprepare hencodes]
        refine iff_of_false List.not_mem_nil ?_
        rintro ⟨p', hp', hencodes', -⟩
        obtain rfl := honly p' hp'
        exact hencodes hencodes'

/-- **Gas goes out of the stopped agent's own wallets, as asked for, and is accounted for.** NEAR
is asked to sign at most one transfer for a request, and exactly the payable one, if it can be
encoded: under the path recorded for the vault, whose wallet is the one the vault names; out of
that wallet, to where the request says, of the amount typed to its last digit, or of all that is
left when its fee is paid; covered with its fee; and on Solana leaving nothing, or enough to
stay. An answer is of such a transfer, and what it says was sent, reserved and left is the whole
balance. -/
theorem gas_withdrawn (env : Env Key) (hreads : ReadsEther env.parseEther) (params : Params) :
    let out := withdrawGas env params
    (∀ path tx, (path, tx) ∈ out.signed ↔
        ∃ p, Payable env params p ∧ env.encodes p.transaction = true ∧
          path = p.agent.path ∧ tx = p.transaction) ∧
      out.signed.length ≤ 1 ∧
      ∀ w, out.answer = .ok w → ∃ p, Payable env params p ∧
        out.signed = [(p.agent.path, p.transaction)] ∧
        env.signAndSend p.agent.path p.transaction = some w.hash ∧
        w.source = p.source ∧ w.recipient = p.recipient ∧
        w.amount + w.feeReserved + w.remaining = p.balance ∧ 0 < w.amount ∧ 0 ≤ w.remaining ∧
        (params.sweeps → w.remaining = 0) := by
  refine ⟨fun path tx => mem_signed_iff hreads, ?_⟩
  cases hprepare : prepare env params with
  | error e =>
      rw [withdrawGas_of_error hprepare]
      exact ⟨Nat.zero_le _, fun w hw => by cases hw⟩
  | ok p =>
      -- what cannot be encoded is not signed for, and not answered
      by_cases hencodes : env.encodes p.transaction = true
      swap
      · rw [withdrawGas_of_not_encodes hprepare hencodes]
        exact ⟨Nat.zero_le _, fun w hw => by cases hw⟩
      have hpayable : Payable env params p := (prepare_ok_iff hreads).mp hprepare
      rw [withdrawGas_of_ok hprepare hencodes]
      refine ⟨le_refl _, fun w hw => ?_⟩
      obtain ⟨hsent, -, hsource, hrecipient, hamount, hfee, hremaining⟩ := settle_ok hw
      have hpos := hpayable.positive
      have hcovered := hpayable.covered
      refine ⟨p, hpayable, rfl, hsent, hsource, hrecipient, ?_, hamount ▸ hpos, ?_, ?_⟩
      · rw [hamount, hfee, hremaining, Prepared.remaining]
        omega
      · rw [hremaining, Prepared.remaining]
        omega
      · exact fun hsweep => hremaining.trans (hpayable.swept hsweep)

namespace Test

/-- viem's `parseEther`, of what passes the test before it. -/
def parseEther (text : JsString) : Int := (placed 18 text).toOption.getD 0

theorem reads : ReadsEther parseEther := by
  intro m hm
  rw [parseEther, hm.placed_eq (by decide)]
  exact hm.numeral_scaled

def vault : VaultView where
  address := js "0xa1"
  ticker := some (js "NVDA")
  agentEnabled := false
  agentPath := some (js "lemon,NVDA,0")
  agentWallet := js "0xc5"

/-- Two SOL and nothing on Base, behind the agent of one vault. -/
def stopped : Env JsString where
  casing := .ascii
  nearMpc := some fun _ => ⟨js "0xC5", js "agent"⟩
  getVault address := .ok (if address = js "0xa1" then some vault else none)
  parseEther
  publicKey := some
  base := some ⟨fun _ => 0, fun _ => 7, 1000, 1, fun _ _ => none⟩
  solana := some ⟨fun _ => 2000000000, 890880, js "recent", fun _ => some 5000⟩
  encodes _ := true
  signAndSend _ _ := some (js "hash")
  confirm _ := some true

def half : Params := ⟨js "0xa1", .solana, js "home", some (js "0.5")⟩

def everything : Params := { half with amount := none }

theorem gas_withdrawn_half : ∃ w, (withdrawGas stopped half).answer = .ok w ∧
    w.amount + w.feeReserved + w.remaining = 2000000000 := by
  obtain ⟨-, -, hanswer⟩ := gas_withdrawn stopped reads half
  obtain ⟨w, hw⟩ : ∃ w, (withdrawGas stopped half).answer = .ok w := by
    cases h : (withdrawGas stopped half).answer with
    | ok w => exact ⟨w, rfl⟩
    | error e =>
        have hok : (withdrawGas stopped half).answer.toOption.isSome = true := by decide +kernel
        rw [h] at hok
        cases hok
  obtain ⟨p, hp, -, -, -, -, htotal, -⟩ := hanswer w hw
  obtain ⟨-, cluster, source, -, hcluster, -, -, hbalance, -⟩ := hp.placed
  obtain rfl := Option.some.inj hcluster
  rw [hbalance] at htotal
  exact ⟨w, hw, htotal⟩

end Test

/-! ### What is offered -/

def Withdrawable.side (o : Withdrawable) : Chain → GasWithdrawable
  | .base => o.base
  | .solana => o.solana

/-- A place a chain can send to, at the fee the offer was priced at. -/
def Reachable (env : Env Key) (recipient : JsString) : Chain → Prop
  | .base => isEvmAddress recipient = true ∧ ∀ node source, env.base = some node →
      node.estimateGas source recipient = node.estimateGas source source
  | .solana => (env.publicKey recipient).isSome ∧ ∀ cluster tx, env.solana = some cluster →
      (cluster.feeForMessage tx).getD 5000 = 5000

theorem base_taken {agent : Agent} {node : BaseNode} (hagent : Stopped env params.vault agent)
    (hchain : params.chain = .base) (hsweep : params.sweeps) (hnode : env.base = some node)
    (hreach : Reachable env (trim params.recipient) .base)
    (hspare : 0 < spendable (node.balance agent.evm)
      (baseTransferCost node agent.evm agent.evm).cost) :
    ∃ p, Payable env params p ∧ p.amount = spendable (node.balance agent.evm)
      (baseTransferCost node agent.evm agent.evm).cost := by
  obtain ⟨haddress, hfee⟩ := hreach
  -- a transfer to the recipient is estimated like one to the wallet itself
  have hcost : baseTransferCost node agent.evm (trim params.recipient) =
      baseTransferCost node agent.evm agent.evm := by
    rw [baseTransferCost, hfee node agent.evm hnode]
    rfl
  let fee := baseTransferCost node agent.evm agent.evm
  let value := spendable (node.balance agent.evm) fee.cost
  have hadd : value + fee.cost = node.balance agent.evm := spendable_add hspare
  let p : Prepared Key := {
    agent
    source := agent.evm
    recipient := trim params.recipient
    transaction := .eip1559 (trim params.recipient) value fee (node.pendingNonce agent.evm)
    balance := node.balance agent.evm
    amount := value
    feeReserved := fee.cost }
  have hplaced : Placed env .base p := by
    refine ⟨haddress, rfl, node, hnode, rfl, ?_, ?_⟩ <;> rw [hcost]
  exact ⟨p, ⟨hagent, rfl, (asked_all hsweep).mpr rfl, hspare, hadd.le, hchain ▸ hplaced⟩, rfl⟩

theorem solana_taken {agent : Agent} {cluster : SolanaNode Key} {wallet : Key}
    (hagent : Stopped env params.vault agent) (hchain : params.chain = .solana)
    (hsweep : params.sweeps) (hcluster : env.solana = some cluster)
    (hwallet : env.publicKey agent.solana = some wallet)
    (hreach : Reachable env (trim params.recipient) .solana)
    (hspare : 0 < spendable (cluster.balance wallet) 5000) :
    ∃ p, Payable env params p ∧ p.amount = spendable (cluster.balance wallet) 5000 := by
  obtain ⟨hkey, hfee⟩ := hreach
  obtain ⟨destination, hdestination⟩ := Option.isSome_iff_exists.mp hkey
  let value := spendable (cluster.balance wallet) 5000
  have hadd : value + (5000 : Nat) = cluster.balance wallet := spendable_add hspare
  have hnothing : (cluster.balance wallet : Int) - value - (5000 : Nat) ≤ 0 := by omega
  let p : Prepared Key := {
    agent
    source := agent.solana
    recipient := trim params.recipient
    transaction := .solTransfer wallet destination value cluster.blockhash
    balance := cluster.balance wallet
    amount := value
    feeReserved := 5000 }
  have hplaced : Placed env .solana p :=
    ⟨rfl, cluster, wallet, destination, hcluster, hwallet, hdestination, rfl,
      (hfee cluster _ hcluster).symm, rfl, .inl hnothing⟩
  exact ⟨p, ⟨hagent, rfl, (asked_all hsweep).mpr rfl, hspare, hadd.le, hchain ▸ hplaced⟩, rfl⟩

/-- **What is offered is what a sweep takes.** Where a wallet is said to have something to spare,
a request for all of it is in order, wherever it is to go at the fee the offer was priced at; it
takes what was offered and leaves nothing, so the rent of a Solana account stops no sweep. -/
theorem offered_is_taken (env : Env Key) (hreads : ReadsEther env.parseEther) {params : Params}
    (hsweep : params.sweeps) {o : Withdrawable} (ho : withdrawableGas env params.vault = .ok o)
    (hreach : Reachable env (trim params.recipient) params.chain)
    (hspare : 0 < (o.side params.chain).spendable) :
    ∃ p, prepare env params = .ok p ∧ p.amount = (o.side params.chain).spendable ∧
      p.remaining = 0 := by
  simp only [withdrawableGas, bind_eq_ok, orThrow_eq_ok, pure_eq_ok, resolveAgent_ok_iff] at ho
  obtain ⟨agent, hagent, node, hnode, cluster, hcluster, wallet, hwallet, rfl⟩ := ho
  suffices ∃ p, Payable env params p ∧ p.amount = (Withdrawable.side _ params.chain).spendable by
    obtain ⟨p, hp, hamount⟩ := this
    exact ⟨p, (prepare_ok_iff hreads).mpr hp, hamount, hp.swept hsweep⟩
  cases hchain : params.chain with
  | base =>
      rw [hchain] at hreach hspare
      exact base_taken hagent hchain hsweep hnode hreach hspare
  | solana =>
      rw [hchain] at hreach hspare
      exact solana_taken hagent hchain hsweep hcluster hwallet hreach hspare

namespace Test

theorem offered_is_taken_everything : ∃ p, prepare stopped everything = .ok p ∧
    p.amount = 1999995000 ∧ p.remaining = 0 := by
  have hreach : Reachable stopped (trim everything.recipient) everything.chain :=
    ⟨rfl, fun _ _ h => Option.some.inj h ▸ rfl⟩
  obtain ⟨o, ho, hspare⟩ : ∃ o, withdrawableGas stopped everything.vault = .ok o ∧
      (o.side everything.chain).spendable = 1999995000 := ⟨_, rfl, rfl⟩
  have hpos : 0 < (o.side everything.chain).spendable := by rw [hspare]; decide
  obtain ⟨p, hp, hamount, hremaining⟩ := offered_is_taken stopped reads (.inl rfl) ho hreach hpos
  exact ⟨p, hp, hamount.trans hspare, hremaining⟩

end Test

end GasWithdraw

end Api

end LemonMarket
