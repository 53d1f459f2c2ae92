import LemonMarket.Lib.NumberText

/-!
# LemonMarket.NearMpc.Paths

**Derivation paths** (`paths.ts`). A path is a prefix for what it is derived for, and an
identity in one case. What the language makes of the case of a text is taken over (`Casing`),
with what it does on ASCII.

Two paths are equal exactly when they were made for the same thing (`path_eq_iff`), so no vault
can come to have a user's keys, nor one tier of a market those of the other.
-/

namespace LemonMarket

namespace NearMpc

open Lib NumberText

/-- The lower case of an ASCII unit: the cases are as far apart as a blank is from zero. -/
def asciiLower (c : CodeUnit) : CodeUnit := if 65 ≤ c.val ∧ c.val ≤ 90 then c + unit ' ' else c

def asciiUpper (c : CodeUnit) : CodeUnit := if 97 ≤ c.val ∧ c.val ≤ 122 then c - unit ' ' else c

def isAscii (s : JsString) : Bool := s.all fun c => c.val < 128

/-- `toLowerCase` and `toUpperCase`. -/
structure Casing where
  toLowerCase : JsString → JsString
  toUpperCase : JsString → JsString
  lower_ascii : ∀ s, isAscii s = true → toLowerCase s = s.map asciiLower
  upper_ascii : ∀ s, isAscii s = true → toUpperCase s = s.map asciiUpper

/-- The casing of a language that knows ASCII alone. -/
def Casing.ascii : Casing where
  toLowerCase s := s.map asciiLower
  toUpperCase s := s.map asciiUpper
  lower_ascii _ _ := rfl
  upper_ascii _ _ := rfl

def digits : JsString := js "0123456789"
def lowerLetters : JsString := js "abcdefghijklmnopqrstuvwxyz"
def upperLetters : JsString := js "ABCDEFGHIJKLMNOPQRSTUVWXYZ"

/-- `/^0x[0-9a-f]{40}$/` -/
def isAddress (s : JsString) : Bool :=
  s.take 2 = js "0x" ∧ s.length = 42 ∧ (s.drop 2).all (· ∈ digits ++ js "abcdef") = true

/-- `/^[a-z0-9._-]{1,32}$/` -/
def isMarketId (s : JsString) : Bool :=
  1 ≤ s.length ∧ s.length ≤ 32 ∧ s.all (· ∈ lowerLetters ++ digits ++ js "._-") = true

def derivationPathVersion : JsString := js "lemon-v1"
def vaultDerivationPathVersion : JsString := js "lemon-vault-v1"

inductive Tier
  | conservative
  | leveraged
  deriving Repr, DecidableEq

def Tier.text : Tier → JsString
  | .conservative => js "conservative"
  | .leveraged => js "leveraged"

variable (casing : Casing)

def normalised (s : JsString) : JsString := casing.toLowerCase (trim s)

/-- The path a connected wallet's derived accounts live under. -/
def derivationPath (connectedAddress : JsString) : Except JsString JsString :=
  if isAddress (normalised casing connectedAddress) then
    .ok (derivationPathVersion ++ js "/" ++ normalised casing connectedAddress)
  else .error (js "Not an EVM address, so not a usable derivation path: " ++ connectedAddress)

/-- The path a vault's agent wallet lives under. -/
def vaultAgentDerivationPath (vaultAddress : JsString) : Except JsString JsString :=
  if isAddress (normalised casing vaultAddress) then
    .ok (vaultDerivationPathVersion ++ js "/" ++ normalised casing vaultAddress)
  else .error (js "Not an EVM address, so not a usable vault path: " ++ vaultAddress)

/-- The path an agent wallet is derived from before its vault exists. -/
def agentDerivationPath (marketId : JsString) (tier : Tier) : Except JsString JsString :=
  if isMarketId (normalised casing marketId) then
    .ok (vaultDerivationPathVersion ++ js "/" ++ tier.text ++ js "/" ++ normalised casing marketId)
  else .error (js "Not a usable market id for a derivation path: " ++ marketId)

/-! ### Paths apart -/

/-- What a path is asked for. -/
inductive PathRequest
  | user (address : JsString)
  | vault (address : JsString)
  | agent (marketId : JsString) (tier : Tier)

def PathRequest.path : PathRequest → Except JsString JsString
  | .user address => derivationPath casing address
  | .vault address => vaultAgentDerivationPath casing address
  | .agent marketId tier => agentDerivationPath casing marketId tier

/-- What it is asked for, in one case and without space around it. -/
def PathRequest.identity : PathRequest → PathRequest
  | .user address => .user (normalised casing address)
  | .vault address => .vault (normalised casing address)
  | .agent marketId tier => .agent (normalised casing marketId) tier

/-- The path of what is asked for, without a look at what it is. -/
def PathRequest.raw : PathRequest → JsString
  | .user address => derivationPathVersion ++ js "/" ++ address
  | .vault address => vaultDerivationPathVersion ++ js "/" ++ address
  | .agent marketId tier =>
      vaultDerivationPathVersion ++ js "/" ++ tier.text ++ js "/" ++ marketId

/-- What the patterns let through. -/
def PathRequest.Plain : PathRequest → Prop
  | .user address | .vault address => isAddress address = true
  | .agent marketId _ => isMarketId marketId = true

variable {casing} {r r' : PathRequest} {p p' : JsString}

theorem PathRequest.path_eq_ok :
    r.path casing = .ok p ↔ (r.identity casing).Plain ∧ p = (r.identity casing).raw := by
  cases r with
  | user address =>
      simp only [path, derivationPath, identity, Plain, raw]
      split <;> simp [*, eq_comm]
  | vault address =>
      simp only [path, vaultAgentDerivationPath, identity, Plain, raw]
      split <;> simp [*, eq_comm]
  | agent marketId tier =>
      simp only [path, agentDerivationPath, identity, Plain, raw]
      split <;> simp [*, eq_comm]

/-- What a text begins with, if it is the beginning of another. -/
theorem getElem?_of_append {s t u v : JsString} {k : Nat} (h : s ++ t = u ++ v)
    (hs : k < s.length) (hu : k < u.length) : s[k]? = u[k]? := by
  have hleft : (s ++ t)[k]? = s[k]? := List.getElem?_append_left hs
  rw [← hleft, h, List.getElem?_append_left hu]

/-- A vault's identity is an address, and an agent's begins with its tier. -/
theorem vault_ne_agent {address : JsString} (h : isAddress address = true) (tier : Tier)
    (marketId : JsString) :
    address ≠ tier.text ++ (js "/" ++ marketId) := by
  rintro rfl
  have hzero : (tier.text ++ (js "/" ++ marketId)).take 2 = js "0x" := by
    simp only [isAddress, decide_eq_true_eq] at h
    exact h.1
  cases tier <;> exact absurd (congrArg List.head? hzero) (by simp [Tier.text, js]; decide)

theorem PathRequest.raw_inj (hr : r.Plain) (hr' : r'.Plain) (h : r.raw = r'.raw) : r = r' := by
  -- the two versions differ at their seventh unit
  have happart : ∀ a b : JsString, derivationPathVersion ++ js "/" ++ a ≠
      vaultDerivationPathVersion ++ js "/" ++ b := by
    intro a b hab
    have hseven := getElem?_of_append hab (k := 7) (by decide) (by decide)
    exact absurd hseven (by decide)
  cases r with
  | user a =>
      cases r' with
      | user b => rw [List.append_cancel_left h]
      | vault b => exact absurd h (happart a b)
      | agent b tier =>
          refine absurd ?_ (happart a (tier.text ++ js "/" ++ b))
          simpa only [raw, List.append_assoc] using h
  | vault a =>
      cases r' with
      | user b => exact absurd h.symm (happart b a)
      | vault b => rw [List.append_cancel_left h]
      | agent b tier =>
          have hsame : vaultDerivationPathVersion ++ js "/" ++ a =
              vaultDerivationPathVersion ++ js "/" ++ (tier.text ++ (js "/" ++ b)) := by
            simpa only [raw, List.append_assoc] using h
          exact absurd (List.append_cancel_left hsame) (vault_ne_agent hr tier b)
  | agent a tier =>
      cases r' with
      | user b =>
          refine absurd ?_ (happart b (tier.text ++ js "/" ++ a))
          simpa only [raw, List.append_assoc] using h.symm
      | vault b =>
          have hsame : vaultDerivationPathVersion ++ js "/" ++ b =
              vaultDerivationPathVersion ++ js "/" ++ (tier.text ++ (js "/" ++ a)) := by
            simpa only [raw, List.append_assoc] using h.symm
          exact absurd (List.append_cancel_left hsame) (vault_ne_agent hr' tier a)
      -- the tiers differ in their first letter
      | agent b tier' =>
          simp only [raw, List.append_assoc, List.append_cancel_left_eq] at h
          cases tier <;> cases tier' <;> first
            | exact absurd (congrArg List.head? h) (by simp [Tier.text, js]; decide)
            | rw [List.append_cancel_left (List.append_cancel_left h)]

/-- **Two paths are equal exactly when they were made for the same thing**, written in any
case. -/
theorem path_eq_iff (r r' : PathRequest) (h : r.path casing = .ok p)
    (h' : r'.path casing = .ok p') : p = p' ↔ r.identity casing = r'.identity casing := by
  obtain ⟨hplain, rfl⟩ := PathRequest.path_eq_ok.mp h
  obtain ⟨hplain', rfl⟩ := PathRequest.path_eq_ok.mp h'
  exact ⟨PathRequest.raw_inj hplain hplain', congrArg PathRequest.raw⟩

end NearMpc

end LemonMarket
