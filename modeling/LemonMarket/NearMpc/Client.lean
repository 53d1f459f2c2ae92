import LemonMarket.Lib.Hex
import LemonMarket.Lib.NumberText
import LemonMarket.Lib.PromiseChain

/-!
# LemonMarket.NearMpc.Client

**Asking the network for signatures** (`client.ts`). A request the signer contract would refuse
is refused here; any other becomes a call of the contract, put to one chain of promises, since
two transactions of one access key at once race for its nonce.

`signing_serialised` says what the contract sees of a client, over any run: the accepted
requests in the order they were made, one at a time, each once, whatever has failed before.
-/

namespace LemonMarket

namespace NearMpc

open Lib NumberText

def mpcContract : JsString := js "v1.signer"
def nearRpcUrl : JsString := js "https://rpc.mainnet.near.org"
def domainSecp256k1 : Nat := 0
def domainEd25519 : Nat := 1
def maxGas : Nat := 300000000000000
def maxEddsaPayloadBytes : Nat := 1232

inductive Finality
  | final
  | executedOptimistic
  | executed
  deriving Repr, DecidableEq

structure NearMpcConfig where
  accountId : JsString
  privateKey : JsString
  contractId : Option JsString
  rpcUrl : Option JsString
  waitUntil : Option Finality

/-- A client: what its requests are sent with. -/
structure NearMpcClient where
  accountId : JsString
  privateKey : JsString
  contractId : JsString
  rpcUrl : JsString
  waitUntil : Finality

/-- An unset environment variable and an empty one mean the same thing here. -/
def blankToUndefined (value : Option JsString) : Option JsString :=
  (value.map trim).bind fun trimmed => if trimmed = [] then none else some trimmed

def construct (config : NearMpcConfig) : NearMpcClient where
  accountId := config.accountId
  privateKey := config.privateKey
  contractId := (blankToUndefined config.contractId).getD mpcContract
  rpcUrl := (blankToUndefined config.rpcUrl).getD nearRpcUrl
  waitUntil := config.waitUntil.getD .final

/-- `payload_v2` of a request, in hex. -/
inductive Payload
  | eddsa (hex : JsString)
  | ecdsa (hex : JsString)
  deriving DecidableEq

/-- A call of the signer contract's `sign`. -/
structure FunctionCall where
  contractId : JsString
  payload : Payload
  path : JsString
  domainId : Nat
  gas : Nat
  deposit : Nat
  waitUntil : Finality
  deriving DecidableEq

def toHex (bytes : List UInt8) : JsString := (Hex.ofBytes bytes).map unit

/-- `signEd25519`, up to the call it makes. -/
def signEd25519 (client : NearMpcClient) (path : JsString) (message : List UInt8) :
    Except JsString FunctionCall :=
  if message.length > maxEddsaPayloadBytes then
    .error (js "Ed25519 payload is " ++ decimal message.length ++
      js " bytes; the signer contract accepts at most " ++ decimal maxEddsaPayloadBytes ++ js ".")
  else .ok {
    contractId := client.contractId
    payload := .eddsa (toHex message)
    path
    domainId := domainEd25519
    gas := maxGas
    deposit := 1
    waitUntil := client.waitUntil }

/-- `signSecp256k1`, up to the call it makes. -/
def signSecp256k1 (client : NearMpcClient) (path : JsString) (digest : List UInt8) :
    Except JsString FunctionCall :=
  if digest.length ≠ 32 then
    .error (js "ECDSA payloads are a 32-byte digest; got " ++ decimal digest.length ++
      js " bytes. Hash the message first.")
  else .ok {
    contractId := client.contractId
    payload := .ecdsa (toHex digest)
    path
    domainId := domainSecp256k1
    gas := maxGas
    deposit := 1
    waitUntil := client.waitUntil }

/-- What a caller asks to have signed. -/
inductive SignRequest
  | ed25519 (path : JsString) (message : List UInt8)
  | secp256k1 (path : JsString) (digest : List UInt8)
  deriving DecidableEq

def NearMpcClient.sign (client : NearMpcClient) : SignRequest → Except JsString FunctionCall
  | .ed25519 path message => signEd25519 client path message
  | .secp256k1 path digest => signSecp256k1 client path digest

variable {ρ : Type}

/-- What happens around a client: a caller asks, a call goes out, the network replies. -/
inductive ClientStep (ρ : Type)
  | ask (request : SignRequest)
  | call (k : Nat)
  | settle (k : Nat) (reply : Reply ρ)

/-- The step of the chain it is. A refused request does not get there. -/
def NearMpcClient.chained (client : NearMpcClient) :
    ClientStep ρ → Option (ChainStep FunctionCall ρ)
  | .ask request =>
      match client.sign request with
      | .ok call => some (.enqueue call)
      | .error _ => none
  | .call k => some (.call k)
  | .settle k reply => some (.settle k reply)

def NearMpcClient.next (client : NearMpcClient) (queue : PromiseChain FunctionCall ρ)
    (step : ClientStep ρ) : Option (PromiseChain FunctionCall ρ) :=
  match client.chained step with
  | some step => queue.next step
  | none => some queue

/-- What the contract sees of a step. -/
def outbound (step : ClientStep ρ) : Option PromiseChain.ChainEvent :=
  match step with
  | .ask _ => none
  | .call k => some (.called k)
  | .settle k _ => some (.settled k)

/-- The call a step asks for, if it is not refused. -/
def NearMpcClient.accepted (client : NearMpcClient) (step : ClientStep ρ) : Option FunctionCall :=
  match step with
  | .ask request => (client.sign request).toOption
  | _ => none

/-- A call the contract can take: sent as this client sends, no larger than the contract
accepts, and with the curve its payload is for. -/
structure WellFormed (client : NearMpcClient) (call : FunctionCall) : Prop where
  contract : call.contractId = client.contractId
  finality : call.waitUntil = client.waitUntil
  gas : call.gas = maxGas
  deposit : call.deposit = 1
  payload : (∃ message, call.payload = .eddsa (toHex message) ∧ call.domainId = domainEd25519 ∧
      message.length ≤ maxEddsaPayloadBytes) ∨
    ∃ digest, call.payload = .ecdsa (toHex digest) ∧ call.domainId = domainSecp256k1 ∧
      digest.length = 32

theorem wellFormed_of_sign {client : NearMpcClient} {request : SignRequest} {call : FunctionCall}
    (h : client.sign request = .ok call) : WellFormed client call := by
  cases request with
  | ed25519 path message =>
      simp only [NearMpcClient.sign, signEd25519] at h
      split at h
      next => cases h
      next hsize =>
        obtain rfl := Except.ok.inj h
        exact ⟨rfl, rfl, rfl, rfl, .inl ⟨message, rfl, rfl, not_lt.mp hsize⟩⟩
  | secp256k1 path digest =>
      simp only [NearMpcClient.sign, signSecp256k1] at h
      split at h
      next => cases h
      next hsize =>
        obtain rfl := Except.ok.inj h
        exact ⟨rfl, rfl, rfl, rfl, .inr ⟨digest, rfl, rfl, not_not.mp hsize⟩⟩

/-! ### Runs -/

section

variable {client : NearMpcClient}
  {tr : List (Transition (PromiseChain FunctionCall ρ) (ClientStep ρ))}
  {queue : PromiseChain FunctionCall ρ}

/-- The chain's side of a run. -/
def chainRun (client : NearMpcClient)
    (tr : List (Transition (PromiseChain FunctionCall ρ) (ClientStep ρ))) :
    List (Transition (PromiseChain FunctionCall ρ) (ChainStep FunctionCall ρ)) :=
  tr.filterMap fun t => (client.chained t.label).map fun step => ⟨t.pre, step, t.post⟩

theorem run_chainRun (h : Run client.next [] tr queue) :
    Run PromiseChain.next [] (chainRun client tr) queue := by
  refine h.project client.chained ?_
  intro q step q' hn
  unfold NearMpcClient.next at hn
  split at hn
  next step' hstep =>
    rw [hstep]
    exact hn
  next hstep =>
    rw [hstep]
    exact (Option.some.inj hn).symm

theorem outbound_chainRun (client : NearMpcClient)
    (tr : List (Transition (PromiseChain FunctionCall ρ) (ClientStep ρ))) :
    (chainRun client tr).filterMap PromiseChain.event =
      (tr.map Transition.label).filterMap outbound := by
  rw [chainRun, List.filterMap_filterMap, List.filterMap_map]
  refine List.filterMap_congr fun t _ => ?_
  show _ = outbound t.label
  cases hl : t.label with
  | ask request =>
      cases hsign : client.sign request <;>
        simp [NearMpcClient.chained, outbound, PromiseChain.event, hsign]
  | call k => rfl
  | settle k reply => rfl

theorem put_chainRun (tr : List (Transition (PromiseChain FunctionCall ρ) (ClientStep ρ))) :
    (chainRun client tr).filterMap PromiseChain.put =
      (tr.map Transition.label).filterMap client.accepted := by
  rw [chainRun, List.filterMap_filterMap, List.filterMap_map]
  refine List.filterMap_congr fun t _ => ?_
  show _ = client.accepted t.label
  cases hl : t.label with
  | ask request =>
      cases hsign : client.sign request <;>
        simp [NearMpcClient.chained, NearMpcClient.accepted, PromiseChain.put, hsign,
          Except.toOption]
  | call k => rfl
  | settle k reply => rfl

theorem wellFormed_of_accepted {step : ClientStep ρ} {call : FunctionCall}
    (h : client.accepted step = some call) : WellFormed client call := by
  cases step with
  | ask request =>
      cases hsign : client.sign request with
      | error message =>
          rw [NearMpcClient.accepted, hsign] at h
          cases h
      | ok made =>
          rw [NearMpcClient.accepted, hsign] at h
          obtain rfl := Option.some.inj h
          exact wellFormed_of_sign hsign
  | call k => cases h
  | settle k reply => cases h

/-- **Signing is serialised.** Over any run of a client, whatever comes back, the contract sees
one call at a time: the accepted requests in the order they were made, each once, and each well
formed. A caller gets the reply to its own call, and as long as a request is left the next call
can go out, or the one that is out can come back. -/
theorem signing_serialised (h : Run client.next [] tr queue) : ∃ (done : Nat) (busy : Bool),
    (tr.map Transition.label).filterMap outbound =
        PromiseChain.rounds done ++ (if busy then [.called done] else []) ∧
      queue.map Job.task = (tr.map Transition.label).filterMap client.accepted ∧
      (∀ job ∈ queue, WellFormed client job.task) ∧
      (∀ (k : Nat) job, queue[k]? = some job → k < done →
        ∃ t ∈ tr, ∃ reply, t.label = .settle k reply ∧ job.result = reply.settled) ∧
      (done < queue.length →
        if busy then ∀ reply : Reply ρ, (client.next queue (.settle done reply)).isSome
        else (client.next queue (.call done)).isSome) := by
  obtain ⟨done, busy, hist⟩ := PromiseChain.History.of_run (run_chainRun h)
  have htasks := hist.tasks
  rw [put_chainRun] at htasks
  refine ⟨done, busy, ?_, htasks, ?_, ?_, hist.serial.progress⟩
  · rw [← outbound_chainRun client, hist.events]
  · intro job hjob
    have hmem : job.task ∈ (tr.map Transition.label).filterMap client.accepted :=
      htasks ▸ List.mem_map.mpr ⟨job, hjob, rfl⟩
    obtain ⟨step, -, hstep⟩ := List.mem_filterMap.mp hmem
    exact wellFormed_of_accepted hstep
  · intro k job hk hlt
    obtain ⟨u, hu, reply, hlabel, hresult⟩ := hist.replies k job hk hlt
    obtain ⟨t, ht, hmap⟩ := List.mem_filterMap.mp hu
    obtain ⟨step, hstep, rfl⟩ := Option.map_eq_some_iff.mp hmap
    refine ⟨t, ht, reply, ?_, hresult⟩
    -- only a reply is a reply to the chain
    have hlabel : step = .settle k reply := hlabel
    subst hlabel
    cases hl : t.label with
    | ask request =>
        rw [hl] at hstep
        cases hsign : client.sign request <;> simp [NearMpcClient.chained, hsign] at hstep
    | call j => simp [hl, NearMpcClient.chained] at hstep
    | settle j reply' =>
        rw [hl] at hstep
        simp only [NearMpcClient.chained, Option.some.injEq, ChainStep.settle.injEq] at hstep
        rw [hstep.1, hstep.2]

end

namespace Test

def relayer : NearMpcClient :=
  construct ⟨js "lemon-markets.near", js "ed25519:key", some (js "  "), none, none⟩

/-- A digest too short, two requests, a failure, and the second call all the same. -/
def asked : List (ClientStep Unit) :=
  [.ask (.secp256k1 (js "p") [0]), .ask (.ed25519 (js "p") [1]),
    .ask (.ed25519 (js "q") [2]), .call 0, .settle 0 .reject, .call 1]

/-- The contract sees the first call end before the second begins. -/
theorem signing_serialised_asked : ∃ tr queue, trace relayer.next [] asked = some (tr, queue) ∧
    relayer.contractId = mpcContract ∧
    ∃ (done : Nat) (busy : Bool), [PromiseChain.ChainEvent.called 0, .settled 0, .called 1] =
      PromiseChain.rounds done ++ (if busy then [.called done] else []) := by
  obtain ⟨tr, queue, htrace⟩ : ∃ tr queue, trace relayer.next [] asked = some (tr, queue) :=
    ⟨_, _, rfl⟩
  obtain ⟨done, busy, hseen, -⟩ := signing_serialised (trace_run htrace)
  rw [trace_labels htrace] at hseen
  exact ⟨tr, queue, htrace, by decide, done, busy, hseen⟩

end Test

end NearMpc

end LemonMarket
