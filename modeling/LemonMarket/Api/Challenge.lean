import LemonMarket.Lib.NumberText
import LemonMarket.Lib.Run

/-!
# LemonMarket.Api.Challenge

**Spending a sign-in challenge** (`consumeChallenge`). A call reads the nonce's row, checks
what it read, awaits the signature's verification and then marks the row used. Each
statement is atomic and nothing holds the row in between, so any number of calls that
present the same nonce may be anywhere between their read and their mark at once.

The mark is an `update` by nonce alone: it does not ask that `usedAt` is still null. So
the row stops only the calls that read it after a mark, and two calls that read before the
first mark both succeed (`challenge_spent_twice`). What the code promises holds in the runs
in which no call finds the challenge good while another that did is on its way to its mark
(`challenge_spent_once_of_exclusive`).
-/

namespace LemonMarket.Api

open Lib

/-- What a challenge can be for. -/
inductive ChallengePurpose where
  | signIn
  deriving DecidableEq, Repr

def ChallengePurpose.text : ChallengePurpose → String
  | .signIn => "sign-in"

/-- The columns of a `SignInNonce` a call reads, its times in milliseconds. -/
structure SignInNonce where
  address : String
  purpose : String
  message : String
  expiresAt : Nat
  usedAt : Option Nat := none
  deriving DecidableEq, Repr

/-- What one call was given, the nonce apart. -/
structure ChallengeParams where
  address : String
  signature : String
  purpose : Option ChallengePurpose := none
  deriving DecidableEq, Repr

/-- Why a call throws. -/
inductive ChallengeError where
  | unavailable (reason : String)
  | auth (message : String) (status : Nat)
  /-- An error of the database client or of the verifier, passed on. -/
  | thrown
  deriving DecidableEq, Repr

/-- What the server is deployed with: its database, unless the setting is blank, and the
verifier of `viem`, which answers for an address, a message and a signature, or throws. -/
structure Server where
  databaseUrl : Option String
  verifyMessage : String → String → String → Option Bool

/-- Why sign-in cannot work here, or null. -/
def Server.accountsUnavailableReason (server : Server) : Option String :=
  match server.databaseUrl with
  | some _ => none
  | none =>
      some "Sign-in needs DATABASE_URL: a session has to outlive the request that created it."

/-- Lowercased, always. The routes admit `0x` and forty hexadecimal digits, on which ASCII
folding is all the folding there is. -/
def normaliseAddress (address : String) : String :=
  String.ofList ((NumberText.trimChars address.toList).map Char.toLower)

/-- The checks a call makes on the row it read. -/
def checkRecord (params : ChallengeParams) (now : Nat) (record : Option SignInNonce) :
    Except ChallengeError SignInNonce :=
  match record with
  | none => .error (.auth "That challenge is not one this server issued." 401)
  | some record =>
      if record.usedAt.isSome then
        .error (.auth "That challenge has already been used." 401)
      else if record.expiresAt < now then
        .error (.auth "That challenge has expired." 401)
      else if record.address ≠ normaliseAddress params.address then
        .error (.auth "That challenge was issued to a different address." 401)
      else if record.purpose ≠ (params.purpose.getD .signIn).text then
        .error (.auth "That challenge was issued for a different purpose." 401)
      else .ok record

/-- Where a call stands: before its read, awaiting the verification of what it read, before
its mark, and returned or thrown. -/
inductive Progress where
  | called
  | verifying (record : SignInNonce)
  | marking (record : SignInNonce)
  | returned (message : String)
  | threw (error : ChallengeError)
  deriving DecidableEq, Repr

/-- The row of the nonce, and the calls that present it. -/
structure ChallengeState where
  row : Option SignInNonce
  calls : Nat → Progress

namespace ChallengeState

def setCall (s : ChallengeState) (i : Nat) (p : Progress) : ChallengeState :=
  { s with calls := Function.update s.calls i p }

@[simp] theorem setCall_self (s : ChallengeState) (i : Nat) (p : Progress) :
    (s.setCall i p).calls i = p := by
  simp [setCall]

theorem setCall_of_ne {s : ChallengeState} {i j : Nat} {p : Progress} (h : j ≠ i) :
    (s.setCall i p).calls j = s.calls j := by
  simp [setCall, h]

@[simp] theorem setCall_row (s : ChallengeState) (i : Nat) (p : Progress) :
    (s.setCall i p).row = s.row := rfl

end ChallengeState

/-- The statements of `consumeChallenge`, by the call that takes them and the time it
reads off the clock. -/
inductive ChallengeAct where
  | read (i now : Nat)
  | verify (i : Nat)
  | mark (i now : Nat)
  deriving DecidableEq, Repr

variable {server : Server} {params : Nat → ChallengeParams} {s s' : ChallengeState}

/-- What a call that has just read the row does next. -/
def afterRead (server : Server) (params : ChallengeParams) (now : Nat)
    (record : Option SignInNonce) : Progress :=
  match server.accountsUnavailableReason with
  | some reason => .threw (.unavailable reason)
  | none =>
      match checkRecord params now record with
      | .error e => .threw e
      | .ok record => .verifying record

/-- What a call does next once its signature is verified. -/
def afterVerify (server : Server) (params : ChallengeParams) (record : SignInNonce) : Progress :=
  match server.verifyMessage (normaliseAddress params.address) record.message
      params.signature with
  | none => .threw .thrown
  | some false => .threw (.auth "That signature does not match the address." 401)
  | some true => .marking record

/-- One statement of one call. -/
def step (server : Server) (params : Nat → ChallengeParams) (s : ChallengeState) :
    ChallengeAct → Option ChallengeState
  | .read i now =>
      match s.calls i with
      | .called => some (s.setCall i (afterRead server (params i) now s.row))
      | _ => none
  | .verify i =>
      match s.calls i with
      | .verifying record => some (s.setCall i (afterVerify server (params i) record))
      | _ => none
  | .mark i now =>
      match s.calls i with
      | .marking record =>
          match s.row with
          | none => some (s.setCall i (.threw .thrown))
          | some row =>
              some { s.setCall i (.returned record.message) with
                row := some { row with usedAt := some now } }
      | _ => none

/-! ### What a statement can do -/

theorem read_some {i now : Nat} (h : step server params s (.read i now) = some s') :
    s.calls i = .called ∧ s' = s.setCall i (afterRead server (params i) now s.row) := by
  simp only [step] at h
  split at h
  next hcalled => exact ⟨hcalled, (Option.some.inj h).symm⟩
  next => cases h

theorem verify_some {i : Nat} (h : step server params s (.verify i) = some s') :
    ∃ record, s.calls i = .verifying record ∧
      s' = s.setCall i (afterVerify server (params i) record) := by
  simp only [step] at h
  split at h
  next record hrecord => exact ⟨record, hrecord, (Option.some.inj h).symm⟩
  next => cases h

theorem mark_some {i now : Nat} (h : step server params s (.mark i now) = some s') :
    ∃ record, s.calls i = .marking record ∧
      (s.row = none ∧ s' = s.setCall i (.threw .thrown) ∨
        ∃ row, s.row = some row ∧ s' = { s.setCall i (.returned record.message) with
          row := some { row with usedAt := some now } }) := by
  simp only [step] at h
  split at h
  next record hrecord =>
    split at h
    next hnone => exact ⟨record, hrecord, .inl ⟨hnone, (Option.some.inj h).symm⟩⟩
    next row hrow => exact ⟨record, hrecord, .inr ⟨row, hrow, (Option.some.inj h).symm⟩⟩
  next => cases h

theorem checkRecord_ok {p : ChallengeParams} {now : Nat} {record : Option SignInNonce}
    {r : SignInNonce} (h : checkRecord p now record = .ok r) :
    record = some r ∧ r.usedAt = none ∧ now ≤ r.expiresAt ∧
      r.address = normaliseAddress p.address ∧ r.purpose = (p.purpose.getD .signIn).text := by
  simp only [checkRecord] at h
  split at h
  · cases h
  · split_ifs at h with hused hexpired haddress hpurpose
    obtain rfl := Except.ok.inj h
    exact ⟨rfl, by simpa using hused, Nat.le_of_not_lt hexpired, not_not.mp haddress,
      not_not.mp hpurpose⟩

/-! ### At most one -/

/-- The call is on its way to a mark: it found the challenge good and its signature is. -/
def Progress.Holds (server : Server) (params : ChallengeParams) : Progress → Prop
  | .verifying record =>
      server.verifyMessage (normaliseAddress params.address) record.message
        params.signature = some true
  | .marking _ => True
  | _ => False

/-- The call has succeeded. -/
def Progress.Succeeded : Progress → Prop
  | .returned _ => True
  | _ => False

/-- No call finds the challenge good, and has it signed, while another that did is on its
way to its mark. -/
def Exclusive (server : Server) (params : Nat → ChallengeParams)
    (t : Transition ChallengeState ChallengeAct) : Prop :=
  ∀ i now, t.label = .read i now →
    (afterRead server (params i) now t.pre.row).Holds server (params i) →
    ∀ j, ¬ (t.pre.calls j).Holds server (params j)

/-- At most one call has the challenge, and one that has succeeded has marked the row. -/
structure OneHolder (server : Server) (params : Nat → ChallengeParams) (s : ChallengeState) :
    Prop where
  one : ∀ i j, (s.calls i).Holds server (params i) ∨ (s.calls i).Succeeded →
    (s.calls j).Holds server (params j) ∨ (s.calls j).Succeeded → i = j
  used : ∀ i, (s.calls i).Succeeded → ∃ row, s.row = some row ∧ row.usedAt.isSome

theorem OneHolder.start {row : Option SignInNonce} :
    OneHolder server params ⟨row, fun _ => .called⟩ :=
  ⟨fun _ _ h => by simp [Progress.Holds, Progress.Succeeded] at h,
    fun _ h => by simp [Progress.Succeeded] at h⟩

/-- A call that moves to `p` leaves at most one call with the challenge, if it had it before
or nobody has. -/
theorem OneHolder.setCall {i : Nat} {p : Progress} (hI : OneHolder server params s)
    (hp : p.Holds server (params i) →
      (s.calls i).Holds server (params i) ∨ ∀ j, ¬ ((s.calls j).Holds server (params j) ∨
        (s.calls j).Succeeded))
    (hnot : ¬ p.Succeeded) : OneHolder server params (s.setCall i p) := by
  have hsole : p.Holds server (params i) → ∀ j, j ≠ i →
      ¬ ((s.calls j).Holds server (params j) ∨ (s.calls j).Succeeded) := by
    intro hholds j hj hlive
    rcases hp hholds with hheld | hnone
    · exact hj (hI.one j i hlive (.inl hheld))
    · exact hnone j hlive
  constructor
  · intro a b ha hb
    -- the two calls are the one moved, or one of them is, or neither
    by_cases hai : a = i <;> by_cases hbi : b = i
    · rw [hai, hbi]
    · rw [hai, ChallengeState.setCall_self] at ha
      rw [ChallengeState.setCall_of_ne hbi] at hb
      exact absurd hb (hsole (ha.resolve_right hnot) b hbi)
    · rw [hbi, ChallengeState.setCall_self] at hb
      rw [ChallengeState.setCall_of_ne hai] at ha
      exact absurd ha (hsole (hb.resolve_right hnot) a hai)
    · rw [ChallengeState.setCall_of_ne hai] at ha
      rw [ChallengeState.setCall_of_ne hbi] at hb
      exact hI.one a b ha hb
  · intro a ha
    by_cases hai : a = i
    · rw [hai, ChallengeState.setCall_self] at ha
      exact absurd ha hnot
    · rw [ChallengeState.setCall_of_ne hai] at ha
      exact hI.used a ha

/-- No call succeeds by reading. -/
theorem afterRead_succeeded {p : ChallengeParams} {now : Nat} {record : Option SignInNonce} :
    ¬ (afterRead server p now record).Succeeded := by
  simp only [afterRead]
  split
  · exact id
  · split <;> exact id

/-- A call that has the challenge by reading found the row unused. -/
theorem afterRead_holds {p : ChallengeParams} {now : Nat} {record : Option SignInNonce}
    (h : (afterRead server p now record).Holds server p) :
    ∃ r, record = some r ∧ r.usedAt = none := by
  simp only [afterRead] at h
  split at h
  · exact h.elim
  · split at h
    · exact h.elim
    next r hchecked =>
      obtain ⟨hread, hunused, -⟩ := checkRecord_ok hchecked
      exact ⟨r, hread, hunused⟩

theorem OneHolder.read {i now : Nat} (hI : OneHolder server params s)
    (hexcl : (afterRead server (params i) now s.row).Holds server (params i) →
      ∀ j, ¬ (s.calls j).Holds server (params j)) :
    OneHolder server params (s.setCall i (afterRead server (params i) now s.row)) := by
  refine hI.setCall ?_ afterRead_succeeded
  intro hholds
  right
  rintro j (hheld | hsucceeded)
  · exact hexcl hholds j hheld
  · -- a call that succeeded has marked the row, and this one found it unmarked
    obtain ⟨row, hrow, hused⟩ := hI.used j hsucceeded
    obtain ⟨r, hread, hunused⟩ := afterRead_holds hholds
    rw [hrow] at hread
    obtain rfl := Option.some.inj hread
    rw [hunused] at hused
    cases hused

/-- The verification hands the challenge on to a call that had it, and to no other. -/
theorem afterVerify_holds {p : ChallengeParams} {record : SignInNonce} :
    (afterVerify server p record).Holds server p ↔
      (Progress.verifying record).Holds server p := by
  simp only [afterVerify]
  split
  next hverdict => simp [Progress.Holds, hverdict]
  next hverdict => simp [Progress.Holds, hverdict]
  next hverdict => simp [Progress.Holds, hverdict]

theorem afterVerify_succeeded {p : ChallengeParams} {record : SignInNonce} :
    ¬ (afterVerify server p record).Succeeded := by
  simp only [afterVerify]
  split <;> exact id

theorem OneHolder.mark {i now : Nat} {record row : SignInNonce} (hI : OneHolder server params s)
    (hi : s.calls i = .marking record) :
    OneHolder server params { s.setCall i (.returned record.message) with
      row := some { row with usedAt := some now } } := by
  have hheld : (s.calls i).Holds server (params i) := by
    rw [hi]
    trivial
  have hsole : ∀ j, ((s.setCall i (.returned record.message)).calls j).Holds server (params j) ∨
      ((s.setCall i (.returned record.message)).calls j).Succeeded → j = i := by
    intro j hlive
    by_cases hj : j = i
    · exact hj
    · rw [ChallengeState.setCall_of_ne hj] at hlive
      exact hI.one j i hlive (.inl hheld)
  constructor
  · intro a b ha hb
    exact (hsole a ha).trans (hsole b hb).symm
  · intro a ha
    exact ⟨_, rfl, rfl⟩

theorem OneHolder.next {act : ChallengeAct} (hI : OneHolder server params s)
    (hexcl : Exclusive server params ⟨s, act, s'⟩) (h : step server params s act = some s') :
    OneHolder server params s' := by
  cases act with
  | read i now =>
      obtain ⟨-, rfl⟩ := read_some h
      exact hI.read (hexcl i now rfl)
  | verify i =>
      obtain ⟨record, hrecord, rfl⟩ := verify_some h
      refine hI.setCall ?_ afterVerify_succeeded
      intro hholds
      exact .inl (hrecord ▸ afterVerify_holds.mp hholds)
  | mark i now =>
      obtain ⟨record, hrecord, ⟨-, rfl⟩ | ⟨row, hrow, rfl⟩⟩ := mark_some h
      · exact hI.setCall False.elim id
      · exact hI.mark hrecord

/-- **A challenge is spent once while its calls exclude each other.** Of any number of
calls, in any order of their statements, at most one succeeds. -/
theorem challenge_spent_once_of_exclusive {row : Option SignInNonce}
    {tr : List (Transition ChallengeState ChallengeAct)}
    (hrun : Run (step server params) ⟨row, fun _ => .called⟩ tr s)
    (hexcl : ∀ t ∈ tr, Exclusive server params t) {i j : Nat} (hi : (s.calls i).Succeeded)
    (hj : (s.calls j).Succeeded) : i = j := by
  have hone := (hrun.invariant_of (I := OneHolder server params) hexcl OneHolder.start
    fun s act s' hexcl hI h => hI.next hexcl h).1
  exact hone.one i j (.inr hi) (.inr hj)

/-- A verifier that takes one signature. -/
def oneWallet : Server :=
  ⟨some "postgres://lemon", fun _ _ signature => some (signature == "0x51")⟩

/-- Every call presents that signature, the wallet spelt as its owner's checksum has it. -/
def signedIn (_ : Nat) : ChallengeParams :=
  { address := "0x00000000000000000000000000000000000000Aa", signature := "0x51" }

/-- The challenge as it was issued, good for ten minutes. -/
def issued : SignInNonce where
  address := "0x00000000000000000000000000000000000000aa"
  purpose := "sign-in"
  message := "lemon.market wants you to sign in with your Ethereum account:"
  expiresAt := 600000

/-- One call, and then another that finds the challenge used. -/
def oneAfterAnother : List ChallengeAct :=
  [.read 0 1000, .verify 0, .mark 0 1010, .read 1 1020]

theorem oneAfterAnother_isSome : (trace (step oneWallet signedIn)
    ⟨some issued, fun _ => .called⟩ oneAfterAnother).isSome := by rfl

/-- The second of them does not succeed. -/
theorem challenge_spent_once_of_exclusive_oneAfterAnother :
    ¬ ((Option.get _ oneAfterAnother_isSome).2.calls 1).Succeeded := by
  intro hsecond
  have hrun := trace_run (Option.some_get oneAfterAnother_isSome).symm
  have hexcl : ∀ t ∈ (Option.get _ oneAfterAnother_isSome).1, Exclusive oneWallet signedIn t := by
    refine List.forall_mem_cons.mpr ⟨?_, List.forall_mem_cons.mpr ⟨?_, List.forall_mem_cons.mpr
      ⟨?_, List.forall_mem_singleton.mpr ?_⟩⟩⟩
    · rintro i now - - j hj
      exact hj
    · rintro i now ⟨⟩
    · rintro i now ⟨⟩
    · rintro i now hlabel hread
      obtain ⟨rfl, rfl⟩ : 1 = i ∧ 1020 = now := by
        exact ChallengeAct.read.inj hlabel
      exact hread.elim
  exact absurd (challenge_spent_once_of_exclusive hrun hexcl (i := 0) (j := 1) trivial hsecond)
    (by decide)

/-- Both read before either marks. -/
def bothRead : List ChallengeAct :=
  [.read 0 1000, .read 1 1001, .verify 0, .verify 1, .mark 0 1010, .mark 1 1011]

theorem bothRead_isSome : (trace (step oneWallet signedIn)
    ⟨some issued, fun _ => .called⟩ bothRead).isSome := by rfl

/-- Two calls of one signature succeed. -/
theorem challenge_spent_twice :
    ¬ ∀ (server : Server) (params : Nat → ChallengeParams) (row : Option SignInNonce)
        (tr : List (Transition ChallengeState ChallengeAct)) (s : ChallengeState) (i j : Nat),
      Run (step server params) ⟨row, fun _ => .called⟩ tr s → (s.calls i).Succeeded →
      (s.calls j).Succeeded → i = j := by
  intro h
  have hrun := trace_run (Option.some_get bothRead_isSome).symm
  exact absurd (h _ _ _ _ _ 0 1 hrun trivial trivial) (by decide)

/-! ### And no longer -/

/-- A call that has the challenge can go on to succeed, whatever the others have done. -/
theorem finishes {i : Nat} (hi : (s.calls i).Holds server (params i)) (hrow : s.row.isSome) :
    ∃ tr s', Run (step server params) s tr s' ∧ (s'.calls i).Succeeded ∧ s'.row.isSome ∧
      ∀ j, j ≠ i → s'.calls j = s.calls j := by
  obtain ⟨row, hrow⟩ := Option.isSome_iff_exists.mp hrow
  -- marking succeeds wherever the row is
  have hmark : ∀ s₁ : ChallengeState, s₁.row = some row → ∀ record,
      s₁.calls i = .marking record → step server params s₁ (.mark i 0) =
        some { s₁.setCall i (.returned record.message) with
          row := some { row with usedAt := some 0 } } := by
    intro s₁ hrow₁ record hrecord
    simp only [step, hrecord, hrow₁]
  cases hprogress : s.calls i with
  -- one that verifies has its proof to be checked first
  | verifying record =>
      rw [hprogress] at hi
      have hverified : afterVerify server (params i) record = .marking record := by
        simp only [afterVerify, show _ = some true from hi]
      have hverify : step server params s (.verify i) = some (s.setCall i (.marking record)) := by
        simp only [step, hprogress, hverified]
      have hmarked := hmark (s.setCall i (.marking record)) hrow record
        (ChallengeState.setCall_self s i _)
      refine ⟨_, _, .snoc (.snoc .nil hverify) hmarked, ?_, rfl, ?_⟩
      · simp [Progress.Succeeded]
      · intro j hj
        simp [ChallengeState.setCall_of_ne hj]
  | marking record =>
      refine ⟨_, _, .snoc .nil (hmark s hrow record hprogress), ?_, rfl, ?_⟩
      · simp [Progress.Succeeded]
      · intro j hj
        simp [ChallengeState.setCall_of_ne hj]
  | called | returned | threw => rw [hprogress] at hi; exact hi.elim

/-- **One read too many is enough.** Where a call finds the challenge good while another has
it, both can go on to succeed. -/
theorem succeeds_twice_of_not_exclusive {act : ChallengeAct}
    (h : step server params s act = some s') (hexcl : ¬ Exclusive server params ⟨s, act, s'⟩) :
    ∃ i j tr s'', i ≠ j ∧ Run (step server params) s' tr s'' ∧ (s''.calls i).Succeeded ∧
      (s''.calls j).Succeeded := by
  simp only [Exclusive, not_forall, not_not] at hexcl
  obtain ⟨i, now, rfl, hread, j, hj⟩ := hexcl
  obtain ⟨hcalled, rfl⟩ := read_some h
  have hne : j ≠ i := by
    rintro rfl
    rw [hcalled] at hj
    exact hj
  obtain ⟨r, hrow, -⟩ := afterRead_holds hread
  have hi : ((s.setCall i (afterRead server (params i) now s.row)).calls i).Holds server
      (params i) := by
    rw [ChallengeState.setCall_self]
    exact hread
  -- the reader goes first; the other still has the challenge it read
  obtain ⟨tr₁, s₁, hrun₁, hi₁, hrow₁, hothers₁⟩ := finishes hi (by simp [show s.row = _ from hrow])
  have hj₁ : (s₁.calls j).Holds server (params j) := by
    rw [hothers₁ j hne, ChallengeState.setCall_of_ne hne]
    exact hj
  obtain ⟨tr₂, s₂, hrun₂, hj₂, -, hothers₂⟩ := finishes hj₁ hrow₁
  refine ⟨i, j, tr₁ ++ tr₂, s₂, hne.symm, hrun₁.append hrun₂, ?_, hj₂⟩
  rw [hothers₂ i hne.symm]
  exact hi₁

end LemonMarket.Api
