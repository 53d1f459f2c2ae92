import LemonMarket.Api.Challenge
import LemonMarket.Api.VaultMarkets
import LemonMarket.Lib.Hex
import LemonMarket.Lib.Since
import LemonMarket.Lib.Table
import Mathlib.Data.List.TakeWhile

/-!
# LemonMarket.Api.Session

**Sign-in, from the challenge to the dashboard** (`services/auth.ts`, `routes/auth.ts` and the
gate of `routes/admin.ts`). The state is the tables for nonces, users, sessions and admins, the
clock, and the sign-ins under way; each statement of a sign-in is atomic, and those of any
number of them, the challenges, the sign-outs and the edits of the admin table fall in any
order between. Time passes between steps, and does not go back.

A session is a row under the hash of its token. `Sound` is what a history says about the rows
it left: each nonce was issued, each sign-in that got past its challenge presented a signature
of that challenge's own message, and each session was created by such a sign-in and has not
been signed out of since.
-/

namespace LemonMarket.Api

namespace Session

open Lib

def sessionTtlMs : Nat := 30 * 24 * 60 * 60000
def nonceTtlMs : Nat := 10 * 60000

/-- What the server is deployed with, and the hexadecimal SHA-256 it stores of a token. -/
structure Env extends Server where
  hashToken : String → String

/-! ### The message -/

/-- A number in at least so many digits. -/
def padded (width n : Nat) : Text :=
  List.replicate (width - (Nat.toDigits 10 n).length) '0' ++ Nat.toDigits 10 n

/-- Year, month and day of the month, of a day counted from the first of 1970. -/
def civil (day : Nat) : Nat × Nat × Nat :=
  -- years are counted from March, in eras of 400
  let z := day + 719468
  let doe := z % 146097
  let yoe := (doe - doe / 1460 + doe / 36524 - doe / 146096) / 365
  let doy := doe - (365 * yoe + yoe / 4 - yoe / 100)
  let mp := (5 * doy + 2) / 153
  let month := if mp < 10 then mp + 3 else mp - 9
  (yoe + z / 146097 * 400 + (if month ≤ 2 then 1 else 0), month, doy - (153 * mp + 2) / 5 + 1)

/-- A date and the time of that day as `toISOString` has them. -/
def isoText (date : Nat × Nat × Nat) (ms : Nat) : Text :=
  (if date.1 ≤ 9999 then padded 4 date.1 else '+' :: padded 6 date.1) ++
    '-' :: padded 2 date.2.1 ++ '-' :: padded 2 date.2.2 ++
    'T' :: padded 2 (ms / 3600000 % 24) ++ ':' :: padded 2 (ms / 60000 % 60) ++
    ':' :: padded 2 (ms / 1000 % 60) ++ '.' :: padded 3 (ms % 1000) ++ ['Z']

/-- `toISOString` of a time in milliseconds. -/
def toISOString (ms : Nat) : String := String.ofList (isoText (civil (ms / 86400000)) ms)

/-- What signing comes to. -/
def statement : String :=
  "Signing proves you control this wallet. It grants no permission to move funds, and no " ++
    "permission to trade on your behalf."

/-- The text a wallet is asked to sign. -/
def challengeMessage (domain address nonce : String) (issuedAt : Nat) : String :=
  String.intercalate "\n" [
    domain ++ " wants you to sign in with your Ethereum account:",
    address,
    "",
    statement,
    "",
    "Nonce: " ++ nonce,
    "Issued at: " ++ toISOString issuedAt]

/-- The random bytes of a nonce, as it is stored and sent. -/
def nonceText (bytes : List UInt8) : String := String.ofList (Hex.ofBytes bytes)

/-- The row of a challenge issued now. -/
def challengeRow (address domain nonce : String) (now : Nat) : SignInNonce where
  address := normaliseAddress address
  purpose := ChallengePurpose.signIn.text
  message := challengeMessage domain (normaliseAddress address) nonce now
  expiresAt := now + nonceTtlMs

/-! ### Rows -/

structure User where
  id : String
  address : String
  isAdmin : Bool
  deriving DecidableEq, Repr

structure SessionRow where
  userId : String
  expiresAt : Nat
  deriving DecidableEq, Repr

structure AdminUser where
  canCreateVaults : Bool
  deriving DecidableEq, Repr

structure AccountSummary where
  address : String
  isAdmin : Bool
  deriving DecidableEq, Repr

def toAccountSummary (user : User) : AccountSummary := ⟨user.address, user.isAdmin⟩

/-- The body of a sign-in. -/
structure SignInBody where
  address : String
  nonce : String
  signature : String
  deriving DecidableEq, Repr

def isHexDigit (c : Char) : Bool := (Hex.digitValue c).isSome

/-- `0x` and as many hexadecimal digits as `count` allows. -/
def isHexText (count : Nat → Bool) (text : String) : Bool :=
  match text.toList with
  | '0' :: 'x' :: digits => count digits.length && digits.all isHexDigit
  | _ => false

/-- What `length` counts. -/
def codeUnits (text : String) : Nat :=
  (text.toList.map fun c => if c.toNat < 65536 then 1 else 2).sum

def addressSchema (text : String) : Bool := isHexText (· == 40) text
def signatureSchema (text : String) : Bool := isHexText (1 ≤ ·) text

/-- The schema of the route. -/
def SignInBody.accepted (body : SignInBody) : Bool :=
  addressSchema body.address && decide (8 ≤ codeUnits body.nonce) && signatureSchema body.signature

def SignInBody.params (body : SignInBody) : ChallengeParams :=
  { address := body.address, signature := body.signature }

/-- Where a sign-in stands: in `consumeChallenge`, before the upsert of its user, before the
insert of its session, and at its end. -/
inductive SignInProgress
  | consuming (p : Progress)
  | upserting (isAdmin : Bool)
  | creating (user : User)
  | signedIn (account : AccountSummary) (token : String) (expiresAt : Nat)
  | failed (error : ChallengeError)
  deriving DecidableEq, Repr

structure SignInCall where
  body : SignInBody
  progress : SignInProgress
  deriving DecidableEq, Repr

structure State where
  now : Nat
  nonces : Table String SignInNonce
  users : Table String User
  sessions : Table String SessionRow
  admins : Table String AdminUser
  calls : Nat → Option SignInCall

inductive Label
  | wait (now : Nat)
  | challenge (address domain : String) (bytes : List UInt8)
  | signIn (i : Nat) (body : SignInBody)
  | read (i : Nat)
  | verify (i : Nat)
  | mark (i : Nat)
  | lookup (i : Nat)
  | upsert (i : Nat) (id : String)
  | create (i : Nat) (token : String)
  | signOut (token : Option String)
  | setAdmin (address : String) (row : Option AdminUser)
  deriving DecidableEq, Repr

def State.setCall (s : State) (i : Nat) (body : SignInBody) (p : SignInProgress) : State :=
  { s with calls := Function.update s.calls i (some ⟨body, p⟩) }

/-! ### What the server does -/

variable (env : Env)

/-- `issueChallenge`. A nonce that is there already is refused by the table. -/
def issueChallenge (s : State) (address domain : String) (bytes : List UInt8) :
    Except ChallengeError State :=
  match env.accountsUnavailableReason with
  | some reason => .error (.unavailable reason)
  | none =>
      let nonce := nonceText bytes
      match s.nonces.lookup nonce with
      | some _ => .error .thrown
      | none =>
          .ok { s with nonces := s.nonces.insert nonce (challengeRow address domain nonce s.now) }

def userById (users : Table String User) (id : String) : Option User :=
  (users.rows.map Prod.snd).find? fun user => user.id == id

/-- The `upsert` of a user, whose id is made up where there is none: one that is taken is
refused by the table. -/
def upsertUser (users : Table String User) (address : String) (isAdmin : Bool) (id : String) :
    Option (User × Table String User) :=
  match users.lookup address with
  | some user =>
      let user := { user with isAdmin := isAdmin }
      some (user, users.insert address user)
  | none =>
      match userById users id with
      | some _ => none
      | none =>
          let user : User := ⟨id, address, isAdmin⟩
          some (user, users.insert address user)

structure SessionUser where
  user : User
  expiresAt : Nat
  deriving DecidableEq, Repr

/-- `readSession`, of a cookie. -/
def readSession (s : State) (token : Option String) : Option SessionUser :=
  match token with
  | none => none
  | some token =>
      if token = "" ∨ env.accountsUnavailableReason.isSome then none
      else
        match s.sessions.lookup (env.hashToken token) with
        | none => none
        | some record =>
            if record.expiresAt < s.now then none
            else (userById s.users record.userId).map fun user => ⟨user, record.expiresAt⟩

/-- `destroySession`, of a cookie. -/
def destroySession (s : State) (token : Option String) : State :=
  match token with
  | none => s
  | some token =>
      if token = "" ∨ env.accountsUnavailableReason.isSome then s
      else { s with sessions := s.sessions.erase (env.hashToken token) }

/-- One step: time, a request, one statement of a sign-in, or an edit of the admin table. -/
def next (s : State) : Label → Option State
  | .wait now => if s.now ≤ now then some { s with now := now } else none
  | .challenge address domain bytes =>
      if addressSchema address ∧ bytes.length = 16 then
        some ((issueChallenge env s address domain bytes).toOption.getD s)
      else none
  | .signIn i body =>
      match s.calls i with
      | some _ => none
      | none => if body.accepted then some (s.setCall i body (.consuming .called)) else none
  | .read i =>
      match s.calls i with
      | some ⟨body, .consuming .called⟩ =>
          some (s.setCall i body (.consuming
            (afterRead env.toServer body.params s.now (s.nonces.lookup body.nonce))))
      | _ => none
  | .verify i =>
      match s.calls i with
      | some ⟨body, .consuming (.verifying record)⟩ =>
          some (s.setCall i body (.consuming (afterVerify env.toServer body.params record)))
      | _ => none
  | .mark i =>
      match s.calls i with
      | some ⟨body, .consuming (.marking record)⟩ =>
          match s.nonces.update body.nonce fun row => { row with usedAt := some s.now } with
          | none => some (s.setCall i body (.consuming (.threw .thrown)))
          | some nonces =>
              some { s.setCall i body (.consuming (.returned record.message)) with
                nonces := nonces }
      | _ => none
  | .lookup i =>
      match s.calls i with
      | some ⟨body, .consuming (.returned _)⟩ =>
          match env.accountsUnavailableReason with
          | some reason => some (s.setCall i body (.failed (.unavailable reason)))
          | none =>
              let admin := s.admins.lookup (normaliseAddress body.address)
              some (s.setCall i body (.upserting admin.isSome))
      | _ => none
  | .upsert i id =>
      match s.calls i with
      | some ⟨body, .upserting isAdmin⟩ =>
          match upsertUser s.users (normaliseAddress body.address) isAdmin id with
          | none => some (s.setCall i body (.failed .thrown))
          | some (user, users) => some { s.setCall i body (.creating user) with users := users }
      | _ => none
  | .create i token =>
      match s.calls i with
      | some ⟨body, .creating user⟩ =>
          match s.sessions.lookup (env.hashToken token) with
          | some _ => some (s.setCall i body (.failed .thrown))
          | none =>
              let expiresAt := s.now + sessionTtlMs
              some { s.setCall i body (.signedIn (toAccountSummary user) token expiresAt) with
                sessions := s.sessions.insert (env.hashToken token) ⟨user.id, expiresAt⟩ }
      | _ => none
  | .signOut token => some (destroySession env s token)
  | .setAdmin address row =>
      match row with
      | some row => some { s with admins := s.admins.insert address row }
      | none => some { s with admins := s.admins.erase address }

/-- An empty database, at some time. -/
def start (now : Nat) : State := ⟨now, ∅, ∅, ∅, ∅, fun _ => none⟩

/-! ### The gate of the dashboard -/

/-- `toLowerCase`, of an address. -/
def toLowerCase (address : String) : String := String.ofList (address.toList.map Char.toLower)

def isAdmin (s : State) (address : String) : Bool :=
  (s.admins.lookup (toLowerCase address)).isSome

def assertAdmin (s : State) (address : Option String) : Except VaultMarkets.AdminError Unit :=
  match address with
  | none => .error ⟨"Sign in to reach the admin dashboard.", 401⟩
  | some address =>
      if address = "" then .error ⟨"Sign in to reach the admin dashboard.", 401⟩
      else if isAdmin s address then .ok ()
      else .error ⟨"Not found", 404⟩

/-- `assertCanCreateVaults`, which reads the admin table twice. -/
def assertCanCreateVaults (s s' : State) (address : Option String) :
    Except VaultMarkets.AdminError Unit := do
  assertAdmin s address
  match s'.admins.lookup (toLowerCase (address.getD "")) with
  | some ⟨true⟩ => .ok ()
  | _ => .error ⟨"This admin account cannot create vaults.", 403⟩

/-- The address a request to the dashboard is for. -/
def adminOf (s : State) (cookie : Option String) : Option String :=
  (readSession env s cookie).map fun session => session.user.address

/-! ### One message for each nonce -/

theorem newline_notMem_ofBytes (bytes : List UInt8) : '\n' ∉ Hex.ofBytes bytes := by
  induction bytes with
  | nil => simp [Hex.ofBytes]
  | cons byte rest ih =>
      have hdigit : ∀ d < 16, Nat.digitChar d ≠ '\n' := by decide
      have hbyte : byte.toNat < 256 := byte.toNat_lt
      show '\n' ∉ Hex.ofByte byte ++ Hex.ofBytes rest
      have hhigh := hdigit (byte.toNat / 16) (by omega)
      have hlow := hdigit (byte.toNat % 16) (by omega)
      simp [Hex.ofByte, ih, hhigh.symm, hlow.symm]

theorem newline_notMem_padded (width n : Nat) : '\n' ∉ padded width n := by
  intro h
  rcases List.mem_append.mp h with h | h
  · exact absurd (List.eq_of_mem_replicate h) (by decide)
  · exact absurd (Nat.isDigit_of_mem_toDigits (by decide) (by decide) h) (by decide)

theorem newline_notMem_isoText (date : Nat × Nat × Nat) (ms : Nat) :
    '\n' ∉ isoText date ms := by
  rw [isoText]
  split <;> simp [newline_notMem_padded]

/-- The last line of a text and what is before it can be told apart. -/
theorem lastLine_inj {before before' line line' : List Char} (hline : '\n' ∉ line)
    (hline' : '\n' ∉ line') (h : before ++ '\n' :: line = before' ++ '\n' :: line') :
    before = before' ∧ line = line' := by
  rcases List.append_eq_append_iff.mp h with ⟨mid, hbefore, hmid⟩ | ⟨mid, hbefore, hmid⟩
  · cases mid with
    | nil => exact ⟨by simpa using hbefore.symm, (List.cons.inj hmid).2⟩
    | cons c mid => exact absurd ((List.cons.inj hmid).2 ▸ by simp) hline
  · cases mid with
    | nil => exact ⟨by simpa using hbefore, (List.cons.inj hmid).2.symm⟩
    | cons c mid => exact absurd ((List.cons.inj hmid).2 ▸ by simp) hline'

/-- What a message begins with, before the line of its nonce. -/
def preamble (domain address : String) : List Char :=
  ['\n'].intercalate [
    domain.toList ++ " wants you to sign in with your Ethereum account:".toList,
    address.toList,
    [],
    statement.toList,
    []]

theorem toList_challengeMessage (domain address nonce : String) (issuedAt : Nat) :
    (challengeMessage domain address nonce issuedAt).toList =
      preamble domain address ++ '\n' :: ("Nonce: ".toList ++ nonce.toList) ++
        '\n' :: ("Issued at: ".toList ++ (toISOString issuedAt).toList) := by
  have hnewline : "\n".toList = ['\n'] := rfl
  have hempty : "".toList = [] := rfl
  simp only [challengeMessage, preamble, String.toList_intercalate, List.map_cons, List.map_nil,
    String.toList_append, List.intercalate, List.intersperse, List.flatten_cons, List.flatten_nil,
    hnewline, hempty, List.append_assoc, List.cons_append, List.nil_append, List.append_nil]

/-- **A message is for one nonce**, whoever it was issued to and when. -/
theorem challengeMessage_nonce {domain domain' address address' : String}
    {bytes bytes' : List UInt8}
    {issuedAt issuedAt' : Nat}
    (h : challengeMessage domain address (nonceText bytes) issuedAt =
      challengeMessage domain' address' (nonceText bytes') issuedAt') : bytes = bytes' := by
  have hissued : ∀ ms, '\n' ∉ "Issued at: ".toList ++ (toISOString ms).toList := by
    intro ms
    simp [toISOString, newline_notMem_isoText]
  have hnonce : ∀ bytes, '\n' ∉ "Nonce: ".toList ++ (nonceText bytes).toList := by
    intro bytes
    simp [nonceText, newline_notMem_ofBytes]
  have htext := congrArg String.toList h
  rw [toList_challengeMessage, toList_challengeMessage] at htext
  have hbefore := (lastLine_inj (hissued _) (hissued _) htext).1
  have hline := (lastLine_inj (hnonce _) (hnonce _) hbefore).2
  have hhex := List.append_cancel_left hline
  rw [nonceText, nonceText, String.toList_ofList, String.toList_ofList] at hhex
  rw [← Hex.bytesOf_ofBytes bytes, hhex, Hex.bytesOf_ofBytes]

variable {env : Env} {s s' : State} {t : Transition State Label}
  {tr tr' : List (Transition State Label)} {body : SignInBody} {record : SignInNonce}

/-! ### Users -/

/-- The address has a user, with this id. -/
def HasUser (users : Table String User) (address id : String) : Prop :=
  ∃ user, users.lookup address = some user ∧ user.id = id

/-- Every user is under their own address, and no two have one id. -/
structure UsersSound (users : Table String User) : Prop where
  address : ∀ a user, users.lookup a = some user → user.address = a
  ids : ∀ a b id, HasUser users a id → HasUser users b id → a = b

theorem userById_some {users : Table String User} {id : String} {user : User}
    (h : userById users id = some user) : user.id = id ∧ ∃ a, users.lookup a = some user := by
  obtain ⟨row, hrow, rfl⟩ := List.mem_map.mp (List.mem_of_find?_eq_some h)
  exact ⟨by simpa using List.find?_some h, row.1, Table.mem_rows.mp hrow⟩

/-- The user an id finds is the one who has it. -/
theorem UsersSound.userById {users : Table String User} (h : UsersSound users)
    {address id : String} (hhas : HasUser users address id) :
    ∃ user, userById users id = some user ∧ user.address = address := by
  obtain ⟨user, hlookup, hid⟩ := hhas
  have hmem : user ∈ users.rows.map Prod.snd :=
    List.mem_map.mpr ⟨(address, user), Table.mem_rows.mpr hlookup, rfl⟩
  have hfound : (Session.userById users id).isSome :=
    List.find?_isSome.mpr ⟨user, hmem, by simpa using hid⟩
  obtain ⟨found, hfound⟩ := Option.isSome_iff_exists.mp hfound
  obtain ⟨hid', a, ha⟩ := userById_some hfound
  have hsame := h.ids a address id ⟨found, ha, hid'⟩ ⟨user, hlookup, hid⟩
  exact ⟨found, hfound, (h.address a found ha).trans hsame⟩

/-- A user put in under an address whose id, if there is one, it keeps. -/
theorem UsersSound.insert {users : Table String User} (h : UsersSound users) (user : User)
    (hfree : ∀ a, HasUser users a user.id → a = user.address)
    (hkept : ∀ id, HasUser users user.address id → id = user.id) :
    UsersSound (users.insert user.address user) ∧
      HasUser (users.insert user.address user) user.address user.id ∧
      ∀ a id, HasUser users a id → HasUser (users.insert user.address user) a id := by
  have hself : (users.insert user.address user).lookup user.address = some user :=
    AList.lookup_insert users
  -- every user of the new table is the one put in or one of before
  have hold : ∀ a id, HasUser (users.insert user.address user) a id →
      a = user.address ∧ id = user.id ∨ a ≠ user.address ∧ HasUser users a id := by
    rintro a id ⟨u, hu, rfl⟩
    by_cases ha : a = user.address
    · rw [ha, hself] at hu
      obtain rfl := Option.some.inj hu
      exact .inl ⟨ha, rfl⟩
    · rw [AList.lookup_insert_ne ha] at hu
      exact .inr ⟨ha, u, hu, rfl⟩
  refine ⟨⟨?_, ?_⟩, ⟨user, hself, rfl⟩, ?_⟩
  · intro a u hu
    by_cases ha : a = user.address
    · rw [ha, hself] at hu
      rw [ha, ← Option.some.inj hu]
    · rw [AList.lookup_insert_ne ha] at hu
      exact h.address a u hu
  · intro a b id ha hb
    rcases hold a id ha with ⟨rfl, rfl⟩ | ⟨hne, ha⟩ <;>
      rcases hold b _ hb with ⟨rfl, hid⟩ | ⟨hne', hb⟩
    · rfl
    · exact (hfree b hb).symm
    · exact hfree a (hid ▸ ha)
    · exact h.ids a b id ha hb
  · rintro a id ⟨u, hu, rfl⟩
    by_cases ha : a = user.address
    · exact ⟨user, ha ▸ hself, (hkept u.id ⟨u, ha ▸ hu, rfl⟩).symm⟩
    · exact ⟨u, (AList.lookup_insert_ne ha).trans hu, rfl⟩

theorem upsertUser_sound {users users' : Table String User} {address id : String} {isAdmin : Bool}
    {user : User} (h : UsersSound users)
    (hupsert : upsertUser users address isAdmin id = some (user, users')) :
    UsersSound users' ∧ HasUser users' address user.id ∧
      ∀ a id, HasUser users a id → HasUser users' a id := by
  rw [upsertUser] at hupsert
  split at hupsert
  next old hold =>
    obtain ⟨rfl, rfl⟩ := Prod.mk.inj (Option.some.inj hupsert)
    -- the address has a user, who keeps the id
    have haddress := h.address address old hold
    subst haddress
    refine h.insert ({ old with isAdmin := isAdmin } : User) ?_ ?_
    · intro a ha
      exact h.ids a _ _ ha ⟨old, hold, rfl⟩
    · rintro id ⟨u, hu, rfl⟩
      rw [hold] at hu
      rw [← Option.some.inj hu]
  next hnone =>
    -- it has none: the id has to be new
    split at hupsert
    next => cases hupsert
    next hfresh =>
      obtain ⟨rfl, rfl⟩ := Prod.mk.inj (Option.some.inj hupsert)
      refine h.insert ⟨id, address, isAdmin⟩ ?_ ?_
      · intro a ha
        obtain ⟨found, hfound, -⟩ := h.userById ha
        rw [hfresh] at hfound
        cases hfound
      · rintro id ⟨u, hu, rfl⟩
        rw [hnone] at hu
        cases hu

/-! ### What a history says -/

/-- The request for a challenge that is kept under the nonce as this row. -/
def Issues (t : Transition State Label) (nonce : String) (record : SignInNonce) : Prop :=
  ∃ address domain bytes, t.label = .challenge address domain bytes ∧ nonce = nonceText bytes ∧
    record = challengeRow address domain nonce t.pre.now

/-- A sign-in with this body reads the row of its nonce. -/
def Reads (t : Transition State Label) (body : SignInBody) : Prop :=
  ∃ i p, t.label = .read i ∧ t.pre.calls i = some ⟨body, p⟩

/-- By some time the challenge had been issued to the address of the body, and read before it
was out of date. -/
def Found (tr : List (Transition State Label)) (body : SignInBody) (record : SignInNonce)
    (by_ : Nat) : Prop :=
  body.accepted = true ∧ record.address = normaliseAddress body.address ∧
    ∃ issue ∈ tr, ∃ read ∈ tr, Issues issue body.nonce record ∧ Reads read body ∧
      issue.pre.now ≤ read.pre.now ∧ read.pre.now ≤ issue.pre.now + nonceTtlMs ∧
      read.pre.now ≤ by_

/-- And the signature of the body is one of its message, by that address. -/
def Signed (env : Env) (tr : List (Transition State Label)) (body : SignInBody)
    (record : SignInNonce) (by_ : Nat) : Prop :=
  Found tr body record by_ ∧
    env.verifyMessage record.address record.message body.signature = some true

/-- A sign-in with this body creates the row, under the hash of a token that has none. -/
def Creates (env : Env) (t : Transition State Label) (hash : String) (body : SignInBody)
    (row : SessionRow) : Prop :=
  ∃ i token user, t.label = .create i token ∧ env.hashToken token = hash ∧
    t.pre.calls i = some ⟨body, .creating user⟩ ∧ t.pre.sessions.lookup hash = none ∧
    row = ⟨user.id, t.pre.now + sessionTtlMs⟩

/-- The cookie of a token with this hash signs out. -/
def SignsOut (env : Env) (t : Transition State Label) (hash : String) : Prop :=
  ∃ token, t.label = .signOut (some token) ∧ token ≠ "" ∧
    env.accountsUnavailableReason = none ∧ env.hashToken token = hash

/-- What has been established of a sign-in by where it stands. -/
def Stage (env : Env) (tr : List (Transition State Label)) (s : State) (body : SignInBody) :
    SignInProgress → Prop
  | .consuming .called => body.accepted = true
  | .consuming (.verifying record) => Found tr body record s.now
  | .consuming (.marking record) => Signed env tr body record s.now
  | .consuming (.returned _) => ∃ record, Signed env tr body record s.now
  | .upserting _ => ∃ record, Signed env tr body record s.now
  | .creating user =>
      (∃ record, Signed env tr body record s.now) ∧
        HasUser s.users (normaliseAddress body.address) user.id
  | _ => True

/-- A session was created by a sign-in, and has not been signed out of since. -/
def Opened (env : Env) (tr : List (Transition State Label)) (users : Table String User)
    (hash : String) (row : SessionRow) : Prop :=
  ∃ body record at_, Signed env tr body record at_ ∧
    HasUser users (normaliseAddress body.address) row.userId ∧
    Since (fun t => Creates env t hash body row ∧ t.pre.now = at_) (SignsOut env · hash) tr

structure Sound (env : Env) (tr : List (Transition State Label)) (s : State) : Prop where
  past : ∀ t ∈ tr, t.pre.now ≤ s.now
  nonces : ∀ nonce row, s.nonces.lookup nonce = some row →
    ∃ t ∈ tr, Issues t nonce { row with usedAt := none }
  users : UsersSound s.users
  calls : ∀ i call, s.calls i = some call → Stage env tr s call.body call.progress
  sessions : ∀ hash row, s.sessions.lookup hash = some row → Opened env tr s.users hash row

theorem Found.mono {by_ by' : Nat} (h : Found tr body record by_) (htr : ∀ t ∈ tr, t ∈ tr')
    (hby : by_ ≤ by') : Found tr' body record by' := by
  obtain ⟨haccepted, haddress, issue, hissue, read, hread, hissues, hreads, hle, htimely,
    hpast⟩ := h
  exact ⟨haccepted, haddress, issue, htr _ hissue, read, htr _ hread, hissues, hreads, hle, htimely,
    hpast.trans hby⟩

theorem Signed.mono {by_ by' : Nat} (h : Signed env tr body record by_)
    (htr : ∀ t ∈ tr, t ∈ tr') (hby : by_ ≤ by') : Signed env tr' body record by' :=
  ⟨h.1.mono htr hby, h.2⟩

/-- A later state with every user there was keeps what was established of a sign-in. -/
theorem Stage.mono {p : SignInProgress} (h : Stage env tr s body p) (htr : ∀ t ∈ tr, t ∈ tr')
    (hnow : s.now ≤ s'.now) (husers : ∀ a id, HasUser s.users a id → HasUser s'.users a id) :
    Stage env tr' s' body p := by
  cases p with
  | consuming p =>
      cases p with
      | verifying record => exact Found.mono h htr hnow
      | marking record => exact Signed.mono h htr hnow
      | returned message => exact h.imp fun record hsigned => hsigned.mono htr hnow
      | called => exact h
      | threw => trivial
  | upserting isAdmin => exact h.imp fun record hsigned => hsigned.mono htr hnow
  | creating user =>
      exact ⟨h.1.imp fun record hsigned => hsigned.mono htr hnow, husers _ _ h.2⟩
  | signedIn | failed => trivial

theorem Opened.snoc {users users' : Table String User} {hash : String} {row : SessionRow}
    (h : Opened env tr users hash row) (hout : ¬ SignsOut env t hash)
    (husers : ∀ a id, HasUser users a id → HasUser users' a id) :
    Opened env (tr ++ [t]) users' hash row := by
  obtain ⟨body, record, at_, hsigned, huser, hsince⟩ := h
  exact ⟨body, record, at_, hsigned.mono (fun _ => List.mem_append_left _) le_rfl,
    husers _ _ huser, hsince.snoc hout⟩

theorem Sound.start (now : Nat) : Sound env [] (start now) where
  past := by simp
  nonces := by simp [Session.start]
  users := ⟨by simp [Session.start], by simp [HasUser, Session.start]⟩
  calls := by simp [Session.start]
  sessions := by simp [Session.start]

/-! ### One step -/

/-- What a step has to say for itself: of the rows and the sign-ins it leaves, which are not
the ones it found. -/
theorem Sound.snoc (h : Sound env tr t.pre) (hnow : t.pre.now ≤ t.post.now)
    (hnonces : ∀ nonce row, t.post.nonces.lookup nonce = some row →
      Issues t nonce { row with usedAt := none } ∨
        ∃ old, t.pre.nonces.lookup nonce = some old ∧
          { old with usedAt := none } = { row with usedAt := none })
    (husers : UsersSound t.post.users)
    (hkept : ∀ a id, HasUser t.pre.users a id → HasUser t.post.users a id)
    (hcalls : ∀ i call, t.post.calls i = some call → t.pre.calls i = some call ∨
      Stage env (tr ++ [t]) t.post call.body call.progress)
    (hsessions : ∀ hash row, t.post.sessions.lookup hash = some row →
      t.pre.sessions.lookup hash = some row ∧ ¬ SignsOut env t hash ∨
        Opened env (tr ++ [t]) t.post.users hash row) :
    Sound env (tr ++ [t]) t.post where
  past := by
    intro u hu
    rcases List.mem_append.mp hu with hu | hu
    · exact (h.past u hu).trans hnow
    · exact List.mem_singleton.mp hu ▸ hnow
  nonces := by
    intro nonce row hrow
    rcases hnonces nonce row hrow with hissues | ⟨old, hold, hsame⟩
    · exact ⟨t, by simp, hissues⟩
    · obtain ⟨u, hu, hissues⟩ := h.nonces nonce old hold
      exact ⟨u, List.mem_append_left _ hu, hsame ▸ hissues⟩
  users := husers
  calls := by
    intro i call hcall
    rcases hcalls i call hcall with hold | hstage
    · exact (h.calls i call hold).mono (fun _ => List.mem_append_left _) hnow hkept
    · exact hstage
  sessions := by
    intro hash row hrow
    rcases hsessions hash row hrow with ⟨hold, hout⟩ | hopened
    · exact (h.sessions hash row hold).snoc hout hkept
    · exact hopened

theorem setCall_cases {i j : Nat} {p : SignInProgress} {call : SignInCall}
    (h : (s.setCall i body p).calls j = some call) : s.calls j = some call ∨ call = ⟨body, p⟩ := by
  by_cases hj : j = i
  · subst hj
    simp only [State.setCall, Function.update_self, Option.some.injEq] at h
    exact .inr h.symm
  · simp only [State.setCall, Function.update_of_ne hj] at h
    exact .inl h

/-- A step in which one sign-in moves on, and the tables are as they were. -/
theorem Sound.setCall {i : Nat} {p : SignInProgress} {l : Label} (h : Sound env tr s)
    (hl : ∀ token, l ≠ .signOut token)
    (hstage : Stage env (tr ++ [⟨s, l, s.setCall i body p⟩]) s body p) :
    Sound env (tr ++ [⟨s, l, s.setCall i body p⟩]) (s.setCall i body p) := by
  refine Sound.snoc (t := ⟨s, l, s.setCall i body p⟩) h le_rfl ?_ h.users (fun _ _ => id) ?_ ?_
  · exact fun nonce row hrow => .inr ⟨row, hrow, rfl⟩
  · intro j call hcall
    rcases setCall_cases hcall with hold | rfl
    · exact .inl hold
    · exact .inr hstage
  · rintro hash row hrow
    refine .inl ⟨hrow, ?_⟩
    rintro ⟨token, hlabel, -⟩
    exact hl _ hlabel

/-- The row a sign-in goes on with is the one that was issued for it. -/
theorem afterRead_stage {i : Nat} (h : Sound env tr s)
    (hcall : s.calls i = some ⟨body, .consuming .called⟩) :
    Stage env (tr ++ [⟨s, .read i, s'⟩]) s body (.consuming
      (afterRead env.toServer body.params s.now (s.nonces.lookup body.nonce))) := by
  simp only [afterRead]
  split
  next => trivial
  next =>
    split
    next => trivial
    next record hchecked =>
      obtain ⟨hrow, hunused, htimely, haddress, -⟩ := checkRecord_ok hchecked
      obtain ⟨issue, hissue, hissues⟩ := h.nonces _ _ hrow
      have hrecord : { record with usedAt := none } = record := by rw [← hunused]
      rw [hrecord] at hissues
      refine ⟨h.calls i _ hcall, haddress, issue, List.mem_append_left _ hissue,
        ⟨s, .read i, s'⟩, by simp, hissues, ⟨i, _, rfl, hcall⟩, h.past issue hissue, ?_, le_rfl⟩
      obtain ⟨address, domain, bytes, -, -, rfl⟩ := hissues
      exact htimely

/-- A sign-in is admitted where its signature verifies. -/
theorem afterVerify_stage {l : Label} (h : Found tr body record s.now) :
    Stage env (tr ++ [⟨s, l, s'⟩]) s body
      (.consuming (afterVerify env.toServer body.params record)) := by
  simp only [afterVerify]
  split
  next => trivial
  next => trivial
  next hverdict =>
    refine ⟨h.mono (fun _ => List.mem_append_left _) le_rfl, ?_⟩
    rw [h.2.1]
    exact hverdict

/-- A step that leaves users, sessions and sign-ins as they were. -/
theorem Sound.nonces_only {l : Label} {nonces : Table String SignInNonce} {now : Nat}
    {admins : Table String AdminUser} (h : Sound env tr s) (hl : ∀ token, l ≠ .signOut token)
    (hnow : s.now ≤ now)
    (hnonces : ∀ nonce row, nonces.lookup nonce = some row → s.nonces.lookup nonce = some row ∨
      Issues ⟨s, l, s'⟩ nonce { row with usedAt := none })
    (hs' : s' = { s with now := now, nonces := nonces, admins := admins }) :
    Sound env (tr ++ [⟨s, l, s'⟩]) s' := by
  subst hs'
  refine Sound.snoc (t := ⟨s, l, _⟩) h hnow ?_ h.users (fun _ _ => id) (fun _ _ => .inl) ?_
  · intro nonce row hrow
    rcases hnonces nonce row hrow with hold | hissues
    · exact .inr ⟨row, hold, rfl⟩
    · exact .inl hissues
  · rintro hash row hrow
    refine .inl ⟨hrow, ?_⟩
    rintro ⟨token, hlabel, -⟩
    exact hl _ hlabel

theorem Sound.challenge {address domain : String} {bytes : List UInt8} (h : Sound env tr s)
    (hs' : s' = (issueChallenge env s address domain bytes).toOption.getD s) :
    Sound env (tr ++ [⟨s, .challenge address domain bytes, s'⟩]) s' := by
  have hrefused : s' = s → Sound env (tr ++ [⟨s, .challenge address domain bytes, s'⟩]) s' :=
    fun hsame => h.nonces_only (by simp) le_rfl (fun _ _ => .inl) hsame
  simp only [issueChallenge] at hs'
  split at hs'
  next => exact hrefused hs'
  next =>
    split at hs'
    next => exact hrefused hs'
    next hfresh =>
      refine h.nonces_only (by simp) le_rfl ?_ hs'
      intro nonce row hrow
      by_cases hnonce : nonce = nonceText bytes
      · rw [hnonce, AList.lookup_insert] at hrow
        obtain rfl := Option.some.inj hrow
        exact .inr ⟨address, domain, bytes, rfl, hnonce, by rw [hnonce]; rfl⟩
      · rw [AList.lookup_insert_ne hnonce] at hrow
        exact .inl hrow

theorem Sound.mark {i : Nat} {nonces : Table String SignInNonce} (h : Sound env tr s)
    (hcall : s.calls i = some ⟨body, .consuming (.marking record)⟩)
    (hnonces : s.nonces.update body.nonce (fun row => { row with usedAt := some s.now }) =
      some nonces)
    (hs' : s' = { s.setCall i body (.consuming (.returned record.message)) with
      nonces := nonces }) : Sound env (tr ++ [⟨s, .mark i, s'⟩]) s' := by
  subst hs'
  refine Sound.snoc (t := ⟨s, .mark i, _⟩) h le_rfl ?_ h.users (fun _ _ => id) ?_ ?_
  · intro nonce row hrow
    right
    -- the nonce of the body gets its stamp, no other changes
    by_cases hnonce : nonce = body.nonce
    · obtain ⟨old, hold, -⟩ := Table.update_eq_some.mp hnonces
      have hnew := Table.lookup_update_self hold hnonces
      rw [hnonce] at hrow
      obtain rfl := Option.some.inj (hnew.symm.trans hrow)
      exact ⟨old, hnonce ▸ hold, rfl⟩
    · have hother := Table.lookup_update_of_ne hnonce hnonces
      exact ⟨row, hother ▸ hrow, rfl⟩
  · intro j call hcall'
    rcases setCall_cases hcall' with hold | rfl
    · exact .inl hold
    · have hsigned : Signed env tr body record s.now := h.calls i _ hcall
      exact .inr ⟨record, hsigned.mono (fun _ => List.mem_append_left _) le_rfl⟩
  · rintro hash row hrow
    refine .inl ⟨hrow, ?_⟩
    rintro ⟨token, hlabel, -⟩
    cases hlabel

theorem Sound.upsert {i : Nat} {id : String} {isAdmin : Bool} {user : User}
    {users : Table String User} (h : Sound env tr s)
    (hcall : s.calls i = some ⟨body, .upserting isAdmin⟩)
    (hupsert : upsertUser s.users (normaliseAddress body.address) isAdmin id = some (user, users))
    (hs' : s' = { s.setCall i body (.creating user) with users := users }) :
    Sound env (tr ++ [⟨s, .upsert i id, s'⟩]) s' := by
  subst hs'
  obtain ⟨hsound, hhas, hkept⟩ := upsertUser_sound h.users hupsert
  refine Sound.snoc (t := ⟨s, .upsert i id, _⟩) h le_rfl (fun _ row hrow => .inr ⟨row, hrow, rfl⟩)
    hsound hkept ?_ ?_
  · intro j call hcall'
    rcases setCall_cases hcall' with hold | rfl
    · exact .inl hold
    · obtain ⟨record, hsigned⟩ : ∃ record, Signed env tr body record s.now := h.calls i _ hcall
      exact .inr ⟨⟨record, hsigned.mono (fun _ => List.mem_append_left _) le_rfl⟩, hhas⟩
  · rintro hash row hrow
    refine .inl ⟨hrow, ?_⟩
    rintro ⟨token, hlabel, -⟩
    cases hlabel

/-- A session that is created starts with the sign-in that creates it. -/
theorem Sound.create {i : Nat} {token : String} {user : User} (h : Sound env tr s)
    (hcall : s.calls i = some ⟨body, .creating user⟩)
    (hfresh : s.sessions.lookup (env.hashToken token) = none)
    (hs' : s' = { s.setCall i body
        (.signedIn (toAccountSummary user) token (s.now + sessionTtlMs)) with
      sessions := s.sessions.insert (env.hashToken token) ⟨user.id, s.now + sessionTtlMs⟩ }) :
    Sound env (tr ++ [⟨s, .create i token, s'⟩]) s' := by
  subst hs'
  refine Sound.snoc (t := ⟨s, .create i token, _⟩) h le_rfl
    (fun _ row hrow => .inr ⟨row, hrow, rfl⟩) h.users (fun _ _ hhas => hhas) ?_ ?_
  · intro j call hcall'
    rcases setCall_cases hcall' with hold | rfl
    · exact .inl hold
    · exact .inr trivial
  · intro hash row hrow
    by_cases hhash : hash = env.hashToken token
    · rw [hhash] at hrow
      obtain rfl := Option.some.inj ((AList.lookup_insert s.sessions).symm.trans hrow)
      obtain ⟨⟨record, hsigned⟩, huser⟩ := h.calls i _ hcall
      exact .inr ⟨body, record, s.now, hsigned.mono (fun _ => List.mem_append_left _) le_rfl,
        huser, Since.last ⟨⟨i, token, user, rfl, hhash.symm, hcall, hhash ▸ hfresh, rfl⟩, rfl⟩⟩
    · refine .inl ⟨(AList.lookup_insert_ne hhash).symm.trans hrow, ?_⟩
      rintro ⟨token, hlabel, -⟩
      cases hlabel

theorem Sound.signOut {token : Option String} (h : Sound env tr s)
    (hs' : s' = destroySession env s token) : Sound env (tr ++ [⟨s, .signOut token, s'⟩]) s' := by
  have hframe : s' = { s with sessions := s'.sessions } := by
    cases token with
    | none => rw [hs']; rfl
    | some token =>
        simp only [destroySession] at hs'
        split at hs' <;> rw [hs']
  -- the sessions left are those of before that the token does not hash to
  have hsessions : ∀ hash row, s'.sessions.lookup hash = some row →
      s.sessions.lookup hash = some row ∧ ¬ SignsOut env ⟨s, .signOut token, s'⟩ hash := by
    intro hash row hrow
    cases token with
    | none =>
        obtain rfl : s' = s := hs'
        refine ⟨hrow, ?_⟩
        rintro ⟨token, hlabel, -⟩
        cases hlabel
    | some token =>
        simp only [destroySession] at hs'
        split at hs'
        next hskipped =>
          refine ⟨hs' ▸ hrow, ?_⟩
          rintro ⟨token', hlabel, hne, havailable, -⟩
          obtain rfl := Option.some.inj (Label.signOut.inj hlabel)
          simp [hne, havailable] at hskipped
        next =>
          rw [hs'] at hrow
          have hne : hash ≠ env.hashToken token := by
            rintro rfl
            rw [AList.lookup_erase] at hrow
            cases hrow
          refine ⟨(AList.lookup_erase_ne hne).symm.trans hrow, ?_⟩
          rintro ⟨token', hlabel, -, -, hhash⟩
          obtain rfl := Option.some.inj (Label.signOut.inj hlabel)
          exact hne hhash.symm
  rw [hframe]
  refine Sound.snoc (t := ⟨s, .signOut token, _⟩) h le_rfl
    (fun _ row hrow => .inr ⟨row, hrow, rfl⟩) h.users (fun _ _ hhas => hhas) (fun _ _ => .inl) ?_
  intro hash row hrow
  obtain ⟨hold, hout⟩ := hsessions hash row hrow
  exact .inl ⟨hold, hout⟩

theorem Sound.next {l : Label} (h : Sound env tr s) (hs : next env s l = some s') :
    Sound env (tr ++ [⟨s, l, s'⟩]) s' := by
  cases l with
  -- what is outside a sign-in: the clock and the challenges
  | wait now =>
      simp only [Session.next] at hs
      split at hs
      next hnow =>
        exact h.nonces_only (by simp) hnow (fun _ _ => .inl) (Option.some.inj hs).symm
      next => cases hs
  | challenge address domain bytes =>
      simp only [Session.next] at hs
      split at hs
      next => exact h.challenge (Option.some.inj hs).symm
      next => cases hs
  -- the statements of a sign-in, in their order: each leaves what the next one needs
  | signIn i body =>
      simp only [Session.next] at hs
      split at hs
      next => cases hs
      next =>
        split at hs
        next haccepted =>
          obtain rfl := Option.some.inj hs
          exact h.setCall (by simp) haccepted
        next => cases hs
  | read i =>
      simp only [Session.next] at hs
      split at hs
      next body hcall =>
        obtain rfl := Option.some.inj hs
        exact h.setCall (by simp) (afterRead_stage h hcall)
      next => cases hs
  | verify i =>
      simp only [Session.next] at hs
      split at hs
      next body record hcall =>
        obtain rfl := Option.some.inj hs
        exact h.setCall (by simp) (afterVerify_stage (h.calls i _ hcall))
      next => cases hs
  | mark i =>
      simp only [Session.next] at hs
      split at hs
      next body record hcall =>
        split at hs
        next =>
          obtain rfl := Option.some.inj hs
          exact h.setCall (by simp) trivial
        next nonces hnonces => exact h.mark hcall hnonces (Option.some.inj hs).symm
      next => cases hs
  -- the signature is known good by here; the lookups only read
  | lookup i =>
      simp only [Session.next] at hs
      split at hs
      next body message hcall =>
        split at hs
        next =>
          obtain rfl := Option.some.inj hs
          exact h.setCall (by simp) trivial
        next =>
          obtain rfl := Option.some.inj hs
          obtain ⟨record, hsigned⟩ : ∃ record, Signed env tr body record s.now :=
            h.calls i _ hcall
          exact h.setCall (by simp)
            ⟨record, hsigned.mono (fun _ => List.mem_append_left _) le_rfl⟩
      next => cases hs
  | upsert i id =>
      simp only [Session.next] at hs
      split at hs
      next body isAdmin hcall =>
        split at hs
        next =>
          obtain rfl := Option.some.inj hs
          exact h.setCall (by simp) trivial
        next user users hupsert => exact h.upsert hcall hupsert (Option.some.inj hs).symm
      next => cases hs
  | create i token =>
      simp only [Session.next] at hs
      split at hs
      next body user hcall =>
        split at hs
        next =>
          obtain rfl := Option.some.inj hs
          exact h.setCall (by simp) trivial
        next hfresh => exact h.create hcall hfresh (Option.some.inj hs).symm
      next => cases hs
  -- the session ends, or the table of admins changes
  | signOut token => exact h.signOut (Option.some.inj hs).symm
  | setAdmin address row =>
      have hframe : s' = { s with admins := s'.admins } := by
        simp only [Session.next] at hs
        split at hs <;> rw [← Option.some.inj hs]
      exact h.nonces_only (by simp) le_rfl (fun _ _ => .inl) hframe

theorem Sound.of_run {now : Nat} (h : Run (Session.next env) (Session.start now) tr s) :
    Sound env tr s :=
  h.history (P := fun _ => True) (fun _ _ => trivial) (Sound.start now)
    fun _ _ _ _ _ hsound hs => hsound.next hs

theorem readSession_some {cookie : Option String} {session : SessionUser}
    (h : readSession env s cookie = some session) :
    ∃ token row, cookie = some token ∧ s.sessions.lookup (env.hashToken token) = some row ∧
      s.now ≤ session.expiresAt ∧ session.expiresAt = row.expiresAt ∧
      userById s.users row.userId = some session.user := by
  cases cookie with
  | none => cases h
  | some token =>
      simp only [readSession] at h
      split at h
      next => cases h
      next =>
        split at h
        next => cases h
        next row hrow =>
          split at h
          next => cases h
          next hlive =>
            obtain ⟨user, huser, rfl⟩ := Option.map_eq_some_iff.mp h
            exact ⟨token, row, rfl, hrow, Nat.le_of_not_lt hlive, rfl, huser⟩

/-- A cookie that is taken for a user is that of a session which is open and theirs. -/
theorem Sound.readSession {cookie : Option String} {session : SessionUser} (h : Sound env tr s)
    (hread : readSession env s cookie = some session) :
    ∃ token row body record at_, cookie = some token ∧ s.now ≤ session.expiresAt ∧
      session.expiresAt = row.expiresAt ∧
      session.user.address = normaliseAddress body.address ∧ Signed env tr body record at_ ∧
      Since (fun t => Creates env t (env.hashToken token) body row ∧ t.pre.now = at_)
        (SignsOut env · (env.hashToken token)) tr := by
  obtain ⟨token, row, rfl, hrow, hlive, hexpires, hfound⟩ := readSession_some hread
  obtain ⟨body, record, at_, hsigned, huser, hsince⟩ := h.sessions _ _ hrow
  obtain ⟨user, huser, haddress⟩ := h.users.userById huser
  obtain rfl := Option.some.inj (hfound.symm.trans huser)
  exact ⟨token, row, body, record, at_, rfl, hlive, hexpires, haddress, hsigned, hsince⟩

/-- **Every session is somebody's own.** In whatever order challenges, the statements of any
number of sign-ins, sign-outs and edits of the admin table fall, a cookie that is taken for an
address is one whose token a sign-in of that address created, at most thirty days ago and
without a sign-out since. That sign-in presented a signature by the address of a message issued
for it and for its nonce, read within ten minutes of being issued; and no challenge for another
nonce has that message. -/
theorem session_traced {now : Nat} {cookie : Option String} {session : SessionUser}
    (h : Run (next env) (start now) tr s) (hread : readSession env s cookie = some session) :
    ∃ token body record createdAt, cookie = some token ∧
      session.user.address = normaliseAddress body.address ∧
      Signed env tr body record createdAt ∧ record.address = session.user.address ∧
      session.expiresAt = createdAt + sessionTtlMs ∧ createdAt ≤ s.now ∧
      s.now ≤ session.expiresAt ∧
      Since (fun t => t.pre.now = createdAt ∧
          ∃ row, Creates env t (env.hashToken token) body row ∧ row.expiresAt = session.expiresAt)
        (SignsOut env · (env.hashToken token)) tr ∧
      ∀ t ∈ tr, ∀ nonce other, Issues t nonce other → other.message = record.message →
        nonce = body.nonce := by
  have hsound := Sound.of_run h
  obtain ⟨token, row, body, record, at_, rfl, hlive, hexpires, haddress, hsigned, hsince⟩ :=
    hsound.readSession hread
  obtain ⟨t, ht, ⟨_, _, _, -, -, -, -, hrow⟩, hat⟩ := hsince.exists_mem
  have hend : session.expiresAt = at_ + sessionTtlMs := by rw [hexpires, hrow, hat]
  refine ⟨token, body, record, at_, rfl, haddress, hsigned, hsigned.1.2.1.trans haddress.symm,
    hend, hat ▸ hsound.past t ht, hlive, ?_, ?_⟩
  · exact hsince.mono (fun t _ ht => ⟨ht.2, row, ht.1, hexpires.symm⟩) (fun _ _ => id)
  · intro t ht nonce other hother hmessage
    obtain ⟨-, -, _, -, _, -, ⟨_, _, bytes, -, hnonce, rfl⟩, -⟩ := hsigned.1
    obtain ⟨_, _, bytes', -, rfl, rfl⟩ := hother
    rw [hnonce] at hmessage
    rw [hnonce, challengeMessage_nonce hmessage]

namespace Test

/-- A verifier that takes one signature, and a hash that marks the token. -/
def wallet : Env where
  databaseUrl := some "postgres://lemon"
  verifyMessage _ _ signature := some (signature == "0x51")
  hashToken token := token ++ "#"

def bytes : List UInt8 := List.replicate 16 171

/-- The address as its owner's checksum has it. -/
def adminBody : SignInBody where
  address := "0x00000000000000000000000000000000000000Aa"
  nonce := nonceText bytes
  signature := "0x51"

/-- An admin signs in, a second after the challenge. -/
def signIn : List Label :=
  [.setAdmin "0x00000000000000000000000000000000000000aa" (some ⟨true⟩),
    .challenge adminBody.address "lemon.market" bytes, .wait 2000, .signIn 0 adminBody, .read 0,
    .verify 0,
    .mark 0, .lookup 0, .upsert 0 "c1", .create 0 "t0", .wait 5000]

theorem signIn_isSome : (trace (next wallet) (start 1000) signIn).isSome := by rfl

/-- The state it ends in. -/
def signedIn : State := (Option.get _ signIn_isSome).2

theorem signIn_run :
    Run (next wallet) (start 1000) (Option.get _ signIn_isSome).1 signedIn :=
  trace_run (Option.some_get signIn_isSome).symm

theorem readSession_isSome : (readSession wallet signedIn (some "t0")).isSome := by rfl

/-- The session is of the admin, who signed. -/
theorem session_traced_signIn : ∃ session, readSession wallet signedIn (some "t0") = some session ∧
    ∃ body record createdAt, session.user.address = normaliseAddress body.address ∧
      Signed wallet (Option.get _ signIn_isSome).1 body record createdAt ∧ createdAt ≤ 5000 := by
  obtain ⟨session, hread⟩ := Option.isSome_iff_exists.mp readSession_isSome
  obtain ⟨_, body, record, createdAt, -, haddress, hsigned, -, -, hle, -⟩ :=
    session_traced signIn_run hread
  exact ⟨session, hread, body, record, createdAt, haddress, hsigned, hle⟩

end Test

/-! ### Who gets to the dashboard -/

theorem normaliseAddress_ne_empty {address : String} (h : addressSchema address = true) :
    normaliseAddress address ≠ "" := by
  obtain ⟨digits, hdigits⟩ : ∃ digits, address.toList = '0' :: 'x' :: digits := by
    simp only [addressSchema, isHexText] at h
    split at h
    next digits hdigits => exact ⟨digits, hdigits⟩
    next => cases h
  have hzero : ¬ NumberText.isSpaceChar '0' = true := by decide
  intro hempty
  have hlist := congrArg String.toList hempty
  rw [normaliseAddress, hdigits, NumberText.trimChars, List.dropWhile_cons_of_neg hzero,
    String.toList_ofList] at hlist
  have htrim := List.rdropWhile_eq_nil_iff.mp (List.map_eq_nil_iff.mp hlist)
  exact hzero (htrim '0' (by simp))

theorem toLower_toLower (c : Char) : c.toLower.toLower = c.toLower := by
  unfold Char.toLower
  split
  next hupper =>
    refine dif_neg fun hagain => ?_
    obtain ⟨hlow, hhigh⟩ := hupper
    obtain ⟨-, hbelow⟩ := hagain
    simp [UInt32.le_iff_toNat_le] at hlow hhigh hbelow
    omega
  next => rfl

/-- An address is in lower case already. -/
theorem toLowerCase_normaliseAddress (address : String) :
    toLowerCase (normaliseAddress address) = normaliseAddress address := by
  have hfold : Char.toLower ∘ Char.toLower = Char.toLower := funext toLower_toLower
  rw [toLowerCase, normaliseAddress, String.toList_ofList, List.map_map, hfold]

/-- The last edit of an address put this row. -/
def LastEdit (tr : List (Transition State Label)) (address : String) (row : AdminUser) : Prop :=
  Since (fun t => t.label = .setAdmin address (some row))
    (fun t => ∃ row, t.label = .setAdmin address row) tr

/-- What a step makes of the users, the sessions and the admin table. -/
structure Writes (env : Env) (s : State) (l : Label) (s' : State) : Prop where
  users : s'.users = s.users ∨ ∃ address isAdmin id user,
    upsertUser s.users address isAdmin id = some (user, s'.users)
  sessions : s'.sessions =
    match l with
    | .create i token =>
        match s.calls i, s.sessions.lookup (env.hashToken token) with
        | some ⟨_, .creating user⟩, none =>
            s.sessions.insert (env.hashToken token) ⟨user.id, s.now + sessionTtlMs⟩
        | _, _ => s.sessions
    | .signOut token => (destroySession env s token).sessions
    | _ => s.sessions
  admins : s'.admins =
    match l with
    | .setAdmin address (some row) => s.admins.insert address row
    | .setAdmin address none => s.admins.erase address
    | _ => s.admins

theorem destroySession_tables (env : Env) (s : State) (token : Option String) :
    (destroySession env s token).users = s.users ∧
      (destroySession env s token).admins = s.admins := by
  cases token with
  | none => exact ⟨rfl, rfl⟩
  | some token =>
      simp only [destroySession]
      split <;> exact ⟨rfl, rfl⟩

theorem issueChallenge_tables (env : Env) (s : State) (address domain : String)
    (bytes : List UInt8) :
    ((issueChallenge env s address domain bytes).toOption.getD s).users = s.users ∧
      ((issueChallenge env s address domain bytes).toOption.getD s).sessions = s.sessions ∧
      ((issueChallenge env s address domain bytes).toOption.getD s).admins = s.admins := by
  simp only [issueChallenge]
  split
  next => exact ⟨rfl, rfl, rfl⟩
  next => split <;> exact ⟨rfl, rfl, rfl⟩

theorem next_writes {l : Label} (h : next env s l = some s') : Writes env s l s' := by
  cases l with
  | setAdmin address row => cases row <;> exact Option.some.inj h ▸ ⟨.inl rfl, rfl, rfl⟩
  | signOut token =>
      obtain ⟨husers, hadmins⟩ := destroySession_tables env s token
      exact Option.some.inj h ▸ ⟨.inl husers, rfl, hadmins⟩
  | challenge address domain bytes =>
      simp only [next] at h
      split at h
      next =>
        obtain ⟨husers, hsessions, hadmins⟩ := issueChallenge_tables env s address domain bytes
        exact Option.some.inj h ▸ ⟨.inl husers, hsessions, hadmins⟩
      next => cases h
  | upsert i id =>
      simp only [next] at h
      split at h
      next body isAdmin hcall =>
        split at h
        next => exact Option.some.inj h ▸ ⟨.inl rfl, rfl, rfl⟩
        next user users hupsert =>
          exact Option.some.inj h ▸ ⟨.inr ⟨_, _, _, _, hupsert⟩, rfl, rfl⟩
      next => cases h
  | create i token =>
      simp only [next] at h
      split at h
      next body user hcall =>
        split at h
        next row hrow =>
          exact Option.some.inj h ▸ ⟨.inl rfl, by simp [hcall, hrow, State.setCall], rfl⟩
        next hfresh => exact Option.some.inj h ▸ ⟨.inl rfl, by simp [hcall, hfresh], rfl⟩
      next => cases h
  | _ =>
      -- the other statements of a sign-in, and the passing of time
      simp only [next] at h
      repeat' split at h
      all_goals first | (cases h; exact ⟨.inl rfl, rfl, rfl⟩) | cases h

/-- Nobody who has a user loses it. -/
theorem Writes.keeps_user {l : Label} (h : Writes env s l s') (hsound : UsersSound s.users)
    {address id : String} (hhas : HasUser s.users address id) : HasUser s'.users address id := by
  rcases h.users with hsame | ⟨_, _, _, _, hupsert⟩
  · rw [hsame]
    exact hhas
  · exact (upsertUser_sound hsound hupsert).2.2 address id hhas

/-- The admin table is what its edits made it. -/
theorem admins_iff {now : Nat} (h : Run (next env) (start now) tr s) {address : String}
    {row : AdminUser} : s.admins.lookup address = some row ↔ LastEdit tr address row := by
  refine h.since_iff (V := fun s => s.admins.lookup address = some row) (by simp [start]) ?_
  intro s l s' hs
  have hadmins := (next_writes hs).admins
  cases l with
  | setAdmin edited new =>
      by_cases hsame : edited = address
      · subst hsame
        cases new <;> simp [hadmins]
      · have hother : address ≠ edited := fun h => hsame h.symm
        cases new with
        | none => simp [hadmins, hsame, AList.lookup_erase_ne hother]
        | some new => simp [hadmins, hsame, AList.lookup_insert_ne hother]
  | _ => simp [hadmins]

theorem creates_create {i : Nat} {token hash : String} {row : SessionRow} :
    (∃ body, Creates env ⟨s, .create i token, s'⟩ hash body row) ↔
      s.sessions.lookup hash = none ∧ env.hashToken token = hash ∧
        ∃ body user, s.calls i = some ⟨body, .creating user⟩ ∧
          row = ⟨user.id, s.now + sessionTtlMs⟩ := by
  constructor
  · rintro ⟨body, i', token', user, hlabel, hhash, hcall, hfresh, hrow⟩
    obtain ⟨rfl, rfl⟩ := Label.create.inj hlabel
    exact ⟨hfresh, hhash, body, user, hcall, hrow⟩
  · rintro ⟨hfresh, hhash, body, user, hcall, hrow⟩
    exact ⟨body, i, token, user, rfl, hhash, hcall, hfresh, hrow⟩

theorem lookup_create {i : Nat} {token hash : String} {row : SessionRow}
    (h : Writes env s (.create i token) s') : s'.sessions.lookup hash = some row ↔
      (∃ body, Creates env ⟨s, .create i token, s'⟩ hash body row) ∨
        s.sessions.lookup hash = some row := by
  have hsessions := h.sessions
  dsimp only at hsessions
  rw [creates_create]
  split at hsessions
  next body user hcall hfresh =>
    rw [hsessions]
    by_cases hhash : env.hashToken token = hash
    · subst hhash
      rw [AList.lookup_insert, hfresh, Option.some.injEq, hcall]
      constructor
      · rintro rfl
        exact .inl ⟨rfl, rfl, body, user, rfl, rfl⟩
      · rintro (⟨-, -, _, _, hsame, rfl⟩ | h)
        · cases hsame
          rfl
        · cases h
    · have hother : hash ≠ env.hashToken token := fun h => hhash h.symm
      rw [AList.lookup_insert_ne hother]
      exact (or_iff_right fun h => hhash h.2.1).symm
  next hnone =>
    -- the call is not that far, or the row is there and the table refuses
    rw [hsessions]
    refine (or_iff_right ?_).symm
    rintro ⟨hfresh, rfl, body, user, hcall, -⟩
    exact hnone body user hcall hfresh

theorem lookup_signOut {token : Option String} {hash : String} {row : SessionRow}
    (h : Writes env s (.signOut token) s') : s'.sessions.lookup hash = some row ↔
      s.sessions.lookup hash = some row ∧ ¬ SignsOut env ⟨s, .signOut token, s'⟩ hash := by
  have hsessions : s'.sessions = (destroySession env s token).sessions := h.sessions
  rw [hsessions]
  cases token with
  | none =>
      refine (and_iff_left ?_).symm
      rintro ⟨_, hlabel, -⟩
      cases hlabel
  | some token =>
      simp only [destroySession]
      split
      next hskipped =>
        refine (and_iff_left ?_).symm
        rintro ⟨_, hlabel, hne, havailable, -⟩
        obtain rfl := Option.some.inj (Label.signOut.inj hlabel)
        simp [hne, havailable] at hskipped
      next hdone =>
        have havailable : token ≠ "" ∧ env.accountsUnavailableReason = none := by
          simpa [not_or] using hdone
        -- only the row of the token is erased
        by_cases hhash : env.hashToken token = hash
        · subst hhash
          rw [AList.lookup_erase]
          refine iff_of_false nofun ?_
          rintro ⟨-, hno⟩
          exact hno ⟨token, rfl, havailable.1, havailable.2, rfl⟩
        · have hother : hash ≠ env.hashToken token := fun h => hhash h.symm
          rw [AList.lookup_erase_ne hother]
          refine (and_iff_left ?_).symm
          rintro ⟨_, hlabel, -, -, hsame⟩
          obtain rfl := Option.some.inj (Label.signOut.inj hlabel)
          exact hhash hsame

/-- A session is in the table exactly where a sign-in created it and no cookie of it has signed
out since. -/
theorem sessions_iff {now : Nat} (h : Run (next env) (start now) tr s) {hash : String}
    {row : SessionRow} : s.sessions.lookup hash = some row ↔
      Since (fun t => ∃ body, Creates env t hash body row) (SignsOut env · hash) tr := by
  refine h.since_iff (V := fun s => s.sessions.lookup hash = some row) (by simp [start]) ?_
  intro s l s' hs
  have hwrites := next_writes hs
  cases l with
  | create i token =>
      have hstays : ¬ SignsOut env ⟨s, .create i token, s'⟩ hash := by
        rintro ⟨_, hlabel, -⟩
        cases hlabel
      rw [lookup_create hwrites, and_iff_left hstays]
  | signOut token =>
      have hcreates : ¬ ∃ body, Creates env ⟨s, .signOut token, s'⟩ hash body row := by
        rintro ⟨_, _, _, _, hlabel, -⟩
        cases hlabel
      rw [lookup_signOut hwrites, or_iff_right hcreates]
  | _ => simp [hwrites.sessions, Creates, SignsOut]

/-- Whoever created a session still has the user it is of. -/
theorem creator_hasUser {now : Nat} (h : Run (next env) (start now) tr s) : ∀ t ∈ tr,
    ∀ hash body row, Creates env t hash body row →
      body.accepted = true ∧ HasUser s.users (normaliseAddress body.address) row.userId := by
  refine (h.history (P := fun _ => True) (I := fun tr s => Sound env tr s ∧ ∀ t ∈ tr,
    ∀ hash body row, Creates env t hash body row →
      body.accepted = true ∧ HasUser s.users (normaliseAddress body.address) row.userId)
    (fun _ _ => trivial) ⟨Sound.start now, by simp⟩ ?_).2
  rintro tr s l s' - ⟨hsound, hcreated⟩ hs
  have hkept : ∀ {address id : String}, HasUser s.users address id → HasUser s'.users address id :=
    (next_writes hs).keeps_user hsound.users
  refine ⟨hsound.next hs, fun t ht hash body row hcreates => ?_⟩
  rcases List.mem_append.mp ht with ht | ht
  · obtain ⟨haccepted, hhas⟩ := hcreated t ht hash body row hcreates
    exact ⟨haccepted, hkept hhas⟩
  · obtain rfl := List.mem_singleton.mp ht
    obtain ⟨i, token, user, -, -, hcall, -, rfl⟩ := hcreates
    obtain ⟨⟨record, hsigned⟩, hhas⟩ := hsound.calls i _ hcall
    exact ⟨hsigned.1.1, hkept hhas⟩

/-- A sign-in by an address created the session of a token at a time, and no cookie of the token
has signed out since. -/
def Standing (env : Env) (tr : List (Transition State Label)) (token address : String)
    (createdAt : Nat) : Prop :=
  Since (fun t => t.pre.now = createdAt ∧ ∃ body row,
      Creates env t (env.hashToken token) body row ∧ address = normaliseAddress body.address)
    (SignsOut env · (env.hashToken token)) tr

theorem Standing.ne_empty {now createdAt : Nat} {token address : String}
    (h : Standing env tr token address createdAt) (hrun : Run (next env) (start now) tr s) :
    address ≠ "" := by
  obtain ⟨t, ht, -, body, row, hcreates, rfl⟩ := h.exists_mem
  have haccepted := (creator_hasUser hrun t ht _ _ _ hcreates).1
  simp only [SignInBody.accepted, Bool.and_eq_true] at haccepted
  exact normaliseAddress_ne_empty haccepted.1.1

theorem Standing.toLowerCase_eq {createdAt : Nat} {token address : String}
    (h : Standing env tr token address createdAt) : toLowerCase address = address := by
  obtain ⟨t, -, -, body, row, -, rfl⟩ := h.exists_mem
  exact toLowerCase_normaliseAddress _

/-- The address a request is for, by the history of its session. -/
theorem adminOf_iff {now : Nat} {cookie : Option String} {address : String}
    (h : Run (next env) (start now) tr s) : adminOf env s cookie = some address ↔
      ∃ token createdAt, cookie = some token ∧ token ≠ "" ∧
        env.accountsUnavailableReason = none ∧ Standing env tr token address createdAt ∧
        s.now ≤ createdAt + sessionTtlMs := by
  have hsound := Sound.of_run h
  have hcreator := creator_hasUser h
  constructor
  -- the row that answers was put in by a sign-in and not signed out since
  · intro hread
    obtain ⟨session, hsession, rfl⟩ := Option.map_eq_some_iff.mp hread
    obtain ⟨token, row, rfl, hrow, hlive, hexpires, hfound⟩ :=
      readSession_some hsession
    obtain ⟨before, t, after, rfl, ⟨body, hcreates⟩, hsince⟩ := (sessions_iff h).mp hrow
    obtain ⟨-, hhas⟩ := hcreator t (by simp) _ _ _ hcreates
    obtain ⟨user, huser, haddress⟩ := hsound.users.userById hhas
    obtain rfl := Option.some.inj (hfound.symm.trans huser)
    have hstanding : token ≠ "" ∧ env.accountsUnavailableReason = none := by
      simp only [readSession] at hsession
      split at hsession
      next => cases hsession
      next hserved => simpa [not_or] using hserved
    -- and ends a lifetime after it
    have hend : row.expiresAt = t.pre.now + sessionTtlMs := by
      obtain ⟨_, _, _, -, -, -, -, rfl⟩ := hcreates
      rfl
    exact ⟨token, t.pre.now, rfl, hstanding.1, hstanding.2,
      ⟨before, t, after, rfl, ⟨rfl, body, row, hcreates, haddress⟩, hsince⟩,
      hend ▸ hexpires ▸ hlive⟩
  · rintro ⟨token, createdAt, rfl, hne, havailable,
      ⟨before, t, after, rfl, ⟨rfl, body, row, hcreates, rfl⟩, hsince⟩, hlive⟩
    have hrow := (sessions_iff h).mpr ⟨before, t, after, rfl, ⟨body, hcreates⟩, hsince⟩
    obtain ⟨-, hhas⟩ := hcreator t (by simp) _ _ _ hcreates
    obtain ⟨user, huser, haddress⟩ := hsound.users.userById hhas
    have hlive' : ¬ row.expiresAt < s.now := by
      obtain ⟨_, _, _, -, -, -, -, rfl⟩ := hcreates
      exact Nat.not_lt_of_le hlive
    simp [adminOf, readSession, hne, havailable, hrow, hlive', huser, haddress]

theorem assertCanCreateVaults_ok {s₁ s₂ : State} {address : String} (hne : address ≠ "") :
    assertCanCreateVaults s₁ s₂ (some address) = .ok () ↔
      (s₁.admins.lookup (toLowerCase address)).isSome ∧
        s₂.admins.lookup (toLowerCase address) = some ⟨true⟩ := by
  rw [assertCanCreateVaults, assertAdmin, if_neg hne, isAdmin, Option.getD_some]
  by_cases hadmin : (s₁.admins.lookup (toLowerCase address)).isSome
  · rw [if_pos hadmin]
    refine ⟨?_, ?_⟩
    · intro h
      refine ⟨hadmin, ?_⟩
      change (match s₂.admins.lookup (toLowerCase address) with
        | some ⟨true⟩ => _
        | _ => _) = _ at h
      split at h
      next hrow => exact hrow
      next => cases h
    · rintro ⟨-, hrow⟩
      rw [hrow]
      rfl
  · rw [if_neg hadmin]
    exact ⟨nofun, fun h => absurd h.1 hadmin⟩

/-- **The dashboard goes by the admin table, not by the session.** A request reads its session
at one point of a run, and the admin table at two later ones. It gets to the routes that prepare
and record a vault exactly where its token's session was created by a sign-in of an address, at
most thirty days ago and without a sign-out since; the last edit of that address before the
second point put a row; and the last before the third put one that may create vaults. What the
session's user was when it signed in does not count. -/
theorem create_vaults_iff {now : Nat} {s₀ s₁ s₂ : State}
    {tr₀ tr₁ tr₂ : List (Transition State Label)} {cookie : Option String}
    (h₀ : Run (next env) (start now) tr₀ s₀) (h₁ : Run (next env) (start now) (tr₀ ++ tr₁) s₁)
    (h₂ : Run (next env) (start now) (tr₀ ++ tr₁ ++ tr₂) s₂) :
    assertCanCreateVaults s₁ s₂ (adminOf env s₀ cookie) = .ok () ↔
      ∃ token address createdAt, cookie = some token ∧ token ≠ "" ∧
        env.accountsUnavailableReason = none ∧ Standing env tr₀ token address createdAt ∧
        s₀.now ≤ createdAt + sessionTtlMs ∧ (∃ row, LastEdit (tr₀ ++ tr₁) address row) ∧
        LastEdit (tr₀ ++ tr₁ ++ tr₂) address ⟨true⟩ := by
  have hgate : ∀ {token address createdAt}, Standing env tr₀ token address createdAt →
      (assertCanCreateVaults s₁ s₂ (some address) = .ok () ↔
        (∃ row, LastEdit (tr₀ ++ tr₁) address row) ∧
          LastEdit (tr₀ ++ tr₁ ++ tr₂) address ⟨true⟩) := by
    -- a standing session has a lower-case address, as the admin table has
    intro token address createdAt hstanding
    rw [assertCanCreateVaults_ok (hstanding.ne_empty h₀), hstanding.toLowerCase_eq,
      Option.isSome_iff_exists, admins_iff h₂]
    exact and_congr_left' (exists_congr fun row => admins_iff h₁)
  constructor
  · intro hpass
    cases hadmin : adminOf env s₀ cookie with
    | none =>
        rw [hadmin] at hpass
        cases hpass
    | some address =>
        obtain ⟨token, createdAt, hcookie, hne, havailable, hstanding, hlive⟩ :=
          (adminOf_iff h₀).mp hadmin
        rw [hadmin] at hpass
        exact ⟨token, address, createdAt, hcookie, hne, havailable, hstanding, hlive,
          (hgate hstanding).mp hpass⟩
  · rintro ⟨token, address, createdAt, hcookie, hne, havailable, hstanding, hlive, hedits⟩
    rw [(adminOf_iff h₀).mpr ⟨token, createdAt, hcookie, hne, havailable, hstanding, hlive⟩]
    exact (hgate hstanding).mpr hedits

namespace Test

def admin : String := "0x00000000000000000000000000000000000000aa"

/-- After the sign-in the admin may no longer create vaults, and then may again. -/
def demotion : Label := .setAdmin admin (some ⟨false⟩)
def promotion : Label := .setAdmin admin (some ⟨true⟩)

theorem demoted_isSome : (next wallet signedIn demotion).isSome := by rfl
def demoted : State := Option.get _ demoted_isSome

theorem promoted_isSome : (next wallet demoted promotion).isSome := by rfl
def promoted : State := Option.get _ promoted_isSome

/-- The admin gets to the dashboard between the two, on account of the table. -/
theorem create_vaults_iff_signIn : ∃ token address createdAt,
    some "t0" = some token ∧
      Standing wallet (Option.get _ signIn_isSome).1 token address createdAt ∧
      signedIn.now ≤ createdAt + sessionTtlMs := by
  have hdemoted := Run.snoc signIn_run (Option.some_get demoted_isSome).symm
  have hpromoted := Run.snoc hdemoted (Option.some_get promoted_isSome).symm
  have hpass : assertCanCreateVaults demoted promoted (adminOf wallet signedIn (some "t0")) =
      .ok () := by rfl
  obtain ⟨token, address, createdAt, htoken, -, -, hstanding, hlive, -⟩ :=
    (create_vaults_iff signIn_run hdemoted hpromoted).mp hpass
  exact ⟨token, address, createdAt, htoken, hstanding, hlive⟩

end Test

end Session

end LemonMarket.Api
