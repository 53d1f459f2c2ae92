import LemonMarket.Lib.Guard
import LemonMarket.Lib.Run

/-!
# LemonMarket.Lib.Roles

**Role tables with one administering role.** A `Roles ρ α` says which account holds
which role, and a `RoleCall` is one of the three calls that write it: the holder of the
administering role grants and revokes, and anybody renounces what is theirs. A call that
changes nothing is silent.

`exec_grants` is the only fact about a single call that the safety of a table needs: a
role that was not held before was granted by the administrator (`After.held` says it of a
transaction that makes at most one such call). `granted_of_run` carries it through a history:
whoever holds a role held it at the start, or was granted it by somebody who administered the
table at the time.
-/

namespace Lib

variable {ρ α : Type}

/-- Who holds which role. -/
abbrev Roles (ρ α : Type) := ρ → α → Bool

inductive RoleError (ρ α : Type)
  | unauthorizedAccount (account : α) (neededRole : ρ)
  | badConfirmation
  deriving Repr, DecidableEq

inductive RoleCall (ρ α : Type)
  | grantRole (role : ρ) (account : α)
  | revokeRole (role : ρ) (account : α)
  | renounceRole (role : ρ) (callerConfirmation : α)
  deriving Repr, DecidableEq

inductive RoleEvent (ρ α : Type)
  | roleGranted (role : ρ) (account sender : α)
  | roleRevoked (role : ρ) (account sender : α)
  deriving Repr, DecidableEq

namespace Roles

/-- A table nobody is in. -/
def none : Roles ρ α := fun _ _ => false

/-- Fail unless the account holds the role. -/
def require (r : Roles ρ α) (role : ρ) (account : α) : Except (RoleError ρ α) Unit :=
  revertIf (r role account = false) (.unauthorizedAccount account role)

@[simp] theorem require_eq_ok {r : Roles ρ α} {role : ρ} {account : α} {u : Unit} :
    r.require role account = .ok u ↔ r role account = true := by
  simp [require]

variable [DecidableEq ρ] [DecidableEq α]

/-- Write one entry. -/
def set (r : Roles ρ α) (role : ρ) (account : α) (held : Bool) : Roles ρ α :=
  Function.update r role (Function.update (r role) account held)

/-- Give out a role: silent when it is already held. -/
def grant (r : Roles ρ α) (role : ρ) (account sender : α) : Roles ρ α × List (RoleEvent ρ α) :=
  if r role account then (r, []) else (r.set role account true, [.roleGranted role account sender])

/-- Take a role back: silent when it is not held. -/
def revoke (r : Roles ρ α) (role : ρ) (account sender : α) : Roles ρ α × List (RoleEvent ρ α) :=
  if r role account then (r.set role account false, [.roleRevoked role account sender]) else (r, [])

theorem set_held {r : Roles ρ α} {role role' : ρ} {a b : α} {held : Bool}
    (h : r.set role a held role' b = true) :
    r role' b = true ∨ (role' = role ∧ b = a ∧ held = true) := by
  by_cases hrole : role' = role
  · subst hrole
    by_cases hb : b = a
    · subst hb
      exact .inr ⟨rfl, rfl, by simpa [set] using h⟩
    · exact .inl (by simpa [set, hb] using h)
  · exact .inl (by simpa [set, hrole] using h)

theorem grant_held {r : Roles ρ α} {role role' : ρ} {a b sender : α}
    (h : (r.grant role a sender).1 role' b = true) :
    r role' b = true ∨ (role' = role ∧ b = a) := by
  unfold grant at h
  split at h
  · exact .inl h
  · exact (set_held h).imp_right fun ⟨hrole, hb, _⟩ => ⟨hrole, hb⟩

theorem revoke_held {r : Roles ρ α} {role role' : ρ} {a b sender : α}
    (h : (r.revoke role a sender).1 role' b = true) : r role' b = true := by
  unfold revoke at h
  split at h
  · exact (set_held h).resolve_right fun ⟨_, _, hfalse⟩ => Bool.noConfusion hfalse
  · exact h

end Roles

variable [DecidableEq ρ] [DecidableEq α]

/-- A call on the table by `sender`, `admin` being the role that administers it. -/
def RoleCall.exec (admin : ρ) (sender : α) (r : Roles ρ α) :
    RoleCall ρ α → Except (RoleError ρ α) (Roles ρ α × List (RoleEvent ρ α))
  | .grantRole role account => do
      r.require admin sender
      return r.grant role account sender
  | .revokeRole role account => do
      r.require admin sender
      return r.revoke role account sender
  | .renounceRole role callerConfirmation => do
      revertIf (callerConfirmation ≠ sender) .badConfirmation
      return r.revoke role callerConfirmation sender

/-- A role newly held was granted, by somebody holding the administering role. -/
theorem RoleCall.exec_grants {admin role : ρ} {sender a : α} {r : Roles ρ α}
    {call : RoleCall ρ α} {r' : Roles ρ α × List (RoleEvent ρ α)}
    (h : call.exec admin sender r = .ok r') (held : r'.1 role a = true) :
    r role a = true ∨ (call = .grantRole role a ∧ r admin sender = true) := by
  cases call with
  | grantRole role' b =>
      simp only [exec, bind_eq_ok, Roles.require_eq_ok, pure_eq_ok] at h
      obtain ⟨-, hadmin, rfl⟩ := h
      rcases Roles.grant_held held with hold | ⟨rfl, rfl⟩
      · exact .inl hold
      · exact .inr ⟨rfl, hadmin⟩
  | revokeRole role' b =>
      simp only [exec, bind_eq_ok, pure_eq_ok] at h
      obtain ⟨-, -, rfl⟩ := h
      exact .inl (Roles.revoke_held held)
  | renounceRole role' b =>
      simp only [exec, bind_eq_ok, pure_eq_ok] at h
      obtain ⟨-, -, rfl⟩ := h
      exact .inl (Roles.revoke_held held)

/-- Roles after a transaction: as they were, or what the role call it made has left. -/
inductive Roles.After (admin : ρ) (sender : α) (r : Roles ρ α) :
    Option (RoleCall ρ α) → Roles ρ α → Prop
  | same {asked : Option (RoleCall ρ α)} : After admin sender r asked r
  | called {call : RoleCall ρ α} {r' : Roles ρ α × List (RoleEvent ρ α)}
      (done : call.exec admin sender r = .ok r') : After admin sender r (some call) r'.1

theorem Roles.After.held {admin role : ρ} {sender a : α} {r r' : Roles ρ α}
    {asked : Option (RoleCall ρ α)} (h : Roles.After admin sender r asked r')
    (held : r' role a = true) :
    r role a = true ∨ (asked = some (.grantRole role a) ∧ r admin sender = true) := by
  cases h with
  | same => exact .inl held
  | called done =>
      refine (RoleCall.exec_grants done held).imp_right ?_
      rintro ⟨rfl, hadmin⟩
      exact ⟨rfl, hadmin⟩

omit [DecidableEq ρ] [DecidableEq α] in
/-- Along a history whose steps give out roles through role calls only: whoever holds a
role held it from the start, or an administrator granted it on the way. -/
theorem Roles.granted_of_run {σ ℓ : Type} {next : σ → ℓ → Option σ} {admin : ρ}
    (roles : σ → Roles ρ α) (call : ℓ → Option (RoleCall ρ α)) (sender : ℓ → α) {s₀ s : σ}
    {tr : List (Transition σ ℓ)}
    (step : ∀ s l s' role a, next s l = some s' → roles s' role a = true →
      roles s role a = true ∨
        (call l = some (.grantRole role a) ∧ roles s admin (sender l) = true))
    (h : Run next s₀ tr s) {role : ρ} {a : α} (held : roles s role a = true) :
    roles s₀ role a = true ∨ ∃ t ∈ tr, call t.label = some (.grantRole role a) ∧
      roles t.pre admin (sender t.label) = true := by
  induction h with
  | nil => exact .inl held
  | snoc run hs ih =>
      rcases step _ _ _ _ _ hs held with hold | ⟨hcall, hadmin⟩
      · refine (ih hold).imp_right ?_
        rintro ⟨t, ht, hgrant⟩
        exact ⟨t, List.mem_append_left _ ht, hgrant⟩
      · exact .inr ⟨_, List.mem_append_right _ (List.mem_singleton_self _), hcall, hadmin⟩

end Lib
