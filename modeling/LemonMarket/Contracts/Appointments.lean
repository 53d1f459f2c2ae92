import LemonMarket.Contracts.FundCustody

/-!
# LemonMarket.Contracts.Appointments

**Where authority over the factory and the fund comes from.** Both hand their roles out
through one table each, and nothing else they do writes it. So whoever may create vaults or
move the fund's value was named by the constructor, or appointed by an administrator who
held that role when they did it.
-/

namespace LemonMarket

open Lib

namespace Platform

variable {p q : Platform} {tx : PlatformTx}

/-- A transaction gives out the factory's roles by a role call alone. -/
theorem next_factoryRoles (hn : p.next tx = some q) {role : FactoryRole} {a : Address}
    (held : q.factory.roles role a = true) :
    p.factory.roles role a = true ∨
      (tx.call.factoryRoles = some (.grantRole role a) ∧
        p.factory.roles .defaultAdmin tx.msg.sender = true) := by
  obtain ⟨-, -, -, q', hstep, rfl⟩ := next_ok hn
  cases hstep with
  | token | vault => exact .inl held
  | create target created authority done =>
      obtain ⟨-, -, -, -, rfl⟩ := VaultFactory.create_ok done
      exact .inl held
  | terms target created registry roles self => exact roles.held held

/-- A transaction gives out the fund's roles by a role call alone. -/
theorem next_fundRoles (hn : p.next tx = some q) {role : FundRole} {a : Address}
    (held : q.fund.roles role a = true) :
    p.fund.roles role a = true ∨
      (tx.call.fundRoles = some (.grantRole role a) ∧
        p.fund.roles .defaultAdmin tx.msg.sender = true) := by
  obtain ⟨-, -, -, q', hstep, rfl⟩ := next_ok hn
  cases hstep with
  | @token _ _ _ fund target created may done self roles =>
      exact .inl (roles ▸ held)
  | @vault _ _ _ _ _ fund target created found may done self roles =>
      exact .inl (roles ▸ held)
  | create => exact .inl held
  | terms target created registry factoryRoles self roles => exact roles.held held

/-- A creation is a vault admin's. -/
theorem next_creates (hn : p.next tx = some q) {a : NonzeroAddress}
    (hcall : tx.call.created = some a) : p.factory.roles .vaultAdmin tx.msg.sender = true := by
  obtain ⟨-, -, -, q', hstep, rfl⟩ := next_ok hn
  cases hstep with
  | token target created => simp [created] at hcall
  | vault target created => simp [created] at hcall
  | create target created authority => exact authority
  | terms target created => simp [created] at hcall

/-- **Authority is traced.** Along every run each vault was created by somebody holding the
vault admin's role at the time; and whoever holds a role of the factory or of the fund held
it at the start, or was granted it by somebody who held the administrator's role then. -/
theorem authority_traced {p₀ : Platform} {tr : List (Transition Platform PlatformTx)}
    (hrun : Run Platform.next p₀ tr p) :
    (∀ t ∈ tr, ∀ a, t.label.call.created = some a →
      t.pre.factory.roles .vaultAdmin t.label.msg.sender = true) ∧
    (∀ role a, p.factory.roles role a = true → p₀.factory.roles role a = true ∨
      ∃ t ∈ tr, t.label.call.factoryRoles = some (.grantRole role a) ∧
        t.pre.factory.roles .defaultAdmin t.label.msg.sender = true) ∧
    (∀ role a, p.fund.roles role a = true → p₀.fund.roles role a = true ∨
      ∃ t ∈ tr, t.label.call.fundRoles = some (.grantRole role a) ∧
        t.pre.fund.roles .defaultAdmin t.label.msg.sender = true) := by
  refine ⟨fun t ht a ha => next_creates (hrun.step_of_mem t ht) ha, ?_, ?_⟩
  · intro role a held
    exact Roles.granted_of_run (fun p => p.factory.roles) (fun tx => tx.call.factoryRoles)
      (fun tx => tx.msg.sender) (fun _ _ _ _ _ hn hheld => next_factoryRoles hn hheld) hrun held
  · intro role a held
    exact Roles.granted_of_run (fun p => p.fund.roles) (fun tx => tx.call.fundRoles)
      (fun tx => tx.msg.sender) (fun _ _ _ _ _ hn hheld => next_fundRoles hn hheld) hrun held

end Platform

namespace Test

/-- The administrator appoints Alice, and she creates a vault. -/
def appointments : List PlatformTx :=
  [platformTx admin 0 (.factory (.roles (.grantRole .vaultAdmin alice))),
   platformTx alice 0 (.factory (.createVault vault (newVault 1 agent)))]

theorem appointments_isSome : (trace Platform.next platform appointments).isSome := by rfl

def appointmentsRun : List (Transition Platform PlatformTx) :=
  (Option.get _ appointments_isSome).1

def appointed : Platform := (Option.get _ appointments_isSome).2

theorem appointments_run : Run Platform.next platform appointmentsRun appointed :=
  trace_run (Option.some_get appointments_isSome).symm

end Test

namespace Platform

/-- Alice created her vault as a vault admin, and was made one by an administrator. -/
theorem authority_traced_appointed :
    (∃ t ∈ Test.appointmentsRun, t.label.call.created = some Test.vault ∧
      t.pre.factory.roles .vaultAdmin t.label.msg.sender = true) ∧
    ∃ t ∈ Test.appointmentsRun,
      t.label.call.factoryRoles = some (.grantRole .vaultAdmin Test.alice.val) ∧
        t.pre.factory.roles .defaultAdmin t.label.msg.sender = true := by
  obtain ⟨hcreated, hfactory, -⟩ := authority_traced Test.appointments_run
  constructor
  · have hcreation : Test.appointmentsRun.any
        (fun t => t.label.call.created = some Test.vault) = true := by rfl
    obtain ⟨t, ht, hcreates⟩ := List.any_eq_true.mp hcreation
    exact ⟨t, ht, of_decide_eq_true hcreates, hcreated t ht _ (of_decide_eq_true hcreates)⟩
  · have hunappointed : Test.platform.factory.roles .vaultAdmin Test.alice = false := by rfl
    have happointed : Test.appointed.factory.roles .vaultAdmin Test.alice = true := by rfl
    have htraced := hfactory .vaultAdmin Test.alice happointed
    rw [hunappointed] at htraced
    exact htraced.resolve_left Bool.false_ne_true

end Platform

end LemonMarket
