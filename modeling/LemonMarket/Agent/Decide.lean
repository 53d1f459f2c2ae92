import LemonMarket.Agent.Offers

/-!
# LemonMarket.Agent.Decide

**Obligations survive the option list, and the advisor.** Five stages push to one list,
replace it or return early. `permittedActions_cases` says which lists can come of it: the
urgent unwind alone, a forced correction alone, or the stages in order with `hold` at the
end. From these: the list always has an answer, never two holds or two unwinds, and what
the queue is owed comes first unless a forced correction stands alone.

`Policy.decide` then asks an advisor that may be absent, fail, or answer anything. Its
answer only ever picks from the list, and is not asked for when the first option is forced.
-/

namespace LemonMarket

namespace Agent

open LemonVault (bps)

/-! ### The advisory layer -/

structure Advice where
  kind : ActionKind
  market : Option String
  rationale : String
  fellBack : Bool

structure AdviceRequest where
  snapshot : VaultSnapshot
  options : List Decision
  now : Nat

/-- What answers a request, or throws with a message. -/
abbrev Advisor := AdviceRequest → Except String Advice

/-- Where the text of a decision's rationale comes from. -/
inductive Rationale
  | reason
  | reasonIgnoring (kind : ActionKind)
  | reasonWithout (error : String)
  | advised (text : String)
  deriving Repr, DecidableEq

structure Decided where
  decision : Decision
  rationale : Rationale
  advised : Bool
  deriving Repr, DecidableEq

/-- The option an answer names: the one of its kind and market, or the first of its
kind. An empty market is as good as none. -/
def chosenBy (toUpperCase : String → String) (options : List Decision) (advice : Advice) :
    Option Decision :=
  let named := (advice.market.map toUpperCase).filter fun name => name ≠ ""
  let matching := match named with
    | some name => options.find? fun (o : Decision) => o.kind = advice.kind ∧ o.market = some name
    | none => none
  matching.or (options.find? fun (o : Decision) => o.kind = advice.kind)

/-- `decide` of `policy.ts`, by how the language upper-cases a string. The source reads the
first option of the list; on an empty one it would throw. -/
def Policy.decide (toUpperCase : String → String) (cfg : Settings) (snapshot : VaultSnapshot)
    (now : Nat) (advisor : Option Advisor) : Option Decided :=
  let options := permittedActions cfg snapshot now
  match options.head?, advisor with
  | none, _ => none
  | some fallback, none => some ⟨fallback, .reason, false⟩
  | some fallback, some advisor =>
      if options.length = 1 ∨ fallback.forced then some ⟨fallback, .reason, false⟩
      else
        match advisor ⟨snapshot, options, now⟩ with
        | .error message => some ⟨fallback, .reasonWithout message, false⟩
        | .ok advice =>
            match chosenBy toUpperCase options advice with
            | none => some ⟨fallback, .reasonIgnoring advice.kind, false⟩
            | some chosen => some ⟨chosen, .advised advice.rationale, !advice.fellBack⟩

variable {cfg : Settings} {s : VaultSnapshot} {d : Decision} {now : Nat}

/-! ### The shape of the list -/

/-- A correction that does not stand alone is a top-up or does nothing. -/
theorem mandateCorrection_joins (h : mandateCorrection cfg s = some d)
    (hjoins : ¬ (d.forced ∧ d.kind ≠ .hold)) : d.kind = .topUpMargin ∨ d.kind = .hold := by
  obtain ⟨-, breached, -, h | ⟨-, h⟩⟩ := mandateCorrection_some h
  · obtain ⟨_, _, -, -, -, rfl⟩ := marginTopUp_some h
    exact .inl rfl
  · have hforced := (deleverage_some h).1
    exact .inr (not_not.mp fun hkind => hjoins ⟨hforced, hkind⟩)

/-- A correction that stands alone is a top-up or an unwind. -/
theorem mandateCorrection_alone (h : mandateCorrection cfg s = some d) (hkind : d.kind ≠ .hold) :
    d.kind = .topUpMargin ∨ d.kind = .unwind := by
  rcases mandateCorrection_kind h with htopUp | hunwind | hhold
  · exact .inl htopUp
  · exact .inr hunwind
  · exact absurd hhold hkind

/-- **The three lists there can be without a close order.** -/
theorem permittedActions_cases (cfg : Settings) (now : Nat) (hclose : s.closeRequested = false) :
    (∃ owed, redemptionUnwind s now = some owed ∧ permittedActions cfg s now = [owed]) ∨
    (∃ correction, mandateCorrection cfg s = some correction ∧ correction.forced ∧
      correction.kind ≠ .hold ∧ permittedActions cfg s now = [correction]) ∨
    (permittedActions cfg s now = discretionary cfg s
        ((firstUnwind cfg s now).toList ++ (mandateCorrection cfg s).toList) ∧
      ∀ correction, mandateCorrection cfg s = some correction →
        correction.kind = .topUpMargin ∨ correction.kind = .hold) := by
  unfold permittedActions
  simp only [hclose, Bool.false_eq_true, if_false, firstUnwind_toList]
  split
  next hurgent =>
    cases howed : redemptionUnwind s now with
    | none => simp [howed] at hurgent
    | some owed => exact .inl ⟨owed, rfl, rfl⟩
  next =>
    right
    cases hcorrection : mandateCorrection cfg s with
    | none => exact .inr ⟨by simp, by simp⟩
    | some correction =>
        by_cases hforced : correction.forced ∧ correction.kind ≠ .hold
        · exact .inl ⟨correction, rfl, hforced.1, hforced.2, by simp [hforced]⟩
        · refine .inr ⟨by simp [hforced], ?_⟩
          intro c hc
          obtain rfl := Option.some.inj hc
          exact mandateCorrection_joins hcorrection hforced

/-- How many options of a kind there are. -/
def countKind (kind : ActionKind) (options : List Decision) : Nat :=
  options.countP fun (o : Decision) => o.kind = kind

@[simp] theorem countKind_nil (kind : ActionKind) : countKind kind [] = 0 := rfl

@[simp] theorem countKind_append (kind : ActionKind) (a b : List Decision) :
    countKind kind (a ++ b) = countKind kind a + countKind kind b :=
  List.countP_append

theorem countKind_eq_zero {kind : ActionKind} {options : List Decision}
    (h : ∀ o ∈ options, o.kind ≠ kind) : countKind kind options = 0 := by
  unfold countKind
  rw [List.countP_eq_zero]
  intro o ho
  simpa using h o ho

theorem countKind_le_length (kind : ActionKind) (options : List Decision) :
    countKind kind options ≤ options.length := List.countP_le_length

/-- Drift and growth neither unwind nor hold. -/
theorem countKind_growth (cfg : Settings) (s : VaultSnapshot) {kind : ActionKind}
    (hrebalance : kind ≠ .rebalance) (hdeploy : kind ≠ .deploy) :
    countKind kind (rebalances s ++ (nextDeployment cfg s).toList) = 0 := by
  apply countKind_eq_zero
  intro o ho
  rcases List.mem_append.mp ho with ho | ho
  · obtain ⟨m, -, -, rfl⟩ := mem_rebalances.mp ho
    exact hrebalance.symm
  · obtain ⟨source, -, -, market, -, hopen⟩ := nextDeployment_some (Option.mem_toList.mp ho)
    obtain ⟨spend, legs, -, -, -, rfl⟩ := openPosition_some hopen
    exact hdeploy.symm

/-- The last stages keep the number of unwinds, and see that somebody holds. -/
theorem countKind_discretionary (cfg : Settings) (s : VaultSnapshot) (options : List Decision) :
    countKind .unwind (discretionary cfg s options) = countKind .unwind options ∧
      countKind .hold (discretionary cfg s options) = max 1 (countKind .hold options) := by
  have hunwind := countKind_growth cfg s (show ActionKind.unwind ≠ .rebalance by decide) (by decide)
  have hhold := countKind_growth cfg s (show ActionKind.hold ≠ .rebalance by decide) (by decide)
  simp only [discretionary, List.append_assoc]
  split
  next hany =>
    -- One holds already, and nothing is appended.
    simp only [countKind_append, ← Nat.add_assoc] at hunwind hhold ⊢
    have hpos :
        0 < countKind .hold (options ++ (rebalances s ++ (nextDeployment cfg s).toList)) := by
      apply List.countP_pos_iff.mpr
      exact List.any_eq_true.mp hany
    simp only [countKind_append] at hpos
    omega
  next hnone =>
    -- None does, and the catch-all is the one.
    have hzero : countKind .hold options = 0 := by
      apply countKind_eq_zero
      intro o ho hkind
      apply hnone
      simp only [List.any_append, Bool.or_eq_true]
      exact .inl (List.any_eq_true.mpr ⟨o, ho, by simpa using hkind⟩)
    simp only [countKind_append] at hunwind hhold ⊢
    have hlast : countKind .hold [{ kind := .hold }] = 1 ∧
        countKind .unwind [{ kind := .hold }] = 0 := by decide
    omega

/-- Never two unwinds, and never two holds. -/
theorem permittedActions_counts (cfg : Settings) (now : Nat) (hclose : s.closeRequested = false) :
    countKind .hold (permittedActions cfg s now) ≤ 1 ∧
      countKind .unwind (permittedActions cfg s now) ≤ 1 := by
  rcases permittedActions_cases cfg now hclose with
    ⟨owed, -, h⟩ | ⟨correction, -, -, -, h⟩ | ⟨h, hjoins⟩
  · rw [h]
    exact ⟨countKind_le_length .hold [owed], countKind_le_length .unwind [owed]⟩
  · rw [h]
    exact ⟨countKind_le_length .hold [correction], countKind_le_length .unwind [correction]⟩
  · obtain ⟨hunwind, hhold⟩ := countKind_discretionary cfg s
      ((firstUnwind cfg s now).toList ++ (mandateCorrection cfg s).toList)
    rw [h, hunwind, hhold, countKind_append, countKind_append]
    -- The first stage is where the unwind comes from, the second the hold.
    have hfirst : countKind .hold (firstUnwind cfg s now).toList = 0 := by
      apply countKind_eq_zero
      intro o ho hkind
      obtain ⟨hunwind, -⟩ := firstUnwind_some (Option.mem_toList.mp ho)
      simp [hunwind] at hkind
    have hsecond : countKind .unwind (mandateCorrection cfg s).toList = 0 := by
      apply countKind_eq_zero
      intro o ho hkind
      rcases hjoins o (Option.mem_toList.mp ho) with hk | hk <;> simp [hk] at hkind
    have hfirstLen := countKind_le_length .unwind (firstUnwind cfg s now).toList
    have hsecondLen := countKind_le_length .hold (mandateCorrection cfg s).toList
    have hone : ∀ o : Option Decision, o.toList.length ≤ 1 := by
      intro o
      cases o <;> simp
    have hone₁ := hone (firstUnwind cfg s now)
    have hone₂ := hone (mandateCorrection cfg s)
    omega

/-- The last stages only ever append. -/
theorem discretionary_prefix (cfg : Settings) (s : VaultSnapshot) (options : List Decision) :
    options <+: discretionary cfg s options := by
  have hstages : options <+: options ++ rebalances s ++ (nextDeployment cfg s).toList := by
    rw [List.append_assoc]
    exact List.prefix_append _ _
  simp only [discretionary]
  split
  next => exact hstages
  next => exact hstages.trans (List.prefix_append _ _)

theorem permittedActions_ne_nil : permittedActions cfg s now ≠ [] := by
  cases hclose : s.closeRequested with
  | true =>
      simp only [permittedActions, hclose, if_true]
      split <;> simp
  | false =>
      rcases permittedActions_cases cfg now hclose with
        ⟨owed, -, h⟩ | ⟨correction, -, -, -, h⟩ | ⟨h, -⟩
      · simp [h]
      · simp [h]
      · intro hnil
        obtain ⟨-, hhold⟩ := countKind_discretionary cfg s
          ((firstUnwind cfg s now).toList ++ (mandateCorrection cfg s).toList)
        rw [← h, hnil, countKind_nil] at hhold
        omega

/-! ### The queue -/

/-- What is owed beyond what is free, as far as it can be raised. -/
def reachableShortfall (s : VaultSnapshot) : Nat :=
  min (s.ripeRedeemAssets - s.freeAssets) (min s.deployedAssets (sellableValue s))

theorem reachableShortfall_le_owed : reachableShortfall s ≤ owedUnwind s :=
  min_le_min_right _ (Nat.le_add_right _ _)

/-- The list starts with an unwind of at least what is owed. -/
def ServesQueue (s : VaultSnapshot) (options : List Decision) : Prop :=
  ∃ first rest, options = first :: rest ∧ first.kind = .unwind ∧
    reachableShortfall s ≤ first.amount

/-- **What is owed comes first**, unless the list is one forced correction. -/
theorem owed_first (cfg : Settings) (now : Nat) (hclose : s.closeRequested = false)
    (hpos : 0 < reachableShortfall s) :
    ServesQueue s (permittedActions cfg s now) ∨
      ∃ correction, permittedActions cfg s now = [correction] ∧ correction.forced ∧
        mandateCorrection cfg s = some correction ∧
        (correction.kind = .topUpMargin ∨ correction.kind = .unwind) := by
  have howed : redemptionUnwind s now =
      some { kind := .unwind, amount := owedUnwind s, forced := urgent s now } := by
    rw [redemptionUnwind_eq, if_pos (hpos.trans_le reachableShortfall_le_owed)]
  rcases permittedActions_cases cfg now hclose with
    ⟨owed, ho, h⟩ | ⟨correction, hcorrection, hforced, hkind, h⟩ | ⟨h, -⟩
  · obtain rfl := Option.some.inj (ho.symm.trans howed)
    exact .inl ⟨_, [], h, rfl, reachableShortfall_le_owed⟩
  · exact .inr ⟨correction, h, hforced, hcorrection, mandateCorrection_alone hcorrection hkind⟩
  · left
    have hfirst : firstUnwind cfg s now =
        some { kind := .unwind, amount := owedUnwind s, forced := urgent s now } := by
      rw [firstUnwind, howed]
      rfl
    obtain ⟨rest, hrest⟩ := discretionary_prefix cfg s
      ((firstUnwind cfg s now).toList ++ (mandateCorrection cfg s).toList)
    rw [h, ← hrest, hfirst]
    exact ⟨_, _, rfl, rfl, reachableShortfall_le_owed⟩

/-- A correction that only holds does not displace it. -/
theorem owed_first_of_hold (hclose : s.closeRequested = false) (hpos : 0 < reachableShortfall s)
    (h : mandateCorrection cfg s = some d) (hkind : d.kind = .hold) :
    ServesQueue s (permittedActions cfg s now) := by
  rcases owed_first cfg now hclose hpos with
    hserves | ⟨correction, -, -, hcorrection, hk⟩
  · exact hserves
  · obtain rfl := Option.some.inj (hcorrection.symm.trans h)
    rcases hk with hk | hk <;> simp [hk] at hkind

/-! ### The advisor -/

theorem chosenBy_mem {toUpperCase : String → String} {options : List Decision} {advice : Advice}
    (h : chosenBy toUpperCase options advice = some d) : d ∈ options := by
  simp only [chosenBy] at h
  rcases Option.or_eq_some_iff.mp h with h | ⟨-, h⟩
  · split at h
    next => exact List.mem_of_find?_eq_some h
    next => cases h
  · exact List.mem_of_find?_eq_some h

/-- **Whatever the advisor does**, the decision is on the list, and it is the first option
when that one is forced. -/
theorem decide_mem (toUpperCase : String → String) (advisor : Option Advisor) :
    ∃ decided, Policy.decide toUpperCase cfg s now advisor = some decided ∧
      decided.decision ∈ permittedActions cfg s now ∧
      ∀ first ∈ (permittedActions cfg s now).head?, first.forced → decided.decision = first := by
  cases hoptions : permittedActions cfg s now with
  | nil => exact absurd hoptions permittedActions_ne_nil
  | cons fallback rest =>
      have hfirst : fallback ∈ fallback :: rest := List.mem_cons_self
      unfold Policy.decide
      simp only [hoptions, List.head?_cons, Option.mem_some_iff, forall_eq']
      cases advisor with
      | none => exact ⟨_, rfl, hfirst, fun _ => rfl⟩
      | some advisor =>
          simp only
          split
          next => exact ⟨_, rfl, hfirst, fun _ => rfl⟩
          next hasked =>
            -- The advisor is not asked past a forced option.
            have hfree : ¬ fallback.forced := fun hf => hasked (.inr hf)
            split
            next => exact ⟨_, rfl, hfirst, fun _ => rfl⟩
            next advice _ =>
              split
              next => exact ⟨_, rfl, hfirst, fun _ => rfl⟩
              next chosen hchosen =>
                exact ⟨_, rfl, chosenBy_mem hchosen, fun hf => absurd hf hfree⟩

/-- **Obligations survive the option list.** A close order leaves one forced option, to
close or, flat, to hold. Without one there is always an option, at most one hold and at
most one unwind; ripe redemptions the vault cannot pay, with anything reachable, put an
unwind of at least the smaller of the two first, unless the list is one forced top-up or
unwind correction, and a forced hold never takes its place. And whatever the advisor does,
`decide` answers with an element of the list, the first one when that is forced. -/
theorem obligations_survive (cfg : Settings) (s : VaultSnapshot) (now : Nat) :
    (s.closeRequested = true → permittedActions cfg s now =
      [{ kind := if isFlat s then .hold else .closeAll, forced := true }]) ∧
    (s.closeRequested = false →
      permittedActions cfg s now ≠ [] ∧
      countKind .hold (permittedActions cfg s now) ≤ 1 ∧
      countKind .unwind (permittedActions cfg s now) ≤ 1 ∧
      (s.freeAssets < s.ripeRedeemAssets → 1 ≤ min s.deployedAssets (sellableValue s) →
        (ServesQueue s (permittedActions cfg s now) ∨
          ∃ correction, permittedActions cfg s now = [correction] ∧ correction.forced ∧
            mandateCorrection cfg s = some correction ∧
            (correction.kind = .topUpMargin ∨ correction.kind = .unwind)) ∧
        ∀ correction, mandateCorrection cfg s = some correction → correction.kind = .hold →
          ServesQueue s (permittedActions cfg s now))) ∧
    ∀ (toUpperCase : String → String) (advisor : Option Advisor), ∃ decided,
      Policy.decide toUpperCase cfg s now advisor = some decided ∧
      decided.decision ∈ permittedActions cfg s now ∧
      ∀ first ∈ (permittedActions cfg s now).head?, first.forced → decided.decision = first := by
  refine ⟨?_, ?_, fun toUpperCase advisor => decide_mem toUpperCase advisor⟩
  · intro hclose
    simp only [permittedActions, hclose, if_true]
    split <;> rfl
  · intro hclose
    obtain ⟨hhold, hunwind⟩ := permittedActions_counts cfg now hclose
    refine ⟨permittedActions_ne_nil, hhold, hunwind, ?_⟩
    intro hshort hreachable
    have hpos : 0 < reachableShortfall s := lt_min (Nat.sub_pos_of_lt hshort) hreachable
    exact ⟨owed_first cfg now hclose hpos, fun correction => owed_first_of_hold hclose hpos⟩

end Agent

end LemonMarket
