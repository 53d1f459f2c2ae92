import LemonMarket.Lib.Ledger
import Mathlib.Tactic.Ring

/-!
# LemonMarket.Lib.SharePool

**A pool of assets owned through shares, with exits settled before they are
paid.** The pool holds `idle` assets, has `deployed` others elsewhere, and has
promised `reserved` of the idle ones to claimants whose exit was already priced.
`supply` shares own the rest. Conversions are made at the rate of `worth + 1` to
`supply + V`, where the `V` virtual shares (and the one virtual unit of assets)
keep an empty pool from having no price.

Everything a share vault does is a sequence of a few moves on these five numbers,
so the facts every vault needs are proved once per move:

* `Solvent` : the promises add up to `reserved`, and `reserved` is really here.
* `claims_steps` : only a move that names a claimant touches that claimant.
* `rate_steps` : no move but dilution and a write-down lowers the rate.
-/

namespace Lib

/-- A priced exit: shares already retired, and the assets set aside for them. -/
structure Claim where
  shares : Nat
  assets : Nat
  deriving Repr, DecidableEq

/-- The pool, with a claim for every account `κ`. -/
structure Pool (κ : Type) where
  idle : Nat
  deployed : Nat
  reserved : Nat
  supply : Nat
  claims : κ → Claim

/-- What can happen to a pool. -/
inductive Move (κ : Type)
  /-- Issue shares against nothing: dilution. -/
  | mint (shares : Nat)
  /-- Bring assets in for new shares, no dearer to the pool than its rate. -/
  | subscribe (assets shares : Nat)
  /-- Bring assets in for nothing. -/
  | gift (assets : Nat)
  /-- Retire shares and set their price aside for `claimant`. -/
  | settle (claimant : κ) (shares assets : Nat)
  /-- Pay part of what was set aside. -/
  | pay (claimant : κ) (shares assets : Nat)
  /-- Send assets out; they still belong to the pool. -/
  | deploy (assets : Nat)
  /-- Bring deployed assets back. -/
  | bringBack (assets : Nat)
  /-- State what the deployed assets are now worth. -/
  | restate (deployed : Nat)

namespace Move

variable {κ : Type}

/-- The account whose claim the move changes. -/
def claimant : Move κ → Option κ
  | settle c _ _ | pay c _ _ => some c
  | _ => none

/-- Neither dilution nor a restatement. -/
def Plain : Move κ → Prop
  | mint _ | restate _ => False
  | _ => True

end Move

namespace Pool

variable {κ : Type}

/-- What the shares own. -/
def worth (p : Pool κ) : Nat := p.idle + p.deployed - p.reserved

/-- What is here and promised to nobody. -/
def free (p : Pool κ) : Nat := p.idle - p.reserved

/-! ### The order on rates -/

variable {V : Nat} {p q r : Pool κ} {m : Move κ} {ms : List (Move κ)}

/-- The rate of `p` is at most that of `q`, compared by cross-multiplication. -/
def RateLe (V : Nat) (p q : Pool κ) : Prop :=
  (p.worth + 1) * (q.supply + V) ≤ (q.worth + 1) * (p.supply + V)

theorem RateLe.refl (p : Pool κ) : RateLe V p p := Nat.le_refl _

theorem RateLe.trans (hV : 0 < V) (h₁ : RateLe V p q) (h₂ : RateLe V q r) : RateLe V p r := by
  have hq : 0 < q.supply + V := by omega
  refine Nat.le_of_mul_le_mul_right ?_ hq
  calc (p.worth + 1) * (r.supply + V) * (q.supply + V)
      = (p.worth + 1) * (q.supply + V) * (r.supply + V) := by ring
    _ ≤ (q.worth + 1) * (p.supply + V) * (r.supply + V) := Nat.mul_le_mul_right _ h₁
    _ = (q.worth + 1) * (r.supply + V) * (p.supply + V) := by ring
    _ ≤ (r.worth + 1) * (q.supply + V) * (p.supply + V) := Nat.mul_le_mul_right _ h₂
    _ = (r.worth + 1) * (p.supply + V) * (q.supply + V) := by ring

/-! ### Moves -/

variable [DecidableEq κ]

/-- The state after a move. -/
def apply (p : Pool κ) : Move κ → Pool κ
  | .mint n => { p with supply := p.supply + n }
  | .subscribe a n => { p with idle := p.idle + a, supply := p.supply + n }
  | .gift a => { p with idle := p.idle + a }
  | .settle c n a =>
      { p with
        supply := p.supply - n
        reserved := p.reserved + a
        claims := Function.update p.claims c
          ⟨(p.claims c).shares + n, (p.claims c).assets + a⟩ }
  | .pay c n a =>
      { p with
        idle := p.idle - a
        reserved := p.reserved - a
        claims := Function.update p.claims c
          ⟨(p.claims c).shares - n, (p.claims c).assets - a⟩ }
  | .deploy a => { p with idle := p.idle - a, deployed := p.deployed + a }
  | .bringBack a => { p with idle := p.idle + a, deployed := p.deployed - a }
  | .restate d => { p with deployed := d }

/-- When a move may be made, with `V` virtual shares in the rate. -/
def Allowed (V : Nat) (p : Pool κ) : Move κ → Prop
  | .mint _ | .gift _ | .restate _ => True
  | .subscribe a n => n * (p.worth + 1) ≤ a * (p.supply + V)
  | .settle _ n a =>
      a ≤ p.free ∧ n ≤ p.supply ∧ a * (p.supply + V) ≤ n * (p.worth + 1)
  | .pay c n a => n ≤ (p.claims c).shares ∧ a ≤ (p.claims c).assets
  | .deploy a => a ≤ p.free
  | .bringBack a => a ≤ p.deployed

/-- `Steps V p ms q`: the moves `ms` are allowed one after the other from `p` and
lead to `q`. -/
def Steps (V : Nat) : Pool κ → List (Move κ) → Pool κ → Prop
  | p, [], q => q = p
  | p, m :: ms, q => p.Allowed V m ∧ Steps V (p.apply m) ms q

@[simp] theorem steps_nil : Steps V p [] q ↔ q = p := Iff.rfl

/-! ### Only the named claimant -/

theorem claims_apply {c : κ} (h : m.claimant ≠ some c) : (p.apply m).claims c = p.claims c := by
  cases m with
  | settle d n a => exact Function.update_of_ne (fun e => h (by simp [Move.claimant, e])) ..
  | pay d n a => exact Function.update_of_ne (fun e => h (by simp [Move.claimant, e])) ..
  | _ => rfl

theorem claims_steps {c : κ} (h : Steps V p ms q) (hc : ∀ m ∈ ms, m.claimant ≠ some c) :
    q.claims c = p.claims c := by
  induction ms generalizing p with
  | nil => rw [steps_nil.mp h]
  | cons m ms ih =>
      rw [ih h.2 fun m' hm' => hc m' (List.mem_cons_of_mem _ hm')]
      exact claims_apply (hc m List.mem_cons_self)

/-! ### Solvency -/

/-- A table of claims with one replaced, read off asset by asset. -/
theorem assets_update (f : κ → Claim) (c : κ) (cl : Claim) :
    (fun x => (Function.update f c cl x).assets) =
      Function.update (fun x => (f x).assets) c cl.assets := by
  funext x
  by_cases hx : x = c
  · subst hx; simp
  · simp [hx]

variable [Fintype κ]

/-- The promises add up, and what is promised is here. -/
structure Solvent (p : Pool κ) : Prop where
  reconciled : ∑ c, (p.claims c).assets = p.reserved
  held : p.reserved ≤ p.idle

omit [DecidableEq κ] in
/-- One claim is part of what is reserved. -/
theorem Solvent.claim_le (h : p.Solvent) (c : κ) : (p.claims c).assets ≤ p.reserved :=
  h.reconciled ▸ le_sum (fun c => (p.claims c).assets) c

/-- Every allowed move keeps the pool solvent. -/
theorem Solvent.apply (h : p.Solvent) (ha : p.Allowed V m) : (p.apply m).Solvent := by
  obtain ⟨hsum, hheld⟩ := h
  cases m with
  | mint n => exact ⟨hsum, hheld⟩
  | restate d => exact ⟨hsum, hheld⟩
  | subscribe a n => exact ⟨hsum, Nat.le_add_right_of_le hheld⟩
  | gift a => exact ⟨hsum, Nat.le_add_right_of_le hheld⟩
  | bringBack a => exact ⟨hsum, Nat.le_add_right_of_le hheld⟩
  -- a deployment takes of what is free
  | deploy a =>
      refine ⟨hsum, ?_⟩
      simp only [Allowed, free] at ha
      simp only [Pool.apply]
      omega
  -- a settlement moves free assets to the claims, and a payment takes them out of both
  | settle c n a =>
      obtain ⟨hfree, -, -⟩ := ha
      simp only [free] at hfree
      constructor
      · simp only [Pool.apply]
        rw [assets_update, sum_update_add, hsum]
      · simp only [Pool.apply]
        omega
  | pay c n a =>
      have hle := (Solvent.claim_le ⟨hsum, hheld⟩ c).trans' ha.2
      constructor
      · have hback : ∑ x, Function.update (fun x => (p.claims x).assets) c
              ((p.claims c).assets - a) x + a = p.reserved :=
          hsum ▸ sum_update_sub (fun x => (p.claims x).assets) c a ha.2
        simp only [Pool.apply, assets_update]
        exact Nat.eq_sub_of_add_eq hback
      · simp only [Pool.apply]
        omega

theorem Solvent.steps (h : p.Solvent) (hs : Steps V p ms q) : q.Solvent := by
  induction ms generalizing p with
  | nil => exact steps_nil.mp hs ▸ h
  | cons m ms ih => exact ih (h.apply hs.1) hs.2

omit [DecidableEq κ] in
/-- In a solvent pool the worth is an exact difference. -/
theorem Solvent.worth_add (h : p.Solvent) : p.worth + p.reserved = p.idle + p.deployed := by
  have := h.held
  simp only [worth]
  omega

/-! ### The rate along moves -/

/-- The moves that cannot lower the rate: all but dilution and a write-down. -/
def Sound (p : Pool κ) : Move κ → Prop
  | .mint _ => False
  | .restate d => p.deployed ≤ d
  | _ => True

omit [Fintype κ] [DecidableEq κ] in
theorem sound_of_plain (h : m.Plain) : p.Sound m := by
  cases m with
  | mint n => exact h.elim
  | restate d => exact h.elim
  | _ => trivial

/-- Moving assets between here and elsewhere changes neither worth nor supply. -/
theorem worth_deploy {a : Nat} (h : p.Solvent) (ha : p.Allowed V (.deploy a)) :
    (p.apply (.deploy a)).worth = p.worth := by
  have := h.held
  simp only [Allowed, free] at ha
  simp only [worth, Pool.apply]
  omega

theorem worth_bringBack {a : Nat} (h : p.Solvent) (ha : p.Allowed V (.bringBack a)) :
    (p.apply (.bringBack a)).worth = p.worth := by
  have := h.held
  simp only [Allowed] at ha
  simp only [worth, Pool.apply]
  omega

/-- Paying a claim takes as much off the reserve as off the idle assets. -/
theorem worth_pay {c : κ} {n a : Nat} (h : p.Solvent) (ha : p.Allowed V (.pay c n a)) :
    (p.apply (.pay c n a)).worth = p.worth := by
  have := h.held
  have := (h.claim_le c).trans' ha.2
  simp only [worth, Pool.apply]
  omega

/-- **The rate rule.** An allowed move that is neither dilution nor a write-down
does not lower the rate. -/
theorem rate_apply (h : p.Solvent) (ha : p.Allowed V m) (hm : p.Sound m) :
    RateLe V p (p.apply m) := by
  have hheld := h.held
  cases m with
  | mint n => exact hm.elim
  | deploy a => exact Nat.le_of_eq (by rw [worth_deploy h ha]; rfl)
  | bringBack a => exact Nat.le_of_eq (by rw [worth_bringBack h ha]; rfl)
  | pay c n a => exact Nat.le_of_eq (by rw [worth_pay h ha]; rfl)
  | gift a =>
      refine Nat.mul_le_mul_right _ ?_
      simp only [worth, Pool.apply]
      omega
  | restate d =>
      refine Nat.mul_le_mul_right _ ?_
      simp only [Sound] at hm
      simp only [worth, Pool.apply]
      omega
  | subscribe a n =>
      have hw : (p.apply (.subscribe a n)).worth = p.worth + a := by
        simp only [worth, Pool.apply]
        omega
      simp only [RateLe, hw]
      -- cleared of denominators, the price paid is what the new shares are charged
      calc (p.worth + 1) * (p.supply + n + V)
          = (p.worth + 1) * (p.supply + V) + n * (p.worth + 1) := by ring
        _ ≤ (p.worth + 1) * (p.supply + V) + a * (p.supply + V) := Nat.add_le_add_left ha _
        _ = (p.worth + a + 1) * (p.supply + V) := by ring
  | settle c n a =>
      obtain ⟨hfree, hn, hprice⟩ := ha
      simp only [free] at hfree
      have hw : (p.apply (.settle c n a)).worth + a = p.worth := by
        simp only [worth, Pool.apply]
        omega
      have hs : (p.apply (.settle c n a)).supply + n = p.supply := Nat.sub_add_cancel hn
      simp only [RateLe]
      generalize (p.apply (.settle c n a)).worth = w at hw
      generalize (p.apply (.settle c n a)).supply = s at hs
      rw [← hw, ← hs] at hprice ⊢
      have hsplit : (w + a + 1) * (s + V) + n * (w + a + 1) =
          (w + 1) * (s + n + V) + a * (s + n + V) := by ring
      omega

theorem rate_steps (hV : 0 < V) (h : p.Solvent) (hs : Steps V p ms q)
    (hm : ∀ m ∈ ms, m.Plain) : RateLe V p q := by
  induction ms generalizing p with
  | nil => rw [steps_nil.mp hs]; exact .refl p
  | cons m ms ih =>
      have hfirst := rate_apply h hs.1 (sound_of_plain (hm m List.mem_cons_self))
      exact hfirst.trans hV
        (ih (h.apply hs.1) hs.2 fun m' hm' => hm m' (List.mem_cons_of_mem _ hm'))

end Pool

end Lib
