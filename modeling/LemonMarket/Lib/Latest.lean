import Mathlib.Data.List.Induction
import Mathlib.Data.List.Sort
import LemonMarket.Lib.Table

/-!
# LemonMarket.Lib.Latest

**The latest item of each class.** A pass over a list keeps one item for each class, and
replaces it by every later one that is not older; items without a class are skipped. What it
keeps of a class is the newest, and the last in the list of those as new (`IsLatest`), which
is unique. Ordered by class, the kept items are a function of what each class keeps
(`ordered_congr`).
-/

namespace Lib

namespace Latest

variable {α κ : Type} [DecidableEq κ] (le : α → α → Bool) (classOf : α → Option κ)

/-- One item of the pass. -/
def keep (kept : Table κ α) (item : α) : Table κ α :=
  match classOf item with
  | none => kept
  | some k =>
      match kept.lookup k with
      | none => kept.insert k item
      | some held => if le held item then kept.insert k item else kept

/-- The pass. -/
def latest (items : List α) : Table κ α := items.foldl (keep le classOf) ∅

/-- The item a class is left with: as new as those of the class before it, and newer than
those after it. -/
def IsLatest (items : List α) (k : κ) (item : α) : Prop :=
  ∃ before after, items = before ++ item :: after ∧ classOf item = some k ∧
    (∀ x ∈ before, classOf x = some k → le x item = true) ∧
    ∀ x ∈ after, classOf x = some k → le item x = false

/-- Items that have a class are ordered by age. -/
structure Aged : Prop where
  total : ∀ {x y}, (classOf x).isSome → (classOf y).isSome → le x y = true ∨ le y x = true
  trans : ∀ {x y z}, le x y = true → le y z = true → le x z = true

variable {le : α → α → Bool} {classOf : α → Option κ} {items : List α} {k : κ} {item other : α}

/-! ### The item a class is left with -/

omit [DecidableEq κ] in
theorem IsLatest.mem (h : IsLatest le classOf items k item) : item ∈ items := by
  obtain ⟨before, after, rfl, -⟩ := h
  exact List.mem_append_right _ List.mem_cons_self

omit [DecidableEq κ] in
theorem IsLatest.class_eq (h : IsLatest le classOf items k item) : classOf item = some k := by
  obtain ⟨-, -, -, hclass, -⟩ := h
  exact hclass

omit [DecidableEq κ] in
/-- Of two that a class could be left with, neither is before the other. -/
theorem IsLatest.unique (h : IsLatest le classOf items k item)
    (h' : IsLatest le classOf items k other) : item = other := by
  obtain ⟨before, after, rfl, hclass, hbefore, hafter⟩ := h
  obtain ⟨before', after', heq, hclass', hbefore', hafter'⟩ := h'
  rcases List.append_eq_append_iff.mp heq with ⟨c, hb, ha⟩ | ⟨c, hb, ha⟩
  · cases c with
    | nil => exact (List.cons.inj ha).1
    | cons x c =>
        obtain ⟨rfl, rfl⟩ := List.cons.inj ha
        have hle := hbefore' item (hb ▸ by simp) hclass
        rw [hafter other (by simp) hclass'] at hle
        cases hle
  · cases c with
    | nil => exact (List.cons.inj ha).1.symm
    | cons x c =>
        obtain ⟨rfl, rfl⟩ := List.cons.inj ha
        have hle := hbefore other (hb ▸ by simp) hclass'
        rw [hafter' item (by simp) hclass] at hle
        cases hle

omit [DecidableEq κ] in
/-- It is at least as new as every item of its class. -/
theorem IsLatest.newest (haged : Aged le classOf) (h : IsLatest le classOf items k item)
    {x : α} (hx : x ∈ items) (hk : classOf x = some k) : le x item = true := by
  obtain ⟨before, after, rfl, hclass, hbefore, hafter⟩ := h
  have hsome : (classOf item).isSome := Option.isSome_of_mem hclass
  rcases List.mem_append.mp hx with hx | hx
  · exact hbefore x hx hk
  · rcases List.mem_cons.mp hx with rfl | hx
    · exact (haged.total hsome hsome).elim id id
    · refine (haged.total (Option.isSome_of_mem hk) hsome).resolve_right ?_
      rw [hafter x hx hk]
      exact Bool.false_ne_true

omit [DecidableEq κ] in
/-- It stays the latest past an item of another class, or one that is older. -/
theorem IsLatest.snoc (h : IsLatest le classOf items k item)
    (hother : classOf other = some k → le item other = false) :
    IsLatest le classOf (items ++ [other]) k item := by
  obtain ⟨before, after, rfl, hclass, hbefore, hafter⟩ := h
  refine ⟨before, after ++ [other], by simp, hclass, hbefore, ?_⟩
  intro x hx hk
  rcases List.mem_append.mp hx with hx | hx
  · exact hafter x hx hk
  · rw [List.mem_singleton.mp hx] at hk ⊢
    exact hother hk

omit [DecidableEq κ] in
/-- The last item is the latest of its class if none before it is newer. -/
theorem isLatest_last (hclass : classOf item = some k)
    (hold : ∀ x ∈ items, classOf x = some k → le x item = true) :
    IsLatest le classOf (items ++ [item]) k item :=
  ⟨items, [], rfl, hclass, hold, by simp⟩

/-! ### What the pass keeps -/

theorem latest_snoc : latest le classOf (items ++ [item]) =
    keep le classOf (latest le classOf items) item := by
  rw [latest, List.foldl_append]
  rfl

theorem lookup_keep_of_ne {kept : Table κ α} (h : classOf item ≠ some k) :
    (keep le classOf kept item).lookup k = kept.lookup k := by
  rw [keep]
  split
  next => rfl
  next k' hclass =>
    have hne : k ≠ k' := fun heq => h (heq ▸ hclass)
    split
    next => exact AList.lookup_insert_ne hne
    next =>
      split
      next => exact AList.lookup_insert_ne hne
      next => rfl

theorem lookup_keep_self {kept : Table κ α} (h : classOf item = some k) :
    (keep le classOf kept item).lookup k =
      some ((kept.lookup k).elim item fun held => if le held item then item else held) := by
  simp only [keep, h]
  cases hheld : kept.lookup k with
  | none => exact AList.lookup_insert _
  | some held =>
      cases hnewer : le held item with
      | true => simp [hnewer, AList.lookup_insert]
      | false => simpa [hnewer] using hheld

/-- A class keeps nothing while it has no item, and the latest from then on. -/
theorem lookup_latest (haged : Aged le classOf) (items : List α) (k : κ) :
    ((latest le classOf items).lookup k = none → ∀ x ∈ items, classOf x ≠ some k) ∧
      ∀ a, (latest le classOf items).lookup k = some a → IsLatest le classOf items k a := by
  induction items using List.reverseRecOn with
  | nil => simp [latest, AList.lookup_empty]
  | append_singleton items x ih =>
      obtain ⟨hnone, hsome⟩ := ih
      rw [latest_snoc]
      -- the last item changes what its class keeps, and no other
      by_cases hclass : classOf x = some k
      · rw [lookup_keep_self hclass]
        refine ⟨nofun, fun a h => ?_⟩
        obtain rfl := Option.some.inj h
        -- the first of its class; or one is held, and the last is as late or earlier
        cases hheld : (latest le classOf items).lookup k with
        | none => exact isLatest_last hclass fun y hy hk => absurd hk (hnone hheld y hy)
        | some held =>
            have hlatest := hsome held hheld
            cases hnewer : le held x with
            | true =>
                simp only [Option.elim_some, hnewer, if_true]
                exact isLatest_last hclass fun y hy hk =>
                  haged.trans (hlatest.newest haged hy hk) hnewer
            | false =>
                simp only [Option.elim_some, hnewer, Bool.false_eq_true, if_false]
                exact hlatest.snoc fun _ => hnewer
      · rw [lookup_keep_of_ne hclass]
        refine ⟨fun h y hy => ?_, fun a h => (hsome a h).snoc fun hk => absurd hk hclass⟩
        rcases List.mem_append.mp hy with hy | hy
        · exact hnone h y hy
        · rwa [List.mem_singleton.mp hy]

theorem lookup_latest_iff (haged : Aged le classOf) :
    (latest le classOf items).lookup k = some item ↔ IsLatest le classOf items k item := by
  obtain ⟨hnone, hsome⟩ := lookup_latest haged items k
  refine ⟨hsome item, fun h => ?_⟩
  cases hkept : (latest le classOf items).lookup k with
  | none => exact absurd h.class_eq (hnone hkept item h.mem)
  | some a => rw [(hsome a hkept).unique h]

/-- A class with an item keeps one. -/
theorem exists_isLatest (haged : Aged le classOf) (hx : item ∈ items)
    (hk : classOf item = some k) : ∃ a, IsLatest le classOf items k a := by
  obtain ⟨hnone, hsome⟩ := lookup_latest haged items k
  cases hkept : (latest le classOf items).lookup k with
  | none => exact absurd hk (hnone hkept item hx)
  | some a => exact ⟨a, hsome a hkept⟩

/-! ### The kept items, by class -/

section

variable [LinearOrder κ] {t u : Table κ α}

/-- The kept items in the order of their classes. -/
def ordered (t : Table κ α) : List α := (t.rows.insertionSort fun a b => a.1 ≤ b.1).map Prod.snd

theorem mem_ordered : item ∈ ordered t ↔ ∃ k, t.lookup k = some item := by
  simp [ordered, List.mem_insertionSort, Table.mem_rows]

omit [DecidableEq κ] in
/-- They ascend by class. -/
theorem pairwise_rows : (t.rows.insertionSort fun a b => a.1 ≤ b.1).Pairwise
    fun a b => a.1 < b.1 := by
  have hsorted : (t.rows.insertionSort fun a b => a.1 ≤ b.1).Pairwise fun a b => a.1 ≤ b.1 :=
    List.pairwise_insertionSort _ _
  have hnodup : ((t.rows.insertionSort fun a b => a.1 ≤ b.1).map Prod.fst).Nodup :=
    ((List.perm_insertionSort _ _).map Prod.fst).nodup_iff.mpr Table.nodup_rows
  refine (hsorted.and (List.pairwise_map.mp hnodup)).imp ?_
  rintro a b ⟨hle, hne⟩
  exact lt_of_le_of_ne hle hne

theorem pairwise_ordered :
    (ordered t).Pairwise fun a b => ∃ k l, t.lookup k = some a ∧ t.lookup l = some b ∧ k < l := by
  refine List.pairwise_map.mpr (pairwise_rows.imp_of_mem ?_)
  rintro ⟨k, a⟩ ⟨l, b⟩ ha hb hlt
  exact ⟨k, l, Table.mem_rows.mp ((List.mem_insertionSort _).mp ha),
    Table.mem_rows.mp ((List.mem_insertionSort _).mp hb), hlt⟩

/-- Tables that keep the same of every class list the same. -/
theorem ordered_congr (h : ∀ k, t.lookup k = u.lookup k) : ordered t = ordered u := by
  have hrows : t.rows.Perm u.rows := by
    refine (List.perm_ext_iff_of_nodup Table.nodup_rows.of_map Table.nodup_rows.of_map).mpr ?_
    rintro ⟨k, a⟩
    rw [Table.mem_rows, Table.mem_rows, h]
  refine congrArg (List.map Prod.snd) (List.Perm.eq_of_pairwise ?_ pairwise_rows pairwise_rows ?_)
  · intro a b _ _ hab hba
    exact absurd hba hab.asymm
  · exact ((List.perm_insertionSort _ _).trans hrows).trans (List.perm_insertionSort _ _).symm

end

/-! ### Passing again, and in another order -/

section

variable [LinearOrder κ]

/-- A second pass keeps what the first one kept. -/
theorem ordered_latest_idem (haged : Aged le classOf) :
    ordered (latest le classOf (ordered (latest le classOf items))) =
      ordered (latest le classOf items) := by
  refine ordered_congr fun k => Option.ext fun a => ?_
  rw [lookup_latest_iff haged]
  constructor
  · intro h
    obtain ⟨k', hk'⟩ := mem_ordered.mp h.mem
    have hsame := ((lookup_latest_iff haged).mp hk').class_eq
    rwa [Option.some.inj (h.class_eq.symm.trans hsame)]
  · intro h
    have hlatest := (lookup_latest_iff haged).mp h
    obtain ⟨before, after, hsplit⟩ := List.append_of_mem (mem_ordered.mpr ⟨k, h⟩)
    have hpair := pairwise_ordered (t := latest le classOf items)
    rw [hsplit, List.pairwise_append, List.pairwise_cons] at hpair
    -- the others are of other classes
    have hother : ∀ {x y : α} {l m : κ}, (latest le classOf items).lookup l = some x →
        (latest le classOf items).lookup m = some y → l < m → classOf x ≠ classOf y := by
      intro x y l m hx hy hlt heq
      rw [((lookup_latest_iff haged).mp hx).class_eq,
        ((lookup_latest_iff haged).mp hy).class_eq] at heq
      exact hlt.ne (Option.some.inj heq)
    refine ⟨before, after, hsplit, hlatest.class_eq, fun x hx hk => ?_, fun x hx hk => ?_⟩
    · obtain ⟨_, _, hl, hm, hlt⟩ := hpair.2.2 x hx a List.mem_cons_self
      exact absurd (hk.trans hlatest.class_eq.symm) (hother hl hm hlt)
    · obtain ⟨_, _, hl, hm, hlt⟩ := hpair.2.1.1 x hx
      exact absurd (hlatest.class_eq.trans hk.symm) (hother hl hm hlt)

/-- Where no two items of a class are as new as one another, their order does not count. -/
theorem ordered_latest_perm (haged : Aged le classOf) {items' : List α} (hperm : items.Perm items')
    (hdistinct : ∀ x ∈ items, ∀ y ∈ items, (classOf x).isSome → (classOf y).isSome →
      le x y = true → le y x = true → x = y) :
    ordered (latest le classOf items) = ordered (latest le classOf items') := by
  -- what either order leaves a class with is the newest of the same items
  have heq : ∀ {k a b}, IsLatest le classOf items k a → IsLatest le classOf items' k b →
      a = b := by
    intro k a b ha hb
    have ha' := hperm.mem_iff.mp ha.mem
    have hb' := hperm.mem_iff.mpr hb.mem
    exact hdistinct a ha.mem b hb' (Option.isSome_of_mem ha.class_eq)
      (Option.isSome_of_mem hb.class_eq) (hb.newest haged ha' ha.class_eq)
      (ha.newest haged hb' hb.class_eq)
  refine ordered_congr fun k => Option.ext fun a => ?_
  rw [lookup_latest_iff haged, lookup_latest_iff haged]
  constructor
  · intro ha
    obtain ⟨b, hb⟩ := exists_isLatest haged (hperm.mem_iff.mp ha.mem) ha.class_eq
    rwa [heq ha hb]
  · intro hb
    obtain ⟨a, ha⟩ := exists_isLatest haged (hperm.mem_iff.mpr hb.mem) hb.class_eq
    rwa [← heq ha hb]

end

end Latest

end Lib
