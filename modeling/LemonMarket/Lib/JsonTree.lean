import Mathlib.Data.List.Nodup
import Mathlib.Data.List.Sort

/-!
# LemonMarket.Lib.JsonTree

**Trees of arrays and keyed objects.** An object is its entries, in the order they were put in;
its keys may be of any type, and so may the leaves. A function of the tree is a `fold`, and a
property of every object's keys an `Every`.

* An `Arrangement` selects and orders the entries of an object by their keys alone, and
  `arrange` does so at every level. Two of them in a row are one (`arrange_arrange`), and a fold
  over an arranged tree is a fold (`fold_arrange`).
* Where keys are distinct, an arrangement is what it does to lists of keys: two trees arranged
  in two ways are equal exactly when the keys are at every level (`arrange_eq_iff`), and one that
  does not look at the order of the keys does not see a reordering (`arrange_of_reordered`).
-/

namespace Lib

inductive JsonTree (κ ν : Type)
  | leaf (value : ν)
  | array (items : List (JsonTree κ ν))
  | object (entries : List (κ × JsonTree κ ν))

namespace JsonTree

variable {κ ν α : Type}

/-- Induction over the items of an array and the values of an object. -/
theorem induct {P : JsonTree κ ν → Prop} (leaf : ∀ value, P (.leaf value))
    (array : ∀ items, (∀ v ∈ items, P v) → P (.array items))
    (object : ∀ entries, (∀ e ∈ entries, P e.2) → P (.object entries)) : ∀ v, P v
  | .leaf value => leaf value
  | .array items => array items fun v _ => induct leaf array object v
  | .object entries => object entries fun e _ => induct leaf array object e.2
termination_by v => sizeOf v
decreasing_by
  · have hmem := List.sizeOf_lt_of_mem ‹v ∈ items›
    simp only [JsonTree.array.sizeOf_spec]
    omega
  · have hmem := List.sizeOf_lt_of_mem ‹e ∈ entries›
    rcases e with ⟨k, v⟩
    simp only [Prod.mk.sizeOf_spec, JsonTree.object.sizeOf_spec] at hmem ⊢
    omega

/-! ### Folds -/

section Fold

variable (leaf : ν → α) (array : List α → α) (object : List (κ × α) → α)

mutual

def fold : JsonTree κ ν → α
  | .leaf value => leaf value
  | .array items => array (foldItems items)
  | .object entries => object (foldEntries entries)

def foldItems : List (JsonTree κ ν) → List α
  | [] => []
  | v :: vs => fold v :: foldItems vs

def foldEntries : List (κ × JsonTree κ ν) → List (κ × α)
  | [] => []
  | (k, v) :: es => (k, fold v) :: foldEntries es

end

@[simp] theorem fold_leaf (value : ν) :
    fold leaf array object (.leaf value : JsonTree κ ν) = leaf value := rfl

@[simp] theorem fold_array (items : List (JsonTree κ ν)) :
    fold leaf array object (.array items) = array (items.map (fold leaf array object)) := by
  have hitems : foldItems leaf array object items = items.map (fold leaf array object) := by
    induction items with
    | nil => rfl
    | cons v vs ih => rw [foldItems, ih, List.map_cons]
  rw [fold, hitems]

@[simp] theorem fold_object (entries : List (κ × JsonTree κ ν)) :
    fold leaf array object (.object entries) =
      object (entries.map (Prod.map id (fold leaf array object))) := by
  have hentries : foldEntries leaf array object entries =
      entries.map (Prod.map id (fold leaf array object)) := by
    induction entries with
    | nil => rfl
    | cons e es ih => rw [foldEntries, ih, List.map_cons]; rfl
  rw [fold, hentries]

end Fold

/-! ### What holds at every level -/

/-- The keys of every object in the tree satisfy `P`. -/
inductive Every (P : List κ → Prop) : JsonTree κ ν → Prop
  | leaf (value : ν) : Every P (.leaf value)
  | array {items : List (JsonTree κ ν)} (items_every : ∀ v ∈ items, Every P v) :
      Every P (.array items)
  | object {entries : List (κ × JsonTree κ ν)} (keys : P (entries.map Prod.fst))
      (values_every : ∀ e ∈ entries, Every P e.2) : Every P (.object entries)

variable {P Q : List κ → Prop} {v w : JsonTree κ ν}

theorem every_array {items : List (JsonTree κ ν)} :
    Every P (.array items) ↔ ∀ v ∈ items, Every P v :=
  ⟨fun h => by cases h; assumption, .array⟩

theorem every_object {entries : List (κ × JsonTree κ ν)} :
    Every P (.object entries) ↔ P (entries.map Prod.fst) ∧ ∀ e ∈ entries, Every P e.2 :=
  ⟨fun h => by cases h; exact ⟨‹_›, ‹_›⟩, fun h => .object h.1 h.2⟩

theorem Every.imp (h : Every P v) (hPQ : ∀ keys, P keys → Q keys) : Every Q v := by
  induction h with
  | leaf value => exact .leaf value
  | array _ ih => exact .array ih
  | object keys _ ih => exact .object (hPQ _ keys) ih

theorem Every.and (hP : Every P v) (hQ : Every Q v) : Every (fun keys => P keys ∧ Q keys) v := by
  induction hP with
  | leaf value => exact .leaf value
  | array _ ih => exact .array fun v hv => ih v hv (every_array.mp hQ v hv)
  | object keys _ ih =>
      obtain ⟨hkeys, hvalues⟩ := every_object.mp hQ
      exact .object ⟨keys, hkeys⟩ fun e he => ih e he (hvalues e he)

/-! ### Arrangements -/

/-- Changing the values leaves the keys. -/
theorem fst_map {β : Type} (f : α → β) (entries : List (κ × α)) :
    (entries.map (Prod.map id f)).map Prod.fst = entries.map Prod.fst := by
  rw [List.map_map]
  rfl

@[simp] theorem fst_unit (keys : List κ) : (keys.map fun k => (k, ())).map Prod.fst = keys := by
  rw [List.map_map]
  exact List.map_id keys

/-- A way to select and order entries by their keys: it does not look at the values. -/
structure Arrangement (κ : Type) where
  of : {α : Type} → List (κ × α) → List (κ × α)
  of_map : ∀ {α β : Type} (f : α → β) (entries : List (κ × α)),
    of (entries.map (Prod.map id f)) = (of entries).map (Prod.map id f)
  of_subset : ∀ {α : Type} (entries : List (κ × α)), of entries ⊆ entries

namespace Arrangement

variable (g h : Arrangement κ)

/-- What it does to the keys. -/
def keys (keys : List κ) : List κ := (g.of (keys.map fun k => (k, ()))).map Prod.fst

theorem fst_of (entries : List (κ × α)) :
    (g.of entries).map Prod.fst = g.keys (entries.map Prod.fst) := by
  have hunit : (entries.map Prod.fst).map (fun k => (k, ())) =
      entries.map (Prod.map id fun _ => ()) := by
    rw [List.map_map]
    rfl
  rw [keys, hunit, g.of_map, List.map_map]
  rfl

/-- One after the other. -/
def comp : Arrangement κ where
  of entries := g.of (h.of entries)
  of_map f entries := by rw [h.of_map, g.of_map]
  of_subset entries := List.Subset.trans (g.of_subset _) (h.of_subset entries)

theorem comp_of (entries : List (κ × α)) : (g.comp h).of entries = g.of (h.of entries) := rfl

theorem keys_comp (keys : List κ) : (g.comp h).keys keys = g.keys (h.keys keys) := by
  rw [Arrangement.keys, comp_of, fst_of, fst_of, fst_unit]

/-- The entries whose keys are wanted. -/
def select (p : κ → Bool) : Arrangement κ where
  of entries := entries.filter fun e => p e.1
  of_map _ _ := List.filter_map ..
  of_subset _ := List.filter_sublist.subset

theorem keys_select (p : κ → Bool) (keys : List κ) : (select p).keys keys = keys.filter p := by
  exact (congrArg (List.map Prod.fst) List.filter_map).trans (fst_unit _)

/-- The entries in an order of their keys. -/
def sortBy (r : κ → κ → Prop) [DecidableRel r] : Arrangement κ where
  of entries := entries.insertionSort fun e f => r e.1 f.1
  of_map f entries :=
    (List.map_insertionSort _ _ (Prod.map id f) entries fun _ _ _ _ => Iff.rfl).symm
  of_subset entries := (List.perm_insertionSort _ entries).subset

theorem keys_sortBy (r : κ → κ → Prop) [DecidableRel r] (keys : List κ) :
    (sortBy r).keys keys = keys.insertionSort r := by
  refine (List.map_insertionSort _ r Prod.fst _ fun _ _ _ _ => Iff.rfl).trans ?_
  rw [fst_unit]

/-- What one leaves, and then what the other leaves. -/
def append : Arrangement κ where
  of entries := g.of entries ++ h.of entries
  of_map f entries := by rw [g.of_map, h.of_map, List.map_append]
  of_subset entries := List.append_subset.mpr ⟨g.of_subset entries, h.of_subset entries⟩

theorem keys_append (keys : List κ) :
    (g.append h).keys keys = g.keys keys ++ h.keys keys :=
  List.map_append

end Arrangement

variable {g h : Arrangement κ}

/-- Entries of one table are the same if their keys are. -/
theorem eq_of_fst_eq {entries l l' : List (κ × α)} (hnodup : (entries.map Prod.fst).Nodup)
    (hl : l ⊆ entries) (hl' : l' ⊆ entries) (hfst : l.map Prod.fst = l'.map Prod.fst) :
    l = l' := by
  induction l generalizing l' with
  | nil => exact (List.map_eq_nil_iff.mp hfst.symm).symm
  | cons e l ih =>
      cases l' with
      | nil => cases hfst
      | cons e' l' =>
          obtain ⟨hkey, hrest⟩ := List.cons.inj hfst
          obtain rfl : e = e' :=
            List.inj_on_of_nodup_map hnodup (hl (List.mem_cons_self ..))
              (hl' (List.mem_cons_self ..)) hkey
          rw [ih (fun _ hx => hl (List.mem_cons_of_mem _ hx))
            (fun _ hx => hl' (List.mem_cons_of_mem _ hx)) hrest]

/-- Arrange the entries of every object. -/
def arrange (g : Arrangement κ) : JsonTree κ ν → JsonTree κ ν :=
  fold .leaf .array fun entries => .object (g.of entries)

theorem arrange_array (items : List (JsonTree κ ν)) :
    arrange g (.array items) = .array (items.map (arrange g)) :=
  fold_array ..

theorem arrange_object (entries : List (κ × JsonTree κ ν)) :
    arrange g (.object entries) = .object ((g.of entries).map (Prod.map id (arrange g))) := by
  rw [arrange, fold_object, ← arrange, g.of_map]

/-- A fold over an arranged tree. -/
theorem fold_arrange (leaf : ν → α) (array : List α → α) (object : List (κ × α) → α)
    (v : JsonTree κ ν) :
    fold leaf array object (arrange g v) =
      fold leaf array (fun entries => object (g.of entries)) v := by
  induction v using induct with
  | leaf value => rfl
  | array items ih =>
      rw [arrange_array, fold_array, fold_array, List.map_map]
      exact congrArg array (List.map_congr_left ih)
  | object entries ih =>
      rw [arrange_object, fold_object, fold_object, g.of_map, List.map_map]
      refine congrArg object (List.map_congr_left fun e he => ?_)
      exact Prod.ext rfl (ih e (g.of_subset entries he))

/-- Two arrangements in a row are one. -/
theorem arrange_arrange (g h : Arrangement κ) (v : JsonTree κ ν) :
    arrange g (arrange h v) = arrange (g.comp h) v :=
  fold_arrange ..

/-- What an arrangement makes of each object's keys holds of the tree it makes. -/
theorem Every.arrange (hv : Every P v) (hg : ∀ keys, P keys → Q (g.keys keys)) :
    Every Q (arrange g v) := by
  induction hv with
  | leaf value => exact .leaf value
  | array _ ih =>
      rw [arrange_array, every_array]
      exact List.forall_mem_map.mpr ih
  | @object entries keys _ ih =>
      rw [arrange_object, every_object, fst_map, g.fst_of]
      exact ⟨hg _ keys, List.forall_mem_map.mpr fun e he => ih e (g.of_subset entries he)⟩

/-- The entries two arrangements leave of an object with distinct keys are the same if the keys
are. -/
theorem of_eq_of_keys {entries : List (κ × α)} (hnodup : (entries.map Prod.fst).Nodup)
    (hkeys : g.keys (entries.map Prod.fst) = h.keys (entries.map Prod.fst)) :
    g.of entries = h.of entries :=
  eq_of_fst_eq hnodup (g.of_subset entries) (h.of_subset entries)
    (by rw [g.fst_of, h.fst_of, hkeys])

/-- Two ways to arrange a tree with distinct keys come to the same if they treat the keys of
every object alike. -/
theorem arrange_congr (hv : Every (fun keys => keys.Nodup ∧ g.keys keys = h.keys keys) v) :
    arrange g v = arrange h v := by
  induction hv with
  | leaf value => rfl
  | array _ ih => rw [arrange_array, arrange_array, List.map_congr_left ih]
  | @object entries keys _ ih =>
      rw [arrange_object, arrange_object, of_eq_of_keys keys.1 keys.2]
      refine congrArg _ (List.map_congr_left fun e he => ?_)
      exact Prod.ext rfl (ih e (h.of_subset entries he))

/-- An arrangement that leaves the keys of every object alone leaves the tree alone. -/
theorem arrange_eq_self (hv : Every (fun keys => keys.Nodup ∧ g.keys keys = keys) v) :
    arrange g v = v := by
  induction hv with
  | leaf value => rfl
  | array _ ih => rw [arrange_array, List.map_congr_left ih, List.map_id']
  | @object entries keys _ ih =>
      have hof : g.of entries = entries :=
        eq_of_fst_eq keys.1 (g.of_subset entries) (List.Subset.refl entries)
          (by rw [g.fst_of, keys.2])
      rw [arrange_object, hof]
      refine congrArg _ ((List.map_congr_left fun e he => ?_).trans (List.map_id entries))
      exact Prod.ext rfl (ih e he)

/-- And only if, where one of them loses no key. -/
theorem arrange_eq_iff (hv : Every List.Nodup v) (hh : ∀ keys, keys ⊆ h.keys keys) :
    arrange g v = arrange h v ↔ Every (fun keys => g.keys keys = h.keys keys) v := by
  refine ⟨fun heq => ?_, fun hkeys => arrange_congr (hv.and hkeys)⟩
  induction hv with
  | leaf value => exact .leaf value
  | @array items _ ih =>
      rw [arrange_array, arrange_array, array.injEq] at heq
      exact .array fun v hv => ih v hv (List.map_inj_left.mp heq v hv)
  | @object entries keys _ ih =>
      rw [arrange_object, arrange_object, object.injEq] at heq
      have hfst : g.keys (entries.map Prod.fst) = h.keys (entries.map Prod.fst) := by
        have hmap := congrArg (List.map Prod.fst) heq
        rwa [fst_map, fst_map, g.fst_of, h.fst_of] at hmap
      rw [of_eq_of_keys keys hfst] at heq
      refine .object hfst fun e he => ih e he ?_
      -- nothing is lost, so the entry is among those compared
      have hkey : e.1 ∈ (h.of entries).map Prod.fst := by
        rw [h.fst_of]
        exact hh _ (List.mem_map_of_mem he)
      obtain ⟨e', he', hsame⟩ := List.mem_map.mp hkey
      obtain rfl : e' = e :=
        List.inj_on_of_nodup_map keys (h.of_subset entries he') he hsame
      exact congrArg Prod.snd (List.map_inj_left.mp heq e' he')

/-! ### Reorderings -/

/-- The same tree but for the order of the keys, at any depth: the items of an array are
reorderings in their places, and an object has the same keys with reorderings under them. -/
inductive Reordered : JsonTree κ ν → JsonTree κ ν → Prop
  | leaf (value : ν) : Reordered (.leaf value) (.leaf value)
  | array {items items' : List (JsonTree κ ν)} (length_eq : items.length = items'.length)
      (items_reordered : ∀ (i : Nat) (v w : JsonTree κ ν), items[i]? = some v →
        items'[i]? = some w → Reordered v w) : Reordered (.array items) (.array items')
  | object {entries entries' : List (κ × JsonTree κ ν)}
      (keys_perm : (entries.map Prod.fst).Perm (entries'.map Prod.fst))
      (values_reordered : ∀ (k : κ) (v w : JsonTree κ ν), (k, v) ∈ entries → (k, w) ∈ entries' →
        Reordered v w) : Reordered (.object entries) (.object entries')

/-- An arrangement that does not look at the order of the keys does not see a reordering. -/
theorem arrange_of_reordered (hvw : Reordered v w) (hv : Every List.Nodup v)
    (hw : Every List.Nodup w)
    (hg : ∀ keys keys', keys.Nodup → keys.Perm keys' → g.keys keys = g.keys keys') :
    arrange g v = arrange g w := by
  induction hvw with
  | leaf value => rfl
  | @array items items' length_eq _ ih =>
      rw [arrange_array, arrange_array, array.injEq]
      refine List.ext_getElem (by simpa using length_eq) fun i hi hi' => ?_
      rw [List.length_map] at hi hi'
      rw [List.getElem_map, List.getElem_map]
      exact ih i _ _ (List.getElem?_eq_getElem hi) (List.getElem?_eq_getElem hi')
        (every_array.mp hv _ (List.getElem_mem hi)) (every_array.mp hw _ (List.getElem_mem hi'))
  | @object entries entries' keys_perm _ ih =>
      obtain ⟨hnodup, hvalues⟩ := every_object.mp hv
      obtain ⟨hnodup', hvalues'⟩ := every_object.mp hw
      rw [arrange_object, arrange_object, object.injEq, ← g.of_map, ← g.of_map]
      -- each entry of the one object is there in the other, by the hypothesis on its value
      have hsubset : entries'.map (Prod.map id (arrange g)) ⊆
          entries.map (Prod.map id (arrange g)) := by
        refine List.forall_mem_map.mpr fun e' he' => ?_
        have hkey : e'.1 ∈ entries.map Prod.fst :=
          keys_perm.symm.subset (List.mem_map_of_mem he')
        obtain ⟨e, he, hsame⟩ := List.mem_map.mp hkey
        refine List.mem_map.mpr ⟨e, he, Prod.ext hsame ?_⟩
        exact ih e.1 e.2 e'.2 he (hsame ▸ he') (hvalues e he) (hvalues' e' he')
      refine eq_of_fst_eq (by rwa [fst_map]) (g.of_subset _)
        (List.Subset.trans (g.of_subset _) hsubset) ?_
      rw [g.fst_of, g.fst_of, fst_map, fst_map]
      exact hg _ _ hnodup keys_perm

/-- An arrangement that keeps all the keys is a reordering. -/
theorem reordered_arrange (hv : Every List.Nodup v) (hg : ∀ keys, (g.keys keys).Perm keys) :
    Reordered v (arrange g v) := by
  induction hv with
  | leaf value => exact .leaf value
  | @array items _ ih =>
      rw [arrange_array]
      refine .array (by simp) fun i v w hv hw => ?_
      obtain rfl : JsonTree.arrange g v = w := by simpa [hv] using hw
      exact ih v (List.mem_of_getElem? hv)
  | @object entries keys _ ih =>
      rw [arrange_object]
      refine .object (by rw [fst_map, g.fst_of]; exact (hg _).symm) fun k v w hv hw => ?_
      obtain ⟨⟨k', v'⟩, he, hsame⟩ := List.mem_map.mp hw
      obtain ⟨rfl, rfl⟩ := Prod.mk.inj hsame
      obtain ⟨-, rfl⟩ := Prod.mk.inj
        (List.inj_on_of_nodup_map keys (g.of_subset entries he) hv rfl)
      exact ih (k', v') hv

end JsonTree

end Lib
