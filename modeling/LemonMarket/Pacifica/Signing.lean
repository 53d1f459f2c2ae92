import LemonMarket.Lib.JsString
import LemonMarket.Lib.JsonTree
import Mathlib.Data.List.Lex

/-!
# LemonMarket.Pacifica.Signing

**The canonical message of a signed request** (`signing.ts`). What the venue verifies is the text
of the request with the keys of every object ascending, so two parties that hold the same value
have to write the same text.

`sortJsonKeys` rebuilds every object with its keys assigned in ascending order, and
`JSON.stringify` writes an object in the order of its properties. That is the order they were
assigned in but for the keys that are array indices: those come first, and by their numbers.
And a key `__proto__` is not assigned at all. So the message does not depend on the order the
value's keys came in, and its keys are ascending exactly when no key is `__proto__` and the
indices among the keys of one object are in place (`Plain`).
-/

namespace LemonMarket

namespace Pacifica

open Lib JsonTree

inductive Leaf (ν : Type)
  | null
  | boolean (value : Bool)
  | number (value : ν)
  | string (value : JsString)
  deriving Repr, DecidableEq

variable {ν α : Type}

/-- JSON that survives a round trip through the canonical encoder. No object has a key twice. -/
abbrev Json (ν : Type) := { v : JsonTree JsString (Leaf ν) // v.Every List.Nodup }

/-! ### Property order -/

/-- A key is an array index if it is the decimal of a number below `2 ^ 32 - 1`. -/
def arrayIndex (key : JsString) : Option Nat :=
  let n := numeral 10 key
  if decimal n = key ∧ n < 2 ^ 32 - 1 then some n else none

def isIndex (key : JsString) : Bool := (arrayIndex key).isSome

/-- The keys that are array indices, by their numbers. -/
def indicesFirst : Arrangement JsString :=
  (Arrangement.sortBy fun k l => (arrayIndex k).getD 0 ≤ (arrayIndex l).getD 0).comp
    (Arrangement.select isIndex)

/-- The order an object has its own properties in: the array indices by their numbers, and then
the rest in the order they were put in. -/
def propertyOrder : Arrangement JsString :=
  indicesFirst.append (Arrangement.select fun key => !isIndex key)

/-- `Object.keys`. -/
def objectKeys (entries : List (JsString × α)) : List JsString :=
  (propertyOrder.of entries).map Prod.fst

/-- `value[key]`, for a key of its own. -/
def property (entries : List (JsString × α)) (key : JsString) : Option α :=
  (entries.find? fun e => e.1 = key).map Prod.snd

/-- `sorted[key] = value`. Assigning to `__proto__` sets the prototype, and no property. -/
def assign (sorted : List (JsString × α)) (key : JsString) (value : α) : List (JsString × α) :=
  if key = js "__proto__" then sorted
  else if key ∈ sorted.map Prod.fst then
    sorted.map fun e => if e.1 = key then (e.1, value) else e
  else sorted ++ [(key, value)]

/-- The loop of `sortJsonKeys`: `sorted[key] = value[key]` for each of the keys. -/
def assignAll (entries sorted : List (JsString × α)) (keys : List JsString) :
    List (JsString × α) :=
  keys.foldl (fun sorted key =>
    match property entries key with
    | some value => assign sorted key value
    | none => sorted) sorted

/-- An object rebuilt over `Object.keys(value).sort()`. -/
def rebuilt (entries : List (JsString × α)) : List (JsString × α) :=
  assignAll entries [] ((objectKeys entries).insertionSort (· ≤ ·))

/-- Recursively sort object keys. -/
def sortJsonKeys : JsonTree JsString (Leaf ν) → JsonTree JsString (Leaf ν) :=
  fold .leaf .array fun entries => .object (rebuilt entries)

/-! ### Text -/

/-- A code unit by its number, in four hex digits. -/
def unicodeEscape (c : CodeUnit) : JsString :=
  js "\\u" ++ ([c.val / 4096, c.val / 256 % 16, c.val / 16 % 16, c.val % 16].map fun d =>
    unit (Nat.digitChar d))

/-- A code unit that is not half of a pair, as it stands in a quoted string. -/
def escapedUnit (c : CodeUnit) : JsString :=
  match c.val with
  | 8 => js "\\b"
  | 9 => js "\\t"
  | 10 => js "\\n"
  | 12 => js "\\f"
  | 13 => js "\\r"
  | 34 => js "\\\""
  | 92 => js "\\\\"
  | n => if n < 0x20 ∨ (0xd800 ≤ n ∧ n < 0xe000) then unicodeEscape c else [c]

def escaped : JsString → JsString
  | c :: d :: rest =>
      -- a pair of surrogates is one character, and stands as it is
      if 0xd800 ≤ c.val ∧ c.val < 0xdc00 ∧ 0xdc00 ≤ d.val ∧ d.val < 0xe000 then
        c :: d :: escaped rest
      else escapedUnit c ++ escaped (d :: rest)
  | [c] => escapedUnit c
  | [] => []

def quoted (s : JsString) : JsString := js "\"" ++ escaped s ++ js "\""

section Text

-- the text of a number
variable (numberText : ν → JsString)

def leafText : Leaf ν → JsString
  | .null => js "null"
  | .boolean true => js "true"
  | .boolean false => js "false"
  | .number value => numberText value
  | .string value => quoted value

def arrayText (items : List JsString) : JsString :=
  js "[" ++ (js ",").intercalate items ++ js "]"

def objectText (entries : List (JsString × JsString)) : JsString :=
  js "\x7b" ++ (js ",").intercalate (entries.map fun e => quoted e.1 ++ js ":" ++ e.2) ++ js "\x7d"

/-- `JSON.stringify`: compact, an object in the order of its properties. -/
def stringify : JsonTree JsString (Leaf ν) → JsString :=
  fold (leafText numberText) arrayText fun entries => objectText (propertyOrder.of entries)

end Text

/-! ### The message -/

/-- Pacifica's `type` discriminator. -/
inductive OperationType
  | createOrder
  | createMarketOrder
  | createStopOrder
  | cancelOrder
  | cancelAllOrders
  | cancelStopOrder
  | updateLeverage
  | updateMarginMode
  | setPositionTpsl
  | withdraw
  | subaccountInitiate
  | subaccountConfirm
  | transferFunds
  | bindAgentWallet
  | createApiKey
  | revokeApiKey
  | listApiKeys
  | approveBuilderCode
  | revokeBuilderCode
  deriving Repr, DecidableEq

def OperationType.name : OperationType → JsString
  | createOrder => js "create_order"
  | createMarketOrder => js "create_market_order"
  | createStopOrder => js "create_stop_order"
  | cancelOrder => js "cancel_order"
  | cancelAllOrders => js "cancel_all_orders"
  | cancelStopOrder => js "cancel_stop_order"
  | updateLeverage => js "update_leverage"
  | updateMarginMode => js "update_margin_mode"
  | setPositionTpsl => js "set_position_tpsl"
  | withdraw => js "withdraw"
  | subaccountInitiate => js "subaccount_initiate"
  | subaccountConfirm => js "subaccount_confirm"
  | transferFunds => js "transfer_funds"
  | bindAgentWallet => js "bind_agent_wallet"
  | createApiKey => js "create_api_key"
  | revokeApiKey => js "revoke_api_key"
  | listApiKeys => js "list_api_keys"
  | approveBuilderCode => js "approve_builder_code"
  | revokeBuilderCode => js "revoke_builder_code"

structure SignatureHeader (ν : Type) where
  timestamp : ν
  /-- Milliseconds the signature stays valid. -/
  expiryWindow : ν
  type : OperationType

/-- The keys of a message. -/
def envelopeKeys : List JsString := [js "timestamp", js "expiry_window", js "type", js "data"]

theorem nodup_envelopeKeys : envelopeKeys.Nodup := by decide

/-- `{ ...header, data }`. -/
def enveloped (header : SignatureHeader ν) (data : Json ν) : Json ν :=
  ⟨.object
    [(js "timestamp", .leaf (.number header.timestamp)),
     (js "expiry_window", .leaf (.number header.expiryWindow)),
     (js "type", .leaf (.string header.type.name)),
     (js "data", data.val)],
    every_object.mpr ⟨nodup_envelopeKeys, by
      simp only [List.forall_mem_cons, List.not_mem_nil, false_implies, implies_true, and_true]
      exact ⟨.leaf _, .leaf _, .leaf _, data.property⟩⟩⟩

/-- The exact bytes Pacifica verifies against. -/
def canonicalMessage (numberText : ν → JsString) (header : SignatureHeader ν) (data : Json ν) :
    JsString :=
  stringify numberText (sortJsonKeys (enveloped header data).val)

/-! ### What the loop leaves -/

theorem property_map {β : Type} (f : α → β) (entries : List (JsString × α)) (key : JsString) :
    property (entries.map (Prod.map id f)) key = (property entries key).map f := by
  rw [property, property, List.find?_map, Option.map_map, Option.map_map]
  rfl

theorem assign_map {β : Type} (f : α → β) (sorted : List (JsString × α)) (key : JsString)
    (value : α) :
    assign (sorted.map (Prod.map id f)) key (f value) =
      (assign sorted key value).map (Prod.map id f) := by
  rw [assign, assign, fst_map]
  split
  · rfl
  · split
    · rw [List.map_map, List.map_map]
      refine List.map_congr_left fun e _ => ?_
      simp only [Function.comp_apply, Prod.map_fst, id_eq]
      split <;> rfl
    · rw [List.map_append]
      rfl

/-- An entry assigned is one that was there, or the new one under its key. -/
theorem mem_assign {sorted : List (JsString × α)} {key : JsString} {value : α}
    {e : JsString × α} (he : e ∈ assign sorted key value) : e ∈ sorted ∨ e = (key, value) := by
  rw [assign] at he
  split at he
  · exact .inl he
  · split at he
    · obtain ⟨e', he', rfl⟩ := List.mem_map.mp he
      by_cases hkey : e'.1 = key
      · exact .inr (by rw [if_pos hkey, hkey])
      · exact .inl (by rwa [if_neg hkey])
    · rcases List.mem_append.mp he with he | he
      · exact .inl he
      · exact .inr (List.mem_singleton.mp he)

theorem property_mem {entries : List (JsString × α)} {key : JsString} {value : α}
    (h : property entries key = some value) : (key, value) ∈ entries := by
  obtain ⟨e, he, rfl⟩ := Option.map_eq_some_iff.mp h
  have hkey : e.1 = key := by simpa using List.find?_some he
  rw [← hkey]
  exact List.mem_of_find?_eq_some he

theorem property_of_mem {entries : List (JsString × α)} {key : JsString}
    (h : key ∈ entries.map Prod.fst) : ∃ value, property entries key = some value := by
  obtain ⟨e, he, rfl⟩ := List.mem_map.mp h
  obtain ⟨e', hfound⟩ := Option.isSome_iff_exists.mp
    (List.find?_isSome.mpr ⟨e, he, decide_eq_true rfl⟩ :
      (entries.find? fun e' => e'.1 = e.1).isSome = true)
  exact ⟨e'.2, Option.map_eq_some_iff.mpr ⟨e', hfound, rfl⟩⟩

/-- Whether a key is assigned as a property. -/
def assignable (key : JsString) : Bool := key ≠ js "__proto__"

section Loop

variable {entries sorted : List (JsString × α)} {keys : List JsString}

theorem assignAll_cons (key : JsString) :
    assignAll entries sorted (key :: keys) =
      assignAll entries
        (match property entries key with
          | some value => assign sorted key value
          | none => sorted) keys := rfl

variable (sorted) in
theorem assignAll_map {β : Type} (f : α → β) :
    assignAll (entries.map (Prod.map id f)) (sorted.map (Prod.map id f)) keys =
      (assignAll entries sorted keys).map (Prod.map id f) := by
  induction keys generalizing sorted with
  | nil => rfl
  | cons key keys ih =>
      rw [assignAll_cons, assignAll_cons, property_map, ← ih]
      rcases property entries key with _ | value
      · rfl
      · rw [← assign_map]
        rfl

theorem assignAll_subset (hsorted : sorted ⊆ entries) :
    assignAll entries sorted keys ⊆ entries := by
  induction keys generalizing sorted with
  | nil => exact hsorted
  | cons key keys ih =>
      rw [assignAll_cons]
      refine ih ?_
      rcases hvalue : property entries key with _ | value
      · exact hsorted
      · intro e he
        rcases mem_assign he with he | rfl
        · exact hsorted he
        · exact property_mem hvalue

/-- Over keys of the object that are not there yet, the loop appends each but `__proto__`. -/
theorem fst_assignAll (hnodup : keys.Nodup) (hfresh : ∀ key ∈ keys, key ∉ sorted.map Prod.fst)
    (hown : keys ⊆ entries.map Prod.fst) :
    (assignAll entries sorted keys).map Prod.fst =
      sorted.map Prod.fst ++ keys.filter assignable := by
  induction keys generalizing sorted with
  | nil => simp [assignAll]
  | cons key keys ih =>
      obtain ⟨hkey, hnodup⟩ := List.nodup_cons.mp hnodup
      have hnew := hfresh key (List.mem_cons_self ..)
      have hrest : ∀ k ∈ keys, k ∉ sorted.map Prod.fst :=
        fun k hk => hfresh k (List.mem_cons_of_mem _ hk)
      have hown' : keys ⊆ entries.map Prod.fst := fun k hk => hown (List.mem_cons_of_mem _ hk)
      obtain ⟨value, hvalue⟩ := property_of_mem (hown (List.mem_cons_self ..))
      rw [assignAll_cons, hvalue]
      by_cases hproto : key = js "__proto__"
      -- assigning `__proto__` makes no property
      · have hskip : assign sorted key value = sorted := by rw [assign, if_pos hproto]
        have hfilter : (key :: keys).filter assignable = keys.filter assignable :=
          List.filter_cons_of_neg (by simp [assignable, hproto])
        rw [hfilter, ← ih hnodup hrest hown']
        exact congrArg (fun s => (assignAll entries s keys).map Prod.fst) hskip
      · have hput : assign sorted key value = sorted ++ [(key, value)] := by
          rw [assign, if_neg hproto, if_neg hnew]
        have hfilter : (key :: keys).filter assignable = key :: keys.filter assignable :=
          List.filter_cons_of_pos (by simp [assignable, hproto])
        have hfresh' : ∀ k ∈ keys, k ∉ (sorted ++ [(key, value)]).map Prod.fst := by
          intro k hk hmem
          rw [List.map_append, List.mem_append, List.map_singleton, List.mem_singleton] at hmem
          rcases hmem with hmem | rfl
          · exact hrest k hk hmem
          · exact hkey hk
        have hlater := ih hnodup hfresh' hown'
        rw [List.map_append, List.append_assoc] at hlater
        rw [hfilter]
        exact (congrArg (fun s => (assignAll entries s keys).map Prod.fst) hput).trans hlater

end Loop

/-- What `sortJsonKeys` does to an object. -/
def keySort : Arrangement JsString where
  of := rebuilt
  of_map f entries := by
    have hkeys : objectKeys (entries.map (Prod.map id f)) = objectKeys entries := by
      rw [objectKeys, propertyOrder.of_map, fst_map]
      rfl
    rw [rebuilt, hkeys]
    exact assignAll_map [] f
  of_subset entries := assignAll_subset (List.nil_subset _)

theorem sortJsonKeys_eq (v : JsonTree JsString (Leaf ν)) : sortJsonKeys v = arrange keySort v := rfl

theorem sortJsonKeys_array (items : List (JsonTree JsString (Leaf ν))) :
    sortJsonKeys (.array items) = .array (items.map sortJsonKeys) :=
  fold_array ..

/-! ### The keys -/

/-- Entries by their keys, as strings. -/
def byKey : Arrangement JsString := .sortBy (· ≤ ·)

variable {keys : List JsString}

theorem keys_propertyOrder (keys : List JsString) :
    propertyOrder.keys keys = indicesFirst.keys keys ++ keys.filter fun key => !isIndex key := by
  rw [propertyOrder, Arrangement.keys_append, Arrangement.keys_select]

theorem keys_indicesFirst (keys : List JsString) :
    indicesFirst.keys keys = (keys.filter isIndex).insertionSort
      fun k l => (arrayIndex k).getD 0 ≤ (arrayIndex l).getD 0 := by
  rw [indicesFirst, Arrangement.keys_comp, Arrangement.keys_select, Arrangement.keys_sortBy]

/-- No property is lost or gained in their order. -/
theorem perm_propertyOrder (keys : List JsString) : (propertyOrder.keys keys).Perm keys := by
  rw [keys_propertyOrder, keys_indicesFirst]
  exact ((List.perm_insertionSort _ _).append_right _).trans (List.filter_append_perm isIndex keys)

/-- However keys come, sorted they are the same. -/
theorem insertionSort_of_perm {keys' : List JsString} (h : keys.Perm keys') :
    keys.insertionSort (· ≤ ·) = keys'.insertionSort (· ≤ ·) :=
  List.Perm.eq_of_pairwise (fun _ _ _ _ => le_antisymm) (List.pairwise_insertionSort _ _)
    (List.pairwise_insertionSort _ _)
    ((List.perm_insertionSort _ _).trans (h.trans (List.perm_insertionSort _ _).symm))

/-- `sortJsonKeys` leaves the keys of an object in ascending order, `__proto__` apart. -/
theorem keys_keySort (h : keys.Nodup) :
    keySort.keys keys = (keys.insertionSort (· ≤ ·)).filter assignable := by
  have hsorted : (propertyOrder.keys keys).insertionSort (· ≤ ·) =
      keys.insertionSort (· ≤ ·) := insertionSort_of_perm (perm_propertyOrder keys)
  have hperm := List.perm_insertionSort (· ≤ ·) keys
  have hloop : (assignAll (keys.map fun k => (k, ())) [] (keys.insertionSort (· ≤ ·))).map
      Prod.fst = [] ++ (keys.insertionSort (· ≤ ·)).filter assignable :=
    fst_assignAll (hperm.nodup_iff.mpr h) (fun _ _ => List.not_mem_nil)
      (by rw [fst_unit]; exact hperm.subset)
  rw [← hsorted] at hloop
  exact hloop.trans (by rw [hsorted]; rfl)

theorem pairwise_keySort (h : keys.Nodup) : (keySort.keys keys).Pairwise (· < ·) := by
  rw [keys_keySort h]
  refine List.Pairwise.filter _ ?_
  have hnodup := (List.perm_insertionSort (· ≤ ·) keys).nodup_iff.mpr h
  exact (List.pairwise_insertionSort (· ≤ ·) keys).and hnodup |>.imp
    fun hkl => lt_of_le_of_ne hkl.1 hkl.2

/-- Sorting the keys again changes nothing. -/
theorem keys_keySort_keySort (h : keys.Nodup) :
    keySort.keys (keySort.keys keys) = keySort.keys keys := by
  have hsorted := pairwise_keySort h
  rw [keys_keySort (hsorted.imp fun hkl => hkl.ne),
    List.Pairwise.insertionSort_eq (hsorted.imp fun hkl => hkl.le), keys_keySort h,
    List.filter_filter]
  simp

theorem keys_keySort_of_perm {keys' : List JsString} (h : keys.Nodup) (hperm : keys.Perm keys') :
    keySort.keys keys = keySort.keys keys' := by
  rw [keys_keySort h, keys_keySort (hperm.nodup_iff.mp h), insertionSort_of_perm hperm]

/-! ### Where the message is ascending -/

/-- An object has `k` before `l` whatever order they were assigned in. -/
def precedes (k l : JsString) : Bool :=
  match arrayIndex k, arrayIndex l with
  | some m, some n => m < n
  | some _, none => true
  | none, _ => false

/-- No key is `__proto__`, and the indices come where they would come as strings: each before
every key it precedes. -/
def Plain (keys : List JsString) : Prop :=
  js "__proto__" ∉ keys ∧ ∀ k ∈ keys, ∀ l ∈ keys, precedes k l = true → k < l

instance (keys : List JsString) : Decidable (Plain keys) := inferInstanceAs (Decidable (_ ∧ _))

theorem precedes_asymm {k l : JsString} (h : precedes k l = true) : ¬ precedes l k = true := by
  rcases hk : arrayIndex k with _ | m
  · simp [precedes, hk] at h
  · rcases hl : arrayIndex l with _ | n
    · simp [precedes, hl]
    · simp only [precedes, hk, hl, decide_eq_true_eq] at h ⊢
      exact lt_asymm h

theorem decimal_of_arrayIndex {k : JsString} {n : Nat} (h : arrayIndex k = some n) :
    decimal n = k := by
  rw [arrayIndex] at h
  split at h
  · rename_i hindex
    rw [← Option.some.inj h]
    exact hindex.1
  · cases h

/-- The properties of an object assigned in ascending order: each precedes those after it, or
both are no indices and ascend. -/
theorem pairwise_propertyOrder (h : keys.Pairwise (· < ·)) :
    (propertyOrder.keys keys).Pairwise fun k l =>
      precedes k l = true ∨ arrayIndex k = none ∧ arrayIndex l = none ∧ k < l := by
  have hperm := (perm_propertyOrder keys).nodup_iff.mpr (h.imp fun hkl => hkl.ne)
  rw [keys_propertyOrder, keys_indicesFirst] at hperm ⊢
  have hindex : ∀ k ∈ (keys.filter isIndex).insertionSort
      fun k l => (arrayIndex k).getD 0 ≤ (arrayIndex l).getD 0, ∃ n, arrayIndex k = some n := by
    intro k hk
    have hmem := (List.perm_insertionSort _ _).subset hk
    exact Option.isSome_iff_exists.mp (List.mem_filter.mp hmem).2
  have hother : ∀ k ∈ keys.filter fun key => !isIndex key, arrayIndex k = none := by
    intro k hk
    have hnot := (List.mem_filter.mp hk).2
    rw [Bool.not_eq_true', isIndex, Option.isSome_eq_false_iff, Option.isNone_iff_eq_none] at hnot
    exact hnot
  rw [List.pairwise_append]
  refine ⟨?_, ?_, ?_⟩
  · -- among the indices: by number, and no two keys have one number
    have hnodup := (List.nodup_append.mp hperm).1
    refine ((List.pairwise_insertionSort _ _).and hnodup).imp_of_mem ?_
    intro k l hk hl hkl
    obtain ⟨m, hm⟩ := hindex k hk
    obtain ⟨n, hn⟩ := hindex l hl
    rw [hm, hn] at hkl
    have hne : m ≠ n := fun hmn => hkl.2 (by
      rw [← decimal_of_arrayIndex hm, hmn, decimal_of_arrayIndex hn])
    exact .inl (by simpa [precedes, hm, hn] using lt_of_le_of_ne hkl.1 hne)
  -- among the others: as they were assigned
  · refine (h.filter _).imp_of_mem ?_
    intro k l hk hl hkl
    exact .inr ⟨hother k hk, hother l hl, hkl⟩
  -- and every index before every other key
  · intro k hk l hl
    obtain ⟨m, hm⟩ := hindex k hk
    exact .inl (by rw [precedes, hm, hother l hl])

/-- Where properties ascend, each is below those it precedes. -/
theorem lt_of_precedes (hle : keys.Pairwise (· ≤ ·))
    (h : keys.Pairwise fun k l =>
      precedes k l = true ∨ arrayIndex k = none ∧ arrayIndex l = none ∧ k < l) :
    ∀ ⦃k⦄, k ∈ keys → ∀ ⦃l⦄, l ∈ keys → precedes k l = true → k < l := by
  refine List.Pairwise.forall_of_forall_of_flip ?_ ((hle.and h).imp ?_) ((hle.and h).imp ?_)
  · intro k _ hk
    exact (precedes_asymm hk hk).elim
  · rintro k l ⟨hkl, -⟩ hprecedes
    refine lt_of_le_of_ne hkl fun hsame => ?_
    rw [hsame] at hprecedes
    exact precedes_asymm hprecedes hprecedes
  · -- the other way round nothing precedes
    rintro k l ⟨-, hkl | ⟨-, hnone, -⟩⟩ hprecedes
    · exact (precedes_asymm hprecedes hkl).elim
    · rw [precedes, hnone] at hprecedes
      cases hprecedes

/-- The properties of a rebuilt object are all its keys, ascending, exactly when they are
plain. -/
theorem keys_listed_iff (h : keys.Nodup) :
    (propertyOrder.comp keySort).keys keys = byKey.keys keys ↔ Plain keys := by
  have hasc := pairwise_keySort h
  have hpairs := pairwise_propertyOrder hasc
  have hperm := perm_propertyOrder (keySort.keys keys)
  have hsorted : (keys.insertionSort (· ≤ ·)).Perm keys := List.perm_insertionSort _ _
  rw [Arrangement.keys_comp, byKey, Arrangement.keys_sortBy]
  constructor
  -- ascending and whole: no key was lost, and the indices are where they would be as strings
  · intro heq
    have hkept : ∀ k ∈ keys, k ∈ keySort.keys keys := fun k hk =>
      hperm.subset (heq ▸ hsorted.symm.subset hk)
    refine ⟨fun hproto => ?_, fun k hk l hl hkl => ?_⟩
    · have hmem := hkept _ hproto
      rw [keys_keySort h, List.mem_filter] at hmem
      simp [assignable] at hmem
    · rw [heq] at hpairs
      exact lt_of_precedes (List.pairwise_insertionSort (· ≤ ·) keys) hpairs
        (hsorted.symm.subset hk) (hsorted.symm.subset hl) hkl
  -- plain keys are all assigned, and listed as they are assigned
  · rintro ⟨hproto, hplain⟩
    have hall : keySort.keys keys = keys.insertionSort (· ≤ ·) := by
      rw [keys_keySort h, List.filter_eq_self]
      intro k hk
      have hne : k ≠ js "__proto__" := fun hk' => hproto (hk' ▸ hsorted.subset hk)
      simpa [assignable] using hne
    have hkeys : propertyOrder.keys (keySort.keys keys) ⊆ keys := fun k hk =>
      hsorted.subset (hall ▸ hperm.subset hk)
    have hlt : (propertyOrder.keys (keySort.keys keys)).Pairwise (· ≤ ·) := by
      refine hpairs.imp_of_mem fun {k l} hk hl hkl => ?_
      rcases hkl with hkl | ⟨-, -, hkl⟩
      · exact (hplain k (hkeys hk) l (hkeys hl) hkl).le
      · exact hkl.le
    exact List.Perm.eq_of_pairwise (fun _ _ _ _ => le_antisymm) hlt
      (List.pairwise_insertionSort _ _) (hperm.trans (by rw [hall]))

/-! ### What the signing rules ask -/

/-- The value as `JSON.stringify` lists it: every object in the order of its properties. -/
def listing : JsonTree JsString (Leaf ν) → JsonTree JsString (Leaf ν) := arrange propertyOrder

/-- The value with the keys of every object ascending, as the signing rules have it. -/
def ascending : JsonTree JsString (Leaf ν) → JsonTree JsString (Leaf ν) := arrange byKey

/-- A tree written as it stands. -/
def written (numberText : ν → JsString) : JsonTree JsString (Leaf ν) → JsString :=
  fold (leafText numberText) arrayText objectText

theorem written_listing (numberText : ν → JsString) (v : JsonTree JsString (Leaf ν)) :
    written numberText (listing v) = stringify numberText v :=
  fold_arrange ..

/-- What is listed is the value, every object with all its keys and these ascending. -/
def ListsAscending (v listed : JsonTree JsString (Leaf ν)) : Prop :=
  Reordered v listed ∧ listed.Every (List.Pairwise (· < ·))

theorem perm_byKey (keys : List JsString) : (byKey.keys keys).Perm keys := by
  rw [byKey, Arrangement.keys_sortBy]
  exact List.perm_insertionSort _ _

theorem pairwise_byKey (h : keys.Nodup) : (byKey.keys keys).Pairwise (· < ·) := by
  have hnodup := (perm_byKey keys).nodup_iff.mpr h
  rw [byKey, Arrangement.keys_sortBy] at hnodup ⊢
  exact (List.pairwise_insertionSort (· ≤ ·) keys).and hnodup |>.imp
    fun hkl => lt_of_le_of_ne hkl.1 hkl.2

/-- There is one such listing. -/
theorem listsAscending_iff (v : Json ν) {listed : JsonTree JsString (Leaf ν)} :
    ListsAscending v.val listed ↔ listed = ascending v.val := by
  constructor
  · rintro ⟨hreordered, hasc⟩
    have hnodup : listed.Every List.Nodup := hasc.imp fun keys h => h.imp fun hkl => hkl.ne
    have hself : arrange byKey listed = listed := by
      refine arrange_eq_self (hasc.imp fun keys h => ⟨h.imp fun hkl => hkl.ne, ?_⟩)
      rw [byKey, Arrangement.keys_sortBy]
      exact List.Pairwise.insertionSort_eq (h.imp fun hkl => hkl.le)
    rw [← hself]
    refine (arrange_of_reordered hreordered v.property hnodup fun keys keys' _ h => ?_).symm
    rw [byKey, Arrangement.keys_sortBy, Arrangement.keys_sortBy, insertionSort_of_perm h]
  · rintro rfl
    exact ⟨reordered_arrange v.property perm_byKey, v.property.arrange fun _ => pairwise_byKey⟩

/-- What `sortJsonKeys` is given back it leaves alone. -/
theorem sortJsonKeys_sortJsonKeys (v : Json ν) :
    sortJsonKeys (sortJsonKeys v.val) = sortJsonKeys v.val := by
  rw [sortJsonKeys_eq, sortJsonKeys_eq, arrange_arrange]
  refine arrange_congr (v.property.imp fun keys h => ⟨h, ?_⟩)
  rw [Arrangement.keys_comp, keys_keySort_keySort h]

theorem sortJsonKeys_of_reordered {v w : Json ν} (h : Reordered v.val w.val) :
    sortJsonKeys v.val = sortJsonKeys w.val :=
  arrange_of_reordered h v.property w.property fun _ _ => keys_keySort_of_perm

theorem listing_sortJsonKeys_iff (v : Json ν) :
    ListsAscending v.val (listing (sortJsonKeys v.val)) ↔ v.val.Every Plain := by
  rw [listsAscending_iff, listing, sortJsonKeys_eq, arrange_arrange, ascending,
    arrange_eq_iff v.property fun keys => (perm_byKey keys).symm.subset]
  constructor
  · intro h
    exact (v.property.and h).imp fun keys hkeys => (keys_listed_iff hkeys.1).mp hkeys.2
  · intro h
    exact (v.property.and h).imp fun keys hkeys => (keys_listed_iff hkeys.1).mpr hkeys.2

/-- The keys of the envelope are plain. -/
theorem every_enveloped (header : SignatureHeader ν) (data : Json ν) :
    (enveloped header data).val.Every Plain ↔ data.val.Every Plain := by
  have hkeys : Plain envelopeKeys := by decide
  refine ⟨fun h => (every_object.mp h).2 (js "data", data.val) (by simp), fun h => ?_⟩
  refine every_object.mpr ⟨hkeys, ?_⟩
  simp only [List.forall_mem_cons, List.not_mem_nil, false_implies, implies_true, and_true]
  exact ⟨.leaf _, .leaf _, .leaf _, h⟩

/-- Two orders of the same data make two orders of the same message. -/
theorem reordered_enveloped (header : SignatureHeader ν) {data other : Json ν}
    (h : Reordered data.val other.val) :
    Reordered (enveloped header data).val (enveloped header other).val := by
  refine .object (List.Perm.refl _) fun k v w hv hw => ?_
  simp only [List.mem_cons, Prod.mk.injEq, List.not_mem_nil, or_false] at hv hw
  -- the header's fields are the same, and no two fields of the message share a key
  rcases hv with ⟨rfl, rfl⟩ | ⟨rfl, rfl⟩ | ⟨rfl, rfl⟩ | ⟨rfl, rfl⟩ <;>
    rcases hw with ⟨hk, rfl⟩ | ⟨hk, rfl⟩ | ⟨hk, rfl⟩ | ⟨hk, rfl⟩ <;>
    first
      | exact absurd hk (by decide)
      | exact .leaf _
      | exact h

/-- The canonical message. Sorting is idempotent; neither the order of the data's keys nor that
of the message's own shows; arrays keep their order; and the keys the message lists are all of
the value's, ascending at every level, exactly when the keys of the data are plain at every
level. -/
theorem canonical_signing (numberText : ν → JsString) (header : SignatureHeader ν)
    (data : Json ν) :
    sortJsonKeys (sortJsonKeys data.val) = sortJsonKeys data.val ∧
      (∀ other : Json ν, Reordered data.val other.val →
        canonicalMessage numberText header other = canonicalMessage numberText header data) ∧
      (∀ message : Json ν, Reordered (enveloped header data).val message.val →
        stringify numberText (sortJsonKeys message.val) =
          canonicalMessage numberText header data) ∧
      (∀ items : List (JsonTree JsString (Leaf ν)),
        sortJsonKeys (.array items) = .array (items.map sortJsonKeys) ∧
          stringify numberText (.array items) =
            arrayText (items.map (stringify numberText))) ∧
      canonicalMessage numberText header data =
        written numberText (listing (sortJsonKeys (enveloped header data).val)) ∧
      (ListsAscending (enveloped header data).val
          (listing (sortJsonKeys (enveloped header data).val)) ↔ data.val.Every Plain) := by
  refine ⟨sortJsonKeys_sortJsonKeys data, ?_, ?_, ?_, (written_listing ..).symm, ?_⟩
  · intro other h
    rw [canonicalMessage, canonicalMessage,
      sortJsonKeys_of_reordered (reordered_enveloped header h)]
  · intro message h
    rw [canonicalMessage, sortJsonKeys_of_reordered h]
  · exact fun items => ⟨sortJsonKeys_array items, fold_array ..⟩
  · exact (listing_sortJsonKeys_iff _).trans (every_enveloped header data)

/-- Ten, which comes before nine as a string. -/
def tenAndNine : Json Nat :=
  ⟨.object [(js "10", .leaf .null), (js "9", .leaf .null)],
    every_object.mpr ⟨by decide, by simp [Every.leaf]⟩⟩

/-- The same in the other order. -/
def nineAndTen : Json Nat :=
  ⟨.object [(js "9", .leaf .null), (js "10", .leaf .null)],
    every_object.mpr ⟨by decide, by simp [Every.leaf]⟩⟩

/-- The two make one message. -/
theorem canonical_signing_nineAndTen :
    canonicalMessage decimal ⟨0, 30000, .createOrder⟩ nineAndTen =
      canonicalMessage decimal ⟨0, 30000, .createOrder⟩ tenAndNine := by
  refine (canonical_signing decimal _ tenAndNine).2.1 nineAndTen (.object (List.Perm.swap _ _ _) ?_)
  intro k v w hv hw
  simp only [List.mem_cons, Prod.mk.injEq, List.not_mem_nil, or_false] at hv hw
  rcases hv with ⟨-, rfl⟩ | ⟨-, rfl⟩ <;> rcases hw with ⟨-, rfl⟩ | ⟨-, rfl⟩ <;> exact .leaf _

theorem tenAndNine_not_ascending :
    ¬ ∀ data : Json Nat, ListsAscending (enveloped ⟨0, 30000, .createOrder⟩ data).val
      (listing (sortJsonKeys (enveloped ⟨0, 30000, .createOrder⟩ data).val)) := by
  intro h
  have hplain := (every_enveloped _ _).mp ((listing_sortJsonKeys_iff _).mp (h tenAndNine))
  exact absurd (every_object.mp hplain).1 (by decide)

/-- A request of the kind the signing guide shows. -/
example : canonicalMessage id ⟨js "1748970123456", js "5000", .createOrder⟩
    ⟨.object [(js "symbol", .leaf (.string (js "BTC"))), (js "amount", .leaf (.string (js "0.1"))),
      (js "reduce_only", .leaf (.boolean false))],
      every_object.mpr ⟨by decide, by simp [Every.leaf]⟩⟩ =
    js ("\x7b\"data\":\x7b\"amount\":\"0.1\",\"reduce_only\":false,\"symbol\":\"BTC\"\x7d," ++
      "\"expiry_window\":5000,\"timestamp\":1748970123456,\"type\":\"create_order\"\x7d") := by
  decide +kernel

end Pacifica

end LemonMarket
