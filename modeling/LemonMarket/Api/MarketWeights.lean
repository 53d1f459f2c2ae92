import LemonMarket.Api.VaultMarkets
import Mathlib.Algebra.Order.BigOperators.Group.Finset
import Mathlib.Algebra.Order.Ring.Rat

/-!
# LemonMarket.Api.MarketWeights

**What the enabled weights of a vault add up to.** A set that is written adds up to 10000, so
the enabled rows do if the write leaves no other row enabled. It disables those the call read
enabled, which are all the others unless another call enabled one since: two operators' sets
that are read before either is written end up enabled together.

`weights_full_iff_seen` says that nothing else can go wrong, over every interleaving of the
calls, and that no row is ever removed.
-/

namespace LemonMarket.Api

namespace VaultMarkets

open Lib

variable {strings : Strings} {vault : Vault} {s s' : MarketsState} {i : Nat}

/-! ### Sets of weights -/

/-- A set of tickers and weights that can be written. -/
structure Weighed (set : List (String × ℚ)) : Prop where
  distinct : (set.map Prod.fst).Nodup
  whole : ∀ market ∈ set, market.2.den = 1
  positive : ∀ market ∈ set, 0 < market.2
  full : (set.map Prod.snd).sum = fullWeightBps

def Requested.weight (market : Requested) : String × ℚ := (market.ticker, market.targetWeightBps)

def Resolved.weight (market : Resolved) : String × ℚ := (market.ticker, market.targetWeightBps)

theorem checkMarkets_none {seen : List String} {markets : List Requested}
    (h : checkMarkets strings seen markets = none) :
    (∀ market ∈ markets, strings.toUpperCase market.ticker ∉ seen) ∧
      (markets.map fun market => strings.toUpperCase market.ticker).Nodup ∧
      ∀ market ∈ markets, market.targetWeightBps.den = 1 ∧ 0 < market.targetWeightBps := by
  induction markets generalizing seen with
  | nil => exact ⟨nofun, List.nodup_nil, nofun⟩
  | cons first rest ih =>
      simp only [checkMarkets] at h
      split_ifs at h with hseen hweight
      obtain ⟨hfresh, hdistinct, hall⟩ := ih h
      rw [not_or, not_not, Rat.not_le] at hweight
      refine ⟨?_, ?_, List.forall_mem_cons.mpr ⟨hweight, hall⟩⟩
      · refine List.forall_mem_cons.mpr ⟨hseen, fun market hmarket hold => ?_⟩
        exact hfresh market hmarket (List.mem_cons_of_mem _ hold)
      · rw [List.map_cons, List.nodup_cons]
        refine ⟨fun hmem => ?_, hdistinct⟩
        obtain ⟨market, hmarket, hsame⟩ := List.mem_map.mp hmem
        exact hfresh market hmarket (hsame ▸ List.mem_cons_self)

/-- What is not refused can be written. -/
theorem validateWeights_none {markets : List Requested}
    (h : validateWeights strings markets = none) : Weighed (markets.map Requested.weight) := by
  rw [validateWeights] at h
  split at h
  next => cases h
  split at h
  next => cases h
  next hnone =>
    have hfull := (ite_eq_right_iff.mp h).mt (by simp)
    -- tickers are distinct as upper case, so they are as written
    obtain ⟨-, hdistinct, hall⟩ := checkMarkets_none hnone
    constructor
    · rw [List.map_map]
      refine List.Nodup.of_map strings.toUpperCase ?_
      rwa [List.map_map]
    · intro market hmarket
      obtain ⟨requested, hrequested, rfl⟩ := List.mem_map.mp hmarket
      exact (hall requested hrequested).1
    · intro market hmarket
      obtain ⟨requested, hrequested, rfl⟩ := List.mem_map.mp hmarket
      exact (hall requested hrequested).2
    · rw [List.map_map]
      exact not_not.mp hfull

theorem resolveMarket_ok {board : List Listed} {market : Requested} {resolved : Resolved}
    (h : resolveMarket strings board market = .ok resolved) :
    resolved.weight = market.weight := by
  simp only [resolveMarket] at h
  split at h
  next => cases h
  next =>
    split at h
    next =>
      obtain rfl := Except.ok.inj h
      rfl
    next => cases h

/-- Resolving adds the pairings and changes nothing. -/
theorem resolve_ok {board : List Listed} {requested : List Requested} {resolved : List Resolved}
    (h : resolve strings board requested = .ok resolved) :
    resolved.map Resolved.weight = requested.map Requested.weight := by
  induction requested generalizing resolved with
  | nil =>
      obtain rfl := Except.ok.inj h
      rfl
  | cons first rest ih =>
      rw [resolve] at h
      cases hfirst : resolveMarket strings board first with
      | error error => rw [hfirst] at h; cases h
      | ok paired =>
          cases hrest : resolve strings board rest with
          | error error => rw [hfirst, hrest] at h; cases h
          | ok others =>
              rw [hfirst, hrest] at h
              obtain rfl := Except.ok.inj h
              rw [List.map_cons, List.map_cons, resolveMarket_ok hfirst, ih hrest]

/-! ### What the enabled rows come to -/

/-- What the enabled rows' weights add up to. -/
def enabledWeight (rows : Rows) : Int :=
  ((rows.rows.filter fun row => row.2.enabled).map fun row => row.2.targetWeightBps).sum

/-- The share of the vault a row takes. -/
def MarketRow.target (row : MarketRow) : Int := if row.enabled then row.targetWeightBps else 0

variable {rows existing after : Rows} {resolved : List Resolved} {ticker : String} {row : MarketRow}

theorem enabledWeight_eq (rows : Rows) : enabledWeight rows = rows.columnSum MarketRow.target := by
  rw [enabledWeight, Table.columnSum]
  induction rows.rows with
  | nil => rfl
  | cons first rest ih =>
      rw [List.map_cons, List.sum_cons, ← ih]
      by_cases henabled : first.2.enabled = true
      · simp [MarketRow.target, henabled]
      · simp [MarketRow.target, henabled]

/-- No row weighs nothing or less. -/
def Positive (rows : Rows) : Prop :=
  ∀ ticker row, rows.lookup ticker = some row → 0 < row.targetWeightBps

theorem Positive.target_nonneg (h : Positive rows) (ticker : String) :
    0 ≤ rows.column MarketRow.target ticker := by
  cases hrow : rows.lookup ticker with
  | none => rw [Table.column_of_lookup_none hrow]
  | some row =>
      rw [Table.column_of_lookup hrow, MarketRow.target]
      split
      next => exact (h ticker row hrow).le
      next => exact le_refl 0

theorem Positive.target_eq_zero (h : Positive rows) (hrow : rows.lookup ticker = some row) :
    rows.column MarketRow.target ticker = 0 ↔ row.enabled = false := by
  have hpos := h ticker row hrow
  rw [Table.column_of_lookup hrow, MarketRow.target]
  cases row.enabled with
  | false => simp
  | true => simpa using hpos.ne'

/-! ### The transaction -/

/-- The request names the market. -/
def Named (resolved : List Resolved) (ticker : String) : Prop :=
  ticker ∈ resolved.map Resolved.ticker

theorem map_fst_weight (resolved : List Resolved) :
    (resolved.map Resolved.weight).map Prod.fst = resolved.map Resolved.ticker :=
  List.map_map

theorem mem_dropped : ticker ∈ dropped existing resolved ↔
    ¬ Named resolved ticker ∧ ∃ read, existing.lookup ticker = some read ∧ read.enabled = true := by
  have hfilter : ∀ entry : String × MarketRow, entry ∈ existing.rows.filter (fun row =>
      row.1 ∉ resolved.map Resolved.ticker ∧ row.2.enabled) ↔
      entry ∈ existing.rows ∧ ¬ Named resolved entry.1 ∧ entry.2.enabled = true :=
    fun entry => by rw [List.mem_filter, decide_eq_true_eq, Named]
  rw [dropped, List.mem_map]
  constructor
  · rintro ⟨entry, hentry, rfl⟩
    obtain ⟨hread, hnot, henabled⟩ := (hfilter entry).mp hentry
    exact ⟨hnot, entry.2, Table.mem_rows.mp hread, henabled⟩
  · rintro ⟨hnot, read, hread, henabled⟩
    exact ⟨(ticker, read), (hfilter _).mpr ⟨Table.mem_rows.mpr hread, hnot, henabled⟩, rfl⟩

/-- The rows of a transaction: the named ones as the request has them, the others as they
were but for the dropped ones, which are disabled. -/
structure Committed (rows existing : Rows) (resolved : List Resolved) (after : Rows) : Prop where
  named : ∀ market ∈ resolved, ∃ row, after.lookup market.ticker = some row ∧
    row.enabled = true ∧ row.targetWeightBps = market.targetWeightBps.num
  dropped : ∀ ticker, ticker ∈ dropped existing resolved →
    after.lookup ticker = (rows.lookup ticker).map MarketRow.disabled
  others : ∀ ticker, ¬ Named resolved ticker → ticker ∉ VaultMarkets.dropped existing resolved →
    after.lookup ticker = rows.lookup ticker

theorem disabled_disabled (row : MarketRow) : row.disabled.disabled = row.disabled := rfl

/-- While no row that was read is gone, the transaction goes through. -/
theorem commit_some (strings : Strings) (hset : Weighed (resolved.map Resolved.weight))
    (hkept : ∀ ticker, (existing.lookup ticker).isSome → (rows.lookup ticker).isSome) :
    ∃ after, commit strings rows resolved existing = some after ∧
      Committed rows existing resolved after := by
  have hdistinct : (resolved.map Resolved.ticker).Nodup := by
    rw [← map_fst_weight]
    exact hset.distinct
  have hwritten : ∀ ticker, ¬ Named resolved ticker →
      (rows.upsertAll resolved Resolved.ticker (Resolved.row strings)
        (Resolved.onConflict strings)).lookup ticker = rows.lookup ticker :=
    fun ticker hnot => Table.lookup_upsertAll_of_not_mem hnot
  -- no dropped ticker is named, so each update still finds the row that was read
  obtain ⟨after, hafter, hlookup⟩ := Table.updateAll_some disabled_disabled
    (t := rows.upsertAll resolved Resolved.ticker (Resolved.row strings)
      (Resolved.onConflict strings)) fun ticker hticker => by
      obtain ⟨hnot, read, hread, -⟩ := mem_dropped.mp hticker
      rw [hwritten ticker hnot]
      exact hkept ticker (by rw [hread]; rfl)
  refine ⟨after, hafter, ?_, ?_, ?_⟩
  -- a named market is written; a dropped one disabled; any other left
  · intro market hmarket
    have hnamed : Named resolved market.ticker := List.mem_map_of_mem hmarket
    rw [hlookup, if_neg fun hdropped => (mem_dropped.mp hdropped).1 hnamed,
      Table.lookup_upsertAll_of_mem hdistinct hmarket]
    refine ⟨_, rfl, ?_⟩
    cases rows.lookup market.ticker with
    | none => exact ⟨rfl, rfl⟩
    | some row => exact ⟨rfl, rfl⟩
  · intro ticker hdropped
    rw [hlookup, if_pos hdropped, hwritten ticker (mem_dropped.mp hdropped).1]
  · intro ticker hnot hkeeps
    rw [hlookup, if_neg hkeeps, hwritten ticker hnot]

namespace Committed

variable (h : Committed rows existing resolved after)
include h

theorem named_isSome (hnamed : Named resolved ticker) : (after.lookup ticker).isSome := by
  obtain ⟨market, hmarket, rfl⟩ := List.mem_map.mp hnamed
  obtain ⟨row, hrow, -⟩ := h.named market hmarket
  rw [hrow]
  rfl

/-- No row is removed. -/
theorem kept (hsome : (rows.lookup ticker).isSome) : (after.lookup ticker).isSome := by
  by_cases hnamed : Named resolved ticker
  · exact h.named_isSome hnamed
  · by_cases hdropped : ticker ∈ VaultMarkets.dropped existing resolved
    · rw [h.dropped ticker hdropped, Option.isSome_map]
      exact hsome
    · rwa [h.others ticker hnamed hdropped]

theorem positive (hset : Weighed (resolved.map Resolved.weight)) (hpos : Positive rows) :
    Positive after := by
  intro ticker row hrow
  by_cases hnamed : Named resolved ticker
  · obtain ⟨market, hmarket, rfl⟩ := List.mem_map.mp hnamed
    obtain ⟨written, hwritten, -, hweight⟩ := h.named market hmarket
    obtain rfl := Option.some.inj (hrow.symm.trans hwritten)
    rw [hweight]
    exact Rat.num_pos.mpr (hset.positive _ (List.mem_map_of_mem hmarket))
  · by_cases hdropped : ticker ∈ VaultMarkets.dropped existing resolved
    · rw [h.dropped ticker hdropped] at hrow
      obtain ⟨old, hold, rfl⟩ := Option.map_eq_some_iff.mp hrow
      exact hpos ticker old hold
    · rw [h.others ticker hnamed hdropped] at hrow
      exact hpos ticker row hrow

end Committed

/-- Every enabled row is named by the request, or was read enabled by it. -/
def Covered (rows existing : Rows) (resolved : List Resolved) : Prop :=
  ∀ ticker row, rows.lookup ticker = some row → row.enabled = true →
    Named resolved ticker ∨ ∃ read, existing.lookup ticker = some read ∧ read.enabled = true

theorem sum_num {set : List (String × ℚ)} (h : ∀ market ∈ set, market.2.den = 1) :
    (((set.map fun market => market.2.num).sum : Int) : ℚ) = (set.map Prod.snd).sum := by
  induction set with
  | nil => rfl
  | cons first rest ih =>
      obtain ⟨hfirst, hrest⟩ := List.forall_mem_cons.mp h
      rw [List.map_cons, List.sum_cons, Int.cast_add, ih hrest, List.map_cons, List.sum_cons,
        Rat.coe_int_num_of_den_eq_one hfirst]

theorem Weighed.sum_num_eq (h : Weighed (resolved.map Resolved.weight)) :
    (resolved.map fun market => market.targetWeightBps.num).sum = fullWeightBps := by
  have hsum := (sum_num h.whole).trans h.full
  rw [List.map_map] at hsum
  exact Rat.intCast_inj.mp hsum

/-- The named rows take the whole of the vault. -/
theorem Committed.sum_named (h : Committed rows existing resolved after)
    (hset : Weighed (resolved.map Resolved.weight)) :
    ∑ ticker ∈ (resolved.map Resolved.ticker).toFinset, after.column MarketRow.target ticker =
      fullWeightBps := by
  have hdistinct : (resolved.map Resolved.ticker).Nodup := by
    rw [← map_fst_weight]
    exact hset.distinct
  rw [List.sum_toFinset _ hdistinct, List.map_map, ← hset.sum_num_eq]
  congr 1
  refine List.map_congr_left fun market hmarket => ?_
  obtain ⟨row, hrow, henabled, hweight⟩ := h.named market hmarket
  show after.column MarketRow.target market.ticker = _
  rw [Table.column_of_lookup hrow, MarketRow.target, if_pos henabled, hweight]

/-- What a row that is not named takes after the transaction. -/
theorem Committed.target_eq_zero_iff (h : Committed rows existing resolved after)
    (hpos : Positive rows) (hnot : ¬ Named resolved ticker) :
    after.column MarketRow.target ticker = 0 ↔
      ∀ row, rows.lookup ticker = some row → row.enabled = true →
        ∃ read, existing.lookup ticker = some read ∧ read.enabled = true := by
  by_cases hdropped : ticker ∈ VaultMarkets.dropped existing resolved
  -- a dropped row is written as disabled
  · refine iff_of_true ?_ fun _ _ _ => (mem_dropped.mp hdropped).2
    rw [Table.column, h.dropped ticker hdropped]
    cases rows.lookup ticker with
    | none => rfl
    | some row => rfl
  · have hunread : ¬ ∃ read, existing.lookup ticker = some read ∧ read.enabled = true :=
      fun hread => hdropped (mem_dropped.mpr ⟨hnot, hread⟩)
    -- any other keeps what it is, which counts if it is enabled
    have hsame : after.column MarketRow.target ticker = rows.column MarketRow.target ticker := by
      rw [Table.column, Table.column, h.others ticker hnot hdropped]
    rw [hsame]
    cases hrow : rows.lookup ticker with
    | none =>
        refine iff_of_true (Table.column_of_lookup_none hrow) fun row hsome => ?_
        cases hsome
    | some row =>
        rw [hpos.target_eq_zero hrow]
        constructor
        · intro hdisabled row' hrow' henabled
          obtain rfl := Option.some.inj hrow'
          exact absurd (hdisabled.symm.trans henabled) Bool.false_ne_true
        · intro hall
          by_contra henabled
          exact hunread (hall row rfl (Bool.eq_true_of_not_eq_false henabled))

/-- **What a transaction leaves enabled adds up to the whole** if and only if every row that
was enabled is named by the request or was read enabled by it. -/
theorem Committed.enabledWeight_iff (h : Committed rows existing resolved after)
    (hset : Weighed (resolved.map Resolved.weight)) (hpos : Positive rows) :
    enabledWeight after = fullWeightBps ↔ Covered rows existing resolved := by
  have hkeys : ∀ ticker, (after.lookup ticker).isSome → ticker ∈ after.keys.toFinset :=
    fun ticker hsome => List.mem_toFinset.mpr (AList.lookup_isSome.mp hsome)
  have hsub : (resolved.map Resolved.ticker).toFinset ⊆ after.keys.toFinset :=
    fun ticker hnamed => hkeys ticker (h.named_isSome (List.mem_toFinset.mp hnamed))
  have hnonneg : ∀ ticker ∈ after.keys.toFinset \ (resolved.map Resolved.ticker).toFinset,
      0 ≤ after.column MarketRow.target ticker :=
    fun ticker _ => (h.positive hset hpos).target_nonneg ticker
  -- the named rows are the whole, so the others have to come to nothing, each by itself
  rw [enabledWeight_eq, Table.columnSum_eq_sum hkeys, ← Finset.sum_sdiff hsub,
    h.sum_named hset, add_eq_right, Finset.sum_eq_zero_iff_of_nonneg hnonneg]
  constructor
  · intro hzero ticker row hrow henabled
    by_contra hneither
    rw [not_or] at hneither
    obtain ⟨hnot, hunread⟩ := hneither
    have hmem : ticker ∈ after.keys.toFinset \ (resolved.map Resolved.ticker).toFinset :=
      Finset.mem_sdiff.mpr ⟨hkeys ticker (h.kept (by rw [hrow]; rfl)),
        fun hnamed => hnot (List.mem_toFinset.mp hnamed)⟩
    exact hunread ((h.target_eq_zero_iff hpos hnot).mp (hzero ticker hmem) row hrow henabled)
  · intro hcovered ticker hmem
    have hnot : ¬ Named resolved ticker := fun hnamed =>
      (Finset.mem_sdiff.mp hmem).2 (List.mem_toFinset.mpr hnamed)
    refine (h.target_eq_zero_iff hpos hnot).mpr fun row hrow henabled => ?_
    exact (hcovered ticker row hrow henabled).resolve_left hnot

/-! ### Seeding -/

/-- The founding market has its row. -/
def Founded (vault : Vault) (rows : Rows) : Prop :=
  ∀ config, vault.config = some config → (rows.lookup config.ticker).isSome

theorem lookup_of_empty (h : rows.rows = []) (ticker : String) : rows.lookup ticker = none := by
  cases hrow : rows.lookup ticker with
  | none => rfl
  | some row =>
      have hmem := Table.mem_rows.mpr hrow
      rw [h] at hmem
      cases hmem

theorem lookup_seed (config : VaultConfig) (rows : Rows) (ticker : String) :
    (seedFoundingMarket config rows).lookup ticker =
      if ticker = config.ticker then some ((rows.lookup ticker).getD (foundingRow config))
      else rows.lookup ticker := by
  split
  next heq =>
    rw [heq, seedFoundingMarket, Table.lookup_upsert_self, Option.map_id]
    rfl
  next hne => exact Table.lookup_upsert_of_ne hne

theorem founded_seed {config : VaultConfig} (hconfig : vault.config = some config) :
    Founded vault (seedFoundingMarket config rows) := by
  intro config' hconfig'
  obtain rfl := Option.some.inj (hconfig.symm.trans hconfig')
  rw [lookup_seed, if_pos rfl]
  rfl

theorem positive_seed {config : VaultConfig} (hpos : Positive rows) :
    Positive (seedFoundingMarket config rows) := by
  intro ticker row hrow
  rw [lookup_seed] at hrow
  split at hrow
  next =>
    cases hold : rows.lookup ticker with
    | none =>
        rw [hold] at hrow
        obtain rfl := Option.some.inj hrow
        show (0 : Int) < 10000
        decide
    | some old =>
        rw [hold] at hrow
        obtain rfl := Option.some.inj hrow
        exact hpos ticker old hold
  next => exact hpos ticker row hrow

theorem kept_seed {config : VaultConfig} (hsome : (rows.lookup ticker).isSome) :
    ((seedFoundingMarket config rows).lookup ticker).isSome := by
  rw [lookup_seed]
  split
  next => rfl
  next => exact hsome

/-- The founding market has the whole of a vault without rows. -/
theorem enabledWeight_seed_empty (config : VaultConfig) (h : rows.rows = []) :
    enabledWeight (seedFoundingMarket config rows) = fullWeightBps := by
  have hlookup : ∀ ticker, (seedFoundingMarket config rows).lookup ticker =
      if ticker = config.ticker then some (foundingRow config) else none := by
    intro ticker
    rw [lookup_seed, lookup_of_empty h, Option.getD_none]
  have hkeys : ∀ ticker, ((seedFoundingMarket config rows).lookup ticker).isSome →
      ticker ∈ ({config.ticker} : Finset String) := by
    intro ticker hsome
    rw [hlookup] at hsome
    split at hsome
    next heq => exact Finset.mem_singleton.mpr heq
    next => cases hsome
  rw [enabledWeight_eq, Table.columnSum_eq_sum hkeys, Finset.sum_singleton,
    Table.column_of_lookup ((hlookup _).trans (if_pos rfl))]
  rfl

/-- Where it has its row, seeding changes nothing. -/
theorem enabledWeight_seed_founded {config : VaultConfig}
    (h : (rows.lookup config.ticker).isSome) :
    enabledWeight (seedFoundingMarket config rows) = enabledWeight rows := by
  rw [enabledWeight_eq, enabledWeight_eq]
  refine Table.columnSum_congr fun ticker => ?_
  rw [lookup_seed]
  split
  next heq =>
    obtain ⟨row, hrow⟩ := Option.isSome_iff_exists.mp h
    rw [heq, hrow, Option.getD_some]
  next => rfl

/-! ### What a statement moves -/

/-- The statements that commit something. -/
def MarketsAct.commits : MarketsAct → Bool
  | .seed _ => true
  | .write _ => true
  | _ => false

def MarketsAct.caller : MarketsAct → Nat
  | .call i => i
  | .resolve i _ => i
  | .read i => i
  | .configure i => i
  | .seed i => i
  | .diff i => i
  | .write i => i
  | .fail i => i

/-- The call has read the rows it is to write against. -/
def Progress.Writes (p : Progress) (existing : Rows) : Prop :=
  ∃ resolved, p = .writing resolved existing

theorem not_writes {p : Progress} (h : ∀ resolved existing, p ≠ .writing resolved existing) :
    ¬ p.Writes existing := fun ⟨resolved, hp⟩ => h resolved existing hp

theorem proceed_not_writes {next : Option (List Resolved)} {answer : List VaultMarketConfig} :
    ¬ (proceed next answer).Writes existing := by
  cases next with
  | none => exact not_writes nofun
  | some resolved => exact not_writes nofun

theorem begin_not_writes {request : Request} : ¬ (begin vault request).Writes existing := by
  unfold begin
  split
  next => exact not_writes nofun
  next => split <;> exact not_writes nofun
  next =>
    split
    next => exact not_writes nofun
    next => dsimp only; split <;> exact not_writes nofun
  next => split <;> exact not_writes nofun

/-- A statement moves the call that takes it, and no other; the rows, only if it commits; and
to its write, only by reading the rows there are. -/
theorem step_moves {act : MarketsAct} (h : step vault s act = some s') :
    ∃ p rows, s' = { s.setCall act.caller p with rows := rows } ∧
      (act.commits = false → rows = s.rows) ∧
      ∀ existing, p.Writes existing → act.commits = false ∧ existing = s.rows := by
  cases act with
  | call i =>
      obtain ⟨-, rfl⟩ := call_some h
      exact ⟨_, _, rfl, fun _ => rfl, fun _ hp => absurd hp begin_not_writes⟩
  | resolve i board =>
      obtain ⟨_, -, ⟨_, rfl⟩ | ⟨_, -, rfl⟩⟩ := resolve_some h
      · exact ⟨_, _, rfl, fun _ => rfl, fun _ hp => absurd hp (not_writes nofun)⟩
      · exact ⟨_, _, rfl, fun _ => rfl, fun _ hp => absurd hp (not_writes nofun)⟩
  | read i =>
      obtain ⟨_, -, ⟨-, rfl⟩ | ⟨-, rfl⟩⟩ := read_some h
      · exact ⟨_, _, rfl, fun _ => rfl, fun _ hp => absurd hp (not_writes nofun)⟩
      · exact ⟨_, _, rfl, fun _ => rfl, fun _ hp => absurd hp proceed_not_writes⟩
  | configure i =>
      obtain ⟨_, -, ⟨-, rfl⟩ | ⟨_, -, rfl⟩⟩ := configure_some h
      · exact ⟨_, _, rfl, fun _ => rfl, fun _ hp => absurd hp proceed_not_writes⟩
      · exact ⟨_, _, rfl, fun _ => rfl, fun _ hp => absurd hp (not_writes nofun)⟩
  -- a seed commits a row, and the call reads on
  | seed i =>
      obtain ⟨_, _, _, -, rfl⟩ := seed_some h
      exact ⟨_, _, rfl, nofun, fun _ hp => absurd hp proceed_not_writes⟩
  -- only here a call comes to its write, with the rows as they are
  | diff i =>
      obtain ⟨resolved, -, rfl⟩ := diff_some h
      refine ⟨_, _, rfl, fun _ => rfl, ?_⟩
      rintro existing ⟨_, hp⟩
      exact ⟨rfl, (Progress.writing.inj hp).2.symm⟩
  | write i =>
      obtain ⟨resolved, read, -, rfl⟩ := write_some h
      cases commit vault.strings s.rows resolved read with
      | none => exact ⟨_, _, rfl, nofun, fun _ hp => absurd hp (not_writes nofun)⟩
      | some after => exact ⟨_, _, rfl, nofun, fun _ hp => absurd hp (not_writes nofun)⟩
  | fail i =>
      obtain rfl := fail_some h
      exact ⟨_, _, rfl, fun _ => rfl, fun _ hp => absurd hp (not_writes nofun)⟩

theorem rows_of_other {act : MarketsAct} (hact : act.commits = false)
    (h : step vault s act = some s') : s'.rows = s.rows := by
  obtain ⟨p, rows, rfl, hrows, -⟩ := step_moves h
  exact hrows hact

theorem calls_of_other {act : MarketsAct} {j : Nat} (hj : j ≠ act.caller)
    (h : step vault s act = some s') : s'.calls j = s.calls j := by
  obtain ⟨p, rows, rfl, -, -⟩ := step_moves h
  exact setCall_of_ne hj

theorem writes_of_caller {act : MarketsAct} (h : step vault s act = some s')
    (hwrites : (s'.calls act.caller).Writes existing) :
    act.commits = false ∧ existing = s.rows := by
  obtain ⟨p, rows, rfl, -, hread⟩ := step_moves h
  exact hread existing ((setCall_self s act.caller p) ▸ hwrites)

/-! ### Every interleaving -/

/-- What a call has in hand: a set it may write, the configuration it read, the founding
market's row, and rows that are still there. -/
def Progress.Good (vault : Vault) (rows : Rows) : Progress → Prop
  | .resolving requested => Weighed (requested.map Requested.weight)
  | .reading next => ∀ resolved ∈ next, Weighed (resolved.map Resolved.weight)
  | .configuring next => ∀ resolved ∈ next, Weighed (resolved.map Resolved.weight)
  | .seeding config next => vault.config = some config ∧
      ∀ resolved ∈ next, Weighed (resolved.map Resolved.weight)
  | .diffing resolved => Weighed (resolved.map Resolved.weight) ∧ Founded vault rows
  | .writing resolved existing => Weighed (resolved.map Resolved.weight) ∧ Founded vault rows ∧
      ∀ ticker, (existing.lookup ticker).isSome → (rows.lookup ticker).isSome
  | _ => True

/-- No row is removed. -/
def Kept (rows after : Rows) : Prop :=
  ∀ ticker, (rows.lookup ticker).isSome → (after.lookup ticker).isSome

theorem Founded.kept (h : Founded vault rows) (hkept : Kept rows after) : Founded vault after :=
  fun config hconfig => hkept _ (h config hconfig)

theorem Progress.Good.kept {p : Progress} (h : p.Good vault rows) (hkept : Kept rows after) :
    p.Good vault after := by
  cases p with
  | diffing resolved => exact ⟨h.1, h.2.kept hkept⟩
  | writing resolved existing =>
      exact ⟨h.1, h.2.1.kept hkept, fun ticker hsome => hkept ticker (h.2.2 ticker hsome)⟩
  | _ => exact h

/-- What every state of a run has. -/
structure MarketsInv (vault : Vault) (s : MarketsState) : Prop where
  positive : Positive s.rows
  founded : s.rows.rows = [] ∨ Founded vault s.rows
  good : ∀ i, (s.calls i).Good vault s.rows

theorem MarketsInv.setCall {p : Progress} (h : MarketsInv vault s) (hp : p.Good vault s.rows) :
    MarketsInv vault (s.setCall i p) where
  positive := h.positive
  founded := h.founded
  good j := by
    by_cases hj : j = i
    · rw [hj, setCall_self]
      exact hp
    · rw [setCall_of_ne hj]
      exact h.good j

theorem MarketsInv.setRows {p : Progress} (h : MarketsInv vault s) (hkept : Kept s.rows after)
    (hpos : Positive after) (hfounded : Founded vault after) (hp : p.Good vault after) :
    MarketsInv vault { s.setCall i p with rows := after } where
  positive := hpos
  founded := .inr hfounded
  good j := by
    by_cases hj : j = i
    · rw [hj]
      show ((s.setCall i p).calls i).Good vault after
      rw [setCall_self]
      exact hp
    · show ((s.setCall i p).calls j).Good vault after
      rw [setCall_of_ne hj]
      exact (h.good j).kept hkept

theorem begin_good (vault : Vault) (request : Request) (rows : Rows) :
    (begin vault request).Good vault rows := by
  cases request with
  | vaultMarkets => exact nofun
  | listVaultMarkets address =>
      simp only [begin]
      split
      next => trivial
      next => exact nofun
  | setVaultMarkets address markets =>
      simp only [begin]
      split
      next => trivial
      next =>
        split
        next => trivial
        next hvalid => exact validateWeights_none hvalid
  | seedFoundingMarket =>
      simp only [begin]
      split
      next config hconfig => exact ⟨hconfig, nofun⟩
      next => trivial

theorem proceed_good {next : Option (List Resolved)} {answer : List VaultMarketConfig}
    (hnext : ∀ resolved ∈ next, Weighed (resolved.map Resolved.weight))
    (hfounded : Founded vault rows) : (proceed next answer).Good vault rows := by
  cases next with
  | none => trivial
  | some resolved => exact ⟨hnext resolved rfl, hfounded⟩

/-- What a write leaves, where the call may write it. -/
theorem write_committed {resolved : List Resolved} (hI : MarketsInv vault s)
    (hwriting : s.calls i = .writing resolved existing) :
    ∃ after, s.wrote i (commit vault.strings s.rows resolved existing) =
        { s.setCall i (.reading none) with rows := after } ∧
      Weighed (resolved.map Resolved.weight) ∧ Founded vault s.rows ∧
      Committed s.rows existing resolved after := by
  have hgood := hI.good i
  rw [hwriting] at hgood
  obtain ⟨hset, hfounded, hstill⟩ := hgood
  obtain ⟨after, hafter, hcommitted⟩ := commit_some vault.strings hset hstill
  exact ⟨after, by rw [hafter]; rfl, hset, hfounded, hcommitted⟩

theorem MarketsInv.next {act : MarketsAct} (hI : MarketsInv vault s)
    (h : step vault s act = some s') : MarketsInv vault s' := by
  cases act with
  | call i =>
      obtain ⟨-, rfl⟩ := call_some h
      exact hI.setCall (begin_good _ _ _)
  -- a request reads before it writes; each stage keeps what it has read true
  | resolve i board =>
      obtain ⟨requested, hrequested, ⟨error, rfl⟩ | ⟨resolved, hresolved, rfl⟩⟩ := resolve_some h
      · exact hI.setCall trivial
      · have hgood := hI.good i
        rw [hrequested] at hgood
        refine hI.setCall fun resolved' hmem => ?_
        obtain rfl := Option.some.inj hmem
        rw [resolve_ok hresolved]
        exact hgood
  | read i =>
      obtain ⟨next, hnext, ⟨-, rfl⟩ | ⟨hsome, rfl⟩⟩ := read_some h
      · have hgood := hI.good i
        rw [hnext] at hgood
        exact hI.setCall hgood
      · have hgood := hI.good i
        rw [hnext] at hgood
        exact hI.setCall (proceed_good hgood (hI.founded.resolve_left hsome))
  | configure i =>
      obtain ⟨next, hnext, ⟨hnone, rfl⟩ | ⟨config, hconfig, rfl⟩⟩ := configure_some h
      · have hgood := hI.good i
        rw [hnext] at hgood
        refine hI.setCall (proceed_good hgood fun config hconfig => ?_)
        rw [hnone] at hconfig
        cases hconfig
      · have hgood := hI.good i
        rw [hnext] at hgood
        exact hI.setCall ⟨hconfig, hgood⟩
  -- the two writes: the founding market, and the weights
  | seed i =>
      obtain ⟨config, next, answer, hseeding, rfl⟩ := seed_some h
      have hgood := hI.good i
      rw [hseeding] at hgood
      have hfounded : Founded vault (seedFoundingMarket config s.rows) := founded_seed hgood.1
      exact hI.setRows (fun _ => kept_seed) (positive_seed hI.positive) hfounded
        (proceed_good hgood.2 hfounded)
  | diff i =>
      obtain ⟨resolved, hresolved, rfl⟩ := diff_some h
      have hgood := hI.good i
      rw [hresolved] at hgood
      exact hI.setCall ⟨hgood.1, hgood.2, fun _ hsome => hsome⟩
  | write i =>
      obtain ⟨resolved, existing, hwriting, rfl⟩ := write_some h
      obtain ⟨after, hwrote, hset, hfounded, hcommitted⟩ := write_committed hI hwriting
      have hkept : Kept s.rows after := fun _ => hcommitted.kept
      rw [hwrote]
      exact hI.setRows hkept (hcommitted.positive hset hI.positive) (hfounded.kept hkept) nofun
  | fail i =>
      obtain rfl := fail_some h
      exact hI.setCall trivial

/-- What is asked of a committed transaction: the enabled rows add up to the whole, and no
row that was there is gone. -/
structure Balanced (t : Transition MarketsState MarketsAct) : Prop where
  full : enabledWeight t.post.rows = fullWeightBps
  kept : Kept t.pre.rows t.post.rows

/-- A write finds enabled only what its request names and what its call read enabled. -/
def Seen (t : Transition MarketsState MarketsAct) : Prop :=
  ∀ i resolved existing, t.label = .write i → t.pre.calls i = .writing resolved existing →
    Covered t.pre.rows existing resolved

/-- The rows add up, where there are any. -/
def FullOrEmpty (s : MarketsState) : Prop :=
  s.rows.rows = [] ∨ enabledWeight s.rows = fullWeightBps

/-- A vault before its calls, as its creation or earlier calls left it. -/
structure Start (vault : Vault) (s : MarketsState) : Prop where
  called : ∀ i, s.calls i = .called
  positive : Positive s.rows
  founded : s.rows.rows = [] ∨ Founded vault s.rows
  full : FullOrEmpty s

theorem Start.inv (h : Start vault s) : MarketsInv vault s where
  positive := h.positive
  founded := h.founded
  good i := by
    rw [h.called i]
    trivial

theorem balanced_write_iff (hI : MarketsInv vault s) (h : step vault s (.write i) = some s') :
    Balanced ⟨s, .write i, s'⟩ ↔ Seen ⟨s, .write i, s'⟩ := by
  obtain ⟨resolved, existing, hwriting, rfl⟩ := write_some h
  obtain ⟨after, hwrote, hset, -, hcommitted⟩ := write_committed hI hwriting
  have hiff := hcommitted.enabledWeight_iff hset hI.positive
  rw [hwrote]
  constructor
  · intro hbalanced j resolved' existing' hlabel hwriting'
    obtain rfl := MarketsAct.write.inj hlabel
    obtain ⟨rfl, rfl⟩ := Progress.writing.inj (hwriting.symm.trans hwriting')
    exact hiff.mp hbalanced.full
  · intro hseen
    exact ⟨hiff.mpr (hseen i resolved existing rfl hwriting), fun _ => hcommitted.kept⟩

theorem balanced_seed (hI : MarketsInv vault s) (hfull : FullOrEmpty s)
    (h : step vault s (.seed i) = some s') : Balanced ⟨s, .seed i, s'⟩ := by
  obtain ⟨config, next, answer, hseeding, rfl⟩ := seed_some h
  refine ⟨?_, fun _ => kept_seed⟩
  show enabledWeight (seedFoundingMarket config s.rows) = fullWeightBps
  by_cases hempty : s.rows.rows = []
  · exact enabledWeight_seed_empty config hempty
  · have hgood := hI.good i
    rw [hseeding] at hgood
    rw [enabledWeight_seed_founded ((hI.founded.resolve_left hempty) config hgood.1)]
    exact hfull.resolve_left hempty

/-- One statement keeps the rows adding up, if what it writes was seen. -/
theorem FullOrEmpty.next {act : MarketsAct} (hfull : FullOrEmpty s) (hI : MarketsInv vault s)
    (hseen : Seen ⟨s, act, s'⟩) (h : step vault s act = some s') : FullOrEmpty s' := by
  cases hcommits : act.commits with
  | false =>
      rw [FullOrEmpty, rows_of_other hcommits h]
      exact hfull
  | true =>
      cases act with
      | seed i => exact .inr (balanced_seed hI hfull h).full
      | write i => exact .inr ((balanced_write_iff hI h).mpr hseen).full
      | _ => cases hcommits

/-- **When the enabled weights add up.** In every run of the calls, however their statements
interleave and wherever they fail, every committed transaction leaves the enabled rows at the
whole of the vault, and no row removed, if and only if every write found enabled only what
its request names and what its call had read enabled. -/
theorem weights_full_iff_seen {s₀ : MarketsState}
    {tr : List (Transition MarketsState MarketsAct)} (hstart : Start vault s₀)
    (hrun : Run (step vault) s₀ tr s) :
    (∀ t ∈ tr, t.label.commits = true → Balanced t) ↔ ∀ t ∈ tr, Seen t := by
  have hinv := hrun.invariant hstart.inv fun s act s' hI h => hI.next h
  have hstep := hrun.step_of_mem
  constructor
  · intro hall t ht i resolved existing hlabel hwriting
    obtain ⟨pre, act, post⟩ := t
    obtain rfl : act = .write i := hlabel
    have hbalanced := hall _ ht rfl
    exact (balanced_write_iff (hinv.2 _ ht).1 (hstep _ ht)).mp hbalanced i resolved existing rfl
      hwriting
  -- full weights are kept by a write that saw all, so each starts from them
  · intro hseen t ht hcommits
    have hfull := hrun.invariant_of (I := fun s => MarketsInv vault s ∧ FullOrEmpty s) hseen
      ⟨hstart.inv, hstart.full⟩ fun s act s' hseen hI h =>
        ⟨hI.1.next h, hI.2.next hI.1 hseen h⟩
    obtain ⟨pre, act, post⟩ := t
    obtain ⟨hI, hfull⟩ := (hfull.2 _ ht).1
    cases act with
    | seed i => exact balanced_seed hI hfull (hstep _ ht)
    | write i => exact (balanced_write_iff hI (hstep _ ht)).mpr (hseen _ ht)
    | _ => cases hcommits

/-! ### One call at a time -/

/-- Nothing is committed while another call is between its diff and its write. -/
def Exclusive (t : Transition MarketsState MarketsAct) : Prop :=
  t.label.commits = true → ∀ j, j ≠ t.label.caller → ∀ existing, ¬ (t.pre.calls j).Writes existing

/-- What a call is to write against is what is there. -/
def UpToDate (s : MarketsState) : Prop :=
  ∀ j existing, (s.calls j).Writes existing → existing = s.rows

theorem UpToDate.next {act : MarketsAct} (hup : UpToDate s) (hexcl : Exclusive ⟨s, act, s'⟩)
    (h : step vault s act = some s') : UpToDate s' := by
  intro j existing hwrites
  by_cases hj : j = act.caller
  · subst hj
    obtain ⟨hact, rfl⟩ := writes_of_caller h hwrites
    exact (rows_of_other hact h).symm
  · rw [calls_of_other hj h] at hwrites
    cases hact : act.commits with
    | false =>
        rw [rows_of_other hact h]
        exact hup j existing hwrites
    | true => exact absurd hwrites (hexcl hact j hj existing)

/-- **Calls that exclude each other see all they write.** So the weights add up. -/
theorem seen_of_exclusive {s₀ : MarketsState}
    {tr : List (Transition MarketsState MarketsAct)} (hstart : Start vault s₀)
    (hrun : Run (step vault) s₀ tr s) (hexcl : ∀ t ∈ tr, Exclusive t) : ∀ t ∈ tr, Seen t := by
  have hcalled : UpToDate s₀ := by
    rintro j existing ⟨resolved, hj⟩
    rw [hstart.called j] at hj
    cases hj
  have hup := hrun.invariant_of hexcl hcalled fun s act s' hexcl hup h => hup.next hexcl h
  intro t ht i resolved existing hlabel hwriting ticker row hrow henabled
  obtain rfl := (hup.2 t ht).1 i existing ⟨resolved, hwriting⟩
  exact .inr ⟨row, hrow, henabled⟩

/-- A call that is alone excludes the others. -/
theorem exclusive_of_alone {s₀ : MarketsState}
    {tr : List (Transition MarketsState MarketsAct)} (hstart : Start vault s₀)
    (hrun : Run (step vault) s₀ tr s) (halone : ∀ t ∈ tr, t.label.caller = i) :
    ∀ t ∈ tr, Exclusive t := by
  have hothers := hrun.invariant_of (I := fun s => ∀ j, j ≠ i → s.calls j = .called) halone
    (fun j _ => hstart.called j) fun s act s' hcaller hothers h j hj => by
      rw [calls_of_other (fun heq => hj (heq.trans hcaller)) h]
      exact hothers j hj
  intro t ht hcommits j hj existing hwrites
  rw [halone t ht] at hj
  rw [(hothers.2 t ht).1 j hj] at hwrites
  exact not_writes (p := .called) nofun hwrites

/-! ### One operator, and two -/

/-- Strings without blanks, all in capitals. -/
def capitals : Strings := ⟨id, id, id, compare⟩

def pairingOf (symbol : String) : Pairing := ⟨"0x00", 18, symbol, symbol⟩

def tradable : List Listed := [⟨"BTC", [], pairingOf "BTC"⟩, ⟨"ETH", [], pairingOf "ETH"⟩]

/-- A vault founded on NVDA that has no rows yet, and two operators: one wants it in BTC, the
other in ETH. -/
def contested : Vault where
  strings := capitals
  config := some ⟨"NVDA", pairingOf "NVDA"⟩
  request i := .setVaultMarkets "0X01" [⟨if i = 0 then "BTC" else "ETH", 10000⟩]

def unseeded : MarketsState := ⟨∅, fun _ => .called⟩

theorem unseeded_start : Start contested unseeded where
  called _ := rfl
  positive _ _ h := by cases h
  founded := .inl rfl
  full := .inl rfl

/-- One operator alone, from the seeding to the write. -/
def alone : List MarketsAct :=
  [.call 0, .resolve 0 tradable, .read 0, .configure 0, .seed 0, .diff 0, .write 0]

theorem alone_isSome : (trace (step contested) unseeded alone).isSome := by decide +kernel

/-- The write leaves the weights adding up. -/
theorem weights_full_iff_seen_alone :
    ∃ t, (Option.get _ alone_isSome).1.getLast? = some t ∧ Balanced t := by
  have hrun := trace_run (Option.some_get alone_isSome).symm
  have hcaller : ∀ t ∈ (Option.get _ alone_isSome).1, t.label.caller = 0 := by
    have hlabels := trace_labels (Option.some_get alone_isSome).symm
    intro t ht
    have hmem : t.label ∈ alone := hlabels ▸ List.mem_map_of_mem ht
    have hall : ∀ act ∈ alone, act.caller = 0 := by
      simp [alone, MarketsAct.caller]
    exact hall _ hmem
  have hseen := seen_of_exclusive unseeded_start hrun
    (exclusive_of_alone unseeded_start hrun hcaller)
  have hlast : ((Option.get _ alone_isSome).1.getLast?.map fun t => t.label.commits) =
      some true := by decide +kernel
  obtain ⟨t, ht, hcommits⟩ := Option.map_eq_some_iff.mp hlast
  exact ⟨t, ht, (weights_full_iff_seen unseeded_start hrun).mpr hseen t
    (List.mem_of_getLast? ht) hcommits⟩

/-- Both operators read the rows before either writes. -/
def together : List MarketsAct :=
  [.call 0, .call 1, .resolve 0 tradable, .resolve 1 tradable, .read 0, .configure 0, .seed 0,
    .read 1, .diff 0, .diff 1, .write 0, .write 1]

theorem together_isSome : (trace (step contested) unseeded together).isSome := by decide +kernel

/-- Each has disabled NVDA and neither has seen the other's market: both stay enabled in
full. -/
theorem weights_doubled :
    ¬ ∀ (vault : Vault) (s₀ s : MarketsState) (tr : List (Transition MarketsState MarketsAct)),
      Start vault s₀ → Run (step vault) s₀ tr s →
      ∀ t ∈ tr, t.label.commits = true → Balanced t := by
  intro h
  have hlast : ((Option.get _ together_isSome).1.getLast?.map fun t =>
      (t.label.commits, enabledWeight t.post.rows)) = some (true, 20000) := by decide +kernel
  obtain ⟨t, ht, hpair⟩ := Option.map_eq_some_iff.mp hlast
  obtain ⟨hcommits, hdoubled⟩ := Prod.mk.inj hpair
  have hrun := trace_run (Option.some_get together_isSome).symm
  have hbalanced := h _ _ _ _ unseeded_start hrun t (List.mem_of_getLast? ht) hcommits
  exact absurd (hdoubled.symm.trans hbalanced.full) (by decide)

end VaultMarkets

end LemonMarket.Api
