import LemonMarket.Core.Units
import LemonMarket.Lib.WorkerPool

/-!
# LemonMarket.Registry.Routability

**Measuring what can be traded** (`routability.ts`). Each token is quoted both ways, a quote is
asked for again when the request itself failed, and a few workers share the list of tokens. What
the aggregator answers is not the code's: a `Conversation` is its answers, by request and
attempt, and the replies to the workers may come in any order.

So the report of a token is that of one probe of that token, wherever it came in the order
(`probeAllTokens_complete`), and what a report says is what was answered: a price without the
cost of measuring it, and no token untradable but on the aggregator's word
(`reported_as_answered`). Prices are exact: the rounding of the fill is the venue's, that of
doubles is left out.
-/

namespace LemonMarket

namespace Registry

open Lib NumberText LemonMarket.Core

/-- What a quote says, as far as it is read here. -/
structure SpotQuote where
  amountOut : JsString
  priceImpactPercent : Number
  deriving DecidableEq

inductive QuoteResult
  | ok (quote : SpotQuote)
  | noRoute
  deriving DecidableEq

inductive ProbeOutcome
  | route (quote : SpotQuote)
  | noRoute
  | error
  deriving DecidableEq

def ProbeOutcome.isRoute : ProbeOutcome → Bool
  | .route _ => true
  | _ => false

def ProbeOutcome.quote? : ProbeOutcome → Option SpotQuote
  | .route quote => some quote
  | _ => none

/-- The answers to a request, by attempt; a request that failed has none. -/
abbrev Answers := Nat → Option QuoteResult

def QuoteResult.outcome : QuoteResult → ProbeOutcome
  | .ok quote => .route quote
  | .noRoute => .noRoute

/-- The wait before the attempt after `attempt`, in milliseconds. -/
def retryDelay (attempt : Nat) : Nat := 400 * 2 ^ attempt

/-- The attempts left, from `attempt` on: how it ends, and the waits on the way. -/
def quoteLoop (answers : Answers) (attempts : Nat) : Nat → Nat → ProbeOutcome × List Nat
  | 0, _ => (.error, [])
  | left + 1, attempt =>
      match answers attempt with
      | some result => (result.outcome, [])
      | none =>
          let rest := quoteLoop answers attempts left (attempt + 1)
          if attempt < attempts - 1 then (rest.1, retryDelay attempt :: rest.2) else rest

/-- `quoteOnce`, whose `attempts` are three unless it is told. -/
def quoteOnce (answers : Answers) (attempts : Nat) : ProbeOutcome × List Nat :=
  quoteLoop answers attempts attempts 0

/-- The dollars probed with. -/
def probeUsd : ℚ := 1000

def usdcAddress : JsString := js "0x833589fCD6eDb6E08f4c7C32D4f71b54bdA02913"
def usdcDecimals : Nat := 6

structure StockTokenSeed where
  symbol : JsString
  address : JsString
  decimals : Nat
  deriving DecidableEq

structure TokenRoutability where
  symbol : JsString
  buyable : Bool
  sellable : Bool
  buyPriceImpactPercent : Option Number
  spotPriceUsd : Option ℚ
  probeFailed : Bool
  checkedAt : Nat
  deriving DecidableEq

/-- The aggregator's side of one probe, by what each leg asks for, and the time it is over. -/
structure Conversation where
  buy : JsString → JsString → JsString → Answers
  sell : JsString → JsString → JsString → Answers
  checkedAt : Nat

/-- `Number` of a text. -/
def numberOf (text : JsString) : Number := ((parseNumber text).map Literal.value).getD .nan

/-- The price a fill implies, its own impact taken out; the outer option is what `BigInt`
throws for. -/
def priceFromProbe (amountOut : JsString) (decimals : Nat) (impactPercent : Number) :
    Option (Option ℚ) :=
  (fromBaseUnits (.text amountOut) decimals).map fun text =>
    match (numberOf text).finite? with
    | none => none
    | some units =>
        if units ≤ 0 then none
        else
          let retained := 1 + (impactPercent.finite?.getD 0) / 100
          if retained ≤ 0 then none else some (probeUsd * retained / units)

/-- `toString` of a `bigint`. -/
def bigintText (value : Int) : JsString :=
  (if value < 0 then [unit '-'] else []) ++ decimal value.natAbs

section

variable (toString : ℚ → Scientific)

/-- What the sell leg asks for: the amount bought, or one unit where none was. -/
def sellAmount (buy : ProbeOutcome) (decimals : Nat) : Option JsString :=
  match buy with
  | .route quote => some quote.amountOut
  | _ => (toBaseUnits toString (.number (.finite 1)) decimals).map bigintText

/-- The price of the buy leg, if it has one. -/
def spotPrice (buy : ProbeOutcome) (decimals : Nat) : Option (Option ℚ) :=
  match buy with
  | .route quote => priceFromProbe quote.amountOut decimals quote.priceImpactPercent
  | _ => some none

/-- `probeToken`; `none` is what it throws. -/
def probeToken (c : Conversation) (token : StockTokenSeed) : Option TokenRoutability := do
  let buyAmount ← toBaseUnits toString (.number (.finite probeUsd)) usdcDecimals
  let buy := (quoteOnce (c.buy usdcAddress token.address (bigintText buyAmount)) 3).1
  let sellAmount ← sellAmount toString buy token.decimals
  let sell := (quoteOnce (c.sell token.address usdcAddress sellAmount) 3).1
  let spotPriceUsd ← spotPrice buy token.decimals
  return {
    symbol := token.symbol
    buyable := buy.isRoute
    sellable := sell.isRoute
    buyPriceImpactPercent := buy.quote?.map SpotQuote.priceImpactPercent
    spotPriceUsd
    probeFailed := buy = .error ∧ sell = .error
    checkedAt := c.checkedAt }

/-- What a worker has of its probe. -/
def probed (tokens : List StockTokenSeed) (i : Nat) (c : Conversation) : Reply TokenRoutability :=
  match tokens[i]?.bind (probeToken toString c) with
  | some report => .resolve report
  | none => .reject

/-- One worker's probe comes to its end. -/
def probeNext (tokens : List StockTokenSeed) (p : WorkerPool TokenRoutability)
    (label : Nat × Conversation) : Option (WorkerPool TokenRoutability) :=
  (p.task label.1).bind fun i => p.next (label.1, probed toString tokens i label.2)

/-- `probeAllTokens`, as its workers start. -/
def probeAllTokens (tokens : List StockTokenSeed) (concurrency : Nat) :
    WorkerPool TokenRoutability :=
  WorkerPool.start tokens.length (min concurrency tokens.length)

end

/-! ### One request, asked again -/

variable {answers : Answers} {attempts : Nat}

theorem quoteLoop_answered {result : QuoteResult} {k left attempt : Nat}
    (hend : attempt + left = attempts) (hk : k < left)
    (hfail : ∀ j < k, answers (attempt + j) = none)
    (hresult : answers (attempt + k) = some result) :
    quoteLoop answers attempts left attempt =
      (result.outcome, (List.range k).map fun j => retryDelay (attempt + j)) := by
  induction k generalizing left attempt with
  | zero =>
      obtain ⟨left, rfl⟩ := Nat.exists_eq_add_of_lt hk
      unfold quoteLoop
      rw [Nat.add_zero] at hresult
      simp only [hresult, List.range_zero, List.map_nil]
  | succ k ih =>
      obtain ⟨left, rfl⟩ := Nat.exists_eq_succ_of_ne_zero (Nat.ne_of_gt (Nat.zero_lt_of_lt hk))
      have hrest : quoteLoop answers attempts left (attempt + 1) =
          (result.outcome, (List.range k).map fun j => retryDelay (attempt + 1 + j)) :=
        ih (by omega) (by omega)
          (fun j hj => by rw [Nat.add_right_comm]; exact hfail (j + 1) (by omega))
          (by rw [Nat.add_right_comm]; exact hresult)
      have hnow : answers attempt = none := hfail 0 (by omega)
      -- no answer, and not the last attempt: it waits and tries again
      have hwait : attempt < attempts - 1 := by omega
      unfold quoteLoop
      simp only [hnow, hrest, if_pos hwait, List.range_succ_eq_map, List.map_cons, List.map_map]
      refine congrArg _ (congrArg _ (List.map_congr_left fun j _ => ?_))
      show retryDelay (attempt + 1 + j) = retryDelay (attempt + (j + 1))
      congr 1
      omega

theorem quoteLoop_failed {left attempt : Nat} (hend : attempt + left = attempts)
    (hfail : ∀ j < left, answers (attempt + j) = none) :
    quoteLoop answers attempts left attempt =
      (.error, (List.range (left - 1)).map fun j => retryDelay (attempt + j)) := by
  induction left generalizing attempt with
  | zero => rfl
  | succ left ih =>
      have hrest : quoteLoop answers attempts left (attempt + 1) =
          (.error, (List.range (left - 1)).map fun j => retryDelay (attempt + 1 + j)) :=
        ih (by omega) fun j hj => by
          rw [Nat.add_right_comm]
          exact hfail (j + 1) (by omega)
      have hnow : answers attempt = none := hfail 0 (by omega)
      unfold quoteLoop
      simp only [hnow, hrest]
      -- after the last attempt it does not wait
      cases left with
      | zero => rw [if_neg (by omega)]; rfl
      | succ left =>
          rw [if_pos (by omega)]
          simp only [Nat.add_sub_cancel, List.range_succ_eq_map, List.map_cons, List.map_map]
          refine congrArg _ (congrArg _ (List.map_congr_left fun j _ => ?_))
          show retryDelay (attempt + 1 + j) = retryDelay (attempt + (j + 1))
          congr 1
          omega

/-- The first attempt that was answered, and what the answer was. -/
def FirstAnswer (answers : Answers) (attempts : Nat) (result : QuoteResult) : Prop :=
  ∃ k < attempts, answers k = some result ∧ ∀ j < k, answers j = none

/-- Either some attempt is answered or all fail. -/
theorem firstAnswer_or (answers : Answers) (attempts : Nat) :
    (∃ result, FirstAnswer answers attempts result) ∨ ∀ k < attempts, answers k = none := by
  induction attempts with
  | zero => exact .inr fun k hk => absurd hk (Nat.not_lt_zero k)
  | succ n ih =>
      rcases ih with ⟨result, k, hk, hanswer⟩ | hfail
      · exact .inl ⟨result, k, by omega, hanswer⟩
      · cases hn : answers n with
        | some result => exact .inl ⟨result, n, by omega, hn, hfail⟩
        | none =>
            refine .inr fun k hk => ?_
            rcases Nat.lt_succ_iff_lt_or_eq.mp hk with hk | rfl
            · exact hfail k hk
            · exact hn

/-- **A request comes to its first answer**, after a wait for every failure before it, each
twice the last; or to an error, when every attempt failed. -/
theorem quoteOnce_spec (answers : Answers) (attempts : Nat) :
    (∀ k < attempts, ∀ result, answers k = some result → (∀ j < k, answers j = none) →
        quoteOnce answers attempts = (result.outcome, (List.range k).map retryDelay)) ∧
      ((∀ k < attempts, answers k = none) →
        quoteOnce answers attempts = (.error, (List.range (attempts - 1)).map retryDelay)) := by
  constructor
  · intro k hk result hresult hfail
    have h : quoteLoop answers attempts attempts 0 = _ :=
      quoteLoop_answered (Nat.zero_add _) hk (by simpa using hfail) (by simpa using hresult)
    simpa [quoteOnce] using h
  · intro hfail
    have h : quoteLoop answers attempts attempts 0 = _ :=
      quoteLoop_failed (Nat.zero_add _) (by simpa using hfail)
    simpa [quoteOnce] using h

theorem QuoteResult.outcome_inj {a b : QuoteResult} (h : a.outcome = b.outcome) : a = b := by
  cases a <;> cases b <;> cases h <;> rfl

theorem quoteOnce_outcome_iff (result : QuoteResult) :
    (quoteOnce answers attempts).1 = result.outcome ↔ FirstAnswer answers attempts result := by
  obtain ⟨hanswered, hfailed⟩ := quoteOnce_spec answers attempts
  constructor
  · intro h
    rcases firstAnswer_or answers attempts with ⟨other, k, hk, hother, hfail⟩ | hfail
    · rw [hanswered k hk other hother hfail] at h
      exact ⟨k, hk, QuoteResult.outcome_inj h ▸ hother, hfail⟩
    · rw [hfailed hfail] at h
      cases result <;> cases h
  · rintro ⟨k, hk, hresult, hfail⟩
    rw [hanswered k hk result hresult hfail]

theorem quoteOnce_error_iff :
    (quoteOnce answers attempts).1 = .error ↔ ∀ k < attempts, answers k = none := by
  obtain ⟨hanswered, hfailed⟩ := quoteOnce_spec answers attempts
  constructor
  · intro h
    rcases firstAnswer_or answers attempts with ⟨other, k, hk, hother, hfail⟩ | hfail
    · rw [hanswered k hk other hother hfail] at h
      cases other <;> cases h
    · exact hfail
  · intro hfail
    rw [hfailed hfail]

/-! ### The price a fill implies -/

/-- Base units written out are read as their number, moved down. -/
theorem numberOf_fromBaseUnits (n d : Nat) :
    (fromBaseUnits (.text (decimal n)) d).map numberOf = some (.finite (n / 10 ^ d)) := by
  have hraw : toBigInt (decimal n) = some (n : Int) := by
    have h := toBigInt_digits .none (isDigit_decimal n) (decimal_ne_nil n)
    rw [numeral_decimal] at h
    exact h
  have htext : fromBaseUnits (.text (decimal n)) d = fromBaseUnits (.bigint n) d := by
    simp only [fromBaseUnits, Units.raw, hraw]
  have hvalue := value_unitsDecimal n d
  rw [htext, fromBaseUnits_eq, Option.map_some, numberOf, Decimal.parseNumber_of_text,
    Option.map_some, Option.getD_some, Literal.value, hvalue, Int.cast_natCast]

/-- The price of a fill of whole base units. -/
theorem priceFromProbe_decimal (n d : Nat) (impact : Number) :
    priceFromProbe (decimal n) d impact = some (
      if n = 0 ∨ 1 + (impact.finite?.getD 0) / 100 ≤ 0 then none
      else some (probeUsd * (1 + (impact.finite?.getD 0) / 100) / (n / 10 ^ d))) := by
  obtain ⟨text, htext, hnumber⟩ := Option.map_eq_some_iff.mp (numberOf_fromBaseUnits n d)
  have hpos : ((n : ℚ) / 10 ^ d ≤ 0) ↔ n = 0 := by
    rw [div_le_iff₀ (by positivity), zero_mul]
    exact_mod_cast Nat.le_zero
  have hfinite : (Number.finite ((n : ℚ) / 10 ^ d)).finite? = some ((n : ℚ) / 10 ^ d) := rfl
  rw [priceFromProbe, htext, Option.map_some, hnumber]
  simp only [hfinite]
  by_cases hzero : n = 0
  · simp [hzero]
  · simp only [if_neg (mt hpos.mp hzero), hzero, false_or]

/-- What a pool at price `spot` gives for the dollars probed with, `impact` per cent of it lost. -/
def filled (spot impact : ℚ) : ℚ := probeUsd * (1 + impact / 100) / spot

/-- **The probe's own cost is taken out of its price**: the price of a fill is the price the
pool was at before, up to what the fill was rounded down by. -/
theorem priceFromProbe_filled {spot impact : ℚ} {n d : Nat} (hspot : 0 < spot)
    (himpact : -100 < impact) (hn : n = ⌊filled spot impact * 10 ^ d⌋₊) (hpos : 0 < n) :
    ∃ price, priceFromProbe (decimal n) d (.finite impact) = some (some price) ∧
      spot ≤ price ∧ price * n < spot * (n + 1) := by
  have hretained : 0 < 1 + impact / 100 := by linarith
  have hscale : (0 : ℚ) < 10 ^ d := by positivity
  have hfill : 0 ≤ filled spot impact * 10 ^ d := by
    unfold filled probeUsd
    positivity
  have hle : (n : ℚ) ≤ filled spot impact * 10 ^ d := hn ▸ Nat.floor_le hfill
  have hlt : filled spot impact * 10 ^ d < n + 1 := hn ▸ Nat.lt_floor_add_one _
  -- what the pool pays for the probe, at its own price
  have hamount : spot * (filled spot impact * 10 ^ d) =
      probeUsd * (1 + impact / 100) * 10 ^ d := by
    unfold filled
    field_simp
  have hunits : (0 : ℚ) < n := by exact_mod_cast hpos
  refine ⟨probeUsd * (1 + impact / 100) / (n / 10 ^ d), ?_, ?_, ?_⟩
  · have hfinite : (Number.finite impact).finite?.getD 0 = impact := rfl
    rw [priceFromProbe_decimal, hfinite, if_neg]
    rintro (h | h)
    · omega
    · linarith
  -- the floor is at most what was paid
  · rw [le_div_iff₀ (by positivity), ← mul_div_assoc, div_le_iff₀ hscale, ← hamount]
    exact mul_le_mul_of_nonneg_left hle hspot.le
  -- and misses less than one unit of it
  · have hprice : probeUsd * (1 + impact / 100) / (n / 10 ^ d) * n =
        spot * (filled spot impact * 10 ^ d) := by
      rw [hamount]
      field_simp
    rw [hprice]
    exact mul_lt_mul_of_pos_left hlt hspot

/-! ### One token -/

section

variable {toString : ℚ → Scientific} {c : Conversation} {token : StockTokenSeed}
  {report : TokenRoutability}

/-- What the buy leg is answered: it asks for the whole thousand dollars. -/
def buyAnswers (c : Conversation) (token : StockTokenSeed) : Answers :=
  c.buy usdcAddress token.address (decimal (1000 * 10 ^ usdcDecimals))

/-- What the sell leg is answered for an amount. -/
def sellAnswers (c : Conversation) (token : StockTokenSeed) (amount : JsString) : Answers :=
  c.sell token.address usdcAddress amount

theorem bigintText_natCast (n : Nat) : bigintText n = decimal n := by
  rw [bigintText, if_neg (by omega)]
  rfl

theorem toBaseUnits_whole (toString : ℚ → Scientific) {k d : Nat} (hk : k < 10 ^ 21)
    (hd : d ≤ 100) :
    toBaseUnits toString (.number (.finite k)) d = some ((k * 10 ^ d : Nat) : Int) := by
  have hwhole : |(k : ℚ)| * 10 ^ d = ((k * 10 ^ d : Nat) : Int) := by
    rw [Nat.abs_cast]
    push_cast
    rfl
  rw [(toBaseUnits_number_iff toString k d).mpr ⟨hd, ?_, ?_⟩]
  · rw [truncate_of_nonneg (by positivity), ← Nat.abs_cast k, hwhole, Int.floor_intCast]
  · rw [Nat.abs_cast]
    exact_mod_cast hk
  · rw [hwhole, Int.fract_intCast]
    norm_num

/-- Of one unit, the sell leg asks for what it is in base units, if there are not too many
decimals for `toFixed`. -/
theorem sellAmount_nominal {buy : ProbeOutcome} (hbuy : buy.isRoute = false) {amount : JsString}
    {d : Nat} (h : sellAmount toString buy d = some amount) : amount = decimal (10 ^ d) := by
  have hnominal : (toBaseUnits toString (.number (.finite 1)) d).map bigintText = some amount := by
    cases buy with
    | route quote => cases hbuy
    | noRoute => exact h
    | error => exact h
  by_cases hd : 100 < d
  · have hthrows : toFixed toString (.finite 1) d = none := by
      unfold toFixed
      exact if_pos hd
    rw [toBaseUnits, rawText, hthrows] at hnominal
    cases hnominal
  · have hone := toBaseUnits_whole toString (k := 1) (d := d) (by norm_num) (by omega)
    rw [Nat.cast_one, Nat.one_mul] at hone
    rw [hone, Option.map_some, bigintText_natCast] at hnominal
    exact (Option.some.inj hnominal).symm

/-- What a probe comes to, by what the buy leg came to: with a route the sell leg asks for the
amount bought, and without one for one unit. -/
theorem probeToken_cases (h : probeToken toString c token = some report) :
    (∃ quote price, (quoteOnce (buyAnswers c token) 3).1 = .route quote ∧
        priceFromProbe quote.amountOut token.decimals quote.priceImpactPercent = some price ∧
        report = ⟨token.symbol, true,
          (quoteOnce (sellAnswers c token quote.amountOut) 3).1.isRoute,
          some quote.priceImpactPercent, price, false, c.checkedAt⟩) ∨
      ((quoteOnce (buyAnswers c token) 3).1.isRoute = false ∧
        report = ⟨token.symbol, false,
          (quoteOnce (sellAnswers c token (decimal (10 ^ token.decimals))) 3).1.isRoute, none, none,
          (quoteOnce (buyAnswers c token) 3).1 = .error ∧
            (quoteOnce (sellAnswers c token (decimal (10 ^ token.decimals))) 3).1 = .error,
          c.checkedAt⟩) := by
  have hthousand := toBaseUnits_whole toString (k := 1000) (d := usdcDecimals) (by norm_num)
    (by decide)
  have hprobe : probeUsd = ((1000 : Nat) : ℚ) := by norm_num [probeUsd]
  rw [probeToken, hprobe, hthousand] at h
  simp only [Option.bind_eq_bind, Option.bind_some, bigintText_natCast,
    Option.bind_eq_some_iff] at h
  obtain ⟨amount, hamount, price, hprice, hreport⟩ := h
  change sellAmount toString (quoteOnce (buyAnswers c token) 3).1 token.decimals = _ at hamount
  change spotPrice (quoteOnce (buyAnswers c token) 3).1 token.decimals = _ at hprice
  obtain rfl := Option.some.inj hreport
  -- what the sell leg asks for depends on the buy leg
  cases hbuy : (quoteOnce (buyAnswers c token) 3).1 with
  | route quote =>
      rw [hbuy] at hamount hprice
      obtain rfl := Option.some.inj hamount
      refine .inl ⟨quote, price, rfl, hprice, ?_⟩
      rw [← buyAnswers, hbuy]
      rfl
  | noRoute =>
      rw [hbuy] at hamount hprice
      obtain rfl := sellAmount_nominal rfl hamount
      obtain rfl := Option.some.inj hprice
      refine .inr ⟨rfl, ?_⟩
      rw [← buyAnswers, hbuy]
      rfl
  | error =>
      rw [hbuy] at hamount hprice
      obtain rfl := sellAmount_nominal rfl hamount
      obtain rfl := Option.some.inj hprice
      refine .inr ⟨rfl, ?_⟩
      rw [← buyAnswers, hbuy]
      rfl

theorem ProbeOutcome.isRoute_iff {o : ProbeOutcome} :
    o.isRoute = true ↔ ∃ quote, o = .route quote := by
  cases o <;> simp [ProbeOutcome.isRoute]

theorem isRoute_quoteOnce_iff {answers : Answers} {attempts : Nat} :
    (quoteOnce answers attempts).1.isRoute = true ↔
      ∃ quote, FirstAnswer answers attempts (.ok quote) := by
  rw [ProbeOutcome.isRoute_iff]
  exact exists_congr fun quote => quoteOnce_outcome_iff (.ok quote)

/-- **A report says what was answered.** A token is buyable when the first answer to the buy
leg was a route, and then its price is the pool's, the probe's own cost taken out, and the
sell leg is asked for what was bought; without a route it is asked for one unit. The probe has
failed when no attempt of either leg was answered, and a token that is called untradable was
called so by the aggregator. -/
theorem reported_as_answered (h : probeToken toString c token = some report) :
    (report.buyable = true ↔ ∃ quote, FirstAnswer (buyAnswers c token) 3 (.ok quote)) ∧
      (∀ quote, FirstAnswer (buyAnswers c token) 3 (.ok quote) →
        (report.sellable = true ↔
          ∃ back, FirstAnswer (sellAnswers c token quote.amountOut) 3 (.ok back)) ∧
        ∀ (spot impact : ℚ) (n : Nat), quote.priceImpactPercent = .finite impact →
          quote.amountOut = decimal n → 0 < spot → -100 < impact →
          n = ⌊filled spot impact * 10 ^ token.decimals⌋₊ → 0 < n →
          ∃ price, report.spotPriceUsd = some price ∧ spot ≤ price ∧
            price * n < spot * (n + 1)) ∧
      (report.buyable = false → report.spotPriceUsd = none ∧ (report.sellable = true ↔
        ∃ back, FirstAnswer (sellAnswers c token (decimal (10 ^ token.decimals))) 3 (.ok back))) ∧
      (report.probeFailed = true ↔ (∀ k < 3, buyAnswers c token k = none) ∧
        ∀ k < 3, sellAnswers c token (decimal (10 ^ token.decimals)) k = none) ∧
      (report.buyable = false → report.sellable = false → report.probeFailed = false →
        FirstAnswer (buyAnswers c token) 3 .noRoute ∨
          FirstAnswer (sellAnswers c token (decimal (10 ^ token.decimals))) 3 .noRoute) := by
  rcases probeToken_cases h with ⟨quote, price, hbuy, hprice, rfl⟩ | ⟨hbuy, rfl⟩
  · have hfirst := (quoteOnce_outcome_iff (.ok quote)).mp hbuy
    refine ⟨iff_of_true rfl ⟨quote, hfirst⟩, ?_, ?_, ?_, ?_⟩
    · intro quote' hquote'
      have hsame := hbuy.symm.trans ((quoteOnce_outcome_iff (.ok quote')).mpr hquote')
      obtain rfl := ProbeOutcome.route.inj hsame
      refine ⟨isRoute_quoteOnce_iff, ?_⟩
      intro spot impact n himpact hamount hspot hlow hn hpos
      obtain ⟨p, hp, hbounds⟩ := priceFromProbe_filled hspot hlow hn hpos
      rw [himpact, hamount, hp] at hprice
      exact ⟨p, (Option.some.inj hprice).symm, hbounds⟩
    · intro hno
      cases hno
    · refine iff_of_false (by simp) fun hfail => ?_
      obtain ⟨k, hk, hanswer, -⟩ := hfirst
      rw [hfail.1 k hk] at hanswer
      cases hanswer
    · intro hno
      cases hno
  · refine ⟨iff_of_false (by simp) ?_, ?_, fun _ => ⟨rfl, isRoute_quoteOnce_iff⟩, ?_, ?_⟩
    · rw [← isRoute_quoteOnce_iff, hbuy]
      exact Bool.false_ne_true
    · intro quote hquote
      have hroute := isRoute_quoteOnce_iff.mpr ⟨quote, hquote⟩
      rw [hbuy] at hroute
      cases hroute
    · rw [← quoteOnce_error_iff, ← quoteOnce_error_iff]
      simp
    · intro _ hsell hknown
      have hsell : (quoteOnce (sellAnswers c token (decimal (10 ^ token.decimals))) 3).1.isRoute =
        false := hsell
      rw [← quoteOnce_outcome_iff, ← quoteOnce_outcome_iff]
      -- neither leg has a route, so an error in both is all that is left
      cases hb : (quoteOnce (buyAnswers c token) 3).1 with
      | route quote =>
          rw [hb] at hbuy
          cases hbuy
      | noRoute => exact .inl rfl
      | error =>
          cases hs : (quoteOnce (sellAnswers c token (decimal (10 ^ token.decimals))) 3).1 with
          | route quote =>
              rw [hs] at hsell
              cases hsell
          | noRoute => exact .inr rfl
          | error => simp [hb, hs] at hknown

end

/-! ### The whole registry -/

section

variable (toString : ℚ → Scientific) (tokens : List StockTokenSeed) (concurrency : Nat)

/-- A probe that ends is a reply to a worker. -/
theorem probeNext_reply (p : WorkerPool TokenRoutability) (label : Nat × Conversation)
    (q : WorkerPool TokenRoutability) (h : probeNext toString tokens p label = some q) :
    p.next (label.1, probed toString tokens ((p.task label.1).getD 0) label.2) = some q := by
  obtain ⟨i, hi, hq⟩ := Option.bind_eq_some_iff.mp h
  rw [hi]
  exact hq

theorem probed_eq_resolve {i : Nat} {c : Conversation} {report : TokenRoutability} :
    probed toString tokens i c = .resolve report ↔
      ∃ token, tokens[i]? = some token ∧ probeToken toString c token = some report := by
  unfold probed
  rw [← Option.bind_eq_some_iff]
  cases tokens[i]?.bind (probeToken toString c) <;> simp

/-- **Probing the whole registry**, whatever order the probes end in. No more of them are under
way than asked for, none is made twice, and while one is under way its end is a step. A pass
that ends without a throw has the report of each token in that token's place, and one that
ends with a throw had a probe that threw. -/
theorem probeAllTokens_complete
    {tr : List (Transition (WorkerPool TokenRoutability) (Nat × Conversation))}
    {p : WorkerPool TokenRoutability} (hconcurrency : 0 < concurrency)
    (h : Run (probeNext toString tokens) (probeAllTokens tokens concurrency) tr p) :
    p.workers.length ≤ concurrency ∧ tr.length ≤ tokens.length ∧
      (tr.filterMap fun t => t.pre.task t.label.1).Nodup ∧
      (p.outcome = none → ∃ w, ∀ c, (probeNext toString tokens p (w, c)).isSome) ∧
      (p.outcome = some .rejected ↔ ∃ t ∈ tr, ∃ i token, t.pre.task t.label.1 = some i ∧
        tokens[i]? = some token ∧ probeToken toString t.label.2 token = none) ∧
      ∀ values, p.outcome = some (.fulfilled values) → values.length = tokens.length ∧
        ∀ i token, tokens[i]? = some token → ∃ t ∈ tr, ∃ report,
          t.pre.task t.label.1 = some i ∧ probeToken toString t.label.2 token = some report ∧
            report.symbol = token.symbol ∧ values[i]? = some (some report) := by
  have hsteps := h.relabel WorkerPool.next
    (fun p (label : Nat × Conversation) =>
      (label.1, probed toString tokens ((p.task label.1).getD 0) label.2))
    (probeNext_reply toString tokens)
  have hpast := WorkerPool.History.of_run hsteps
  have hanswered : ((tr.map fun t => (⟨t.pre, (t.label.1, probed toString tokens
      ((t.pre.task t.label.1).getD 0) t.label.2), t.post⟩ : Transition _ _)).filterMap
        WorkerPool.answered) = tr.filterMap fun t => t.pre.task t.label.1 :=
    List.filterMap_map ..
  -- each step is about a token
  have htoken : ∀ t ∈ tr, ∃ i token, t.pre.task t.label.1 = some i ∧ tokens[i]? = some token := by
    intro t ht
    obtain ⟨i, hi, -⟩ := Option.bind_eq_some_iff.mp (h.step_of_mem t ht)
    have hlt := (hpast.past i (hanswered ▸ List.mem_filterMap.mpr ⟨t, ht, hi⟩)).1.trans_le
      hpast.sound.bound
    rw [hpast.size] at hlt
    exact ⟨i, tokens[i], hi, List.getElem?_eq_getElem hlt⟩
  have hstaff : 0 < tokens.length → 0 < min concurrency tokens.length :=
    fun hlt => lt_min hconcurrency hlt
  -- the pool bounds, counts and progresses; what a reply is of a token is the probe of it
  refine ⟨?_, ?_, ?_, ?_, ?_, ?_⟩
  · rw [hpast.staff]
    exact Nat.min_le_left ..
  · have hlength := hpast.length_le hsteps
    rwa [List.length_map] at hlength
  · rw [← hanswered]
    exact hpast.once
  · intro hend
    obtain ⟨w, hw, hreply⟩ := WorkerPool.History.progress hend
    obtain ⟨i, hi⟩ := Option.isSome_iff_exists.mp hw
    refine ⟨w, fun c => ?_⟩
    unfold probeNext
    rw [hi]
    exact hreply _
  · rw [WorkerPool.outcome_rejected_iff, hpast.failed]
    constructor
    · rintro ⟨_, hmem, hreject⟩
      obtain ⟨t, ht, rfl⟩ := List.mem_map.mp hmem
      obtain ⟨i, token, hi, htok⟩ := htoken t ht
      refine ⟨t, ht, i, token, hi, htok, ?_⟩
      cases hprobe : probeToken toString t.label.2 token with
      | none => rfl
      | some report =>
          simp [probed, hi, htok, hprobe] at hreject
    · rintro ⟨t, ht, i, token, hi, htok, hprobe⟩
      refine ⟨_, List.mem_map.mpr ⟨t, ht, rfl⟩, ?_⟩
      simp [probed, hi, htok, hprobe]
  · intro values hend
    obtain ⟨rfl, hresults⟩ := hpast.fulfilled hstaff hend
    refine ⟨by simp, ?_⟩
    intro i token htok
    have hlt := (List.getElem?_eq_some_iff.mp htok).1
    obtain ⟨report, hreport⟩ := hresults i hlt
    obtain ⟨_, hmem, hi, hresolve⟩ := (hpast.stored i report).mp hreport
    obtain ⟨t, ht, rfl⟩ := List.mem_map.mp hmem
    have hi : t.pre.task t.label.1 = some i := hi
    simp only [hi, Option.getD_some] at hresolve
    obtain ⟨token', htok', hprobe⟩ := (probed_eq_resolve toString tokens).mp hresolve
    obtain rfl := Option.some.inj (htok.symm.trans htok')
    refine ⟨t, ht, report, hi, hprobe, ?_, ?_⟩
    · rcases probeToken_cases hprobe with ⟨_, _, -, -, rfl⟩ | ⟨-, rfl⟩ <;> rfl
    · rw [List.getElem?_map, List.getElem?_range hlt, Option.map_some, hreport]

end

namespace Test

def nvda : StockTokenSeed := ⟨js "NVDAc", js "0xb20000000000000000000078ee7ce2fE4908108C", 8⟩

/-- Five tokens for the thousand dollars, half a per cent lost on the way; the first request
did not come through. -/
def fiveTokens : Conversation where
  buy _ _ _ attempt :=
    if attempt = 0 then none else some (.ok ⟨decimal (5 * 10 ^ 8), .finite (-1 / 2)⟩)
  sell _ _ _ _ := some (.ok ⟨decimal (990 * 10 ^ 6), .finite (-1 / 2)⟩)
  checkedAt := 1

def nvdaReport : TokenRoutability where
  symbol := js "NVDAc"
  buyable := true
  sellable := true
  buyPriceImpactPercent := some (.finite (-1 / 2))
  spotPriceUsd := some 199
  probeFailed := false
  checkedAt := 1

theorem probeToken_nvda (toString : ℚ → Scientific) :
    probeToken toString fiveTokens nvda = some nvdaReport := by
  have hthousand := toBaseUnits_whole toString (k := 1000) (d := usdcDecimals) (by norm_num)
    (by decide)
  have hprobe : probeUsd = ((1000 : Nat) : ℚ) := by norm_num [probeUsd]
  have hprice := priceFromProbe_decimal (5 * 10 ^ 8) 8 (.finite (-1 / 2))
  have hfinite : (Number.finite (-1 / 2)).finite?.getD 0 = -1 / 2 := rfl
  have hvalue : probeUsd * (1 + -1 / 2 / 100) / (((5 * 10 ^ 8 : Nat) : ℚ) / 10 ^ 8) = 199 := by
    norm_num [probeUsd]
  rw [hfinite, if_neg (by norm_num), hvalue] at hprice
  have hbuy : ∀ tokenIn tokenOut amount, (quoteOnce (fiveTokens.buy tokenIn tokenOut amount) 3).1 =
      .route ⟨decimal (5 * 10 ^ 8), .finite (-1 / 2)⟩ := fun _ _ _ => rfl
  rw [probeToken, hprobe, hthousand]
  simp only [Option.bind_eq_bind, Option.bind_some, hbuy, sellAmount, spotPrice]
  show (priceFromProbe (decimal (5 * 10 ^ 8)) 8 (.finite (-1 / 2))).bind _ = _
  rw [hprice]
  rfl

theorem firstAnswer_fiveTokens :
    FirstAnswer (buyAnswers fiveTokens nvda) 3 (.ok ⟨decimal (5 * 10 ^ 8), .finite (-1 / 2)⟩) :=
  ⟨1, by decide, rfl, by decide⟩

theorem isDigit_one : ∀ c ∈ [unit '1'], isDigit 10 c = true :=
  List.forall_mem_singleton.mpr rfl

/-- `1e+21`; no amount probed with is that large. -/
def sextillion (_ : ℚ) : Scientific := ⟨unit '1', [], 21, isDigit_one, Nat.le_refl 21⟩

/-- A price of 199, whatever the probe itself cost. -/
theorem reported_as_answered_nvda :
    probeToken sextillion fiveTokens nvda = some nvdaReport ∧
      ∃ price, nvdaReport.spotPriceUsd = some price ∧ (199 : ℚ) ≤ price := by
  have hprobe := probeToken_nvda sextillion
  obtain ⟨-, hroute, -, -, -⟩ := reported_as_answered hprobe
  obtain ⟨-, hprice⟩ := hroute _ firstAnswer_fiveTokens
  have hn : (5 * 10 ^ 8 : Nat) = ⌊filled 199 (-1 / 2) * 10 ^ nvda.decimals⌋₊ := by
    have hfill : filled 199 (-1 / 2) * 10 ^ nvda.decimals = ((5 * 10 ^ 8 : Nat) : ℚ) := by
      norm_num [filled, probeUsd, nvda]
    rw [hfill, Nat.floor_natCast]
  obtain ⟨price, hspot, hle, -⟩ := hprice 199 (-1 / 2) (5 * 10 ^ 8) rfl rfl (by norm_num)
    (by norm_num) hn (by norm_num)
  exact ⟨hprobe, price, hspot, hle⟩

/-- One token and two workers wanted: the one there is ends the pass with its report. -/
theorem probeAllTokens_complete_nvda : ∃ tr p,
    Run (probeNext sextillion [nvda]) (probeAllTokens [nvda] 2) tr p ∧
      p.outcome = some (.fulfilled [some nvdaReport]) ∧ tr.length ≤ 1 := by
  have hprobed : probed sextillion [nvda] 0 fiveTokens = .resolve nvdaReport :=
    (probed_eq_resolve sextillion [nvda]).mpr ⟨nvda, rfl, probeToken_nvda sextillion⟩
  have htask : (probeAllTokens [nvda] 2).task 0 = some 0 := rfl
  obtain ⟨p, hp⟩ : ∃ p, (probeAllTokens [nvda] 2).next (0, .resolve nvdaReport) = some p :=
    ⟨_, rfl⟩
  have hstep : probeNext sextillion [nvda] (probeAllTokens [nvda] 2) (0, fiveTokens) = some p := by
    rw [probeNext, htask, Option.bind_some, hprobed, hp]
  have hrun := Run.snoc .nil hstep
  refine ⟨_, p, hrun, ?_, (probeAllTokens_complete sextillion [nvda] 2 (by decide) hrun).2.1⟩
  obtain rfl := Option.some.inj hp
  rfl

end Test

end Registry

end LemonMarket
