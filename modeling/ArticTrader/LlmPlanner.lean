import ArticTrader.ExtractJson
import ArticTrader.StrategyShortlists

/-!
The planner of a trading session: the provider it asks, the plan it reads from the
answer and the plan it falls back to. `none` stands for an exception.
-/

namespace ArticTrader.LlmPlanner

open ArticTrader.ExtractJson (Embedding Extractable extract_json extract_json_iff)
open ArticTrader.JsonTexts
open ArticTrader.MarketAnalysis
open ArticTrader.MarketFeatures
open ArticTrader.MomentumAlgos (Candle)
open ArticTrader.PythonSequences (slice)
open ArticTrader.PythonText (Text lower)
open ArticTrader.SignalSafety
open ArticTrader.TradingEngine (StrategyPlan)

inductive Provider where
  | openai
  | anthropic
  | deepseek
  | gemini
  | og_compute
  deriving DecidableEq, Repr

def PROVIDERS : List (Text × Provider) :=
  [("openai".toList, .openai), ("anthropic".toList, .anthropic), ("deepseek".toList, .deepseek),
    ("gemini".toList, .gemini), ("0g_compute".toList, .og_compute)]

structure PlanRequest where
  symbol : Text
  amount_usdt : ℚ
  leverage : ℤ
  risk_profile : Text
  primary_timeframe : Text
  llm_provider : Option Text
  indicators : List Text
  deriving DecidableEq, Repr

/-- The user's message of a call of the language model. -/
inductive Prompt (K : Type) where
  | plan (r : PlanRequest) (summary : MarketRegimeSummary K) (strategy_shortlist : List Text)
  | explain (r : PlanRequest) (summary : MarketRegimeSummary K) (strategy_plan : StrategyPlan)
      (strategy_shortlist : List Text)

/-- The market data service. A list of candles that is `None` is empty. -/
structure MarketData (K : Type) where
  get_ohlcv_candles : Text → Text → ℕ → Option (List (Candle K))
  get_funding_data : Text → ℕ → Option (Option (List (FundingPoint K)))
  get_open_interest_data : Text → ℕ → Option (Option (List (OiPoint K)))

/-- The keys that are set, the provider chosen at the start, the services, and
`StrategyPlan(**data)`, which checks the fields. -/
structure LLMPlanner (K : Type) where
  openai_api_key : Option Text
  anthropic_api_key : Option Text
  deepseek_api_key : Option Text
  gemini_api_key : Option Text
  has_og_compute : Bool
  llm_provider : Option Provider
  market_data : Option (MarketData K)
  math : Math K
  chat : Provider → Prompt K → Option Text
  strategy_plan : List (List ℕ × Json) → Option StrategyPlan

variable {K : Type}

def LLMPlanner.configured (planner : LLMPlanner K) : Provider → Bool
  | .openai => planner.openai_api_key.isSome
  | .anthropic => planner.anthropic_api_key.isSome
  | .deepseek => planner.deepseek_api_key.isSome
  | .gemini => planner.gemini_api_key.isSome
  | .og_compute => planner.has_og_compute

def requested (override : Option Text) : Option Provider :=
  PROVIDERS.lookup (lower (ExtractJson.strip (override.getD [])))

def get_provider (planner : LLMPlanner K) (override : Option Text) : Option Provider :=
  match (requested override).filter planner.configured with
  | some provider => some provider
  | none =>
      match planner.llm_provider.filter planner.configured with
      | some provider => some provider
      | none =>
          [Provider.og_compute, .openai, .anthropic, .deepseek, .gemini].find? planner.configured

def has_llm (planner : LLMPlanner K) : Bool := (get_provider planner none).isSome

def DEFAULTS : List (Text × StrategyPlan) :=
  [("conservative".toList, ⟨"momentum".toList, 10, 3 / 10000, 15 / 1000⟩),
    ("moderate".toList, ⟨"momentum".toList, 6, 1 / 10000, 2 / 100⟩),
    ("aggressive".toList, ⟨"momentum".toList, 4, 5 / 100000, 35 / 1000⟩)]

def get_default_strategy (risk_profile : Text) : StrategyPlan :=
  (DEFAULTS.lookup (lower risk_profile)).getD ⟨"momentum".toList, 6, 1 / 10000, 2 / 100⟩

def TIMEFRAME_MINUTES : List (Text × ℕ) :=
  [("1m".toList, 1), ("5m".toList, 5), ("15m".toList, 15), ("30m".toList, 30), ("1h".toList, 60),
    ("4h".toList, 240), ("1d".toList, 1440)]

/-- How many bars to fetch, and how many are needed for an analysis. -/
def choose_timeframe_and_lookback (primary_timeframe risk_profile : Text)
    (strategy_hint : Option Text) : ℕ × ℕ :=
  let timeframe_minutes := (TIMEFRAME_MINUTES.lookup primary_timeframe).getD 15
  let base_bars := if timeframe_minutes ≤ 60 then 2000 else 1000
  let base_bars :=
    if risk_profile = "conservative".toList then base_bars * 15 / 10
    else if risk_profile = "aggressive".toList then base_bars * 8 / 10
    else base_bars
  let base_bars :=
    if strategy_hint = some "trend_following".toList then base_bars * 12 / 10
    else if strategy_hint = some "mean_reversion".toList then base_bars * 9 / 10
    else base_bars
  (base_bars, min_bars)

def market_candles (planner : LLMPlanner K) (r : PlanRequest) : Option (List (Candle K)) :=
  match planner.market_data with
  | none => some []
  | some market => market.get_ohlcv_candles r.symbol r.primary_timeframe
      (choose_timeframe_and_lookback r.primary_timeframe r.risk_profile none).1

def funding_data (planner : LLMPlanner K) (r : PlanRequest) :
    Option (Option (List (FundingPoint K))) :=
  match planner.market_data with
  | none => some none
  | some market => market.get_funding_data r.symbol 30

def open_interest_data (planner : LLMPlanner K) (r : PlanRequest) :
    Option (Option (List (OiPoint K))) :=
  match planner.market_data with
  | none => some none
  | some market => market.get_open_interest_data r.symbol 30

variable [Field K] [LinearOrder K]

def Enough (candles : List (Candle K)) : Prop := candles ≠ [] ∧ min_bars ≤ candles.length

instance (candles : List (Candle K)) : Decidable (Enough candles) :=
  inferInstanceAs (Decidable (_ ∧ _))

def market_summary (planner : LLMPlanner K) (r : PlanRequest) (candles : List (Candle K)) :
    Option (MarketRegimeSummary K) := do
  let funding ← funding_data planner r
  let oi ← open_interest_data planner r
  let features ← (compute_features planner.math candles funding oi).toOption
  return build_summary r.symbol r.primary_timeframe candles.length features
    (slice candles (some (-50)) none)

def call_llm_with_summary (planner : LLMPlanner K) (r : PlanRequest)
    (summary : MarketRegimeSummary K) (strategy_shortlist : List Text) : Option StrategyPlan := do
  let provider ← get_provider planner r.llm_provider
  let content ← planner.chat provider (.plan r summary strategy_shortlist)
  match loads true (extract_json content) with
  | some (.object data) => planner.strategy_plan data
  | _ => none

/-- The `try` block of `plan_strategy`. -/
def planned (planner : LLMPlanner K) (r : PlanRequest) : Option StrategyPlan := do
  let candles ← market_candles planner r
  if Enough candles then
    let summary ← market_summary planner r candles
    call_llm_with_summary planner r summary (suggest_strategy_shortlist summary)
  else return get_default_strategy r.risk_profile

def plan_strategy (planner : LLMPlanner K) (r : PlanRequest) : StrategyPlan :=
  if has_llm planner then (planned planner r).getD (get_default_strategy r.risk_profile)
  else get_default_strategy r.risk_profile

/-- Where the two paragraphs of an analysis come from. -/
inductive Explanation where
  | insufficient_data
  | without_llm
  | answered (analysis_paragraph quant_algo_description : Json)
  | failed
  deriving Repr

def get_analysis_explanation (planner : LLMPlanner K) (r : PlanRequest)
    (summary : MarketRegimeSummary K) (strategy_plan : StrategyPlan)
    (strategy_shortlist : List Text) : Explanation :=
  if has_llm planner then
    match (get_provider planner r.llm_provider).bind fun provider =>
      planner.chat provider (.explain r summary strategy_plan strategy_shortlist) with
    | none => .failed
    | some content =>
        match loads true (extract_json content) with
        | some (.object result) =>
            .answered ((member "analysis_paragraph".toList result).getD (.string []))
              ((member "quant_algo_description".toList result).getD (.string []))
        | _ => .failed
  else .without_llm

structure Analysis (K : Type) where
  summary : MarketRegimeSummary K
  strategy_plan : StrategyPlan
  strategy_shortlist : List Text
  explanation : Explanation

def get_full_analysis (planner : LLMPlanner K) (r : PlanRequest) : Option (Analysis K) := do
  let candles ← market_candles planner r
  if Enough candles then
    let summary ← market_summary planner r candles
    let strategy_shortlist := suggest_strategy_shortlist summary
    let strategy_plan := (call_llm_with_summary planner r summary strategy_shortlist).getD
      (get_default_strategy r.risk_profile)
    return {
      summary, strategy_plan, strategy_shortlist
      explanation :=
        get_analysis_explanation planner r summary strategy_plan strategy_shortlist }
  else
    return {
      summary := build_summary r.symbol r.primary_timeframe 0 {} []
      strategy_plan := get_default_strategy r.risk_profile
      strategy_shortlist := ["momentum".toList]
      explanation := .insufficient_data }

/-- The providers that a request can name; the others are left to the configuration. -/
def normalized_provider (llm_provider : Option Text) : Option Text :=
  let name := lower (ExtractJson.strip (llm_provider.getD []))
  if name ∈ ["openai".toList, "anthropic".toList, "deepseek".toList, "gemini".toList] then some name
  else none

/-- The strategy plan with which `engine.start` begins its session. -/
def session_plan (planner : LLMPlanner K) (r : PlanRequest) : StrategyPlan :=
  match get_full_analysis planner { r with llm_provider := normalized_provider r.llm_provider } with
  | some analysis => analysis.strategy_plan
  | none => get_default_strategy r.risk_profile

/-- The answer of the route `/plan`, once the price is there. -/
def plan_route (planner : LLMPlanner K) (r : PlanRequest) : StrategyPlan :=
  plan_strategy planner { r with llm_provider := normalized_provider r.llm_provider }

/-- The constraints that the schema of a plan puts on its fields. -/
structure Admitted (plan : StrategyPlan) : Prop where
  lookback : 1 ≤ plan.lookback
  max_loss_pct : 0 ≤ plan.max_loss_pct ∧ plan.max_loss_pct ≤ 1

def ChecksFields (planner : LLMPlanner K) : Prop :=
  ∀ data plan, planner.strategy_plan data = some plan → Admitted plan

omit [Field K] [LinearOrder K] in
theorem get_provider_configured {planner : LLMPlanner K} {override : Option Text}
    {provider : Provider} (h : get_provider planner override = some provider) :
    planner.configured provider = true := by
  unfold get_provider at h
  split at h
  next asked hasked =>
      cases h
      exact (Option.filter_eq_some_iff.mp hasked).2
  next hasked =>
      split at h
      next chosen hchosen =>
          cases h
          exact (Option.filter_eq_some_iff.mp hchosen).2
      next hchosen => exact List.find?_some h

omit [Field K] [LinearOrder K] in
/-- Only a planner without any provider has none to ask. -/
theorem get_provider_eq_none_iff {planner : LLMPlanner K} {override : Option Text} :
    get_provider planner override = none ↔ ∀ provider, planner.configured provider = false := by
  constructor
  · intro h provider
    unfold get_provider at h
    split at h
    · cases h
    · split at h
      · cases h
      · rw [List.find?_eq_none] at h
        cases provider with
        | _ => exact Bool.eq_false_iff.mpr (h _ (by decide))
  · intro h
    cases hprovider : get_provider planner override with
    | none => rfl
    | some provider =>
        have hconfigured := get_provider_configured hprovider
        rw [h provider] at hconfigured
        cases hconfigured

omit [Field K] [LinearOrder K] in
theorem has_llm_iff {planner : LLMPlanner K} {override : Option Text} :
    has_llm planner = true ↔ ∃ provider, get_provider planner override = some provider := by
  rw [has_llm, ← Option.isSome_iff_exists, ← not_iff_not, Bool.not_eq_true, Bool.not_eq_true,
    Option.isSome_eq_false_iff, Option.isSome_eq_false_iff, Option.isNone_iff_eq_none,
    Option.isNone_iff_eq_none, get_provider_eq_none_iff, get_provider_eq_none_iff]

theorem defaults_admitted : ∀ entry ∈ DEFAULTS, Admitted entry.2 := by
  intro entry hentry
  rcases List.mem_cons.mp hentry with rfl | hentry
  · exact ⟨by decide, by norm_num, by norm_num⟩
  · rcases List.mem_cons.mp hentry with rfl | hentry
    · exact ⟨by decide, by norm_num, by norm_num⟩
    · rw [List.mem_singleton.mp hentry]
      exact ⟨by decide, by norm_num, by norm_num⟩

theorem get_default_strategy_admitted (risk_profile : Text) :
    Admitted (get_default_strategy risk_profile) := by
  rw [get_default_strategy]
  cases hlookup : DEFAULTS.lookup (lower risk_profile) with
  | none => exact ⟨by decide, by norm_num, by norm_num⟩
  | some plan =>
      obtain ⟨before, after, heq, -⟩ := List.lookup_eq_some_iff.mp hlookup
      apply defaults_admitted (lower risk_profile, plan)
      rw [heq]
      exact List.mem_append_right before List.mem_cons_self

/-- The model has been asked about enough candles and has answered with this plan. -/
structure Answered (planner : LLMPlanner K) (r : PlanRequest) (candles : List (Candle K))
    (summary : MarketRegimeSummary K) (provider : Provider) (content : Text)
    (data : List (List ℕ × Json)) (plan : StrategyPlan) : Prop where
  fetched : market_candles planner r = some candles
  enough : Enough candles
  analysed : market_summary planner r candles = some summary
  asked : get_provider planner r.llm_provider = some provider
  replied : planner.chat provider (.plan r summary (suggest_strategy_shortlist summary)) =
    some content
  read : loads true (extract_json content) = some (.object data)
  checked : planner.strategy_plan data = some plan

def HasAnswer (planner : LLMPlanner K) (r : PlanRequest) (plan : StrategyPlan) : Prop :=
  ∃ candles summary provider content data,
    Answered planner r candles summary provider content data plan

variable {planner : LLMPlanner K} {r : PlanRequest} {plan : StrategyPlan}

omit [Field K] [LinearOrder K] in
theorem call_eq_some_iff {summary : MarketRegimeSummary K} {strategy_shortlist : List Text} :
    call_llm_with_summary planner r summary strategy_shortlist = some plan ↔
      ∃ provider content data, get_provider planner r.llm_provider = some provider ∧
        planner.chat provider (.plan r summary strategy_shortlist) = some content ∧
        loads true (extract_json content) = some (.object data) ∧
        planner.strategy_plan data = some plan := by
  unfold call_llm_with_summary
  simp only [Option.bind_eq_bind, Option.bind_eq_some_iff]
  constructor
  · rintro ⟨provider, hprovider, content, hcontent, hplan⟩
    split at hplan
    next data hdata => exact ⟨provider, content, data, hprovider, hcontent, hdata, hplan⟩
    next => cases hplan
  · rintro ⟨provider, content, data, hprovider, hcontent, hdata, hplan⟩
    refine ⟨provider, hprovider, content, hcontent, ?_⟩
    rw [hdata]
    exact hplan

/-- The plan of an analysis, whatever becomes of its paragraphs. -/
theorem full_analysis_plan (planner : LLMPlanner K) (r : PlanRequest) :
    ((get_full_analysis planner r).map Analysis.strategy_plan).getD
        (get_default_strategy r.risk_profile) =
      (planned planner r).getD (get_default_strategy r.risk_profile) := by
  unfold get_full_analysis planned
  cases market_candles planner r with
  | none => rfl
  | some candles =>
      by_cases henough : Enough candles
      · simp only [Option.bind_eq_bind, Option.bind_some, if_pos henough]
        cases market_summary planner r candles with
        | none => rfl
        | some summary => rfl
      · simp only [Option.bind_eq_bind, Option.bind_some, if_neg henough]
        rfl

/-- Without a provider the call raises, and the default is what is left. -/
theorem planned_without_llm (h : has_llm planner = false) :
    (planned planner r).getD (get_default_strategy r.risk_profile) =
      get_default_strategy r.risk_profile := by
  have hprovider : get_provider planner r.llm_provider = none := by
    rw [has_llm, Option.isSome_eq_false_iff, Option.isNone_iff_eq_none] at h
    exact get_provider_eq_none_iff.mpr (get_provider_eq_none_iff.mp h)
  unfold planned
  cases market_candles planner r with
  | none => rfl
  | some candles =>
      by_cases henough : Enough candles
      · simp only [Option.bind_eq_bind, Option.bind_some, if_pos henough]
        cases market_summary planner r candles with
        | none => rfl
        | some summary =>
            rw [Option.bind_some, call_llm_with_summary, hprovider]
            rfl
      · simp only [Option.bind_eq_bind, Option.bind_some, if_neg henough]
        rfl

theorem plan_strategy_eq (planner : LLMPlanner K) (r : PlanRequest) :
    plan_strategy planner r = (planned planner r).getD (get_default_strategy r.risk_profile) := by
  unfold plan_strategy
  split
  next => rfl
  next h => exact (planned_without_llm (Bool.eq_false_iff.mpr h)).symm

theorem planned_of_answer (h : HasAnswer planner r plan) : planned planner r = some plan := by
  obtain ⟨candles, summary, provider, content, data, h⟩ := h
  unfold planned
  simp only [Option.bind_eq_bind, h.fetched, Option.bind_some, if_pos h.enough, h.analysed]
  exact call_eq_some_iff.mpr ⟨provider, content, data, h.asked, h.replied, h.read, h.checked⟩

theorem planned_cases (planner : LLMPlanner K) (r : PlanRequest) :
    (∃ plan, HasAnswer planner r plan ∧ planned planner r = some plan) ∨
      (planned planner r).getD (get_default_strategy r.risk_profile) =
        get_default_strategy r.risk_profile := by
  cases hplanned : planned planner r with
  | none => exact .inr rfl
  | some plan =>
      unfold planned at hplanned
      simp only [Option.bind_eq_bind, Option.bind_eq_some_iff] at hplanned
      obtain ⟨candles, hcandles, hplan⟩ := hplanned
      split at hplan
      next henough =>
          obtain ⟨summary, hsummary, hcall⟩ := Option.bind_eq_some_iff.mp hplan
          obtain ⟨provider, content, data, hprovider, hcontent, hdata, hchecked⟩ :=
            call_eq_some_iff.mp hcall
          exact .inl ⟨plan, ⟨candles, summary, provider, content, data, hcandles, henough, hsummary,
            hprovider, hcontent, hdata, hchecked⟩, rfl⟩
      next hfew =>
          cases hplan
          exact .inr rfl

theorem session_plan_eq_planned (planner : LLMPlanner K) (r : PlanRequest) :
    session_plan planner r = (planned planner
      { r with llm_provider := normalized_provider r.llm_provider }).getD
        (get_default_strategy r.risk_profile) := by
  rw [← full_analysis_plan]
  unfold session_plan
  split
  next h => rw [h]; rfl
  next h => rw [h]; rfl

section Answers

variable [IsStrictOrderedRing K]

theorem market_summary_isSome_iff {candles : List (Candle K)} (henough : Enough candles) :
    (∃ summary, market_summary planner r candles = some summary) ↔
      (∃ funding, funding_data planner r = some funding) ∧
        (∃ oi, open_interest_data planner r = some oi) ∧ OneSigned (medium_candles candles) := by
  have hlength : ¬ candles.length < 20 := not_lt.mpr ((by decide : 20 ≤ min_bars).trans henough.2)
  unfold market_summary
  simp only [Option.bind_eq_bind, Option.bind_eq_some_iff]
  constructor
  · rintro ⟨summary, funding, hfunding, oi, hoi, features, hfeatures, -⟩
    refine ⟨⟨funding, hfunding⟩, ⟨oi, hoi⟩, ?_⟩
    cases hcomputed : compute_features planner.math candles funding oi with
    | error e =>
        rw [hcomputed] at hfeatures
        cases hfeatures
    | ok computed =>
        exact ((features_safe_iff planner.math candles funding oi).mp
          (safe_iff.mpr ⟨computed, hcomputed⟩)).resolve_left hlength
  · rintro ⟨⟨funding, hfunding⟩, ⟨oi, hoi⟩, hsign⟩
    obtain ⟨features, hfeatures⟩ :=
      safe_iff.mp ((features_safe_iff planner.math candles funding oi).mpr (.inr hsign))
    exact ⟨_, funding, hfunding, oi, hoi, features, by rw [hfeatures]; rfl, rfl⟩

/-- An analysis is lost where the market data is, or where the closes change their sign. -/
theorem full_analysis_returns_iff (planner : LLMPlanner K) (r : PlanRequest) :
    (∃ analysis, get_full_analysis planner r = some analysis) ↔
      ∃ candles, market_candles planner r = some candles ∧ (Enough candles →
        (∃ funding, funding_data planner r = some funding) ∧
          (∃ oi, open_interest_data planner r = some oi) ∧
            OneSigned (medium_candles candles)) := by
  constructor
  · rintro ⟨analysis, hanalysis⟩
    obtain ⟨candles, hcandles, hanalysis⟩ := Option.bind_eq_some_iff.mp hanalysis
    refine ⟨candles, hcandles, ?_⟩
    intro henough
    rw [if_pos henough] at hanalysis
    obtain ⟨summary, hsummary, -⟩ := Option.bind_eq_some_iff.mp hanalysis
    exact (market_summary_isSome_iff henough).mp ⟨summary, hsummary⟩
  · rintro ⟨candles, hcandles, hdata⟩
    rw [← Option.isSome_iff_exists, get_full_analysis, hcandles]
    by_cases henough : Enough candles
    · obtain ⟨summary, hsummary⟩ := (market_summary_isSome_iff henough).mpr (hdata henough)
      simp only [Option.bind_eq_bind, Option.bind_some, if_pos henough, hsummary]
      rfl
    · simp only [Option.bind_eq_bind, Option.bind_some, if_neg henough]
      rfl

end Answers

/-- An object with no other brace and no backtick is found wherever it is embedded. -/
theorem extractable_of_flat {body : Text} (hopen : '{' ∉ body) (hclose : '}' ∉ body)
    (htick : '`' ∉ body) {e : Embedding} (he : e.Marked) :
    Extractable e ('{' :: (body ++ ['}'])) := by
  have hstrip : ExtractJson.strip ('{' :: (body ++ ['}'])) = '{' :: (body ++ ['}']) := by
    have hfirst : ExtractJson.isspace '{' = false := by decide
    have hlast : ¬ ExtractJson.isspace '}' = true := by decide
    rw [ExtractJson.strip, List.dropWhile_cons_of_neg (by rw [hfirst]; decide),
      ← List.cons_append, List.rdropWhile_concat_neg _ _ _ hlast]
  have hcounts : body.count '{' = 0 ∧ body.count '}' = 0 :=
    ⟨List.count_eq_zero.mpr hopen, List.count_eq_zero.mpr hclose⟩
  constructor
  · intro hfence
    have hmem : '`' ∈ '{' :: (body ++ ['}']) := hfence.subset (by decide)
    rw [List.mem_cons, List.mem_append, List.mem_singleton] at hmem
    rcases hmem with h | h | h
    · exact absurd h (by decide)
    · exact htick h
    · exact absurd h (by decide)
  · exact he
  · rw [hstrip]
    intro p hp hne hwhole
    obtain ⟨p', rfl, hp'⟩ := (List.prefix_cons_iff.mp hp).resolve_left hne
    have hinner : p' <+: body := by
      rcases List.prefix_concat_iff.mp hp' with rfl | hp'
      · exact absurd rfl hwhole
      · exact hp'
    have hnone : p'.count '}' = 0 :=
      List.count_eq_zero.mpr fun hmem => hclose (hinner.subset hmem)
    rw [List.count_cons_of_ne (by decide), hnone, List.count_cons_self]
    exact Nat.succ_pos _
  · left
    have hopens : ('{' :: (body ++ ['}'])).count '{' = 1 := by
      rw [List.count_cons_self, List.count_append, hcounts.1]
      rfl
    have hcloses : ('{' :: (body ++ ['}'])).count '}' = 1 := by
      rw [List.count_cons_of_ne (by decide), List.count_append, hcounts.2]
      rfl
    rw [hopens, hcloses]

def PLAN_BODY : Text :=
  "\"strategy\":\"z_score\",\"lookback\":8,\"threshold\":0.5,\"max_loss_pct\":0.5".toList

def PLAN_ANSWER : Text := '{' :: (PLAN_BODY ++ ['}'])

/-- What the schema makes of an object with these four fields. -/
def sample_fields (data : List (List ℕ × Json)) : Option StrategyPlan :=
  match member "strategy".toList data, member "lookback".toList data,
    member "threshold".toList data, member "max_loss_pct".toList data with
  | some (.string name), some (.number lookback), some (.number threshold),
      some (.number max_loss_pct) =>
      if lookback = "8".toList ∧ threshold = "0.5".toList ∧ max_loss_pct = "0.5".toList then
        some ⟨name.map Char.ofNat, 8, 1 / 2, 1 / 2⟩
      else none
  | _, _, _, _ => none

theorem sample_fields_admitted {data : List (List ℕ × Json)} {plan : StrategyPlan}
    (h : sample_fields data = some plan) : Admitted plan := by
  unfold sample_fields at h
  split at h
  · split at h
    · cases h
      exact ⟨Nat.succ_pos 7, by norm_num, by norm_num⟩
    · cases h
  · cases h

def sample_embedding : Embedding :=
  .json_fence ExtractJson.nothing ExtractJson.newline ExtractJson.newline ExtractJson.nothing

def sample_planner : LLMPlanner ℚ where
  openai_api_key := some "sk".toList
  anthropic_api_key := none
  deepseek_api_key := none
  gemini_api_key := none
  has_og_compute := false
  llm_provider := some .openai
  market_data := some ⟨fun _ _ _ => some StrategyShortlists.long_candles, fun _ _ => some none,
    fun _ _ => some none⟩
  math := rational_math
  chat := fun _ _ => some (sample_embedding.content PLAN_ANSWER)
  strategy_plan := sample_fields

def sample_request : PlanRequest :=
  ⟨"BTCUSDT".toList, 100, 5, "Aggressive".toList, "15m".toList, some "0G_Compute".toList, []⟩

/-- Whether a text is an object with the fields of a plan. -/
def plan_text (J : Text) (plan : StrategyPlan) : Bool :=
  match loads false J with
  | some (.object data) => decide (sample_fields data = some plan)
  | _ => false

theorem exists_plan_object {J : Text} {plan : StrategyPlan} (h : plan_text J plan = true) :
    ∃ data, loads false J = some (.object data) ∧ sample_fields data = some plan := by
  unfold plan_text at h
  split at h
  next data hJ => exact ⟨data, hJ, of_decide_eq_true h⟩
  next => cases h

theorem plan_answer_text : plan_text PLAN_ANSWER ⟨"z_score".toList, 8, 1 / 2, 1 / 2⟩ = true := by
  decide +kernel

end ArticTrader.LlmPlanner
