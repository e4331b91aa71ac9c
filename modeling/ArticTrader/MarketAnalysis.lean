import Mathlib.Data.List.Sort
import ArticTrader.ReversionAlgos

/-!
The market analyser: features of a window of candles, with what is known of the
funding rate and of the open interest, and the strategies that it puts forward for
them. A metric that is not in the dictionary of the features is `none`.
-/

namespace ArticTrader.MarketAnalysis

open ArticTrader.MomentumAlgos
open ArticTrader.Numerals
open ArticTrader.PythonSequences
open ArticTrader.PythonText (Text)
open ArticTrader.ReversionAlgos

variable {K : Type} [Field K] [LinearOrder K]

structure Math (K : Type) where
  sqrt : K → K
  log : K → K

/-- `math.log(x)` -/
def logarithm (log : K → K) (x : K) : Except Raised K :=
  if x ≤ 0 then .error .ValueError else .ok (log x)

def truthy : Option K → Bool
  | some x => decide (x ≠ 0)
  | none => false

/-- The average of the squares of the distances to `mean`. -/
def average_square (xs : List K) (mean : K) : Except Raised K :=
  average (xs.map fun x => (x - mean) ^ 2)

structure VolatilityMetrics (K : Type) where
  atr : Option K := none
  realized_vol_recent : Option K := none
  realized_vol_medium : Option K := none
  vol_ratio : Option K := none
  deriving DecidableEq, Repr

def atr_metric (recent : List (Candle K)) : Except Raised (Option K) :=
  if 14 ≤ recent.length then do
    let true_ranges ← (int_range 1 recent.length).mapM (true_range recent)
    if true_ranges.isEmpty then return none
    else
      let atr ← divide (slice true_ranges (some (-14)) none).sum (min 14 true_ranges.length : ℕ)
      return some atr
  else return none

def log_return (math : Math K) (candles : List (Candle K)) (i : ℤ) : Except Raised K := do
  let candle ← index candles i
  let previous ← index candles (i - 1)
  let change ← divide candle.close previous.close
  logarithm math.log change

def periods_per_year : ℕ := 35040

def compute_realized_vol (math : Math K) (candles : List (Candle K)) :
    Except Raised (Option K) :=
  if candles.length < 2 then return none
  else do
    let returns ← (int_range 1 candles.length).mapM (log_return math candles)
    if returns.isEmpty then return none
    else
      let mean_ret ← average returns
      let variance ← average_square returns mean_ret
      let std_dev ← square_root math.sqrt variance
      let periods ← square_root math.sqrt (periods_per_year : K)
      return some (std_dev * periods)

def vol_ratio : Option K → Option K → Except Raised (Option K)
  | some recent, some medium =>
      if truthy (some recent) ∧ truthy (some medium) ∧ 0 < medium then do
        let ratio ← divide recent medium
        return some ratio
      else return none
  | _, _ => return none

def compute_volatility_metrics (math : Math K) (recent medium : List (Candle K)) :
    Except Raised (VolatilityMetrics K) := do
  let atr ← atr_metric recent
  let realized_vol_recent ← compute_realized_vol math recent
  let realized_vol_medium ← compute_realized_vol math medium
  let vol_ratio ← vol_ratio realized_vol_recent realized_vol_medium
  return { atr, realized_vol_recent, realized_vol_medium, vol_ratio }

structure TrendMetrics (K : Type) where
  adx : Option K := none
  ma_slope : Option K := none
  range_compression_flag : Option Bool := none
  range_expansion_flag : Option Bool := none
  deriving DecidableEq, Repr

/-- How far a candle reaches above and below the one before. -/
def directional_movement (candles : List (Candle K)) (i : ℤ) : Except Raised (K × K) := do
  let candle ← index candles i
  let previous ← index candles (i - 1)
  let up_move := candle.high - previous.high
  let down_move := previous.low - candle.low
  return (if down_move < up_move ∧ 0 < up_move then up_move else 0,
    if up_move < down_move ∧ 0 < down_move then down_move else 0)

def adx_metric (medium : List (Candle K)) : Except Raised (Option K) :=
  if 14 ≤ medium.length then do
    let moves ← (int_range 1 medium.length).mapM (directional_movement medium)
    let plus_dm := moves.map Prod.fst
    let minus_dm := moves.map Prod.snd
    if plus_dm.isEmpty ∨ minus_dm.isEmpty then return none
    else
      let avg_plus ← divide (slice plus_dm (some (-14)) none).sum (14 : ℕ)
      let avg_minus ← divide (slice minus_dm (some (-14)) none).sum (14 : ℕ)
      if 0 < avg_plus + avg_minus then
        let dx ← divide (100 * |avg_plus - avg_minus|) (avg_plus + avg_minus)
        return some dx
      else return none
  else return none

def ma_slope_metric (medium : List (Candle K)) : Except Raised (Option K) :=
  if 20 ≤ medium.length then do
    let last ← index medium (-1)
    let first ← index medium (-20)
    if 0 < first.close then
      let slope ← divide (last.close - first.close) first.close
      return some slope
    else return none
  else return none

/-- From the lowest low to the highest high. -/
def price_range (candles : List (Candle K)) : Except Raised K := do
  let high ← maximum (candles.map Candle.high)
  let low ← minimum (candles.map Candle.low)
  return high - low

def range_ratio (recent medium : List (Candle K)) : Except Raised (Option K) :=
  if 10 ≤ recent.length ∧ 20 ≤ medium.length then do
    let recent_range ← price_range (slice recent (some (-10)) none)
    let medium_range ← price_range (slice medium (some (-20)) none)
    if 0 < medium_range then
      let ratio ← divide recent_range medium_range
      return some ratio
    else return none
  else return none

def compute_trend_metrics (recent medium : List (Candle K)) : Except Raised (TrendMetrics K) := do
  let adx ← adx_metric medium
  let ma_slope ← ma_slope_metric medium
  let ratio ← range_ratio recent medium
  return {
    adx, ma_slope
    range_compression_flag := ratio.map fun r : K => decide (r < (7 : ℕ) / 10)
    range_expansion_flag := ratio.map fun r : K => decide ((13 : ℕ) / 10 < r) }

structure FundingPoint (K : Type) where
  rate : Option K
  deriving DecidableEq, Repr

structure FundingStats (K : Type) where
  funding_mean : Option K := none
  funding_std : Option K := none
  funding_p5 : Option K := none
  funding_p95 : Option K := none
  funding_current : Option K := none
  deriving DecidableEq, Repr

def compute_funding_stats (math : Math K) (funding_data : List (FundingPoint K)) :
    Except Raised (FundingStats K) :=
  let rates := funding_data.filterMap FundingPoint.rate
  if rates.isEmpty then return {}
  else do
    let mean ← average rates
    let variance ← average_square rates mean
    let std ← square_root math.sqrt variance
    let sorted_rates := rates.insertionSort (· ≤ ·)
    let p5 ← index sorted_rates (sorted_rates.length * 5 / 100 : ℕ)
    let p95 ← index sorted_rates (sorted_rates.length * 95 / 100 : ℕ)
    let current ← index rates (-1)
    return {
      funding_mean := some mean
      funding_std := some std
      funding_p5 := some p5
      funding_p95 := some p95
      funding_current := some current }

structure OiPoint (K : Type) where
  value : Option K
  deriving DecidableEq, Repr

structure OiStats (K : Type) where
  oi_slope_24h : Option K := none
  oi_slope_48h : Option K := none
  oi_zscore : Option K := none
  oi_spike_detected : Option Bool := none
  deriving DecidableEq, Repr

/-- `d.get("value", 0)` -/
def OiPoint.get_value (d : OiPoint K) : K := d.value.getD 0

def oi_slope (oi_data : List (OiPoint K)) (far near : ℕ) : Except Raised (Option K) :=
  if far ≤ oi_data.length then do
    let old ← index oi_data (-far)
    let new ← index oi_data (-near)
    if 0 < old.get_value then
      let slope ← divide (new.get_value - old.get_value) old.get_value
      return some slope
    else return none
  else return none

/-- `math.sqrt(variance) if variance > 0 else 1` -/
def oi_deviation (math : Math K) (variance : K) : Except Raised K :=
  if 0 < variance then square_root math.sqrt variance else return 1

def oi_zscore_metric (math : Math K) (oi_data : List (OiPoint K)) (medium_window : ℕ) :
    Except Raised (Option K) :=
  let medium_oi := (slice oi_data (some (-medium_window)) none).map OiPoint.get_value
  if medium_window ≤ oi_data.length ∧ ¬ medium_oi.isEmpty then do
    let mean_oi ← average medium_oi
    let variance ← average_square medium_oi mean_oi
    let std_oi ← oi_deviation math variance
    let current_oi ← index oi_data (-1)
    if 0 < std_oi then
      let zscore ← divide (current_oi.get_value - mean_oi) std_oi
      return some zscore
    else return none
  else return none

def compute_oi_stats (math : Math K) (oi_data : List (OiPoint K)) (medium_window : ℕ) :
    Except Raised (OiStats K) :=
  if oi_data.isEmpty ∨ oi_data.length < 2 then return {}
  else do
    let oi_slope_24h ← oi_slope oi_data 48 24
    let oi_slope_48h ← oi_slope oi_data 96 48
    let oi_zscore ← oi_zscore_metric math oi_data medium_window
    return {
      oi_slope_24h, oi_slope_48h, oi_zscore
      oi_spike_detected := oi_zscore.map fun z => decide (2 < |z|) }

structure LiquidityMetrics (K : Type) where
  spread_proxy : Option K := none
  candle_wickiness : Option K := none
  churn_metric : Option K := none
  deriving DecidableEq, Repr

/-- The average of a list that may have nothing to average. -/
def average_of (xs : List K) : Except Raised (Option K) :=
  if xs.isEmpty then return none
  else do
    let mean ← average xs
    return some mean

def spread_proxy_metric (candles : List (Candle K)) : Except Raised (Option K) := do
  let spreads ← (candles.filter fun c => 0 < c.close).mapM fun c => divide (c.high - c.low) c.close
  average_of spreads

def wick_ratio (c : Candle K) : Except Raised K :=
  let upper_wick := c.high - max c.open_ c.close
  let lower_wick := min c.open_ c.close - c.low
  divide (upper_wick + lower_wick) (c.high - c.low)

def wickiness_metric (candles : List (Candle K)) : Except Raised (Option K) := do
  let wick_ratios ← (candles.filter fun c => 0 < c.high - c.low).mapM wick_ratio
  average_of wick_ratios

def price_change (prices : List K) (i : ℤ) : Except Raised (Option K) := do
  let previous ← index prices (i - 1)
  if 0 < previous then
    let price ← index prices i
    let change ← divide |price - previous| previous
    return some change
  else return none

def churn (candles : List (Candle K)) : Except Raised (Option K) :=
  if 2 ≤ candles.length then do
    let volumes := candles.map Candle.volume
    let prices := candles.map Candle.close
    let changes ← (int_range 1 prices.length).mapM (price_change prices)
    let price_changes := changes.reduceOption
    if price_changes.isEmpty ∨ volumes.isEmpty then return none
    else
      let avg_vol ← average volumes
      let avg_price_vol ← average price_changes
      if 0 < avg_price_vol then
        let churn ← divide avg_vol avg_price_vol
        return some churn
      else return none
  else return none

def compute_liquidity_metrics (candles : List (Candle K)) :
    Except Raised (LiquidityMetrics K) :=
  if candles.isEmpty then return {}
  else do
    let spread_proxy ← spread_proxy_metric candles
    let candle_wickiness ← wickiness_metric candles
    let churn_metric ← churn candles
    return { spread_proxy, candle_wickiness, churn_metric }

structure Features (K : Type) extends VolatilityMetrics K, TrendMetrics K, FundingStats K,
  OiStats K, LiquidityMetrics K
  deriving DecidableEq, Repr

def recent_window (total_bars : ℕ) : ℕ := min 288 total_bars

def medium_window (total_bars : ℕ) : ℕ := min 2016 total_bars

def recent_candles (candles : List (Candle K)) : List (Candle K) :=
  slice candles (some (-recent_window candles.length)) none

def medium_candles (candles : List (Candle K)) : List (Candle K) :=
  slice candles (some (-medium_window candles.length)) none

def compute_features (math : Math K) (candles : List (Candle K))
    (funding_data : Option (List (FundingPoint K))) (oi_data : Option (List (OiPoint K))) :
    Except Raised (Features K) :=
  if candles.isEmpty ∨ candles.length < 20 then return {}
  else do
    let recent := recent_candles candles
    let medium := medium_candles candles
    let volatility ← compute_volatility_metrics math recent medium
    let trend ← compute_trend_metrics recent medium
    let funding ← compute_funding_stats math (funding_data.getD [])
    let oi ← compute_oi_stats math (oi_data.getD []) (medium_window candles.length)
    let liquidity ← compute_liquidity_metrics recent
    return { volatility, trend, funding, oi, liquidity with }

structure MarketRegimeSummary (K : Type) where
  symbol : Text
  chosen_primary_timeframe : Text
  bar_count_used : ℕ
  atr : Option K
  realized_vol_recent : Option K
  realized_vol_medium : Option K
  vol_ratio : Option K
  adx : Option K
  ma_slope : Option K
  range_compression_flag : Bool
  range_expansion_flag : Bool
  funding_mean : Option K
  funding_std : Option K
  funding_p5 : Option K
  funding_p95 : Option K
  funding_current : Option K
  oi_slope_24h : Option K
  oi_slope_48h : Option K
  oi_zscore : Option K
  oi_spike_detected : Bool
  spread_proxy : Option K
  candle_wickiness : Option K
  churn_metric : Option K
  last_50_candles : Option (List (Candle K))
  deriving DecidableEq, Repr

def build_summary (symbol primary_timeframe : Text) (bar_count : ℕ) (features : Features K)
    (last_50_candles : List (Candle K)) : MarketRegimeSummary K where
  symbol := symbol
  chosen_primary_timeframe := primary_timeframe
  bar_count_used := bar_count
  atr := features.atr
  realized_vol_recent := features.realized_vol_recent
  realized_vol_medium := features.realized_vol_medium
  vol_ratio := features.vol_ratio
  adx := features.adx
  ma_slope := features.ma_slope
  range_compression_flag := features.range_compression_flag.getD false
  range_expansion_flag := features.range_expansion_flag.getD false
  funding_mean := features.funding_mean
  funding_std := features.funding_std
  funding_p5 := features.funding_p5
  funding_p95 := features.funding_p95
  funding_current := features.funding_current
  oi_slope_24h := features.oi_slope_24h
  oi_slope_48h := features.oi_slope_48h
  oi_zscore := features.oi_zscore
  oi_spike_detected := features.oi_spike_detected.getD false
  spread_proxy := features.spread_proxy
  candle_wickiness := features.candle_wickiness
  churn_metric := features.churn_metric
  last_50_candles :=
    if last_50_candles.isEmpty then none else some (slice last_50_candles (some (-50)) none)

def TREND_FOLLOWERS : List Text :=
  ["trend_following".toList, "ma_crossover".toList, "ema_crossover".toList]

def STRONG_TREND_FOLLOWERS : List Text :=
  ["breakout".toList, "donchian_channel".toList, "macd_signal".toList, "supertrend".toList]

def RANGE_TRADERS : List Text :=
  ["mean_reversion".toList, "z_score".toList, "bollinger_reversion".toList, "rsi_signal".toList]

def SQUEEZE_TRADERS : List Text :=
  ["bollinger_squeeze".toList, "linear_regression_channel".toList]

def RANGE_BREAKERS : List Text := ["atr_breakout".toList, "breakout".toList]

/-- The strategies in their order, each at its first place only. -/
def unique (strategies : List Text) : List Text :=
  strategies.foldl (fun unique s => if s ∈ unique then unique else unique ++ [s]) []

def vol_moderate (summary : MarketRegimeSummary K) : Bool :=
  truthy summary.realized_vol_recent && truthy summary.realized_vol_medium

def vol_ok (summary : MarketRegimeSummary K) : Bool :=
  vol_moderate summary && decide (1 / 10 < summary.realized_vol_recent.getD 0 ∧
    summary.realized_vol_recent.getD 0 < 1 / 2)

def range_high (summary : MarketRegimeSummary K) : Bool :=
  summary.range_compression_flag || truthy summary.adx && decide (summary.adx.getD 0 < 20)

def funding_extreme (summary : MarketRegimeSummary K) : Bool :=
  truthy summary.funding_current && truthy summary.funding_p5 && truthy summary.funding_p95 &&
    decide (summary.funding_current.getD 0 < summary.funding_p5.getD 0 ∨
      summary.funding_p95.getD 0 < summary.funding_current.getD 0)

def suggest_strategy_shortlist (summary : MarketRegimeSummary K) : List Text :=
  let trend_strength := summary.adx.getD 0
  let strategies :=
    if 25 < trend_strength ∧ vol_moderate summary ∧ vol_ok summary then
      TREND_FOLLOWERS ++ if 30 < trend_strength then STRONG_TREND_FOLLOWERS else []
    else []
  let strategies := strategies ++
    if range_high summary then
      RANGE_TRADERS ++ if summary.range_expansion_flag then SQUEEZE_TRADERS else []
    else []
  let strategies := strategies ++
    if summary.range_expansion_flag ∧ ¬ range_high summary then RANGE_BREAKERS else []
  let strategies := strategies ++
    if funding_extreme summary ∨ summary.oi_spike_detected then ["funding_oi_filter".toList]
    else []
  let strategies := strategies ++
    if "momentum".toList ∈ strategies then [] else ["momentum".toList]
  unique strategies

def min_bars : ℕ := 200

/-- The strategies that `get_full_analysis` puts to the model. -/
def full_analysis_shortlist (math : Math K) (symbol primary_timeframe : Text)
    (candles : List (Candle K)) (funding_data : Option (List (FundingPoint K)))
    (oi_data : Option (List (OiPoint K))) : Except Raised (List Text) :=
  if candles.isEmpty ∨ candles.length < min_bars then return ["momentum".toList]
  else do
    let features ← compute_features math candles funding_data oi_data
    return suggest_strategy_shortlist (build_summary symbol primary_timeframe candles.length
      features (slice candles (some (-50)) none))

end ArticTrader.MarketAnalysis
