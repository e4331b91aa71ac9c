import ArticTrader.TradingEngine
import ArticTrader.VolumeAlgos

/-!
The signal of a strategy: the algorithm that its name selects, on the history of
prices or on the candles.
-/

namespace ArticTrader.StrategySignals

open ArticTrader.MomentumAlgos
open ArticTrader.Numerals
open ArticTrader.PythonSequences
open ArticTrader.PythonText (Text lower strip)
open ArticTrader.ReversionAlgos
open ArticTrader.TradingEngine (StrategyPlan)
open ArticTrader.VolumeAlgos

variable {K : Type} [Field K] [LinearOrder K]

def signal_demo_mode (py : Python K) (prices : List K) : Except Raised (Signal K) :=
  if prices.length < 4 then return (0, "demo: warming up".toList)
  else do
    let recent := slice prices (some (-4)) none
    let last ← index recent (-1)
    let first ← index recent 0
    let delta := last - first
    if first = 0 then return (0, "demo: zero base".toList)
    else
      let ratio ← divide delta first
      let bps := ratio * 10000
      let before ← index recent (-2)
      let sig : K :=
        if bps = 0 then if before ≤ last then 6 / 10 else -6 / 10
        else
          let sig := clamp (-1) 1 bps
          if |sig| < 4 / 10 then if 0 ≤ sig then 4 / 10 else -4 / 10 else sig
      return (sig, "demo: ".toList ++ py.signed bps ++ " bps over 4 ticks".toList)

/-- The last closes of the candles if there are enough of them, else of the prices. -/
def recent_closes (candles : Option (List (Candle K))) (prices : List K) (lookback : ℕ) :
    Option (List K) :=
  let candles := candles.getD []
  if candles ≠ [] ∧ lookback ≤ candles.length then
    some ((slice candles (some (-lookback)) none).map Candle.close)
  else if prices.length < lookback then none
  else some (slice prices (some (-lookback)) none)

def warming_up_bars (n needed : ℕ) : Text :=
  "warming up (".toList ++ count n ++ "/".toList ++ count needed ++ " bars)".toList

def signal_trend_following (py : Python K) (plan : StrategyPlan)
    (candles : Option (List (Candle K))) (prices : List K) : Except Raised (Signal K) :=
  let lookback := max 2 plan.lookback
  let fast_len := max 1 (lookback / 2)
  match recent_closes candles prices lookback with
  | none => return (0, warming_up_bars prices.length lookback)
  | some closes => do
      let fast_ma ← divide (slice closes (some (-fast_len)) none).sum fast_len
      let slow_ma ← average closes
      if slow_ma = 0 then return (0, "invalid slow MA".toList)
      else
        let signal ← divide (fast_ma - slow_ma) slow_ma
        return (signal, "trend=".toList ++ py.fixed 4 signal ++ " (fast_ma=".toList ++
          py.fixed 2 fast_ma ++ ", slow_ma=".toList ++ py.fixed 2 slow_ma ++ ")".toList)

def signal_mean_reversion (py : Python K) (plan : StrategyPlan)
    (candles : Option (List (Candle K))) (prices : List K) : Except Raised (Signal K) :=
  let lookback := max 3 plan.lookback
  match recent_closes candles prices lookback with
  | none => return (0, warming_up_bars prices.length lookback)
  | some closes => do
      let (mean, std) ← spread py closes
      let last ← index closes (-1)
      let z ← divide (last - mean) std
      return (-z, "z_score=".toList ++ py.fixed 2 z ++ " (price=".toList ++ py.fixed 2 last ++
        ", mean=".toList ++ py.fixed 2 mean ++ ", std=".toList ++ py.fixed 4 std ++ ")".toList)

def signal_funding_oi_filter (py : Python K) (plan : StrategyPlan) (prices : List K) :
    Except Raised (Signal K) := do
  let (signal, detail) ← simple_momentum py prices (max 1 plan.lookback)
  return (signal, "funding_oi_filter: ".toList ++ detail)

inductive PriceAlgo where
  | momentum
  | dual_momentum
  | breakout
  | donchian_channel
  | ma_crossover
  | ema_crossover
  | macd_signal
  | z_score
  | bollinger_reversion
  | rsi_signal
  | range_sr
  | bollinger_squeeze
  | linear_regression_channel
  | kalman_fair_value
  | meth_rwa
  deriving DecidableEq, Repr

def PRICE_ALGOS : List (Text × PriceAlgo) :=
  [
    ("momentum".toList, .momentum),
    ("dual_momentum".toList, .dual_momentum),
    ("breakout".toList, .breakout),
    ("donchian_channel".toList, .donchian_channel),
    ("ma_crossover".toList, .ma_crossover),
    ("ema_crossover".toList, .ema_crossover),
    ("macd_signal".toList, .macd_signal),
    ("z_score".toList, .z_score),
    ("bollinger_reversion".toList, .bollinger_reversion),
    ("rsi_signal".toList, .rsi_signal),
    ("range_sr".toList, .range_sr),
    ("bollinger_squeeze".toList, .bollinger_squeeze),
    ("linear_regression_channel".toList, .linear_regression_channel),
    ("kalman_fair_value".toList, .kalman_fair_value),
    ("meth_rwa".toList, .meth_rwa)
  ]

def PriceAlgo.run (py : Python K) (prices : List K) (lookback : ℕ) :
    PriceAlgo → Except Raised (Signal K)
  | .momentum => simple_momentum py prices lookback
  | .dual_momentum => MomentumAlgos.dual_momentum py prices (lookback / 2) lookback
  | .breakout => MomentumAlgos.breakout py prices lookback
  | .donchian_channel => MomentumAlgos.donchian_channel py prices lookback
  | .ma_crossover => MomentumAlgos.ma_crossover py prices (max 2 (lookback / 2)) lookback
  | .ema_crossover => MomentumAlgos.ema_crossover py prices (max 2 (lookback / 2)) lookback
  | .macd_signal => MomentumAlgos.macd_signal py prices 12 26 9
  | .z_score => ReversionAlgos.z_score py prices lookback
  | .bollinger_reversion => ReversionAlgos.bollinger_reversion py prices lookback 2
  | .rsi_signal => ReversionAlgos.rsi_signal py prices (min 14 lookback) 70 30
  | .range_sr => ReversionAlgos.range_sr py prices lookback
  | .bollinger_squeeze => VolumeAlgos.bollinger_squeeze py prices lookback (1 / 10)
  | .linear_regression_channel => ReversionAlgos.linear_regression_channel py prices lookback
  | .kalman_fair_value => ReversionAlgos.kalman_fair_value py prices (1 / 100) (1 / 10)
  | .meth_rwa => VolumeAlgos.meth_rwa py prices rwa_defaults

inductive CandleAlgo where
  | trend_following
  | mean_reversion
  | adx_filter
  | supertrend
  | ichimoku_signal
  | stochastic_signal
  | atr_breakout
  | keltner_bollinger
  | vwap_deviation
  | obv_trend
  | smart_money
  deriving DecidableEq, Repr

def CANDLE_ALGOS : List (Text × CandleAlgo) :=
  [
    ("trend_following".toList, .trend_following),
    ("mean_reversion".toList, .mean_reversion),
    ("adx_filter".toList, .adx_filter),
    ("supertrend".toList, .supertrend),
    ("ichimoku_signal".toList, .ichimoku_signal),
    ("stochastic_signal".toList, .stochastic_signal),
    ("atr_breakout".toList, .atr_breakout),
    ("keltner_bollinger".toList, .keltner_bollinger),
    ("vwap_deviation".toList, .vwap_deviation),
    ("obv_trend".toList, .obv_trend),
    ("smart_money".toList, .smart_money)
  ]

def CandleAlgo.run (py : Python K) (prices : List K) (candles : List (Candle K)) (lookback : ℕ) :
    CandleAlgo → Except Raised (Signal K)
  | .trend_following => MomentumAlgos.ma_crossover py prices (max 2 (lookback / 2)) lookback
  | .mean_reversion => ReversionAlgos.z_score py prices lookback
  | .adx_filter => MomentumAlgos.adx_filter py candles 14 25
  | .supertrend => MomentumAlgos.supertrend py candles 14 3
  | .ichimoku_signal => MomentumAlgos.ichimoku_signal py candles 9 26 52
  | .stochastic_signal => ReversionAlgos.stochastic_signal py candles (min 14 lookback) 3
  | .atr_breakout => VolumeAlgos.atr_breakout py candles 14 (3 / 2)
  | .keltner_bollinger => VolumeAlgos.keltner_bollinger py candles lookback 2
  | .vwap_deviation => VolumeAlgos.vwap_deviation py candles
  | .obv_trend => VolumeAlgos.obv_trend py candles lookback
  | .smart_money => VolumeAlgos.smart_money py candles 2 7 5 (1 / 4)

/-- `(strategy or "momentum").lower().strip()` -/
def strategy_lower (strategy : Text) : Text :=
  strip (lower (if strategy = [] then "momentum".toList else strategy))

/-- What is left for names without an algorithm of their own, or without enough candles. -/
def fallback (py : Python K) (name : Text) (plan : StrategyPlan) (prices : List K)
    (candles : Option (List (Candle K))) : Except Raised (Signal K) :=
  if name = "trend_following".toList then signal_trend_following py plan candles prices
  else if name = "mean_reversion".toList then signal_mean_reversion py plan candles prices
  else if name = "funding_oi_filter".toList then signal_funding_oi_filter py plan prices
  else if name = "demo_mode".toList then signal_demo_mode py prices
  else simple_momentum py prices (max 2 plan.lookback)

def compute_strategy_signal (py : Python K) (strategy : Text) (plan : StrategyPlan)
    (price_history : List K) (candles : Option (List (Candle K))) : Except Raised (Signal K) :=
  let name := strategy_lower strategy
  let lookback := max 2 plan.lookback
  match PRICE_ALGOS.lookup name with
  | some algo => algo.run py price_history lookback
  | none =>
      let cdicts := candles.getD []
      if cdicts ≠ [] ∧ lookback ≤ cdicts.length then
        match CANDLE_ALGOS.lookup name with
        | some algo => algo.run py price_history cdicts lookback
        | none => fallback py name plan price_history candles
      else fallback py name plan price_history candles

end ArticTrader.StrategySignals
