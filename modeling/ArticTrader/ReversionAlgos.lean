import ArticTrader.MomentumAlgos

/-!
The mean reversion algorithms of the strategies, the regression channel and the
filter for a fair value.
-/

namespace ArticTrader.ReversionAlgos

open ArticTrader.MomentumAlgos
open ArticTrader.Numerals
open ArticTrader.PythonSequences
open ArticTrader.PythonText (Text)

variable {K : Type} [Field K] [LinearOrder K]

/-- `sum(window) / len(window)` -/
def average (window : List K) : Except Raised K := divide window.sum window.length

/-- `math.sqrt(var) if var > 0 else 1e-10` -/
def deviation (py : Python K) (var : K) : Except Raised K :=
  if 0 < var then square_root py.sqrt var else return 1 / 10 ^ 10

/-- The mean of a window and its standard deviation. -/
def spread (py : Python K) (window : List K) : Except Raised (K × K) := do
  let mean ← average window
  let var : K ← divide (window.map fun x => (x - mean) ^ 2).sum window.length
  let std ← deviation py var
  return (mean, std)

def z_score (py : Python K) (prices : List K) (lookback : ℕ) : Except Raised (Signal K) :=
  if prices.length < lookback then return (0, warming_up prices.length lookback)
  else do
    let window := slice prices (some (-lookback)) none
    let (mean, std) ← spread py window
    let p ← index prices (-1)
    let z ← divide (p - mean) std
    return (clamp (-2) 2 (-z), "z=".toList ++ py.fixed 2 z ++ " mean=".toList ++
      py.fixed 2 mean ++ " std=".toList ++ py.fixed 4 std)

def bollinger_reversion (py : Python K) (prices : List K) (period : ℕ) (num_std : K) :
    Except Raised (Signal K) :=
  if prices.length < period then return (0, warming_up prices.length period)
  else do
    let window := slice prices (some (-period)) none
    let (mean, std) ← spread py window
    let upper := mean + num_std * std
    let lower := mean - num_std * std
    let p ← index prices (-1)
    if upper = lower then return (0, "flat bands".toList)
    else
      let pos ← if std ≠ 0 then divide (p - mean) (num_std * std) else pure 0
      return (clamp (-1) 1 (-pos), "p=".toList ++ py.fixed 2 p ++ " mid=".toList ++
        py.fixed 2 mean ++ " upper=".toList ++ py.fixed 2 upper ++ " lower=".toList ++
        py.fixed 2 lower)

def rsi_signal (py : Python K) (prices : List K) (period : ℕ) (overbought oversold : K) :
    Except Raised (Signal K) :=
  if prices.length < period + 1 then
    return (0, warming_up prices.length (period + 1))
  else do
    let changes ← (int_range 1 prices.length).mapM fun i => do
      let price ← index prices i
      let previous ← index prices (i - 1)
      return price - previous
    let gains := changes.map fun ch => if 0 < ch then ch else 0
    let losses := changes.map fun ch => if ch < 0 then -ch else 0
    let avg_gain ← divide (slice gains (some (-period)) none).sum period
    let avg_loss ← divide (slice losses (some (-period)) none).sum period
    let rsi : K ←
      if avg_loss = 0 then pure 100
      else
        let rs ← divide avg_gain avg_loss
        let rest ← divide 100 (1 + rs)
        pure (100 - rest)
    let sig :=
      if rsi ≤ oversold then 1 / 2
      else if overbought ≤ rsi then -1 / 2
      else (50 - rsi) / 50
    return (clamp (-1) 1 sig, "RSI=".toList ++ py.fixed 1 rsi)

/-- `%K` of a candle within the range of the `k_period` candles up to it. -/
def stochastic_k (candles : List (Candle K)) (k_period : ℕ) (i : ℤ) : Except Raised K := do
  let window := slice candles (some (i - k_period + 1)) (some (i + 1))
  let high ← maximum (window.map Candle.high)
  let low ← minimum (window.map Candle.low)
  let candle ← index candles i
  if high ≠ low then divide (100 * (candle.close - low)) (high - low) else return 50

def stochastic_signal (py : Python K) (candles : List (Candle K)) (k_period d_period : ℕ) :
    Except Raised (Signal K) :=
  if candles.isEmpty ∨ candles.length < k_period then
    return (0, warming_up candles.length k_period)
  else do
    let window := slice candles (some (-k_period)) none
    let high ← maximum (window.map Candle.high)
    let low ← minimum (window.map Candle.low)
    let last ← index candles (-1)
    if high = low then return (0, "flat range".toList)
    else
      let k ← divide (100 * (last.close - low)) (high - low)
      let k_vals ← (int_range (candles.length - k_period) candles.length).mapM
        (stochastic_k candles k_period)
      let d ←
        if d_period ≤ k_vals.length then divide (slice k_vals (some (-d_period)) none).sum d_period
        else pure k
      let sig := if k ≤ 20 then 1 / 2 else if 80 ≤ k then -1 / 2 else (50 - k) / 50
      return (clamp (-1) 1 sig, "%K=".toList ++ py.fixed 1 k ++ " %D=".toList ++ py.fixed 1 d)

def range_sr (py : Python K) (prices : List K) (lookback : ℕ) : Except Raised (Signal K) :=
  if prices.length < lookback then return (0, warming_up prices.length lookback)
  else do
    let window := slice prices (some (-lookback)) none
    let high ← maximum window
    let low ← minimum window
    let p ← index prices (-1)
    if high = low then return (0, "flat range".toList)
    else
      let pos ← divide (p - low) (high - low)
      return (clamp (-1) 1 (1 / 2 - pos), "p=".toList ++ py.fixed 2 p ++ " range=[".toList ++
        py.fixed 2 low ++ ",".toList ++ py.fixed 2 high ++ "]".toList)

def linear_regression_channel (py : Python K) (prices : List K) (lookback : ℕ) :
    Except Raised (Signal K) :=
  if prices.length < lookback then return (0, warming_up prices.length lookback)
  else do
    let x := (List.range lookback).map fun i : ℕ => (i : K)
    let y := slice prices (some (-lookback)) none
    let n : K := x.length
    let sx := x.sum
    let sy := y.sum
    let sxx := (x.map fun xi => xi * xi).sum
    let sxy := (List.zipWith (fun xi yi => xi * yi) x y).sum
    let den := n * sxx - sx * sx
    if den = 0 then return (0, "singular".toList)
    else
      let slope ← divide (n * sxy - sx * sy) den
      let intercept ← divide (sy - slope * sx) n
      let pred := intercept + slope * (n - 1)
      let residuals := List.zipWith (fun xi yi => yi - (intercept + slope * xi)) x y
      let var : K ← divide (residuals.map fun r => r * r).sum residuals.length
      let std ← deviation py var
      let p ← index prices (-1)
      let dev ← if std ≠ 0 then divide (p - pred) std else pure 0
      return (clamp (-2) 2 (-dev), "dev=".toList ++ py.fixed 2 dev ++ " pred=".toList ++
        py.fixed 2 pred)

/-- One price read by the filter: the estimate and its variance. -/
def kalman_step (Q R : K) (state : K × K) (z : K) : Except Raised (K × K) := do
  let P_pred := state.2 + Q
  let gain ← divide P_pred (P_pred + R)
  return (state.1 + gain * (z - state.1), (1 - gain) * P_pred)

def kalman_fair_value (py : Python K) (prices : List K) (process_var measure_var : K) :
    Except Raised (Signal K) :=
  if prices.length < 5 then return (0, warming_up prices.length 5)
  else do
    let x ← index prices 0
    let (fair, P) ← (slice prices (some 1) none).foldlM (kalman_step process_var measure_var) (x, 1)
    let p ← index prices (-1)
    let scale ← square_root py.sqrt (max P (1 / 10 ^ 6))
    let sig ← if scale ≠ 0 then divide (-(p - fair)) scale else pure 0
    return (clamp (-2) 2 sig, "fair=".toList ++ py.fixed 2 fair ++ " p=".toList ++ py.fixed 2 p)

end ArticTrader.ReversionAlgos
