import ArticTrader.ReversionAlgos

/-!
The volatility and the volume algorithms of the strategies, the tracker of volume
breakouts and the spread of the staked asset.
-/

namespace ArticTrader.VolumeAlgos

open ArticTrader.MomentumAlgos
open ArticTrader.Numerals
open ArticTrader.PythonSequences
open ArticTrader.PythonText (Text)
open ArticTrader.ReversionAlgos

variable {K : Type} [Field K] [LinearOrder K]

def atr_breakout (py : Python K) (candles : List (Candle K)) (period : ℕ) (mult : K) :
    Except Raised (Signal K) :=
  if candles.isEmpty ∨ candles.length < period + 1 then
    return (0, warming_up candles.length (period + 1))
  else do
    let atr_val ← atr candles period
    match atr_val with
    | none => return (0, "no ATR".toList)
    | some atr_val =>
        if atr_val ≤ 0 then return (0, "no ATR".toList)
        else
          let last ← index candles (-1)
          let recent_range := last.high - last.low
          if atr_val * mult < recent_range then
            if last.high = last.low then return (0, "doji".toList)
            else
              let pos ← divide (last.close - last.low) (last.high - last.low)
              return (if 1 / 2 < pos then 1 else -1, "ATR breakout range=".toList ++
                py.fixed 2 recent_range ++ " ATR=".toList ++ py.fixed 2 atr_val)
          else
            return (0, "range=".toList ++ py.fixed 2 recent_range ++ " < ATR*".toList ++
              py.plain mult)

/-- The width of the bands of a window, and its mean. -/
def band_width (py : Python K) (window : List K) : Except Raised (K × K) := do
  let (mean, std) ← spread py window
  let width ← if mean ≠ 0 then divide (2 * std) mean else pure 0
  return (width, mean)

def bollinger_squeeze (py : Python K) (prices : List K) (period : ℕ) (width_pct : K) :
    Except Raised (Signal K) :=
  if prices.length < period * 2 then return (0, warming_up prices.length (period * 2))
  else do
    let (width, mean) ← band_width py (slice prices (some (-period)) none)
    let (prev_width, _) ← band_width py (slice prices (some (-period * 2)) (some (-period)))
    if 0 < prev_width ∧ prev_width * (1 + width_pct) < width then
      let p ← index prices (-1)
      return (if mean < p then 1 else -1, "squeeze breakout width=".toList ++ py.fixed 4 width ++
        " prev=".toList ++ py.fixed 4 prev_width)
    else return (0, "width=".toList ++ py.fixed 4 width ++ " no squeeze".toList)

def keltner_bollinger (py : Python K) (candles : List (Candle K)) (period : ℕ) (kc_mult : K) :
    Except Raised (Signal K) :=
  if candles.isEmpty ∨ candles.length < period + 1 then
    return (0, warming_up candles.length (period + 1))
  else do
    let closes := (slice candles (some (-period)) none).map Candle.close
    let (mean, std) ← spread py closes
    let atr_val := (← atr candles 14).getD std
    let kc_upper := mean + kc_mult * atr_val
    let kc_lower := mean - kc_mult * atr_val
    let last ← index candles (-1)
    if kc_upper ≤ last.close then
      return (-1 / 2, "price above Keltner upper ".toList ++ py.fixed 2 kc_upper)
    else if last.close ≤ kc_lower then
      return (1 / 2, "price below Keltner lower ".toList ++ py.fixed 2 kc_lower)
    else
      return (0, "inside Keltner [".toList ++ py.fixed 2 kc_lower ++ ",".toList ++
        py.fixed 2 kc_upper ++ "]".toList)

def vwap_deviation (py : Python K) (candles : List (Candle K)) : Except Raised (Signal K) := do
  if candles.isEmpty then return (0, "no volume data".toList)
  else
    let first ← index candles 0
    if first.volume = 0 then return (0, "no volume data".toList)
    else
      let cum_pv := (candles.map fun c => (c.high + c.low + c.close) / 3 * c.volume).sum
      let cum_vol := (candles.map Candle.volume).sum
      if cum_vol ≤ 0 then return (0, "zero volume".toList)
      else
        let vwap ← divide cum_pv cum_vol
        let last ← index candles (-1)
        if vwap = 0 then return (0, "invalid vwap".toList)
        else
          let sig ← divide (-(last.close - vwap)) vwap
          return (clamp (-1) 1 sig, "p=".toList ++ py.fixed 2 last.close ++ " vwap=".toList ++
            py.fixed 2 vwap)

/-- One candle added to the balance of volumes. -/
def obv_step (candles : List (Candle K)) (obv : K) (i : ℤ) : Except Raised K := do
  let candle ← index candles i
  let previous ← index candles (i - 1)
  return if previous.close ≤ candle.close then obv + candle.volume else obv - candle.volume

def obv_trend (py : Python K) (candles : List (Candle K)) (lookback : ℕ) :
    Except Raised (Signal K) :=
  if candles.isEmpty ∨ candles.length < lookback + 1 then
    return (0, warming_up candles.length (lookback + 1))
  else do
    let obv ← (int_range 1 candles.length).foldlM (obv_step candles) 0
    let obv_prev ← (int_range 1 (candles.length - lookback)).foldlM (obv_step candles) 0
    if obv_prev = 0 then return (0, "obv_prev zero".toList)
    else
      let change_pct ← divide (obv - obv_prev) |obv_prev|
      return (clamp (-1) 1 (change_pct * 10), "OBV change%=".toList ++ py.fixed 4 change_pct)

def obv_series (candles : List (Candle K)) : Except Raised (List K) := do
  let (out, _) ← (int_range 1 candles.length).foldlM (fun (out, obv) i => do
    let obv ← obv_step candles obv i
    return (out ++ [obv], obv)) ([0], 0)
  return out

def smart_money (py : Python K) (candles : List (Candle K)) (vol_mult : K)
    (avg_window obv_window : ℕ) (close_top_frac : K) : Except Raised (Signal K) :=
  let need := max (max (avg_window + 1) (obv_window + 1)) 15
  if candles.isEmpty ∨ candles.length < need then
    return (0, warming_up candles.length need)
  else do
    let last ← index candles (-1)
    if last.volume ≤ 0 then return (0, "no volume on last candle".toList)
    else
      let earlier := slice candles (some (-(avg_window + 1))) (some (-1))
      let avg_vol ← divide (earlier.map Candle.volume).sum avg_window
      if avg_vol ≤ 0 then return (0, "zero avg volume".toList)
      else
        let vol_ratio ← divide last.volume avg_vol
        if last.high = last.low then return (0, "doji / flat candle".toList)
        else
          let close_pos ← divide (last.close - last.low) (last.high - last.low)
          let obv ← obv_series candles
          let obv_now ← index obv (-1)
          let obv_then ← index obv (-(obv_window + 1))
          if ¬ (vol_mult ≤ vol_ratio ∧ 1 - close_top_frac ≤ close_pos ∧ obv_then < obv_now) then
            return (0, "no setup: vol_ratio=".toList ++ py.fixed 2 vol_ratio ++
              " close_pos=".toList ++ py.fixed 2 close_pos ++ " obv_up=".toList ++
              if obv_then < obv_now then "True".toList else "False".toList)
          else
            let atr := (← atr candles 14).getD 0
            if atr ≤ 0 then return (0, "no ATR for stops".toList)
            else
              let sl := last.close - 3 / 2 * atr
              let tp := last.close + 3 * atr
              return (min 1 (1 / 2 + (vol_ratio - vol_mult) * (1 / 4)),
                "smart_money long: vol_ratio=".toList ++ py.fixed 2 vol_ratio ++
                " close_pos=".toList ++ py.fixed 2 close_pos ++ " obv_up=True ATR=".toList ++
                py.fixed 4 atr ++ " SL=".toList ++ py.fixed 4 sl ++ " TP=".toList ++
                py.fixed 4 tp)

structure RwaParams (K : Type) where
  yield_apr : K
  discount_threshold : K
  premium_threshold : K
  sl_pct : K
  tp_pct : K
  size_mult : K

def rwa_defaults : RwaParams K where
  yield_apr := 4 / 100
  discount_threshold := 2 / 1000
  premium_threshold := 5 / 1000
  sl_pct := 5 / 1000
  tp_pct := 15 / 1000
  size_mult := 1 / 2

/-- The end of the text for a trade of the spread. -/
def rwa_hints (py : Python K) (params : RwaParams K) : Text :=
  "bps yield_apr=".toList ++ py.fixed 3 params.yield_apr ++ " daily=".toList ++
    py.fixed 2 (params.yield_apr / 365 * 10 ^ 4) ++ "bps SL=".toList ++
    py.fixed 2 (params.sl_pct * 100) ++ "% TP=".toList ++ py.fixed 2 (params.tp_pct * 100) ++
    "% size_mult=".toList ++ py.plain params.size_mult

def meth_rwa (py : Python K) (prices : List K) (params : RwaParams K) :
    Except Raised (Signal K) :=
  if prices.isEmpty then return (0, "no prices".toList)
  else if prices.length < 2 then return (0, "warming up".toList)
  else do
    let ratio ← index prices (-1)
    if ratio ≤ 0 then return (0, "invalid ratio".toList)
    else
      let deviation := ratio - 1
      if ratio < 1 - params.discount_threshold then
        let magnitude ← divide |deviation| (max params.discount_threshold (1 / 10 ^ 9))
        return (min 1 magnitude * params.size_mult, "meth_rwa long: ratio=".toList ++
          py.fixed 5 ratio ++ " discount=".toList ++ py.fixed 1 (-deviation * 10 ^ 4) ++
          rwa_hints py params)
      else if 1 + params.premium_threshold < ratio then
        let magnitude ← divide |deviation| (max params.premium_threshold (1 / 10 ^ 9))
        return (-min 1 magnitude * params.size_mult, "meth_rwa short: ratio=".toList ++
          py.fixed 5 ratio ++ " premium=".toList ++ py.fixed 1 (deviation * 10 ^ 4) ++
          rwa_hints py params)
      else
        return (0, "meth_rwa flat: ratio=".toList ++ py.fixed 5 ratio ++ " dev=".toList ++
          py.fixed 1 (deviation * 10 ^ 4) ++ "bps thresholds=[-".toList ++
          py.fixed 0 (params.discount_threshold * 10 ^ 4) ++ ",+".toList ++
          py.fixed 0 (params.premium_threshold * 10 ^ 4) ++ "]bps".toList)

end ArticTrader.VolumeAlgos
