import Mathlib.Algebra.Order.Group.Unbundled.Abs
import ArticTrader.Numerals
import ArticTrader.PythonSequences
import ArticTrader.PythonText

/-!
The trend algorithms of the strategies. A signal comes with a text that says how
it was reached; numbers are those of an ordered field.
-/

namespace ArticTrader.MomentumAlgos

open ArticTrader.Numerals
open ArticTrader.PythonSequences
open ArticTrader.PythonText (Text)

variable {K : Type} [Field K] [LinearOrder K]

/-- Roots, and numbers as text: `f"{x:.4f}"` with a count of places, `f"{x:+.2f}"` and `f"{x}"`. -/
structure Python (K : Type) where
  sqrt : K → K
  fixed : ℕ → K → Text
  signed : K → Text
  plain : K → Text

structure Candle (K : Type) where
  open_ : K
  high : K
  low : K
  close : K
  volume : K
  deriving DecidableEq, Repr

abbrev Signal (K : Type) := K × Text

def count (n : ℕ) : Text := Nat.toDigits 10 n

def warming_up (n needed : ℕ) : Text :=
  "warming up (".toList ++ count n ++ "/".toList ++ count needed ++ ")".toList

/-- `max(low, min(high, x))` -/
def clamp (low high x : K) : K := max low (min high x)

def true_range (candles : List (Candle K)) (i : ℤ) : Except Raised K := do
  let candle ← index candles i
  let previous ← index candles (i - 1)
  return max (max (candle.high - candle.low) |candle.high - previous.close|)
    |candle.low - previous.close|

def atr (candles : List (Candle K)) (period : ℕ) : Except Raised (Option K) :=
  if candles.isEmpty ∨ candles.length < period + 1 then return none
  else do
    let tr_list ← (int_range 1 candles.length).mapM (true_range candles)
    if period ≤ tr_list.length then
      let average ← divide (slice tr_list (some (-period)) none).sum period
      return some average
    else return none

def simple_momentum (py : Python K) (prices : List K) (lookback : ℕ) :
    Except Raised (Signal K) :=
  if prices.length < lookback ∨ lookback < 1 then
    return (0, warming_up prices.length lookback)
  else do
    let p0 ← index prices (-lookback)
    let p1 ← index prices (-1)
    if p0 = 0 then return (0, "invalid price".toList)
    else
      let sig ← divide (p1 - p0) p0
      return (sig, "momentum=".toList ++ py.fixed 4 sig ++ " (".toList ++ count lookback ++
        " bars)".toList)

def dual_momentum (py : Python K) (prices : List K) (short_lookback long_lookback : ℕ) :
    Except Raised (Signal K) :=
  if prices.length < long_lookback then
    return (0, warming_up prices.length long_lookback)
  else do
    let p ← index prices (-1)
    let p_short ←
      if short_lookback ≤ prices.length then index prices (-short_lookback) else index prices 0
    let p_long ← index prices (-long_lookback)
    if p_long = 0 then return (0, "invalid".toList)
    else
      let mom_short ← divide (p - p_short) p_long
      let mom_long ← divide (p - p_long) p_long
      return (mom_short - mom_long, "dual_mom short=".toList ++ py.fixed 4 mom_short ++
        " long=".toList ++ py.fixed 4 mom_long)

def breakout (py : Python K) (prices : List K) (period : ℕ) : Except Raised (Signal K) :=
  if prices.length < period + 1 then
    return (0, warming_up prices.length (period + 1))
  else do
    let window := slice prices (some (-period - 1)) (some (-1))
    let high ← maximum window
    let low ← minimum window
    let p ← index prices (-1)
    if high < p then
      return (1, "breakout above ".toList ++ count period ++ "-period high ".toList ++
        py.fixed 2 high)
    else if p < low then
      return (-1, "breakout below ".toList ++ count period ++ "-period low ".toList ++
        py.fixed 2 low)
    else
      return (0, "inside range [".toList ++ py.fixed 2 low ++ ",".toList ++ py.fixed 2 high ++
        "]".toList)

def donchian_channel (py : Python K) (prices : List K) (period : ℕ) :
    Except Raised (Signal K) :=
  if prices.length < period then return (0, warming_up prices.length period)
  else do
    let window := slice prices (some (-period)) none
    let high ← maximum window
    let low ← minimum window
    let p ← index prices (-1)
    let mid := (high + low) / 2
    if mid = 0 then return (0, "invalid".toList)
    else if high = low then return (0, "flat channel".toList)
    else
      let sig ← divide (p - mid) (high - low)
      return (clamp (-1) 1 sig, "donchian p=".toList ++ py.fixed 2 p ++ " mid=".toList ++
        py.fixed 2 mid)

def ma_crossover (py : Python K) (prices : List K) (fast slow : ℕ) : Except Raised (Signal K) :=
  if prices.length < slow then return (0, warming_up prices.length slow)
  else do
    let fast_ma ← divide (slice prices (some (-fast)) none).sum fast
    let slow_ma ← divide (slice prices (some (-slow)) none).sum slow
    if slow_ma = 0 then return (0, "invalid".toList)
    else
      let sig ← divide (fast_ma - slow_ma) slow_ma
      return (sig, "MA cross fast=".toList ++ py.fixed 2 fast_ma ++ " slow=".toList ++
        py.fixed 2 slow_ma)

def ema (prices : List K) (period : ℕ) : Except Raised (Option K) :=
  if prices.length < period then return none
  else do
    let k : K ← divide 2 (period + 1)
    let seed ← divide (slice prices (some (-period)) none).sum period
    let average ← (int_range (-period + 1) 0).foldlM (fun average i => do
      let price ← index prices i
      return price * k + average * (1 - k)) seed
    return some average

def ema_crossover (py : Python K) (prices : List K) (fast slow : ℕ) : Except Raised (Signal K) :=
  if prices.length < slow then return (0, warming_up prices.length slow)
  else do
    let e_fast ← ema prices fast
    let e_slow ← ema prices slow
    match e_fast, e_slow with
    | some e_fast, some e_slow =>
        if e_slow = 0 then return (0, "invalid".toList)
        else
          let sig ← divide (e_fast - e_slow) e_slow
          return (sig, "EMA cross fast=".toList ++ py.fixed 2 e_fast ++ " slow=".toList ++
            py.fixed 2 e_slow)
    | _, _ => return (0, "invalid".toList)

def ema_series (data : List K) (period : ℕ) : Except Raised (List K) := do
  let k : K ← divide 2 (period + 1)
  let seed ← divide (slice data none (some period)).sum period
  let (out, _) ← (int_range period data.length).foldlM (fun (out, average) i => do
    let price ← index data i
    let average := price * k + average * (1 - k)
    return (out ++ [average], average)) ([seed], seed)
  return out

def macd_signal (py : Python K) (prices : List K) (fast slow signal_period : ℕ) :
    Except Raised (Signal K) :=
  if prices.length < slow + signal_period then
    return (0, warming_up prices.length (slow + signal_period))
  else do
    let ema_f ← ema_series prices fast
    let ema_s ← ema_series prices slow
    let macd_line ← (int_range 0 ema_s.length).mapM fun j => do
      let f ← index ema_f (j + slow - fast)
      let s ← index ema_s j
      return f - s
    if macd_line.length < signal_period then return (0, "macd warmup".toList)
    else
      let sig_ema ← divide (slice macd_line (some (-signal_period)) none).sum signal_period
      let macd_val ← index macd_line (-1)
      let diff := macd_val - sig_ema
      let last ← index prices (-1)
      let scale := if last ≠ 0 then last * (1 / 100) else 1
      let sig ← if scale ≠ 0 then divide diff scale else pure 0
      return (clamp (-1) 1 sig, "MACD=".toList ++ py.fixed 4 macd_val ++ " signal=".toList ++
        py.fixed 4 sig_ema)

/-- A candle's movement up, down and its range. -/
def movement (candles : List (Candle K)) (i : ℤ) : Except Raised (K × K × K) := do
  let tr ← true_range candles i
  let candle ← index candles i
  let previous ← index candles (i - 1)
  let up := candle.high - previous.high
  let down := previous.low - candle.low
  return (if down < up ∧ 0 < up then up else 0, if up < down ∧ 0 < down then down else 0, tr)

def adx_filter (py : Python K) (candles : List (Candle K)) (period : ℕ) (threshold : K) :
    Except Raised (Signal K) :=
  if candles.isEmpty ∨ candles.length < period * 2 then
    return (0, warming_up candles.length (period * 2))
  else do
    let movements ← (int_range 1 candles.length).mapM (movement candles)
    if movements.length < period then return (0, "insufficient data".toList)
    else
      let recent := slice movements (some (-period)) none
      let atr : K ← divide (recent.map fun m => m.2.2).sum period
      let share := fun moved : K => do
        if atr ≠ 0 then
          let average ← divide (100 * moved) period
          divide average atr
        else return 0
      let plus_di ← share (recent.map fun m => m.1).sum
      let minus_di ← share (recent.map fun m => m.2.1).sum
      let dx ←
        if plus_di + minus_di ≠ 0 then divide (100 * |plus_di - minus_di|) (plus_di + minus_di)
        else pure 0
      return (if threshold ≤ dx then 1 else 0, "ADX=".toList ++ py.fixed 1 dx ++
        " (threshold=".toList ++ py.plain threshold ++ ")".toList)

def supertrend (py : Python K) (candles : List (Candle K)) (period : ℕ) (mult : K) :
    Except Raised (Signal K) :=
  if candles.isEmpty ∨ candles.length < period + 1 then
    return (0, warming_up candles.length (period + 1))
  else do
    let atr_val ← atr candles period
    match atr_val with
    | none => return (0, "no ATR".toList)
    | some atr_val =>
        if atr_val ≤ 0 then return (0, "no ATR".toList)
        else
          let last ← index candles (-1)
          let hl2 := (last.high + last.low) / 2
          let upper := hl2 + mult * atr_val
          let lower := hl2 - mult * atr_val
          if upper < last.close then
            return (1, "supertrend long close=".toList ++ py.fixed 2 last.close ++
              " > upper=".toList ++ py.fixed 2 upper)
          else if last.close < lower then
            return (-1, "supertrend short close=".toList ++ py.fixed 2 last.close ++
              " < lower=".toList ++ py.fixed 2 lower)
          else
            return (0, "inside band [".toList ++ py.fixed 2 lower ++ ",".toList ++
              py.fixed 2 upper ++ "]".toList)

/-- The middle between the highest high and the lowest low. -/
def mid (candles : List (Candle K)) : Except Raised K := do
  let high ← maximum (candles.map Candle.high)
  let low ← minimum (candles.map Candle.low)
  return (high + low) / 2

def ichimoku_signal (py : Python K) (candles : List (Candle K)) (tenkan kijun senkou : ℕ) :
    Except Raised (Signal K) :=
  if candles.isEmpty ∨ candles.length < senkou then
    return (0, warming_up candles.length senkou)
  else do
    let tenkan_val ← mid (slice candles (some (-tenkan)) none)
    let kijun_val ← mid (slice candles (some (-kijun)) none)
    let last ← index candles (-1)
    let cross : K := if kijun_val < tenkan_val then 1 else if tenkan_val < kijun_val then -1 else 0
    let sig := if kijun_val < last.close then 1 / 2 + 1 / 2 * cross else -1 / 2 + 1 / 2 * cross
    return (clamp (-1) 1 sig, "tenkan=".toList ++ py.fixed 2 tenkan_val ++ " kijun=".toList ++
      py.fixed 2 kijun_val ++ " close=".toList ++ py.fixed 2 last.close)

end ArticTrader.MomentumAlgos
