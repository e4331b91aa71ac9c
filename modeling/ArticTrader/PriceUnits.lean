import Mathlib.Algebra.BigOperators.Ring.List
import Mathlib.Analysis.Real.Sqrt
import Mathlib.Tactic.FieldSimp
import Mathlib.Tactic.Ring
import ArticTrader.SignalValues

/-!
Prices in another unit. A window whose prices are all multiplied by a positive
number has the averages, extrema and deviations multiplied by it, and the signals
are quotients of these.
-/

namespace ArticTrader.PriceUnits

open ArticTrader.MomentumAlgos
open ArticTrader.Numerals
open ArticTrader.PythonSequences
open ArticTrader.PythonText (Text)
open ArticTrader.ReversionAlgos
open ArticTrader.SignalValues
open ArticTrader.StrategySignals
open ArticTrader.TradingEngine (StrategyPlan)

variable {K : Type} [Field K] {c : K} {xs : List K} {k : ℕ}

theorem nth_last_scale (c : K) (xs : List K) (k : ℕ) :
    nth_last (xs.map (c * ·)) k = c * nth_last xs k := by
  rw [nth_last, nth_last, List.length_map, ← mul_zero c, List.getD_map, mul_zero]

theorem sum_scale (c : K) (xs : List K) : (xs.map (c * ·)).sum = c * xs.sum := by
  rw [List.sum_map_mul_left, List.map_id']

theorem ma_scale (c : K) (xs : List K) (k : ℕ) : ma (xs.map (c * ·)) k = c * ma xs k := by
  rw [ma, map_rtake, sum_scale, mul_div_assoc, ma]

theorem ema_step_scale (c average price : K) (k : ℕ) :
    ema_step k (c * average) (c * price) = c * ema_step k average price := by
  rw [ema_step, ema_step]
  ring

theorem foldl_ema_scale (c average : K) (xs : List K) (k : ℕ) :
    (xs.map (c * ·)).foldl (ema_step k) (c * average) = c * xs.foldl (ema_step k) average := by
  induction xs generalizing average with
  | nil => rfl
  | cons price xs ih => rw [List.map_cons, List.foldl_cons, ema_step_scale, ih, List.foldl_cons]

theorem ema_value_scale (c : K) (xs : List K) (k : ℕ) :
    ema_value (xs.map (c * ·)) k = c * ema_value xs k := by
  rw [ema_value, ma_scale, map_rtake, foldl_ema_scale, ema_value]

theorem scanl_ema_scale (c average : K) (xs : List K) (k : ℕ) :
    (xs.map (c * ·)).scanl (ema_step k) (c * average) =
      (xs.scanl (ema_step k) average).map (c * ·) := by
  induction xs generalizing average with
  | nil => simp
  | cons price xs ih =>
      rw [List.map_cons, List.scanl_cons, ema_step_scale, ih, List.scanl_cons, List.map_cons]

theorem series_scale (c : K) (xs : List K) (k : ℕ) :
    series (xs.map (c * ·)) k = (series xs k).map (c * ·) := by
  rw [series, ← List.map_drop, ← List.map_take, sum_scale, mul_div_assoc, scanl_ema_scale, series]

theorem zipWith_sub_scale (c : K) (xs ys : List K) :
    List.zipWith (fun x y => x - y) (xs.map (c * ·)) (ys.map (c * ·)) =
      (List.zipWith (fun x y => x - y) xs ys).map (c * ·) := by
  rw [List.zipWith_map, List.map_zipWith]
  simp only [mul_sub]

theorem macd_line_scale (c : K) (xs : List K) (fast slow : ℕ) :
    macd_line (xs.map (c * ·)) fast slow = (macd_line xs fast slow).map (c * ·) := by
  rw [macd_line, series_scale, series_scale, ← List.map_drop, zipWith_sub_scale, macd_line]

theorem mean_scale (c : K) (xs : List K) : mean (xs.map (c * ·)) = c * mean xs := by
  rw [mean, sum_scale, List.length_map, mul_div_assoc, mean]

theorem variance_scale (c : K) (xs : List K) :
    variance (xs.map (c * ·)) = c ^ 2 * variance xs := by
  have hsquares : (xs.map (c * ·)).map (fun x => (x - mean (xs.map (c * ·))) ^ 2) =
      xs.map fun x => c ^ 2 * (x - mean xs) ^ 2 := by
    rw [List.map_map, mean_scale]
    apply List.map_congr_left
    intro x hx
    rw [Function.comp_apply, ← mul_sub, mul_pow]
  rw [variance, hsquares, List.sum_map_mul_left, List.length_map, mul_div_assoc, variance]

theorem changes_scale (c : K) (xs : List K) :
    changes (xs.map (c * ·)) = (changes xs).map (c * ·) := by
  rw [changes, ← List.map_tail, List.zipWith_map, changes, List.map_zipWith]
  simp only [mul_sub]

theorem zipWith_mul_scale (c : K) (xs ys : List K) :
    List.zipWith (fun x y => x * y) xs (ys.map (c * ·)) =
      (List.zipWith (fun x y => x * y) xs ys).map (c * ·) := by
  rw [List.zipWith_map_right, List.map_zipWith]
  simp only [mul_left_comm]

theorem line_slope_scale (c : K) (y : List K) : line_slope (y.map (c * ·)) = c * line_slope y := by
  rw [line_slope, List.length_map, zipWith_mul_scale, sum_scale, sum_scale, line_slope]
  ring

theorem line_intercept_scale (c : K) (y : List K) :
    line_intercept (y.map (c * ·)) = c * line_intercept y := by
  rw [line_intercept, List.length_map, sum_scale, line_slope_scale, line_intercept]
  ring

theorem residuals_scale (c : K) (y : List K) :
    residuals (y.map (c * ·)) = (residuals y).map (c * ·) := by
  rw [residuals, List.length_map, line_slope_scale, line_intercept_scale,
    List.zipWith_map_right, residuals, List.map_zipWith]
  congr 1
  funext x yi
  ring

theorem squares_scale (c : K) (rs : List K) :
    ((rs.map (c * ·)).map fun r => r * r).sum = c ^ 2 * (rs.map fun r => r * r).sum := by
  have hsquares : (rs.map (c * ·)).map (fun r => r * r) = rs.map fun r => c ^ 2 * (r * r) := by
    rw [List.map_map]
    apply List.map_congr_left
    intro r hr
    rw [Function.comp_apply]
    ring
  rw [hsquares, List.sum_map_mul_left]

theorem quotient_scale (hc : c ≠ 0) (a b : K) : c * a / (c * b) = a / b :=
  mul_div_mul_left a b hc

theorem momentum_scale (hc : c ≠ 0) : momentum_value (xs.map (c * ·)) k = momentum_value xs k := by
  simp only [momentum_value, List.length_map, nth_last_scale, ← mul_sub, quotient_scale hc]

theorem dual_momentum_scale (hc : c ≠ 0) {short : ℕ} :
    dual_momentum_value (xs.map (c * ·)) short k = dual_momentum_value xs short k := by
  simp only [dual_momentum_value, List.length_map, nth_last_scale, ← mul_sub, quotient_scale hc]

theorem ma_crossover_scale (hc : c ≠ 0) {fast : ℕ} :
    ma_crossover_value (xs.map (c * ·)) fast k = ma_crossover_value xs fast k := by
  simp only [ma_crossover_value, List.length_map, ma_scale, ← mul_sub, quotient_scale hc]

theorem ema_crossover_scale (hc : c ≠ 0) {fast : ℕ} :
    ema_crossover_value (xs.map (c * ·)) fast k = ema_crossover_value xs fast k := by
  simp only [ema_crossover_value, List.length_map, ema_value_scale, ← mul_sub, quotient_scale hc]

/-- The last price's distance from the line is the last residual. -/
theorem last_residual (hk : 1 ≤ k) (h : k ≤ xs.length) :
    nth_last xs 1 - (line_intercept (xs.rtake k) + line_slope (xs.rtake k) * (k - 1)) ∈
      residuals (xs.rtake k) := by
  have hy : (xs.rtake k).length = k := by
    rw [length_rtake, min_eq_left h]
  have hplace : k - 1 < (residuals (xs.rtake k)).length := by
    rw [length_residuals, hy]
    omega
  have hlast : (xs.rtake k)[k - 1] = nth_last xs 1 := by
    have hread := nth_last_rtake hk h
    rw [nth_last, hy] at hread
    rw [← hread, List.getD_eq_getElem]
  have hentry : (residuals (xs.rtake k))[k - 1] =
      nth_last xs 1 - (line_intercept (xs.rtake k) + line_slope (xs.rtake k) * (k - 1)) := by
    simp only [residuals, List.getElem_zipWith, places, List.getElem_map, List.getElem_range, hlast,
      Nat.cast_sub hk, Nat.cast_one]
  rw [← hentry]
  exact List.getElem_mem hplace

variable [LinearOrder K] [IsStrictOrderedRing K]

theorem foldl_max_scale (hc : 0 < c) (x : K) (xs : List K) :
    (xs.map (c * ·)).foldl max (c * x) = c * xs.foldl max x := by
  induction xs generalizing x with
  | nil => rfl
  | cons y xs ih =>
      rw [List.map_cons, List.foldl_cons, ← mul_max_of_nonneg x y hc.le, ih, List.foldl_cons]

theorem foldl_min_scale (hc : 0 < c) (x : K) (xs : List K) :
    (xs.map (c * ·)).foldl min (c * x) = c * xs.foldl min x := by
  induction xs generalizing x with
  | nil => rfl
  | cons y xs ih =>
      rw [List.map_cons, List.foldl_cons, ← mul_min_of_nonneg x y hc.le, ih, List.foldl_cons]

theorem highest_scale (hc : 0 < c) (xs : List K) : highest (xs.map (c * ·)) = c * highest xs := by
  cases xs with
  | nil => exact (mul_zero c).symm
  | cons x xs => exact foldl_max_scale hc x xs

theorem lowest_scale (hc : 0 < c) (xs : List K) : lowest (xs.map (c * ·)) = c * lowest xs := by
  cases xs with
  | nil => exact (mul_zero c).symm
  | cons x xs => exact foldl_min_scale hc x xs

/-- A root of a square times a number is the number of times that root. -/
def Homogeneous (sqrt : K → K) : Prop := ∀ c x, 0 < c → 0 < x → sqrt (c ^ 2 * x) = c * sqrt x

/-- A deviation from a mean in units of the standard deviation. There is none where
the variance is not positive. -/
theorem deviation_scale {sqrt : K → K} (hsqrt : Homogeneous sqrt) (hc : 0 < c) {a var : K}
    (hflat : ¬ 0 < var → a = 0) :
    c * a / std sqrt (c ^ 2 * var) = a / std sqrt var := by
  by_cases hvar : 0 < var
  · rw [std, if_pos (mul_pos (pow_pos hc 2) hvar), std, if_pos hvar, hsqrt c var hc hvar]
    exact mul_div_mul_left a _ hc.ne'
  · rw [hflat hvar, mul_zero, zero_div, zero_div]

theorem eq_zero_of_squares {rs : List K} (h : ¬ 0 < (rs.map fun r => r * r).sum) {r : K}
    (hr : r ∈ rs) : r = 0 := by
  have hnonneg : ∀ x ∈ rs.map (fun r => r * r), 0 ≤ x := by
    intro x hx
    obtain ⟨r, -, rfl⟩ := List.mem_map.mp hx
    exact mul_self_nonneg r
  have hle := List.single_le_sum hnonneg _ (List.mem_map_of_mem hr)
  exact mul_self_eq_zero.mp (le_antisymm (hle.trans (not_lt.mp h)) (mul_self_nonneg r))

theorem eq_mean_of_variance {x : K} (h : ¬ 0 < variance xs) (hx : x ∈ xs) : x - mean xs = 0 := by
  apply @eq_zero_of_squares _ _ _ _ (xs.map fun x => x - mean xs)
  · intro hsum
    apply h
    apply div_pos
    · rw [List.map_map] at hsum
      simpa only [pow_two, Function.comp_def] using hsum
    · exact Nat.cast_pos.mpr (List.length_pos_of_mem hx)
  · exact List.mem_map_of_mem hx

theorem last_eq_mean (hk : 1 ≤ k) (h : k ≤ xs.length) (hvar : ¬ 0 < variance (xs.rtake k)) :
    nth_last xs 1 - mean (xs.rtake k) = 0 :=
  eq_mean_of_variance hvar (nth_last_mem_rtake hk h)

theorem breakout_scale (hc : 0 < c) : breakout_value (xs.map (c * ·)) k = breakout_value xs k := by
  simp only [breakout_value, List.length_map, nth_last_scale, ← List.map_dropLast, map_rtake,
    highest_scale hc, lowest_scale hc, mul_lt_mul_iff_right₀ hc]

theorem donchian_scale (hc : 0 < c) : donchian_value (xs.map (c * ·)) k = donchian_value xs k := by
  simp only [donchian_value, List.length_map, nth_last_scale, map_rtake, highest_scale hc,
    lowest_scale hc, mul_right_inj' hc.ne', ← mul_add, mul_div_assoc, ← mul_sub,
    quotient_scale hc.ne']

omit [IsStrictOrderedRing K] in
theorem macd_scale (hc : c ≠ 0) {fast slow period : ℕ} :
    macd_value (xs.map (c * ·)) fast slow period = macd_value xs fast slow period := by
  simp only [macd_value, List.length_map, macd_line_scale, nth_last_scale, ma_scale, ← mul_sub,
    mul_assoc, quotient_scale hc]

theorem z_scale {sqrt : K → K} (hsqrt : Homogeneous sqrt) (hc : 0 < c) (hk : 1 ≤ k) :
    z_value sqrt (xs.map (c * ·)) k = z_value sqrt xs k := by
  rw [z_value, z_value, List.length_map]
  by_cases hwarm : xs.length < k
  · rw [if_pos hwarm, if_pos hwarm]
  · have hlast := last_eq_mean hk (not_lt.mp hwarm)
    simp only [if_neg hwarm, nth_last_scale, map_rtake, mean_scale, variance_scale, ← mul_sub,
      deviation_scale hsqrt hc hlast]

theorem bollinger_scale {sqrt : K → K} (hsqrt : Homogeneous sqrt) (hc : 0 < c) (hk : 1 ≤ k)
    {num_std : K} :
    bollinger_value sqrt (xs.map (c * ·)) k num_std = bollinger_value sqrt xs k num_std := by
  rw [bollinger_value, bollinger_value, List.length_map]
  by_cases hwarm : xs.length < k
  · rw [if_pos hwarm, if_pos hwarm]
  · have hlast := last_eq_mean hk (not_lt.mp hwarm)
    simp only [if_neg hwarm, nth_last_scale, map_rtake, mean_scale, variance_scale, ← mul_sub,
      div_mul_eq_div_div_swap, deviation_scale hsqrt hc hlast]

theorem gains_scale (hc : 0 < c) (xs : List K) :
    ((changes (xs.map (c * ·))).map fun ch => if 0 < ch then ch else 0) =
      ((changes xs).map fun ch => if 0 < ch then ch else 0).map (c * ·) := by
  rw [changes_scale, List.map_map, List.map_map]
  apply List.map_congr_left
  intro ch hch
  simp only [Function.comp_apply, mul_pos_iff_of_pos_left hc, mul_ite, mul_zero]

theorem losses_scale (hc : 0 < c) (xs : List K) :
    ((changes (xs.map (c * ·))).map fun ch => if ch < 0 then -ch else 0) =
      ((changes xs).map fun ch => if ch < 0 then -ch else 0).map (c * ·) := by
  rw [changes_scale, List.map_map, List.map_map]
  apply List.map_congr_left
  intro ch hch
  have hneg : c * ch < 0 ↔ ch < 0 := by
    rw [← mul_zero c, mul_lt_mul_iff_right₀ hc, mul_zero]
  simp only [Function.comp_apply, hneg, mul_ite, mul_neg, mul_zero]

theorem rsi_scale (hc : 0 < c) : rsi (xs.map (c * ·)) k = rsi xs k := by
  simp only [rsi, gains_scale hc, losses_scale hc, ma_scale, mul_eq_zero, hc.ne', false_or,
    quotient_scale hc.ne']

theorem rsi_value_scale (hc : 0 < c) {overbought oversold : K} :
    rsi_value (xs.map (c * ·)) k overbought oversold = rsi_value xs k overbought oversold := by
  simp only [rsi_value, List.length_map, rsi_scale hc]

theorem range_scale (hc : 0 < c) : range_value (xs.map (c * ·)) k = range_value xs k := by
  simp only [range_value, List.length_map, nth_last_scale, map_rtake, highest_scale hc,
    lowest_scale hc, mul_right_inj' hc.ne', ← mul_sub, quotient_scale hc.ne']

theorem regression_scale {sqrt : K → K} (hsqrt : Homogeneous sqrt) (hc : 0 < c) (hk : 1 ≤ k) :
    regression_value sqrt (xs.map (c * ·)) k = regression_value sqrt xs k := by
  rw [regression_value, regression_value, List.length_map]
  by_cases hwarm : xs.length < k ∨ determinant K k = 0
  · rw [if_pos hwarm, if_pos hwarm]
  · have hlast : ¬ 0 < ((residuals (xs.rtake k)).map fun r => r * r).sum / (k : K) →
        nth_last xs 1 - (line_intercept (xs.rtake k) + line_slope (xs.rtake k) * (k - 1)) = 0 := by
      intro hvar
      apply @eq_zero_of_squares _ _ _ _ (residuals (xs.rtake k))
      · intro hsum
        exact hvar (div_pos hsum (Nat.cast_pos.mpr hk))
      · exact last_residual hk (not_lt.mp (not_or.mp hwarm).1)
    simp only [if_neg hwarm, nth_last_scale, map_rtake, line_intercept_scale, line_slope_scale,
      residuals_scale, squares_scale, mul_assoc, ← mul_add, ← mul_sub, mul_div_assoc (c ^ 2),
      deviation_scale hsqrt hc hlast]

theorem value_scale {sqrt : K → K} (hsqrt : Homogeneous sqrt) (hc : 0 < c) {lookback : ℕ}
    (hlookback : 1 ≤ lookback) (algo : PriceAlgo) :
    algo.value sqrt (xs.map (c * ·)) lookback = algo.value sqrt xs lookback := by
  cases algo with
  | momentum => exact momentum_scale hc.ne'
  | dual_momentum => exact dual_momentum_scale hc.ne'
  | breakout => exact breakout_scale hc
  | donchian_channel => exact donchian_scale hc
  | ma_crossover => exact ma_crossover_scale hc.ne'
  | ema_crossover => exact ema_crossover_scale hc.ne'
  | macd_signal => exact macd_scale hc.ne'
  | z_score => exact z_scale hsqrt hc hlookback
  | bollinger_reversion => exact bollinger_scale hsqrt hc hlookback
  | rsi_signal => exact rsi_value_scale hc
  | range_sr => exact range_scale hc
  | linear_regression_channel => exact regression_scale hsqrt hc hlookback
  | bollinger_squeeze => rfl
  | kalman_fair_value => rfl
  | meth_rwa => rfl

/-- Python whose numbers are the reals. -/
noncomputable def over_reals (py : Python ℝ) : Python ℝ := { py with sqrt := Real.sqrt }

theorem rooted_sqrt : Rooted Real.sqrt := fun _ hx => Real.sqrt_pos.mpr hx

theorem homogeneous_sqrt : Homogeneous Real.sqrt := by
  intro c x hc hx
  rw [Real.sqrt_mul (pow_pos hc 2).le, Real.sqrt_sq hc.le]

def UNIT_FREE : List Text :=
  ["momentum".toList, "dual_momentum".toList, "breakout".toList, "donchian_channel".toList,
    "ma_crossover".toList, "ema_crossover".toList, "macd_signal".toList, "z_score".toList,
    "bollinger_reversion".toList, "rsi_signal".toList, "range_sr".toList,
    "linear_regression_channel".toList]

theorem unit_free_names :
    ∀ name ∈ UNIT_FREE, (PRICE_ALGOS.lookup name).any PriceAlgo.unit_free = true := by
  decide

theorem signal_unit_free (py : Python ℝ) {strategy : Text} (h : strategy_lower strategy ∈ UNIT_FREE)
    (plan : StrategyPlan) {prices : List ℝ} (hpos : ∀ p ∈ prices, 0 < p) {c : ℝ} (hc : 0 < c)
    (candles : Option (List (Candle ℝ))) :
    ∃ signal,
      Returns (compute_strategy_signal (over_reals py) strategy plan prices candles)
        (·.1 = signal) ∧
      Returns (compute_strategy_signal (over_reals py) strategy plan (prices.map (c * ·)) candles)
        (·.1 = signal) := by
  have hname := unit_free_names _ h
  cases halgo : PRICE_ALGOS.lookup (strategy_lower strategy) with
  | none =>
      rw [halgo] at hname
      cases hname
  | some algo =>
      rw [halgo] at hname
      have hlookback : 2 ≤ max 2 plan.lookback := le_max_left 2 plan.lookback
      have hscaled : ∀ p ∈ prices.map (c * ·), 0 < p := by
        intro p hp
        obtain ⟨q, hq, rfl⟩ := List.mem_map.mp hp
        exact mul_pos hc (hpos q hq)
      have hsame : algo.value Real.sqrt (prices.map (c * ·)) (max 2 plan.lookback) =
          algo.value Real.sqrt prices (max 2 plan.lookback) :=
        value_scale homogeneous_sqrt hc (one_le_two.trans hlookback) algo
      have hrun : ∀ xs : List ℝ, (∀ p ∈ xs, 0 < p) →
          Returns (algo.run (over_reals py) xs (max 2 plan.lookback))
            (·.1 = algo.value Real.sqrt xs (max 2 plan.lookback)) :=
        fun xs hxs => algo.run_returns hxs hlookback (fun _ => rooted_sqrt) hname
      have hunits := hrun _ hscaled
      rw [hsame] at hunits
      simp only [compute_strategy_signal, halgo]
      exact ⟨_, hrun prices hpos, hunits⟩

/-- The text of the number that the two prices of the example come to. -/
noncomputable def one_python : Python ℝ :=
  ⟨Real.sqrt, fun _ _ => "1.0000".toList, fun _ => [], fun _ => []⟩

theorem doubled_prices : ∃ signal,
    Returns (compute_strategy_signal (over_reals one_python) "momentum".toList
      ⟨"momentum".toList, 2, 0, 1⟩ [1, 2] none) (·.1 = signal) ∧
    Returns (compute_strategy_signal (over_reals one_python) "momentum".toList
      ⟨"momentum".toList, 2, 0, 1⟩ ([1, 2].map (2 * ·)) none) (·.1 = signal) := by
  have hpos : ∀ p ∈ [(1 : ℝ), 2], 0 < p := by simp
  exact signal_unit_free one_python (by decide) _ hpos two_pos none

end ArticTrader.PriceUnits
