import ArticTrader.EngineSession
import ArticTrader.SignalValues

/-!
The engine keeps the last two hundred prices. A strategy that reads a window of them gives the
signal that it would give on all prices if its window fits, and none at all if it does not.
-/

namespace ArticTrader.PriceWindows

open ArticTrader.EngineSession (append_price decide_action)
open ArticTrader.MomentumAlgos
open ArticTrader.Numerals
open ArticTrader.PythonSequences
open ArticTrader.PythonText (Text)
open ArticTrader.ReversionAlgos
open ArticTrader.SignalValues
open ArticTrader.StrategySignals
open ArticTrader.TradingEngine (Engine StrategyPlan)
open ArticTrader.VolumeAlgos

section Windows

variable {α : Type} {xs : List α} {j k : ℕ}

theorem rtake_rtake (hjk : j ≤ k) : (xs.rtake k).rtake j = xs.rtake j := by
  rw [List.rtake.eq_def, List.rtake.eq_def, List.rtake.eq_def, List.length_drop, List.drop_drop]
  congr 1
  omega

theorem index_rtake (hj : 1 ≤ j) (hjk : j ≤ k) (h : k ≤ xs.length) :
    index (xs.rtake k) (-j) = index xs (-j) := by
  have hlength : (xs.rtake k).length = k := by rw [length_rtake, min_eq_left h]
  rw [index_back hj (by omega), index_back hj (by omega), index_nat (by omega),
    index_nat (by omega)]
  congr 1
  simp only [List.rtake.eq_def, List.getElem_drop, List.length_drop]
  congr 1
  omega

theorem index_last_rtake (hk : 1 ≤ k) (h : k ≤ xs.length) :
    index (xs.rtake k) (-1) = index xs (-1) :=
  index_rtake le_rfl hk h

theorem slice_rtake (hj : 1 ≤ j) (hjk : j ≤ k) :
    slice (xs.rtake k) (some (-j)) none = slice xs (some (-j)) none := by
  rw [slice_back _ hj, slice_back _ hj, rtake_rtake hjk]

theorem slice_between (hj : 1 ≤ j) (hjk : j ≤ k) :
    slice xs (some (-k)) (some (-j)) = (xs.rtake k).take (k - j - (k - xs.length)) := by
  have hstart : bound xs.length (-k) = xs.length - k := by
    rw [bound, if_pos (by omega)]
    omega
  have hstop : bound xs.length (-j) = xs.length - j := by
    rw [bound, if_pos (by omega)]
    omega
  rw [slice, Option.elim_some, Option.elim_some, hstart, hstop, List.drop_take, List.rtake.eq_def]
  congr 1
  omega

/-- A window with one more element drops what no longer fits. -/
theorem rtake_concat (xs : List α) (x : α) (k : ℕ) :
    (xs.rtake k ++ [x]).drop ((xs.rtake k ++ [x]).length - k) = (xs ++ [x]).rtake k := by
  rw [List.rtake.eq_def (xs ++ [x]), List.length_append, List.length_append, length_rtake,
    List.length_singleton]
  rcases le_total k xs.length with hle | hle
  · have hdrop : xs.drop (xs.length - k) ++ [x] = (xs ++ [x]).drop (xs.length - k) :=
      (List.drop_append_of_le_length (Nat.sub_le _ _)).symm
    rw [List.rtake.eq_def, hdrop, List.drop_drop, min_eq_left hle]
    congr 1
    omega
  · rw [List.rtake.eq_def, Nat.sub_eq_zero_of_le hle, List.drop_zero, min_eq_right hle]

end Windows

variable {K : Type}

/-- The signal comes from the last `n` prices, and without as many there is none. -/
structure Windowed [Zero K] (f : List K → Except Raised (Signal K)) (n : ℕ) : Prop where
  recent : ∀ xs, n ≤ xs.length → f (xs.rtake n) = f xs
  idle : ∀ xs, xs.length < n → ∃ text, f xs = .ok (0, text)

theorem length_window {xs : List K} {n : ℕ} (h : n ≤ xs.length) : (xs.rtake n).length = n := by
  rw [length_rtake, min_eq_left h]

section Capped

variable [Zero K] {f g : List K → Except Raised (Signal K)} {n cap : ℕ}

theorem Windowed.capped (h : Windowed f n) (hn : n ≤ cap) (xs : List K) :
    f (xs.rtake cap) = f xs := by
  rcases le_total cap xs.length with hcap | hcap
  · have hlength : n ≤ (xs.rtake cap).length := by
      rw [length_window hcap]
      exact hn
    rw [← h.recent _ hlength, rtake_rtake hn, h.recent xs (hn.trans hcap)]
  · rw [List.rtake.eq_def, Nat.sub_eq_zero_of_le hcap, List.drop_zero]

theorem Windowed.starved (h : Windowed f n) (hn : cap < n) (xs : List K) :
    ∃ text, f (xs.rtake cap) = .ok (0, text) := by
  apply h.idle
  rw [length_rtake]
  omega

/-- An algorithm that waits for its window and then reads nothing else. -/
theorem windowed_of_warm (text : List K → Text)
    (hf : ∀ xs, f xs = if xs.length < n then pure (0, text xs) else g xs)
    (hg : ∀ xs, n ≤ xs.length → g (xs.rtake n) = g xs) : Windowed f n where
  recent := by
    intro xs h
    rw [hf, hf, if_neg (length_window h).not_lt, if_neg (not_lt.mpr h), hg xs h]
  idle := by
    intro xs h
    rw [hf, if_pos h]
    exact ⟨_, rfl⟩

theorem windowed_of_const (x : Except Raised (Signal K)) : Windowed (fun _ => x) 0 :=
  ⟨fun _ _ => rfl, nofun⟩

/-- How many prices the closes are taken from. -/
def closes_window (candles : Option (List (Candle K))) (lookback : ℕ) : ℕ :=
  if candles.getD [] ≠ [] ∧ lookback ≤ (candles.getD []).length then 0 else lookback

/-- An algorithm that reads the closes of the candles or the prices in their place. -/
theorem windowed_of_closes {candles : Option (List (Candle K))} {lookback : ℕ}
    (hlookback : 1 ≤ lookback) (text : ℕ → Text)
    (g : List K → Except Raised (Signal K)) :
    Windowed (fun xs =>
      match recent_closes candles xs lookback with
      | none => pure (0, text xs.length)
      | some closes => g closes) (closes_window candles lookback) := by
  by_cases henough : candles.getD [] ≠ [] ∧ lookback ≤ (candles.getD []).length
  · rw [closes_window, if_pos henough]
    refine ⟨?_, nofun⟩
    intro xs _
    simp only [recent_closes, if_pos henough]
  · rw [closes_window, if_neg henough]
    refine windowed_of_warm (g := fun xs => g (slice xs (some (-lookback)) none))
      (fun xs => text xs.length) ?_ ?_
    · intro xs
      simp only [recent_closes, if_neg henough]
      split_ifs <;> rfl
    · intro xs _
      rw [slice_rtake hlookback le_rfl]

end Capped

section Algorithms

variable [Field K] [LinearOrder K] (py : Python K) {k : ℕ}

theorem simple_momentum_windowed (hk : 1 ≤ k) :
    Windowed (fun xs => simple_momentum py xs k) k := by
  refine windowed_of_warm (g := fun xs => simple_momentum py xs k)
    (fun xs => warming_up xs.length k) ?_ ?_
  · intro xs
    split_ifs with hwarm
    · exact if_pos (.inl hwarm)
    · rfl
  · intro xs h
    simp only [simple_momentum, length_window h, lt_irrefl, not_lt.mpr h, not_lt.mpr hk, or_self,
      if_false, index_rtake hk le_rfl h, index_last_rtake hk h]

theorem dual_momentum_windowed {short : ℕ} (hshort : 1 ≤ short) (hle : short ≤ k) :
    Windowed (fun xs => dual_momentum py xs short k) k := by
  refine windowed_of_warm _ (fun _ => rfl) ?_
  intro xs h
  have hk : 1 ≤ k := hshort.trans hle
  simp only [length_window h, if_pos hle, if_pos (hle.trans h), index_rtake hshort hle h,
    index_rtake hk le_rfl h, index_last_rtake hk h]

theorem breakout_windowed : Windowed (fun xs => breakout py xs k) (k + 1) := by
  refine windowed_of_warm _ (fun _ => rfl) ?_
  intro xs h
  have hwindow : (xs.rtake (k + 1)).dropLast = xs.dropLast.rtake k := by
    have hplace : xs.length - 1 - k = xs.length - (k + 1) := by omega
    have hlength : xs.length - 1 - (xs.length - (k + 1)) = k := by omega
    rw [List.dropLast_eq_take, length_window h, List.rtake.eq_def, List.rtake.eq_def,
      List.length_dropLast, List.dropLast_eq_take, hplace, List.drop_take, hlength,
      Nat.add_sub_cancel]
  simp only [slice_before_last, hwindow, rtake_rtake le_rfl,
    index_last_rtake (Nat.le_add_left 1 k) h]

theorem donchian_channel_windowed (hk : 1 ≤ k) :
    Windowed (fun xs => donchian_channel py xs k) k := by
  refine windowed_of_warm _ (fun _ => rfl) ?_
  intro xs h
  simp only [slice_rtake hk le_rfl, index_last_rtake hk h]

theorem ma_crossover_windowed {fast : ℕ} (hfast : 1 ≤ fast) (hle : fast ≤ k) :
    Windowed (fun xs => ma_crossover py xs fast k) k := by
  refine windowed_of_warm _ (fun _ => rfl) ?_
  intro xs h
  simp only [slice_rtake hfast hle, slice_rtake (hfast.trans hle) le_rfl]

theorem z_score_windowed (hk : 1 ≤ k) : Windowed (fun xs => z_score py xs k) k := by
  refine windowed_of_warm _ (fun _ => rfl) ?_
  intro xs h
  simp only [slice_rtake hk le_rfl, index_last_rtake hk h]

theorem bollinger_reversion_windowed (hk : 1 ≤ k) (num_std : K) :
    Windowed (fun xs => bollinger_reversion py xs k num_std) k := by
  refine windowed_of_warm _ (fun _ => rfl) ?_
  intro xs h
  simp only [slice_rtake hk le_rfl, index_last_rtake hk h]

theorem range_sr_windowed (hk : 1 ≤ k) : Windowed (fun xs => range_sr py xs k) k := by
  refine windowed_of_warm _ (fun _ => rfl) ?_
  intro xs h
  simp only [slice_rtake hk le_rfl, index_last_rtake hk h]

theorem linear_regression_channel_windowed (hk : 1 ≤ k) :
    Windowed (fun xs => linear_regression_channel py xs k) k := by
  refine windowed_of_warm _ (fun _ => rfl) ?_
  intro xs h
  simp only [slice_rtake hk le_rfl, index_last_rtake hk h]

theorem bollinger_squeeze_windowed (hk : 1 ≤ k) (width_pct : K) :
    Windowed (fun xs => bollinger_squeeze py xs k width_pct) (k * 2) := by
  refine windowed_of_warm _ (fun _ => rfl) ?_
  intro xs h
  have hle : k ≤ k * 2 := Nat.le_mul_of_pos_right k two_pos
  have hprevious : slice (xs.rtake (k * 2)) (some (-(k : ℤ) * 2)) (some (-k)) =
      slice xs (some (-(k : ℤ) * 2)) (some (-k)) := by
    have hstart : -(k : ℤ) * 2 = -((k * 2 : ℕ) : ℤ) := by omega
    rw [hstart, slice_between hk hle, slice_between hk hle, rtake_rtake le_rfl, length_window h,
      Nat.sub_self, Nat.sub_eq_zero_of_le h]
  simp only [slice_rtake hk hle, hprevious, index_last_rtake (hk.trans hle) h]

theorem rsi_signal_windowed (hk : 1 ≤ k) (overbought oversold : K) :
    Windowed (fun xs => rsi_signal py xs k overbought oversold) (k + 1) := by
  refine windowed_of_warm _ (fun _ => rfl) ?_
  intro xs h
  have hwindow : changes (xs.rtake (k + 1)) = (changes xs).rtake k := by
    have hplace : xs.length - 1 - k = xs.length - (k + 1) := by omega
    rw [List.rtake.eq_def, List.rtake.eq_def, length_changes, hplace, changes, changes,
      List.drop_zipWith, List.tail_drop, List.drop_tail]
  have hlast := changes_eq (show 1 ≤ xs.length by omega)
  have hall := changes_eq (show 1 ≤ (xs.rtake (k + 1)).length by rw [length_window h]; omega)
  simp only [hlast, hall, hwindow, ok_bind, ← map_rtake, slice_rtake hk le_rfl]

theorem meth_rwa_windowed (params : RwaParams K) :
    Windowed (fun xs => meth_rwa py xs params) 2 where
  recent := by
    intro xs h
    have hempty : ∀ ys : List K, 2 ≤ ys.length → ys.isEmpty = false := by
      intro ys hys
      cases ys with
      | nil => cases hys
      | cons => rfl
    have hlength := length_window h
    simp only [meth_rwa, hempty _ h, hempty _ hlength.ge, hlength, lt_irrefl, not_lt.mpr h,
      if_false, Bool.false_eq_true, index_last_rtake one_le_two h]
  idle := by
    intro xs h
    unfold meth_rwa
    split_ifs
    · exact ⟨_, rfl⟩
    · exact ⟨_, rfl⟩

theorem signal_trend_following_windowed (plan : StrategyPlan)
    (candles : Option (List (Candle K))) :
    Windowed (signal_trend_following py plan candles)
      (closes_window candles (max 2 plan.lookback)) := by
  unfold signal_trend_following
  exact windowed_of_closes (le_max_of_le_left one_le_two)
    (fun n => warming_up_bars n (max 2 plan.lookback)) _

theorem signal_mean_reversion_windowed (plan : StrategyPlan)
    (candles : Option (List (Candle K))) :
    Windowed (signal_mean_reversion py plan candles)
      (closes_window candles (max 3 plan.lookback)) := by
  unfold signal_mean_reversion
  exact windowed_of_closes (le_max_of_le_left (by decide))
    (fun n => warming_up_bars n (max 3 plan.lookback)) _

theorem signal_demo_mode_windowed : Windowed (signal_demo_mode py) 4 := by
  refine windowed_of_warm _ (fun _ => rfl) ?_
  intro xs h
  have hrecent : slice (xs.rtake 4) (some (-(4 : ℕ))) none = slice xs (some (-(4 : ℕ))) none :=
    slice_rtake (by decide) le_rfl
  norm_num at hrecent
  simp only [hrecent]

theorem signal_funding_oi_filter_windowed (plan : StrategyPlan) :
    Windowed (signal_funding_oi_filter py plan) (max 1 plan.lookback) where
  recent := by
    intro xs h
    have hmomentum := (simple_momentum_windowed py (le_max_left 1 plan.lookback)).recent xs h
    simp only [signal_funding_oi_filter, hmomentum]
  idle := by
    intro xs h
    obtain ⟨text, htext⟩ := (simple_momentum_windowed py (le_max_left 1 plan.lookback)).idle xs h
    simp only [signal_funding_oi_filter, htext, ok_bind]
    exact ⟨_, rfl⟩

def candle_window (lookback : ℕ) : CandleAlgo → ℕ
  | .trend_following => lookback
  | .mean_reversion => lookback
  | _ => 0

theorem candle_algo_windowed {lookback : ℕ} (hlookback : 2 ≤ lookback)
    (candles : List (Candle K)) (algo : CandleAlgo) :
    Windowed (fun xs => algo.run py xs candles lookback) (candle_window lookback algo) := by
  cases algo
  case trend_following => exact ma_crossover_windowed py (by omega) (by omega)
  case mean_reversion => exact z_score_windowed py (by omega)
  all_goals exact windowed_of_const _

def fallback_window (name : Text) (plan : StrategyPlan) (candles : Option (List (Candle K))) : ℕ :=
  if name = "trend_following".toList then closes_window candles (max 2 plan.lookback)
  else if name = "mean_reversion".toList then closes_window candles (max 3 plan.lookback)
  else if name = "funding_oi_filter".toList then max 1 plan.lookback
  else if name = "demo_mode".toList then 4
  else max 2 plan.lookback

theorem fallback_windowed (name : Text) (plan : StrategyPlan)
    (candles : Option (List (Candle K))) :
    Windowed (fun xs => fallback py name plan xs candles) (fallback_window name plan candles) := by
  unfold fallback fallback_window
  split_ifs
  · exact signal_trend_following_windowed py plan candles
  · exact signal_mean_reversion_windowed py plan candles
  · exact signal_funding_oi_filter_windowed py plan
  · exact signal_demo_mode_windowed py
  · exact simple_momentum_windowed py (by omega)

variable [IsStrictOrderedRing K]

theorem ema_rtake {n : ℕ} {xs : List K} (hk : 1 ≤ k) (hn : k ≤ n) (h : n ≤ xs.length) :
    ema (xs.rtake n) k = ema xs k := by
  have hlength : k ≤ (xs.rtake n).length := by
    rw [length_window h]
    exact hn
  rw [ema_eq hk hlength, ema_eq hk (hn.trans h), ema_value, ema_value, ma, ma,
    rtake_rtake ((Nat.sub_le k 1).trans hn), rtake_rtake hn]

theorem ema_crossover_windowed {fast : ℕ} (hfast : 1 ≤ fast) (hle : fast ≤ k) :
    Windowed (fun xs => ema_crossover py xs fast k) k := by
  refine windowed_of_warm _ (fun _ => rfl) ?_
  intro xs h
  simp only [ema_rtake hfast hle h, ema_rtake (hfast.trans hle) le_rfl h]

/-- How many of the last prices an algorithm reads, if it does not read all of them. -/
def window (lookback : ℕ) : PriceAlgo → Option ℕ
  | .breakout => some (lookback + 1)
  | .rsi_signal => some (min 14 lookback + 1)
  | .bollinger_squeeze => some (lookback * 2)
  | .meth_rwa => some 2
  | .macd_signal => none
  | .kalman_fair_value => none
  | _ => some lookback

theorem price_algo_windowed {lookback n : ℕ} (hlookback : 2 ≤ lookback) {algo : PriceAlgo}
    (h : window lookback algo = some n) : Windowed (fun xs => algo.run py xs lookback) n := by
  have hone : 1 ≤ lookback := by omega
  have hfast : max 2 (lookback / 2) ≤ lookback := by omega
  have hfast_pos : 1 ≤ max 2 (lookback / 2) := by omega
  cases algo <;> cases h
  case momentum => exact simple_momentum_windowed py hone
  case dual_momentum => exact dual_momentum_windowed py (by omega) (by omega)
  case breakout => exact breakout_windowed py
  case donchian_channel => exact donchian_channel_windowed py hone
  case ma_crossover => exact ma_crossover_windowed py hfast_pos hfast
  case ema_crossover => exact ema_crossover_windowed py hfast_pos hfast
  case z_score => exact z_score_windowed py hone
  case bollinger_reversion => exact bollinger_reversion_windowed py hone 2
  case rsi_signal => exact rsi_signal_windowed py (by omega) 70 30
  case range_sr => exact range_sr_windowed py hone
  case bollinger_squeeze => exact bollinger_squeeze_windowed py hone (1 / 10)
  case linear_regression_channel => exact linear_regression_channel_windowed py hone
  case meth_rwa => exact meth_rwa_windowed py rwa_defaults

/-- How many of the last prices the signal of a strategy reads, if it does not read all of
them. -/
def strategy_window (strategy : Text) (plan : StrategyPlan)
    (candles : Option (List (Candle K))) : Option ℕ :=
  let name := strategy_lower strategy
  let lookback := max 2 plan.lookback
  match PRICE_ALGOS.lookup name with
  | some algo => window lookback algo
  | none =>
      let cdicts := candles.getD []
      if cdicts ≠ [] ∧ lookback ≤ cdicts.length then
        match CANDLE_ALGOS.lookup name with
        | some algo => some (candle_window lookback algo)
        | none => some (fallback_window name plan candles)
      else some (fallback_window name plan candles)

theorem strategy_windowed {strategy : Text} {plan : StrategyPlan}
    {candles : Option (List (Candle K))} {n : ℕ}
    (h : strategy_window strategy plan candles = some n) :
    Windowed (fun xs => compute_strategy_signal py strategy plan xs candles) n := by
  have hlookback : 2 ≤ max 2 plan.lookback := le_max_left 2 plan.lookback
  unfold strategy_window at h
  unfold compute_strategy_signal
  dsimp only at h ⊢
  cases hprice : PRICE_ALGOS.lookup (strategy_lower strategy) with
  | some algo =>
      rw [hprice] at h
      exact price_algo_windowed py hlookback h
  | none =>
      rw [hprice] at h
      dsimp only at h ⊢
      split_ifs at h ⊢
      · cases hcandle : CANDLE_ALGOS.lookup (strategy_lower strategy) with
        | some algo =>
            rw [hcandle] at h
            cases h
            exact candle_algo_windowed py hlookback _ algo
        | none =>
            rw [hcandle] at h
            cases h
            exact fallback_windowed py _ plan candles
      · cases h
        exact fallback_windowed py _ plan candles

end Algorithms

theorem foldl_append_price (prices : List ℚ) :
    prices.foldl append_price [] = prices.rtake 200 := by
  induction prices using List.reverseRecOn with
  | nil => rfl
  | append_singleton prices price ih =>
      rw [List.foldl_append, ih, List.foldl_cons, List.foldl_nil]
      exact rtake_concat prices price 200

theorem decide_action_holds (e : Engine) (plan : StrategyPlan) (detail : Text)
    (h : 0 ≤ plan.threshold) : (decide_action e plan 0 detail).1 = .HOLD := by
  unfold decide_action
  cases e.position.side with
  | LONG => exact congrArg Prod.fst (if_neg (by linarith))
  | SHORT => exact congrArg Prod.fst (if_neg (by linarith))
  | FLAT =>
      dsimp only
      rw [if_neg (by linarith), if_neg (by linarith)]

end ArticTrader.PriceWindows
