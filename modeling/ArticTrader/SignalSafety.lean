import ArticTrader.PriceUnits

/-!
Which calls of the signal dispatch return. Every algorithm checks that it has
enough of a history before it reads, divides and compares.
-/

namespace ArticTrader.SignalSafety

open ArticTrader.MomentumAlgos
open ArticTrader.Numerals
open ArticTrader.PriceUnits
open ArticTrader.PythonSequences
open ArticTrader.PythonText (Text)
open ArticTrader.ReversionAlgos
open ArticTrader.SignalValues
open ArticTrader.StrategySignals
open ArticTrader.TradingEngine (StrategyPlan)
open ArticTrader.VolumeAlgos

variable {K : Type} [Field K] [LinearOrder K]

def Safe {α : Type} (x : Except Raised α) : Prop := Returns x fun _ => True

theorem Safe.of_returns {α : Type} {x : Except Raised α} {P : α → Prop} (h : Returns x P) :
    Safe x :=
  h.mono fun _ _ => trivial

theorem safe_ok {α : Type} (a : α) : Safe (.ok a) := returns_ok trivial

theorem safe_bind {α β : Type} {x : Except Raised α} {f : α → Except Raised β} (hx : Safe x)
    (hf : ∀ a, Safe (f a)) : Safe (x >>= f) :=
  returns_bind hx fun a _ => hf a

theorem safe_ite {α : Type} {c : Prop} [Decidable c] {x y : Except Raised α} (hx : c → Safe x)
    (hy : ¬ c → Safe y) : Safe (if c then x else y) :=
  returns_ite hx hy

/-- What a program answers before it reads anything. -/
theorem safe_unless {α : Type} {c : Prop} [Decidable c] {a : α} {y : Except Raised α}
    (hy : ¬ c → Safe y) : Safe (if c then pure a else y) :=
  safe_ite (fun _ => safe_ok a) hy

theorem safe_map {α β : Type} {x : Except Raised α} {f : α → β} (hx : Safe x) :
    Safe (x >>= fun a => pure (f a)) :=
  safe_bind hx fun a => safe_ok (f a)

theorem safe_divide {x y : K} (h : y ≠ 0) : Safe (divide x y) := .of_returns (returns_divide h)

theorem safe_index {α : Type} {xs : List α} {i : ℤ} (hlow : -(xs.length : ℤ) ≤ i)
    (hhigh : i < xs.length) : Safe (index xs i) :=
  .of_returns (returns_index hlow hhigh)

theorem safe_iff_pair {α β : Type} {x : Except Raised (α × β)} :
    Safe x ↔ ∃ signal detail, x = .ok (signal, detail) := by
  constructor
  · rintro ⟨⟨signal, detail⟩, heq, -⟩
    exact ⟨signal, detail, heq⟩
  · rintro ⟨signal, detail, heq⟩
    exact ⟨(signal, detail), heq, trivial⟩

theorem safe_mapM {α β : Type} {f : α → Except Raised β} {xs : List α} (h : ∀ a ∈ xs, Safe (f a)) :
    Returns (xs.mapM f) fun ys => ys.length = xs.length :=
  (returns_mapM h).mono fun _ hys => hys.1

section Candles

variable {candles : List (Candle K)} {i : ℤ}

theorem true_range_safe (hi : 1 ≤ i) (h : i < candles.length) : Safe (true_range candles i) := by
  apply safe_bind (safe_index (by omega) h)
  intro candle
  exact safe_map (safe_index (by omega) (by omega))

theorem obv_step_safe (obv : K) (hi : 1 ≤ i) (h : i < candles.length) :
    Safe (obv_step candles obv i) := by
  apply safe_bind (safe_index (by omega) h)
  intro candle
  exact safe_map (safe_index (by omega) (by omega))

theorem movement_safe (hi : 1 ≤ i) (h : i < candles.length) : Safe (movement candles i) := by
  apply safe_bind (true_range_safe hi h)
  intro tr
  apply safe_bind (safe_index (by omega) h)
  intro candle
  exact safe_map (safe_index (by omega) (by omega))

variable [IsStrictOrderedRing K] {py : Python K}

theorem atr_safe {period : ℕ} (hperiod : 1 ≤ period) : Safe (atr candles period) := by
  apply safe_unless
  intro hwarm
  apply safe_bind
  · apply Safe.of_returns
    apply safe_mapM
    intro i hi
    rw [mem_int_range] at hi
    exact true_range_safe hi.1 hi.2
  · intro tr_list
    apply safe_ite
    · intro henough
      exact safe_map (safe_divide (cast_ne_zero hperiod))
    · intro hfew
      exact safe_ok _

theorem adx_filter_safe {period : ℕ} (hperiod : 1 ≤ period) (threshold : K) :
    Safe (adx_filter py candles period threshold) := by
  apply safe_unless
  intro hwarm
  apply safe_bind
  · apply Safe.of_returns
    apply safe_mapM
    intro i hi
    rw [mem_int_range] at hi
    exact movement_safe hi.1 hi.2
  · intro movements
    apply safe_unless
    intro henough
    apply safe_bind (safe_divide (cast_ne_zero hperiod))
    intro average
    have hshare : ∀ moved : K, Safe (do
        if average ≠ 0 then
          let share ← divide (100 * moved) (period : K)
          divide share average
        else return 0) := by
      intro moved
      apply safe_ite
      · intro hne
        apply safe_bind (safe_divide (cast_ne_zero hperiod))
        intro share
        exact safe_divide hne
      · intro hzero
        exact safe_ok _
    apply safe_bind (hshare _)
    intro plus_di
    apply safe_bind (hshare _)
    intro minus_di
    apply safe_ite
    · intro hne
      exact safe_map (safe_divide hne)
    · intro hzero
      exact safe_ok _

theorem supertrend_safe {period : ℕ} (hperiod : 1 ≤ period) (mult : K) :
    Safe (supertrend py candles period mult) := by
  apply safe_unless
  intro hwarm
  apply safe_bind (atr_safe hperiod)
  intro atr_val
  cases atr_val with
  | none => exact safe_ok _
  | some atr_val =>
      apply safe_unless
      intro hmoving
      apply safe_bind (safe_index (by omega) (by omega))
      intro last
      dsimp only
      split_ifs
      · exact safe_ok _
      · exact safe_ok _
      · exact safe_ok _

omit [IsStrictOrderedRing K] in
theorem mid_safe (h : candles ≠ []) : Safe (mid candles) := by
  have hhigh : candles.map Candle.high ≠ [] := mt List.map_eq_nil_iff.mp h
  have hlow : candles.map Candle.low ≠ [] := mt List.map_eq_nil_iff.mp h
  rw [mid, maximum_eq hhigh, ok_bind, minimum_eq hlow, ok_bind]
  exact safe_ok _

omit [IsStrictOrderedRing K] in
theorem ichimoku_signal_safe {tenkan kijun senkou : ℕ} (htenkan : 1 ≤ tenkan) (hkijun : 1 ≤ kijun)
    (hle : tenkan ≤ senkou ∧ kijun ≤ senkou) :
    Safe (ichimoku_signal py candles tenkan kijun senkou) := by
  apply safe_unless
  intro hwarm
  rw [slice_back candles htenkan, slice_back candles hkijun]
  apply safe_bind (mid_safe (rtake_ne_nil htenkan (by omega)))
  intro tenkan_val
  apply safe_bind (mid_safe (rtake_ne_nil hkijun (by omega)))
  intro kijun_val
  exact safe_map (safe_index (by omega) (by omega))

theorem atr_breakout_safe {period : ℕ} (hperiod : 1 ≤ period) (mult : K) :
    Safe (atr_breakout py candles period mult) := by
  apply safe_unless
  intro hwarm
  apply safe_bind (atr_safe hperiod)
  intro atr_val
  cases atr_val with
  | none => exact safe_ok _
  | some atr_val =>
      apply safe_unless
      intro hmoving
      apply safe_bind (safe_index (by omega) (by omega))
      intro last
      apply safe_ite
      · intro hwide
        apply safe_unless
        intro hne
        exact safe_map (safe_divide (sub_ne_zero.mpr hne))
      · intro hnarrow
        exact safe_ok _

theorem spread_safe {window : List K} (h : window ≠ []) : Safe (spread py window) := by
  rw [spread_eq py h]
  exact safe_ok _

theorem keltner_bollinger_safe {period : ℕ} (hperiod : 1 ≤ period) (kc_mult : K) :
    Safe (keltner_bollinger py candles period kc_mult) := by
  apply safe_unless
  intro hwarm
  have hwindow : (slice candles (some (-period)) none).map Candle.close ≠ [] := by
    rw [slice_back candles hperiod]
    intro hnil
    exact rtake_ne_nil hperiod (by omega) (List.map_eq_nil_iff.mp hnil)
  apply safe_bind (spread_safe hwindow)
  rintro ⟨mean, std⟩
  apply safe_bind (atr_safe (by omega))
  intro atr_val
  apply safe_bind (safe_index (by omega) (by omega))
  intro last
  split_ifs
  · exact safe_ok _
  · exact safe_ok _
  · exact safe_ok _

omit [IsStrictOrderedRing K] in
theorem vwap_deviation_safe : Safe (vwap_deviation py candles) := by
  apply safe_unless
  intro hsome
  have hlength : 0 < candles.length := by
    rw [List.length_pos_iff]
    intro hnil
    exact hsome (List.isEmpty_iff.mpr hnil)
  apply safe_bind (safe_index (by omega) (by omega))
  intro first
  apply safe_unless
  intro hvolume
  apply safe_unless
  intro hpos
  apply safe_bind (safe_divide (not_le.mp hpos).ne')
  intro vwap
  apply safe_bind (safe_index (by omega) (by omega))
  intro last
  apply safe_unless
  intro hne
  exact safe_map (safe_divide hne)

omit [IsStrictOrderedRing K] in
theorem obv_safe (stop : ℤ) (h : stop ≤ candles.length) :
    Safe ((int_range 1 stop).foldlM (obv_step candles) 0) := by
  apply returns_foldlM trivial
  intro obv hobv i hi
  rw [mem_int_range] at hi
  exact obv_step_safe obv hi.1 (hi.2.trans_le h)

theorem obv_trend_safe (lookback : ℕ) : Safe (obv_trend py candles lookback) := by
  apply safe_unless
  intro hwarm
  apply safe_bind (obv_safe _ le_rfl)
  intro obv
  apply safe_bind (obv_safe _ (by omega))
  intro obv_prev
  apply safe_unless
  intro hne
  exact safe_map (safe_divide (abs_pos.mpr hne).ne')

omit [IsStrictOrderedRing K] in
/-- The series has an entry for every candle. -/
theorem obv_series_returns (h : 1 ≤ candles.length) :
    Returns (obv_series candles) (·.length = candles.length) := by
  have hcount : 1 + (int_range 1 candles.length).length = candles.length := by
    rw [length_int_range]
    omega
  apply returns_bind
  · apply returns_foldlM_count (k := 1) (R := fun k state => state.1.length = k)
    · rfl
    · rintro k ⟨out, obv⟩ hk i hi
      rw [mem_int_range] at hi
      apply returns_bind (obv_step_safe obv hi.1 hi.2)
      intro obv' htrue
      apply returns_ok
      rw [List.length_append, hk]
      rfl
  · rintro ⟨out, obv⟩ hlength
    exact returns_ok (hlength.trans hcount)

theorem smart_money_safe (vol_mult close_top_frac : K) {avg_window obv_window : ℕ}
    (havg : 1 ≤ avg_window) :
    Safe (smart_money py candles vol_mult avg_window obv_window close_top_frac) := by
  apply safe_unless
  intro hwarm
  apply safe_bind (safe_index (by omega) (by omega))
  intro last
  apply safe_unless
  intro hvolume
  apply safe_bind (safe_divide (cast_ne_zero havg))
  intro avg_vol
  apply safe_unless
  intro hpos
  apply safe_bind (safe_divide (not_le.mp hpos).ne')
  intro vol_ratio
  apply safe_unless
  intro hne
  apply safe_bind (safe_divide (sub_ne_zero.mpr hne))
  intro close_pos
  apply returns_bind (obv_series_returns (by omega))
  intro obv hlength
  apply safe_bind (safe_index (by omega) (by omega))
  intro obv_now
  apply safe_bind (safe_index (by omega) (by omega))
  intro obv_then
  apply safe_unless
  intro hsetup
  apply safe_bind (atr_safe (by omega))
  intro atr_val
  apply safe_unless
  intro hmoving
  exact safe_ok _

end Candles

section Prices

variable [IsStrictOrderedRing K] {py : Python K} {xs : List K}

theorem band_width_safe {window : List K} (h : window ≠ []) : Safe (band_width py window) := by
  apply safe_bind (spread_safe h)
  rintro ⟨mean, std⟩
  apply safe_ite
  · intro hne
    exact safe_map (safe_divide hne)
  · intro hzero
    exact safe_ok _

theorem bollinger_squeeze_safe {period : ℕ} (hperiod : 1 ≤ period) (width_pct : K) :
    Safe (bollinger_squeeze py xs period width_pct) := by
  apply safe_unless
  intro hwarm
  rw [slice_back xs hperiod]
  apply safe_bind (band_width_safe (rtake_ne_nil hperiod (by omega)))
  rintro ⟨width, mean⟩
  apply safe_bind (band_width_safe (slice_middle_ne_nil hperiod (by omega)))
  rintro ⟨prev_width, prev_mean⟩
  apply safe_ite
  · intro hsqueeze
    exact safe_map (safe_index (by omega) (by omega))
  · intro hcalm
    exact safe_ok _

theorem kalman_step_returns {Q R : K} (hQ : 0 ≤ Q) (hR : 0 < R) {state : K × K} (h : 0 ≤ state.2)
    (z : K) : Returns (kalman_step Q R state z) (0 ≤ ·.2) := by
  have hpred : 0 ≤ state.2 + Q := add_nonneg h hQ
  have hsum : 0 < state.2 + Q + R := add_pos_of_nonneg_of_pos hpred hR
  have hgain : (state.2 + Q) / (state.2 + Q + R) ≤ 1 := by
    rw [div_le_one hsum]
    exact le_add_of_nonneg_right hR.le
  apply returns_bind (returns_divide hsum.ne')
  rintro gain rfl
  exact returns_ok (mul_nonneg (sub_nonneg.mpr hgain) hpred)

theorem kalman_fair_value_safe {Q R : K} (hQ : 0 ≤ Q) (hR : 0 < R) :
    Safe (kalman_fair_value py xs Q R) := by
  apply safe_unless
  intro hwarm
  apply safe_bind (safe_index (by omega) (by omega))
  intro x
  apply returns_bind (P := fun state => 0 ≤ state.2)
  · apply returns_foldlM (R := fun state : K × K => 0 ≤ state.2) zero_le_one
    intro state hstate z hz
    exact kalman_step_returns hQ hR hstate z
  · rintro ⟨fair, P⟩ hP
    apply safe_bind (safe_index (by omega) (by omega))
    intro p
    have hroot : 0 ≤ max P (1 / 10 ^ 6) := le_max_of_le_left hP
    rw [square_root_eq hroot, ok_bind]
    apply safe_ite
    · intro hne
      exact safe_map (safe_divide hne)
    · intro hzero
      exact safe_ok _

theorem meth_rwa_safe (params : RwaParams K) : Safe (meth_rwa py xs params) := by
  have hleast : ∀ x : K, max x (1 / 10 ^ 9) ≠ 0 := fun x =>
    (lt_max_of_lt_right (div_pos one_pos (pow_pos (by norm_num) 9))).ne'
  apply safe_unless
  intro hsome
  apply safe_unless
  intro hwarm
  apply safe_bind (safe_index (by omega) (by omega))
  intro ratio
  apply safe_unless
  intro hpos
  apply safe_ite
  · intro hdiscount
    exact safe_map (safe_divide (hleast _))
  · intro hdear
    apply safe_ite
    · intro hpremium
      exact safe_map (safe_divide (hleast _))
    · intro hflat
      exact safe_ok _

omit [IsStrictOrderedRing K] in
theorem signal_demo_mode_safe : Safe (signal_demo_mode py xs) := by
  apply safe_unless
  intro hwarm
  have hlength : (slice xs (some (-4)) none).length = 4 := by
    have hslice := slice_back xs (show 1 ≤ 4 by omega)
    rw [Nat.cast_ofNat] at hslice
    rw [hslice, length_rtake]
    omega
  apply safe_bind (safe_index (by omega) (by omega))
  intro last
  apply safe_bind (safe_index (by omega) (by omega))
  intro first
  apply safe_unless
  intro hne
  apply safe_bind (safe_divide hne)
  intro ratio
  exact safe_map (safe_index (by omega) (by omega))

omit [Field K] [LinearOrder K] [IsStrictOrderedRing K] in
theorem length_recent_closes {candles : Option (List (Candle K))} {lookback : ℕ} {closes : List K}
    (hlookback : 1 ≤ lookback) (h : recent_closes candles xs lookback = some closes) :
    closes.length = lookback := by
  unfold recent_closes at h
  simp only [slice_back _ hlookback] at h
  split_ifs at h with hcandles hwarm
  · cases h
    rw [List.length_map, length_rtake, min_eq_left hcandles.2]
  · cases h
    rw [length_rtake, min_eq_left (not_lt.mp hwarm)]

theorem signal_trend_following_safe (plan : StrategyPlan) (candles : Option (List (Candle K))) :
    Safe (signal_trend_following py plan candles xs) := by
  unfold signal_trend_following
  dsimp only
  cases hcloses : recent_closes candles xs (max 2 plan.lookback) with
  | none => exact safe_ok _
  | some closes =>
      have hlength := length_recent_closes (by omega) hcloses
      have hne : closes ≠ [] := by
        rw [← List.length_pos_iff]
        omega
      apply safe_bind (safe_divide (cast_ne_zero (le_max_left 1 _)))
      intro fast_ma
      rw [average_eq hne, ok_bind]
      apply safe_unless
      intro hpos
      exact safe_map (safe_divide hpos)

theorem signal_mean_reversion_safe (hsqrt : Rooted py.sqrt) (plan : StrategyPlan)
    (candles : Option (List (Candle K))) : Safe (signal_mean_reversion py plan candles xs) := by
  unfold signal_mean_reversion
  dsimp only
  cases hcloses : recent_closes candles xs (max 3 plan.lookback) with
  | none => exact safe_ok _
  | some closes =>
      have hlength := length_recent_closes (by omega) hcloses
      have hne : closes ≠ [] := by
        rw [← List.length_pos_iff]
        omega
      simp only [spread_eq py hne, ok_bind]
      apply safe_bind (safe_index (by omega) (by omega))
      intro last
      exact safe_map (safe_divide (std_pos hsqrt _).ne')

omit [IsStrictOrderedRing K] in
theorem signal_funding_oi_filter_safe (plan : StrategyPlan) :
    Safe (signal_funding_oi_filter py plan xs) := by
  apply safe_bind (.of_returns (simple_momentum_returns (le_max_left 1 plan.lookback)))
  rintro ⟨signal, detail⟩
  exact safe_ok _

theorem fallback_safe (hsqrt : Rooted py.sqrt) (name : Text) (plan : StrategyPlan)
    (candles : Option (List (Candle K))) : Safe (fallback py name plan xs candles) := by
  unfold fallback
  split_ifs
  · exact signal_trend_following_safe plan candles
  · exact signal_mean_reversion_safe hsqrt plan candles
  · exact signal_funding_oi_filter_safe plan
  · exact signal_demo_mode_safe
  · exact .of_returns (simple_momentum_returns (by omega))

end Prices

section Stochastic

/-- A candle of positive prices, with its open and its close within its range. -/
structure WellFormed (c : Candle K) : Prop where
  low_pos : 0 < c.low
  open_in : c.low ≤ c.open_ ∧ c.open_ ≤ c.high
  close_in : c.low ≤ c.close ∧ c.close ≤ c.high
  volume_nonneg : 0 ≤ c.volume

/-- The candles do not move at all. -/
def Flat (candles : List (Candle K)) : Prop := ∃ v, ∀ c ∈ candles, c.high = v ∧ c.low = v

variable {candles : List (Candle K)} {k : ℕ}

theorem flat_iff (hne : candles ≠ []) (h : ∀ c ∈ candles, WellFormed c) :
    highest (candles.map Candle.high) = lowest (candles.map Candle.low) ↔ Flat candles := by
  have hhigh : candles.map Candle.high ≠ [] := mt List.map_eq_nil_iff.mp hne
  have hlow : candles.map Candle.low ≠ [] := mt List.map_eq_nil_iff.mp hne
  constructor
  · intro heq
    refine ⟨highest (candles.map Candle.high), ?_⟩
    intro c hc
    have hle := le_highest (List.mem_map_of_mem (f := Candle.high) hc)
    have hge := lowest_le (List.mem_map_of_mem (f := Candle.low) hc)
    have hrange := (h c hc).close_in.1.trans (h c hc).close_in.2
    rw [← heq] at hge
    exact ⟨le_antisymm hle (hge.trans hrange), le_antisymm (hrange.trans hle) hge⟩
  · rintro ⟨v, hv⟩
    obtain ⟨c, hc, hchigh⟩ := List.mem_map.mp (highest_mem hhigh)
    obtain ⟨d, hd, hdlow⟩ := List.mem_map.mp (lowest_mem hlow)
    rw [← hchigh, ← hdlow, (hv c hc).1, (hv d hd).2]

theorem stochastic_k_safe {i : ℤ} (hk : 1 ≤ k) (hlow : k ≤ i + 1) (hhigh : i < candles.length) :
    Safe (stochastic_k candles k i) := by
  have hwindow := window_ne_nil hk hlow hhigh
  have hhighs : (slice candles (some (i - k + 1)) (some (i + 1))).map Candle.high ≠ [] :=
    mt List.map_eq_nil_iff.mp hwindow
  have hlows : (slice candles (some (i - k + 1)) (some (i + 1))).map Candle.low ≠ [] :=
    mt List.map_eq_nil_iff.mp hwindow
  unfold stochastic_k
  simp only [maximum_eq hhighs, minimum_eq hlows, ok_bind]
  apply safe_bind (safe_index (by omega) hhigh)
  intro candle
  apply safe_ite
  · intro hne
    exact safe_divide (sub_ne_zero.mpr hne)
  · intro hflat
    exact safe_ok _

theorem stochastic_k_raises (hk : k ≤ candles.length) (h : candles.length + 1 < 2 * k) :
    stochastic_k candles k (candles.length - k) = .error .ValueError := by
  unfold stochastic_k
  rw [window_nil rfl hk h]
  rfl

/-- With fewer than `2 * k - 1` candles that move, the first window of the averages is
empty. -/
theorem stochastic_safe_iff [IsStrictOrderedRing K] {py : Python K} {d : ℕ} (hk : 1 ≤ k)
    (hd : 1 ≤ d) (h : ∀ c ∈ candles, WellFormed c) :
    Safe (stochastic_signal py candles k d) ↔
      candles.length < k ∨ 2 * k ≤ candles.length + 1 ∨ Flat (candles.rtake k) := by
  by_cases hwarm : candles.length < k
  · have hsafe : Safe (stochastic_signal py candles k d) := by
      rw [stochastic_signal, if_pos (.inr hwarm)]
      exact safe_ok _
    exact iff_of_true hsafe (.inl hwarm)
  · have hwindow := rtake_ne_nil hk (not_lt.mp hwarm)
    have hhighs : (candles.rtake k).map Candle.high ≠ [] :=
      mt List.map_eq_nil_iff.mp hwindow
    have hlows : (candles.rtake k).map Candle.low ≠ [] :=
      mt List.map_eq_nil_iff.mp hwindow
    have hsome : ¬ (candles.isEmpty = true ∨ candles.length < k) := by
      rintro (hempty | hlt)
      · rw [List.isEmpty_iff.mp hempty] at hwarm
        exact hwarm hk
      · exact hwarm hlt
    have hflat := flat_iff hwindow fun c hc => h c (mem_of_mem_rtake hc)
    rw [stochastic_signal, if_neg hsome, or_iff_right hwarm, ← hflat]
    simp only [slice_back candles hk, maximum_eq hhighs, minimum_eq hlows, ok_bind]
    have hread : Safe (index candles (-1)) := safe_index (by omega) (by omega)
    obtain ⟨last, hlast, -⟩ := hread
    rw [hlast, ok_bind]
    by_cases hsame : highest ((candles.rtake k).map Candle.high) =
        lowest ((candles.rtake k).map Candle.low)
    · rw [if_pos hsame]
      exact iff_of_true (safe_ok _) (.inr hsame)
    · rw [if_neg hsame, divide_eq (sub_ne_zero.mpr hsame), ok_bind, or_iff_left hsame]
      constructor
      · intro hsafe
        by_contra hcold
        have hraise := stochastic_k_raises (not_lt.mp hwarm) (not_le.mp hcold)
        rw [int_range_cons (by omega), List.mapM_cons, hraise] at hsafe
        obtain ⟨signal, herror, -⟩ := hsafe
        cases herror
      · intro hlong
        apply returns_bind
        · apply safe_mapM
          intro i hi
          rw [mem_int_range] at hi
          exact stochastic_k_safe hk (by omega) hi.2
        · intro k_vals hlength
          apply safe_ite
          · intro henough
            exact safe_map (safe_divide (cast_ne_zero hd))
          · intro hfew
            exact safe_ok _

end Stochastic

section Dispatch

variable [IsStrictOrderedRing K] {py : Python K} {prices : List K} {lookback : ℕ}

theorem price_algo_safe (hsqrt : Rooted py.sqrt) (hpos : ∀ p ∈ prices, 0 < p)
    (hlookback : 2 ≤ lookback) (algo : PriceAlgo) : Safe (algo.run py prices lookback) := by
  cases hfree : algo.unit_free with
  | true => exact .of_returns (algo.run_returns hpos hlookback (fun _ => hsqrt) hfree)
  | false =>
      cases algo with
      | bollinger_squeeze => exact bollinger_squeeze_safe (by omega) (1 / 10)
      | kalman_fair_value => exact kalman_fair_value_safe (by norm_num) (by norm_num)
      | meth_rwa => exact meth_rwa_safe rwa_defaults
      | _ => cases hfree

theorem candle_algo_safe (hsqrt : Rooted py.sqrt) (hlookback : 2 ≤ lookback)
    (candles : List (Candle K)) {algo : CandleAlgo} (h : algo ≠ .stochastic_signal) :
    Safe (algo.run py prices candles lookback) := by
  cases algo with
  | trend_following => exact .of_returns (ma_crossover_returns (by omega) (by omega))
  | mean_reversion => exact .of_returns (z_score_returns hsqrt (by omega))
  | adx_filter => exact adx_filter_safe (by omega) 25
  | supertrend => exact supertrend_safe (by omega) 3
  | ichimoku_signal => exact ichimoku_signal_safe (by omega) (by omega) (by omega)
  | stochastic_signal => exact absurd rfl h
  | atr_breakout => exact atr_breakout_safe (by omega) (3 / 2)
  | keltner_bollinger => exact keltner_bollinger_safe (by omega) 2
  | vwap_deviation => exact vwap_deviation_safe
  | obv_trend => exact obv_trend_safe lookback
  | smart_money => exact smart_money_safe 2 (1 / 4) (by omega)

theorem stochastic_lookups : PRICE_ALGOS.lookup "stochastic_signal".toList = none ∧
    CANDLE_ALGOS.lookup "stochastic_signal".toList = some .stochastic_signal ∧
    ∀ entry ∈ CANDLE_ALGOS, entry.2 = .stochastic_signal →
      entry.1 = "stochastic_signal".toList := by
  decide

theorem mem_of_lookup {name : Text} {algo : CandleAlgo} (h : CANDLE_ALGOS.lookup name = some algo) :
    (name, algo) ∈ CANDLE_ALGOS := by
  obtain ⟨before, after, heq, -⟩ := List.lookup_eq_some_iff.mp h
  rw [heq]
  exact List.mem_append_right before List.mem_cons_self

/-- The stochastic oscillator on candles that move but are too few for its averages. -/
def Cold (strategy : Text) (plan : StrategyPlan) (candles : Option (List (Candle K))) : Prop :=
  strategy_lower strategy = "stochastic_signal".toList ∧ ∃ cs, candles = some cs ∧
    max 2 plan.lookback ≤ cs.length ∧ cs.length + 1 < 2 * min 14 (max 2 plan.lookback) ∧
    ¬ Flat (cs.rtake (min 14 (max 2 plan.lookback)))

theorem dispatch_returns_iff (hsqrt : Rooted py.sqrt) (strategy : Text) (plan : StrategyPlan)
    (hpos : ∀ p ∈ prices, 0 < p) {candles : Option (List (Candle K))}
    (hcandles : ∀ cs ∈ candles, ∀ c ∈ cs, WellFormed c) :
    (∃ signal detail,
      compute_strategy_signal py strategy plan prices candles = .ok (signal, detail)) ↔
      ¬ Cold strategy plan candles := by
  have hlookback : 2 ≤ max 2 plan.lookback := le_max_left 2 plan.lookback
  have hprice : ∀ algo, PRICE_ALGOS.lookup (strategy_lower strategy) = some algo →
      ¬ Cold strategy plan candles := by
    rintro algo hlookup ⟨hname, -⟩
    rw [hname, stochastic_lookups.1] at hlookup
    cases hlookup
  have hother : CANDLE_ALGOS.lookup (strategy_lower strategy) ≠ some .stochastic_signal →
      ¬ Cold strategy plan candles := by
    rintro hlookup ⟨hname, -⟩
    rw [hname] at hlookup
    exact hlookup stochastic_lookups.2.1
  rw [← safe_iff_pair, compute_strategy_signal]
  cases hlookup : PRICE_ALGOS.lookup (strategy_lower strategy) with
  | some algo =>
      exact iff_of_true (price_algo_safe hsqrt hpos hlookback algo) (hprice algo hlookup)
  | none =>
      by_cases hwarm : candles.getD [] ≠ [] ∧ max 2 plan.lookback ≤ (candles.getD []).length
      · obtain ⟨cs, rfl⟩ : ∃ cs, candles = some cs := by
          cases candles with
          | none => exact absurd rfl hwarm.1
          | some cs => exact ⟨cs, rfl⟩
        rw [Option.getD_some] at hwarm
        simp only [Option.getD_some, if_pos hwarm]
        cases halgo : CANDLE_ALGOS.lookup (strategy_lower strategy) with
        | none =>
            apply iff_of_true (fallback_safe hsqrt _ plan _)
            apply hother
            rw [halgo]
            exact (Option.some_ne_none _).symm
        | some algo =>
            by_cases hstochastic : algo = .stochastic_signal
            · subst hstochastic
              have hname := stochastic_lookups.2.2 _ (mem_of_lookup halgo) rfl
              have hiff : Safe (ReversionAlgos.stochastic_signal py cs
                  (min 14 (max 2 plan.lookback)) 3) ↔ _ :=
                stochastic_safe_iff (by omega) (by omega) (hcandles cs rfl)
              have hcold : Cold strategy plan (some cs) ↔
                  cs.length + 1 < 2 * min 14 (max 2 plan.lookback) ∧
                    ¬ Flat (cs.rtake (min 14 (max 2 plan.lookback))) := by
                constructor
                · rintro ⟨-, cs', heq, -, hcold⟩
                  cases heq
                  exact hcold
                · intro hcold
                  exact ⟨hname, cs, rfl, hwarm.2, hcold⟩
              rw [hcold, not_and_or, not_lt, not_not]
              exact hiff.trans (or_iff_right (by omega))
            · apply iff_of_true (candle_algo_safe hsqrt hlookback cs hstochastic)
              apply hother
              rw [halgo]
              intro heq
              exact hstochastic (Option.some.inj heq)
      · simp only [if_neg hwarm]
        apply iff_of_true (fallback_safe hsqrt _ plan _)
        rintro ⟨-, cs, rfl, hlength, -⟩
        apply hwarm
        rw [Option.getD_some, ← List.length_pos_iff]
        exact ⟨by omega, hlength⟩

end Dispatch

def two_candles (K : Type) [Field K] : List (Candle K) := [⟨2, 3, 1, 2, 5⟩, ⟨2, 4, 1, 3, 5⟩]

theorem two_candles_well_formed (K : Type) [Field K] [LinearOrder K] [IsStrictOrderedRing K] :
    ∀ c ∈ two_candles K, WellFormed c := by
  intro c hc
  rw [two_candles, List.mem_pair] at hc
  rcases hc with rfl | rfl
  · constructor
    all_goals norm_num
  · constructor
    all_goals norm_num

def oscillator (lookback : ℕ) : StrategyPlan := ⟨"stochastic_signal".toList, lookback, 0, 1⟩

/-- The text of the one number that the three candles of the example come to. -/
noncomputable def thirds_python : Python ℝ :=
  ⟨Real.sqrt, fun _ _ => "66.7".toList, fun _ => [], fun _ => []⟩

/-- A third candle fills the first window. -/
theorem three_candles_return : ∃ signal detail,
    compute_strategy_signal (over_reals thirds_python) "stochastic_signal".toList (oscillator 2)
      [1, 2] (some (⟨2, 3, 1, 2, 5⟩ :: two_candles ℝ)) = .ok (signal, detail) := by
  have hpos : ∀ p ∈ [(1 : ℝ), 2], 0 < p := by simp
  have hcandles : ∀ cs ∈ some (⟨2, 3, 1, 2, 5⟩ :: two_candles ℝ), ∀ c ∈ cs, WellFormed c := by
    intro cs hcs c hc
    cases hcs
    rcases List.mem_cons.mp hc with rfl | hc
    · exact two_candles_well_formed ℝ _ List.mem_cons_self
    · exact two_candles_well_formed ℝ c hc
  apply (dispatch_returns_iff rooted_sqrt _ (oscillator 2) hpos hcandles).mpr
  rintro ⟨-, cs, heq, -, hcold, -⟩
  cases heq
  revert hcold
  decide

/-- Two candles for a lookback of two leave the first window of the averages empty. -/
theorem two_candles_raise : (∀ c ∈ two_candles ℚ, WellFormed c) ∧
    compute_strategy_signal (K := ℚ) ⟨id, fun _ _ => [], fun _ => [], fun _ => []⟩
      "stochastic_signal".toList (oscillator 2) [1, 2] (some (two_candles ℚ)) =
      .error .ValueError :=
  ⟨two_candles_well_formed ℚ, by decide +kernel⟩

end ArticTrader.SignalSafety
