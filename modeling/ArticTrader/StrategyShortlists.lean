import ArticTrader.MarketFeatures

/-!
The strategies that an analysis puts forward: which ones it can name at all, and that
they do not depend on the unit of the prices.
-/

namespace ArticTrader.StrategyShortlists

open ArticTrader.MarketAnalysis
open ArticTrader.MarketFeatures
open ArticTrader.MomentumAlgos
open ArticTrader.Numerals
open ArticTrader.PriceUnits (sum_scale)
open ArticTrader.PythonSequences
open ArticTrader.PythonText (Text)
open ArticTrader.ReversionAlgos
open ArticTrader.StrategySignals

section Unit

variable {α β γ : Type}

theorem index_map (f : α → β) (xs : List α) (i : ℤ) : index (xs.map f) i = f <$> index xs i := by
  rw [index, index, List.length_map]
  split_ifs
  · rfl
  · rw [List.getElem?_map]
    cases xs[(position xs.length i).toNat]? with
    | none => rfl
    | some x => rfl

theorem slice_map (f : α → β) (xs : List α) (start stop : Option ℤ) :
    slice (xs.map f) start stop = (slice xs start stop).map f := by
  rw [slice, slice, List.length_map, List.map_drop, List.map_take]

theorem mapM_comp_map (f : α → Except Raised β) (g : β → γ) (xs : List α) :
    (xs.mapM fun x => g <$> f x) = List.map g <$> xs.mapM f := by
  induction xs with
  | nil => rfl
  | cons x xs ih =>
      rw [List.mapM_cons, List.mapM_cons, ih]
      cases f x with
      | error e => rfl
      | ok b =>
          cases xs.mapM f with
          | error e => rfl
          | ok bs => rfl

end Unit

variable {K : Type} [Field K] [LinearOrder K] [IsStrictOrderedRing K]
variable {c : K} {candles : List (Candle K)}

/-- The candle with its prices in another unit. -/
def scaled (c : K) (candle : Candle K) : Candle K where
  open_ := c * candle.open_
  high := c * candle.high
  low := c * candle.low
  close := c * candle.close
  volume := candle.volume

omit [IsStrictOrderedRing K] in
theorem divide_scale (hc : c ≠ 0) (x y : K) : divide (c * x) (c * y) = divide x y := by
  by_cases hy : y = 0
  · rw [divide, divide, if_pos hy, if_pos (by rw [hy, mul_zero])]
  · rw [divide_eq hy, divide_eq (mul_ne_zero hc hy), mul_div_mul_left x y hc]

theorem abs_sub_scale (hc : 0 < c) (x y : K) : |c * x - c * y| = c * |x - y| := by
  rw [← mul_sub, abs_mul, abs_of_pos hc]

theorem true_range_scale (hc : 0 < c) (candles : List (Candle K)) :
    true_range (candles.map (scaled c)) = fun i => (c * ·) <$> true_range candles i := by
  funext i
  unfold true_range
  simp only [index_map, bind_map_left, map_bind, map_pure]
  congr 1
  funext candle
  congr 1
  funext previous
  dsimp only [scaled]
  rw [← mul_sub, abs_sub_scale hc, abs_sub_scale hc, mul_max_of_nonneg _ _ hc.le,
    mul_max_of_nonneg _ _ hc.le]

theorem atr_scale (hc : 0 < c) (candles : List (Candle K)) :
    atr_metric (candles.map (scaled c)) = Option.map (c * ·) <$> atr_metric candles := by
  unfold atr_metric
  rw [List.length_map]
  split_ifs
  · simp only [true_range_scale hc, mapM_comp_map, bind_map_left, map_bind]
    congr 1
    funext trs
    rw [List.isEmpty_map, List.length_map, slice_map, sum_scale]
    split_ifs
    · rfl
    · unfold divide
      split_ifs
      · rfl
      · exact congrArg (fun q => Except.ok (some q)) (mul_div_assoc c _ _)
  · rfl

omit [IsStrictOrderedRing K] in
theorem log_return_scale (hc : c ≠ 0) (math : Math K) :
    log_return math (candles.map (scaled c)) = log_return math candles := by
  funext i
  unfold log_return
  simp only [index_map, bind_map_left]
  dsimp only [scaled]
  simp only [divide_scale hc]

omit [IsStrictOrderedRing K] in
theorem realized_vol_scale (hc : c ≠ 0) (math : Math K) (candles : List (Candle K)) :
    compute_realized_vol math (candles.map (scaled c)) = compute_realized_vol math candles := by
  rw [compute_realized_vol, compute_realized_vol, log_return_scale hc, List.length_map]

theorem movement_scale (hc : 0 < c) (candles : List (Candle K)) :
    directional_movement (candles.map (scaled c)) = fun i =>
      (fun move => (c * move.1, c * move.2)) <$> directional_movement candles i := by
  funext i
  unfold directional_movement
  simp only [index_map, bind_map_left, map_bind, map_pure]
  congr 1
  funext candle
  congr 1
  funext previous
  dsimp only [scaled]
  simp only [← mul_sub, mul_lt_mul_iff_right₀ hc, mul_pos_iff_of_pos_left hc, mul_ite, mul_zero]

theorem adx_scale (hc : 0 < c) (candles : List (Candle K)) :
    adx_metric (candles.map (scaled c)) = adx_metric candles := by
  have hfst : (Prod.fst ∘ fun move : K × K => (c * move.1, c * move.2)) = (c * ·) ∘ Prod.fst := rfl
  have hsnd : (Prod.snd ∘ fun move : K × K => (c * move.1, c * move.2)) = (c * ·) ∘ Prod.snd := rfl
  have hwindow : ∀ dm : List K, divide (slice (dm.map (c * ·)) (some (-14)) none).sum
      ((14 : ℕ) : K) = (c * ·) <$> divide (slice dm (some (-14)) none).sum ((14 : ℕ) : K) := by
    intro dm
    rw [slice_map, sum_scale, divide_eq (SignalValues.cast_ne_zero (by decide)),
      divide_eq (SignalValues.cast_ne_zero (by decide)), mul_div_assoc]
    rfl
  unfold adx_metric
  rw [List.length_map]
  split_ifs
  · simp only [movement_scale hc, mapM_comp_map, bind_map_left]
    congr 1
    funext moves
    simp only [List.map_map, hfst, hsnd]
    simp only [← List.map_map, List.isEmpty_map, hwindow, bind_map_left, ← mul_sub, ← mul_add,
      abs_mul, abs_of_pos hc, mul_pos_iff_of_pos_left hc, mul_left_comm (100 : K) c,
      divide_scale hc.ne']
  · rfl

theorem ma_slope_scale (hc : 0 < c) (candles : List (Candle K)) :
    ma_slope_metric (candles.map (scaled c)) = ma_slope_metric candles := by
  unfold ma_slope_metric
  simp only [List.length_map, index_map, bind_map_left]
  dsimp only [scaled]
  simp only [← mul_sub, mul_pos_iff_of_pos_left hc, divide_scale hc.ne']

theorem price_range_scale (hc : 0 < c) (candles : List (Candle K)) :
    price_range (candles.map (scaled c)) = (c * ·) <$> price_range candles := by
  have hhigh : Candle.high ∘ scaled c = (c * ·) ∘ Candle.high := rfl
  have hlow : Candle.low ∘ scaled c = (c * ·) ∘ Candle.low := rfl
  by_cases hempty : candles = []
  · subst hempty
    rfl
  · have hne : candles.map (scaled c) ≠ [] := mt List.map_eq_nil_iff.mp hempty
    rw [price_range_eq hempty, price_range_eq hne, List.map_map, List.map_map, hhigh, hlow,
      ← List.map_map, ← List.map_map, PriceUnits.highest_scale hc, PriceUnits.lowest_scale hc,
      ← mul_sub]
    rfl

theorem range_ratio_scale (hc : 0 < c) (recent medium : List (Candle K)) :
    range_ratio (recent.map (scaled c)) (medium.map (scaled c)) = range_ratio recent medium := by
  unfold range_ratio
  simp only [List.length_map, slice_map, price_range_scale hc, bind_map_left,
    mul_pos_iff_of_pos_left hc, divide_scale hc.ne']

theorem spread_proxy_scale (hc : 0 < c) (candles : List (Candle K)) :
    spread_proxy_metric (candles.map (scaled c)) = spread_proxy_metric candles := by
  have hfilter : (fun d : Candle K => decide (0 < d.close)) ∘ scaled c =
      fun d => decide (0 < d.close) := by
    funext d
    exact decide_eq_decide.mpr (mul_pos_iff_of_pos_left hc)
  unfold spread_proxy_metric
  rw [List.filter_map, hfilter, List.mapM_map]
  congr 2
  funext d
  dsimp only [Function.comp_apply, scaled]
  rw [← mul_sub, divide_scale hc.ne']

theorem wickiness_scale (hc : 0 < c) (candles : List (Candle K)) :
    wickiness_metric (candles.map (scaled c)) = wickiness_metric candles := by
  have hfilter : (fun d : Candle K => decide (0 < d.high - d.low)) ∘ scaled c =
      fun d => decide (0 < d.high - d.low) := by
    funext d
    apply decide_eq_decide.mpr
    dsimp only [scaled]
    rw [← mul_sub]
    exact mul_pos_iff_of_pos_left hc
  unfold wickiness_metric
  rw [List.filter_map, hfilter, List.mapM_map]
  congr 2
  funext d
  dsimp only [Function.comp_apply, wick_ratio, scaled]
  rw [← mul_max_of_nonneg _ _ hc.le, ← mul_min_of_nonneg _ _ hc.le, ← mul_sub, ← mul_sub,
    ← mul_add, ← mul_sub, divide_scale hc.ne']

theorem price_change_scale (hc : 0 < c) (prices : List K) :
    price_change (prices.map (c * ·)) = price_change prices := by
  funext i
  unfold price_change
  simp only [index_map, bind_map_left, mul_pos_iff_of_pos_left hc, abs_sub_scale hc,
    divide_scale hc.ne']

theorem churn_scale (hc : 0 < c) (candles : List (Candle K)) :
    churn (candles.map (scaled c)) = churn candles := by
  have hvolume : Candle.volume ∘ scaled c = Candle.volume := rfl
  have hclose : Candle.close ∘ scaled c = (c * ·) ∘ Candle.close := rfl
  unfold churn
  simp only [List.length_map, List.map_map, hvolume, hclose]
  simp only [← List.map_map, price_change_scale hc]

/-- The true range is the only metric in the unit of the prices. -/
def Features.scaled (c : K) (f : Features K) : Features K := { f with atr := f.atr.map (c * ·) }

theorem volatility_scale (hc : 0 < c) (math : Math K) (recent medium : List (Candle K)) :
    compute_volatility_metrics math (recent.map (scaled c)) (medium.map (scaled c)) =
      (fun m => { m with atr := m.atr.map (c * ·) }) <$>
        compute_volatility_metrics math recent medium := by
  unfold compute_volatility_metrics
  simp only [atr_scale hc, realized_vol_scale hc.ne', bind_map_left, map_bind, map_pure]

theorem trend_scale (hc : 0 < c) (recent medium : List (Candle K)) :
    compute_trend_metrics (recent.map (scaled c)) (medium.map (scaled c)) =
      compute_trend_metrics recent medium := by
  unfold compute_trend_metrics
  rw [adx_scale hc, ma_slope_scale hc, range_ratio_scale hc]

theorem liquidity_scale (hc : 0 < c) (candles : List (Candle K)) :
    compute_liquidity_metrics (candles.map (scaled c)) = compute_liquidity_metrics candles := by
  unfold compute_liquidity_metrics
  rw [List.isEmpty_map, spread_proxy_scale hc, wickiness_scale hc, churn_scale hc]

theorem features_scale (hc : 0 < c) (math : Math K) (candles : List (Candle K))
    (funding_data : Option (List (FundingPoint K))) (oi_data : Option (List (OiPoint K))) :
    compute_features math (candles.map (scaled c)) funding_data oi_data =
      Features.scaled c <$> compute_features math candles funding_data oi_data := by
  unfold compute_features
  rw [List.isEmpty_map, List.length_map]
  split_ifs
  · rfl
  · simp only [recent_candles, medium_candles, List.length_map, slice_map, volatility_scale hc,
      trend_scale hc, liquidity_scale hc, bind_map_left, map_bind, map_pure]
    rfl

theorem shortlist_scale (hc : 0 < c) (math : Math K) (symbol primary_timeframe : Text)
    (candles : List (Candle K)) (funding_data : Option (List (FundingPoint K)))
    (oi_data : Option (List (OiPoint K))) :
    full_analysis_shortlist math symbol primary_timeframe (candles.map (scaled c)) funding_data
        oi_data =
      full_analysis_shortlist math symbol primary_timeframe candles funding_data oi_data := by
  unfold full_analysis_shortlist
  rw [List.isEmpty_map, List.length_map]
  split_ifs
  · rfl
  · rw [features_scale hc, bind_map_left]
    rfl

section Names

omit K [Field K] [LinearOrder K] [IsStrictOrderedRing K] in
theorem mem_foldl_unique {names kept : List Text} {name : Text} :
    name ∈ names.foldl (fun unique s => if s ∈ unique then unique else unique ++ [s]) kept ↔
      name ∈ kept ∨ name ∈ names := by
  induction names generalizing kept with
  | nil => simp
  | cons s names ih =>
      rw [List.foldl_cons, ih, List.mem_cons]
      split_ifs with hs
      · constructor
        · rintro (h | h)
          · exact .inl h
          · exact .inr (.inr h)
        · rintro (h | rfl | h)
          · exact .inl h
          · exact .inl hs
          · exact .inr h
      · rw [List.mem_append, List.mem_singleton, or_assoc]

omit K [Field K] [LinearOrder K] [IsStrictOrderedRing K] in
theorem mem_unique_iff {names : List Text} {name : Text} : name ∈ unique names ↔ name ∈ names := by
  rw [unique, mem_foldl_unique, or_iff_right (List.not_mem_nil)]

omit K [Field K] [LinearOrder K] [IsStrictOrderedRing K] in
theorem nodup_foldl_unique {names kept : List Text} (h : kept.Nodup) :
    (names.foldl (fun unique s => if s ∈ unique then unique else unique ++ [s]) kept).Nodup := by
  induction names generalizing kept with
  | nil => exact h
  | cons s names ih =>
      rw [List.foldl_cons]
      apply ih
      split_ifs with hs
      · exact h
      · rw [← List.concat_eq_append]
        exact h.concat hs

/-- The strategy has an algorithm of its own, under the name as it is spelled. -/
def Dispatched (name : Text) : Prop :=
  strategy_lower name = name ∧ ((PRICE_ALGOS.lookup name).isSome ∨
    (CANDLE_ALGOS.lookup name).isSome ∨ name = "funding_oi_filter".toList)

instance (name : Text) : Decidable (Dispatched name) := inferInstanceAs (Decidable (_ ∧ _))

/-- The names for a range that does not widen. -/
def NARROW_NAMES : List Text :=
  TREND_FOLLOWERS ++ STRONG_TREND_FOLLOWERS ++ RANGE_TRADERS ++
    ["funding_oi_filter".toList, "momentum".toList]

/-- The strategies that wait for a widening range and for nothing else. -/
def WIDE_NAMES : List Text := SQUEEZE_TRADERS ++ ["atr_breakout".toList]

theorem narrow_names : (∀ name ∈ NARROW_NAMES, Dispatched name) ∧
    ∀ name ∈ NARROW_NAMES, name ∉ WIDE_NAMES := by
  decide

omit K [Field K] [LinearOrder K] [IsStrictOrderedRing K] in
theorem mem_append_missing (name : Text) (names : List Text) :
    name ∈ names ++ if name ∈ names then [] else [name] := by
  rw [List.mem_append]
  split_ifs with hmem
  · exact .inl hmem
  · exact .inr (List.mem_singleton_self name)

omit [IsStrictOrderedRing K] in
theorem momentum_mem (summary : MarketRegimeSummary K) :
    "momentum".toList ∈ suggest_strategy_shortlist summary :=
  mem_unique_iff.mpr (mem_append_missing _ _)

omit [IsStrictOrderedRing K] in
theorem mem_narrow_names {summary : MarketRegimeSummary K}
    (hnarrow : summary.range_expansion_flag = false) :
    ∀ name ∈ suggest_strategy_shortlist summary, name ∈ NARROW_NAMES := by
  have hite : ∀ {p : Prop} [Decidable p] {names : List Text}, names ⊆ NARROW_NAMES →
      (if p then names else []) ⊆ NARROW_NAMES := by
    intro p _ names hnames
    split_ifs
    · exact hnames
    · exact List.nil_subset _
  have hmissing : ∀ names : List Text,
      (if "momentum".toList ∈ names then [] else ["momentum".toList]) ⊆ NARROW_NAMES := by
    intro names
    split_ifs
    · exact List.nil_subset _
    · decide
  have hadd : ∀ {names names' : List Text}, names ⊆ NARROW_NAMES → names' ⊆ NARROW_NAMES →
      names ++ names' ⊆ NARROW_NAMES := fun h h' => List.append_subset.mpr ⟨h, h'⟩
  intro name hname
  unfold suggest_strategy_shortlist at hname
  dsimp only at hname
  rw [mem_unique_iff] at hname
  revert hname
  apply hadd
  · apply hadd
    · apply hadd
      · apply hadd
        · exact hite (hadd (by decide) (hite (by decide)))
        · simp only [hnarrow, Bool.false_eq_true, if_false, List.append_nil]
          exact hite (by decide)
      · simp only [hnarrow, Bool.false_eq_true, false_and, if_false]
        exact List.nil_subset _
    · exact hite (by decide)
  · exact hmissing _

omit [IsStrictOrderedRing K] in
theorem full_analysis_cases {math : Math K} {symbol primary_timeframe : Text}
    {funding_data : Option (List (FundingPoint K))} {oi_data : Option (List (OiPoint K))}
    {names : List Text} (h : full_analysis_shortlist math symbol primary_timeframe candles
      funding_data oi_data = .ok names) :
    names = ["momentum".toList] ∨ ∃ features summary, 20 ≤ candles.length ∧
      compute_features math candles funding_data oi_data = .ok features ∧
      summary.range_expansion_flag = features.range_expansion_flag.getD false ∧
      names = suggest_strategy_shortlist (summary : MarketRegimeSummary K) := by
  unfold full_analysis_shortlist at h
  split_ifs at h with hfew
  · cases h
    exact .inl rfl
  · obtain ⟨features, hfeatures, hnames⟩ := bind_ok_iff.mp h
    cases hnames
    rw [not_or, not_lt] at hfew
    exact .inr ⟨features, _, (by decide : 20 ≤ min_bars).trans hfew.2, hfeatures, rfl, rfl⟩

end Names

def long_candles : List (Candle ℚ) := List.replicate 200 ⟨2, 3, 1, 2, 5⟩

theorem shortlist_scale_doubled : full_analysis_shortlist rational_math [] []
    (long_candles.map (scaled 2)) none none =
      full_analysis_shortlist rational_math [] [] long_candles none none :=
  shortlist_scale (by norm_num) rational_math [] [] long_candles none none

theorem long_candles_enough : ¬ (long_candles.isEmpty = true ∨ long_candles.length < min_bars) := by
  have hlength : long_candles.length = min_bars := List.length_replicate
  rw [List.isEmpty_iff, ← List.length_eq_zero_iff, hlength]
  decide

theorem long_candles_one_signed : OneSigned (medium_candles long_candles) := by
  left
  intro c hc
  have hlength : long_candles.length = min_bars := List.length_replicate
  rw [medium_candles_eq (by rw [hlength]; decide)] at hc
  rw [List.eq_of_mem_replicate (mem_of_mem_rtake hc)]
  norm_num

theorem long_candles_features : ∃ features,
    compute_features rational_math long_candles none none = .ok features :=
  safe_iff.mp ((features_safe_iff rational_math long_candles none none).mpr
    (.inr long_candles_one_signed))

end ArticTrader.StrategyShortlists
