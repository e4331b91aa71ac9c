import Mathlib.Algebra.BigOperators.Field
import ArticTrader.PriceUnits
import ArticTrader.WeightedTails

/-!
The signs of the trend strategies on prices that only rise or only fall.
-/

namespace ArticTrader.TrendSigns

open ArticTrader.MomentumAlgos
open ArticTrader.Numerals
open ArticTrader.PriceUnits
open ArticTrader.PythonSequences
open ArticTrader.PythonText (Text)
open ArticTrader.SignalValues
open ArticTrader.StrategySignals
open ArticTrader.TradingEngine (StrategyPlan)
open ArticTrader.WeightedTails

section Averages

variable {K : Type} [Field K] {xs : List K} {k : ℕ}

theorem sum_rtake (h : k ≤ xs.length) :
    (xs.rtake k).sum = ∑ i ∈ Finset.range k, nth_last xs (i + 1) := by
  induction k with
  | zero => rw [List.rtake_zero, List.sum_nil, Finset.sum_range_zero]
  | succ k ih =>
      rw [rtake_succ h, List.sum_cons, ih (Nat.le_of_succ_le h), Finset.sum_range_succ, add_comm]

theorem sum_range_of_zero {f : ℕ → K} {n : ℕ} (hk : k ≤ n) (h : ∀ i, k ≤ i → f i = 0) :
    ∑ i ∈ Finset.range n, f i = ∑ i ∈ Finset.range k, f i := by
  symm
  apply Finset.sum_subset (Finset.range_subset_range.mpr hk)
  intro i hi hout
  exact h i (not_lt.mp fun hlt => hout (Finset.mem_range.mpr hlt))

theorem ma_eq_sum (h : k ≤ xs.length) :
    ma xs k = ∑ i ∈ Finset.range xs.length, share K k i * nth_last xs (i + 1) := by
  rw [sum_range_of_zero h, ma, sum_rtake h, Finset.sum_div]
  · apply Finset.sum_congr rfl
    intro i hi
    rw [share, if_pos (Finset.mem_range.mp hi), div_mul_eq_mul_div, one_mul]
  · intro i hi
    rw [share, if_neg (by omega), zero_mul]

theorem foldl_ema_eq (k : ℕ) (seed : K) {m : ℕ} (h : m ≤ xs.length) :
    (xs.rtake m).foldl (ema_step k) seed =
      kept K k ^ m * seed +
        ∑ i ∈ Finset.range m, 2 / (k + 1) * kept K k ^ i * nth_last xs (i + 1) := by
  induction m generalizing seed with
  | zero =>
      rw [List.rtake_zero, List.foldl_nil, Finset.sum_range_zero, pow_zero, one_mul, add_zero]
  | succ m ih =>
      rw [rtake_succ h, List.foldl_cons, ih _ (Nat.le_of_succ_le h), Finset.sum_range_succ,
        ema_step, kept]
      ring

theorem ema_eq_sum (hk : 1 ≤ k) (h : k ≤ xs.length) :
    ema_value xs k = ∑ i ∈ Finset.range xs.length, weight K k i * nth_last xs (i + 1) := by
  have hdecay : ∑ i ∈ Finset.range k, (if i < k - 1 then 2 / ((k : K) + 1) * kept K k ^ i else 0) *
      nth_last xs (i + 1) =
      ∑ i ∈ Finset.range (k - 1), 2 / (k + 1) * kept K k ^ i * nth_last xs (i + 1) := by
    rw [sum_range_of_zero (Nat.sub_le k 1)]
    · apply Finset.sum_congr rfl
      intro i hi
      rw [if_pos (Finset.mem_range.mp hi)]
    · intro i hi
      rw [if_neg (by omega), zero_mul]
  have hweights : ∑ i ∈ Finset.range k, weight K k i * nth_last xs (i + 1) =
      ∑ i ∈ Finset.range k, (kept K k ^ (k - 1) / k * nth_last xs (i + 1) +
        (if i < k - 1 then 2 / ((k : K) + 1) * kept K k ^ i else 0) * nth_last xs (i + 1)) := by
    apply Finset.sum_congr rfl
    intro i hi
    rw [weight, if_pos (Finset.mem_range.mp hi), add_mul]
  rw [sum_range_of_zero h, hweights, Finset.sum_add_distrib, hdecay, ← Finset.mul_sum,
    ← sum_rtake h, ema_value, foldl_ema_eq k _ (by omega), ma, mul_div_assoc', div_mul_eq_mul_div]
  intro i hi
  rw [weight, if_neg (by omega), zero_mul]

end Averages

theorem returns_iff {V : Type} {x : Except Raised (Signal V)} {v : V} (h : Returns x (·.1 = v))
    (P : V → Prop) : Returns x (fun signal => P signal.1) ↔ P v := by
  obtain ⟨signal, rfl, rfl⟩ := h
  constructor
  · rintro ⟨signal', heq, hP⟩
    cases heq
    exact hP
  · intro hP
    exact ⟨signal, rfl, hP⟩

variable {K : Type} [Field K] [LinearOrder K] [IsStrictOrderedRing K] {xs : List K} {j k : ℕ}

def Rising (xs : List K) : Prop := xs.Pairwise (· < ·)

def Falling (xs : List K) : Prop := xs.Pairwise (· > ·)

omit [IsStrictOrderedRing K] in
theorem Rising.nth_last_lt (h : Rising xs) (hj : 1 ≤ j) (hjk : j < k) (hk : k ≤ xs.length) :
    nth_last xs k < nth_last xs j := by
  rw [nth_last, nth_last, List.getD_eq_getElem xs 0 (by omega),
    List.getD_eq_getElem xs 0 (by omega)]
  exact List.pairwise_iff_getElem.mp h _ _ (by omega) (by omega) (by omega)

theorem Falling.neg (h : Falling xs) : Rising (xs.map (-1 * ·)) := by
  rw [Rising, List.pairwise_map]
  apply h.imp
  intro a b hab
  linarith

omit [IsStrictOrderedRing K] in
theorem Rising.step (h : Rising xs) :
    ∀ i, i + 1 < xs.length → nth_last xs (i + 1 + 1) ≤ nth_last xs (i + 1) :=
  fun _ hi => (h.nth_last_lt (by omega) (by omega) hi).le

theorem Rising.ma_le (h : Rising xs) (hj : 1 ≤ j) (hjk : j ≤ k) (hk : k ≤ xs.length) :
    ma xs k ≤ ma xs j := by
  rw [ma_eq_sum hk, ma_eq_sum (hjk.trans hk)]
  exact sum_share_mul_le h.step hj hjk hk

theorem Rising.ema_le (h : Rising xs) (hj : 1 ≤ j) (hjk : j ≤ k) (hk : k ≤ xs.length) :
    ema_value xs k ≤ ema_value xs j := by
  rw [ema_eq_sum (hj.trans hjk) hk, ema_eq_sum hj (hjk.trans hk)]
  exact sum_weight_mul_le h.step hj hjk hk

theorem Falling.ma_le (h : Falling xs) (hj : 1 ≤ j) (hjk : j ≤ k) (hk : k ≤ xs.length) :
    ma xs j ≤ ma xs k := by
  have hneg := h.neg.ma_le hj hjk (hk.trans_eq (List.length_map _).symm)
  rw [ma_scale, ma_scale] at hneg
  linarith

theorem Falling.ema_le (h : Falling xs) (hj : 1 ≤ j) (hjk : j ≤ k) (hk : k ≤ xs.length) :
    ema_value xs j ≤ ema_value xs k := by
  have hneg := h.neg.ema_le hj hjk (hk.trans_eq (List.length_map _).symm)
  rw [ema_value_scale, ema_value_scale] at hneg
  linarith

theorem Falling.nth_last_lt (h : Falling xs) (hj : 1 ≤ j) (hjk : j < k) (hk : k ≤ xs.length) :
    nth_last xs j < nth_last xs k := by
  have hneg := h.neg.nth_last_lt hj hjk (hk.trans_eq (List.length_map _).symm)
  rw [nth_last_scale, nth_last_scale] at hneg
  linarith

omit [IsStrictOrderedRing K] in
theorem Rising.lt_last (h : Rising xs) {x : K} (hx : x ∈ xs.dropLast) : x < nth_last xs 1 := by
  obtain ⟨i, hi, rfl⟩ := List.getElem_of_mem hx
  rw [List.length_dropLast] at hi
  rw [List.getElem_dropLast, nth_last, List.getD_eq_getElem xs 0 (by omega)]
  exact List.pairwise_iff_getElem.mp h _ _ (by omega) (by omega) hi

theorem Falling.last_lt (h : Falling xs) {x : K} (hx : x ∈ xs.dropLast) : nth_last xs 1 < x := by
  have hmem : -1 * x ∈ (xs.map (-1 * ·)).dropLast := by
    rw [← List.map_dropLast]
    exact List.mem_map_of_mem hx
  have hneg := h.neg.lt_last hmem
  rw [nth_last_scale] at hneg
  linarith

omit [LinearOrder K] [IsStrictOrderedRing K] in
theorem mem_dropLast_or {x : K} (hx : x ∈ xs) : x ∈ xs.dropLast ∨ x = nth_last xs 1 := by
  obtain ⟨i, hi, rfl⟩ := List.getElem_of_mem hx
  rcases Nat.lt_or_ge i (xs.length - 1) with hlt | hge
  · left
    rw [List.mem_iff_getElem]
    exact ⟨i, by rw [List.length_dropLast]; exact hlt, List.getElem_dropLast _⟩
  · right
    obtain rfl : i = xs.length - 1 := by omega
    rw [nth_last, List.getD_eq_getElem xs 0 hi]

omit [IsStrictOrderedRing K] in
theorem Rising.le_last (h : Rising xs) {x : K} (hx : x ∈ xs) : x ≤ nth_last xs 1 :=
  (mem_dropLast_or hx).elim (fun hmem => (h.lt_last hmem).le) Eq.le

theorem Falling.last_le (h : Falling xs) {x : K} (hx : x ∈ xs) : nth_last xs 1 ≤ x :=
  (mem_dropLast_or hx).elim (fun hmem => (h.last_lt hmem).le) Eq.ge

theorem clamp_nonneg {x : K} (h : 0 ≤ x) : 0 ≤ clamp (-1) 1 x :=
  le_max_of_le_right (le_min zero_le_one h)

theorem clamp_nonpos {x : K} (h : x ≤ 0) : clamp (-1) 1 x ≤ 0 :=
  max_le (neg_nonpos.mpr zero_le_one) ((min_le_right 1 x).trans h)

omit [LinearOrder K] [IsStrictOrderedRing K] in
theorem dual_momentum_eq {short : ℕ} (h : k ≤ xs.length) :
    dual_momentum_value xs short k = (nth_last xs k - nth_last xs short) / nth_last xs k := by
  rw [dual_momentum_value, if_neg (not_lt.mpr h), ← sub_div]
  congr 1
  ring

omit [IsStrictOrderedRing K] in
theorem unless_nonneg {idle : Prop} [Decidable idle] {v : K} (hv : ¬ idle → 0 ≤ v) :
    0 ≤ if idle then 0 else v := by
  split
  next => exact le_rfl
  next hidle => exact hv hidle

omit [IsStrictOrderedRing K] in
theorem unless_nonpos {idle : Prop} [Decidable idle] {v : K} (hv : ¬ idle → v ≤ 0) :
    (if idle then 0 else v) ≤ 0 := by
  split
  next => exact le_rfl
  next hidle => exact hv hidle

theorem breakout_rising (h : Rising xs) (hk : 1 ≤ k) : 0 ≤ breakout_value xs k := by
  apply unless_nonneg
  intro hwarm
  have hwindow : xs.dropLast.rtake k ≠ [] := by
    apply rtake_ne_nil hk
    rw [List.length_dropLast]
    omega
  rw [if_pos (h.lt_last (mem_of_mem_rtake (highest_mem hwindow)))]
  exact zero_le_one

theorem breakout_falling (h : Falling xs) (hk : 1 ≤ k) : breakout_value xs k ≤ 0 := by
  apply unless_nonpos
  intro hwarm
  have hwindow : xs.dropLast.rtake k ≠ [] := by
    apply rtake_ne_nil hk
    rw [List.length_dropLast]
    omega
  have hhigh := h.last_lt (mem_of_mem_rtake (highest_mem hwindow))
  have hlow := h.last_lt (mem_of_mem_rtake (lowest_mem hwindow))
  rw [if_neg (not_lt.mpr hhigh.le), if_pos hlow]
  exact neg_nonpos.mpr zero_le_one

theorem donchian_rising (h : Rising xs) (hk : 1 ≤ k) : 0 ≤ donchian_value xs k := by
  apply unless_nonneg
  intro hwarm
  have hwindow := rtake_ne_nil hk (not_lt.mp hwarm)
  have hhigh := h.le_last (mem_of_mem_rtake (highest_mem hwindow))
  have hlow := lowest_le (highest_mem hwindow)
  apply unless_nonneg
  intro hflat
  apply clamp_nonneg
  apply div_nonneg
  · linarith
  · exact sub_nonneg.mpr hlow

theorem donchian_falling (h : Falling xs) (hk : 1 ≤ k) : donchian_value xs k ≤ 0 := by
  apply unless_nonpos
  intro hwarm
  have hwindow := rtake_ne_nil hk (not_lt.mp hwarm)
  have hlast := h.last_le (mem_of_mem_rtake (lowest_mem hwindow))
  have hlow := lowest_le (highest_mem hwindow)
  apply unless_nonpos
  intro hflat
  apply clamp_nonpos
  apply div_nonpos_of_nonpos_of_nonneg
  · linarith
  · exact sub_nonneg.mpr hlow

section Signs

variable (hpos : ∀ x ∈ xs, 0 < x)
include hpos

omit [IsStrictOrderedRing K] in
theorem nth_last_pos (hk : 1 ≤ k) (h : k ≤ xs.length) : 0 < nth_last xs k :=
  hpos _ (nth_last_mem hk h)

theorem ma_nonneg_of_pos (k : ℕ) : 0 ≤ ma xs k := ma_nonneg fun x hx => (hpos x hx).le

theorem ema_nonneg (hk : 1 ≤ k) (h : k ≤ xs.length) : 0 ≤ ema_value xs k := by
  rw [ema_eq_sum hk h]
  apply Finset.sum_nonneg
  intro i hi
  rw [Finset.mem_range] at hi
  exact mul_nonneg (weight_nonneg hk i) (nth_last_pos hpos (by omega) (by omega)).le

theorem momentum_rising (h : Rising xs) (hk : 1 ≤ k) : 0 ≤ momentum_value xs k := by
  apply unless_nonneg
  intro hwarm
  have hfirst := nth_last_mem hk (not_lt.mp hwarm)
  exact div_nonneg (sub_nonneg.mpr (h.le_last hfirst)) (hpos _ hfirst).le

theorem momentum_falling (h : Falling xs) (hk : 1 ≤ k) : momentum_value xs k ≤ 0 := by
  apply unless_nonpos
  intro hwarm
  have hfirst := nth_last_mem hk (not_lt.mp hwarm)
  exact div_nonpos_of_nonpos_of_nonneg (sub_nonpos.mpr (h.last_le hfirst)) (hpos _ hfirst).le

theorem ma_crossover_rising (h : Rising xs) (hj : 1 ≤ j) (hjk : j ≤ k) :
    0 ≤ ma_crossover_value xs j k := by
  apply unless_nonneg
  intro hwarm
  exact div_nonneg (sub_nonneg.mpr (h.ma_le hj hjk (not_lt.mp hwarm))) (ma_nonneg_of_pos hpos k)

theorem ma_crossover_falling (h : Falling xs) (hj : 1 ≤ j) (hjk : j ≤ k) :
    ma_crossover_value xs j k ≤ 0 := by
  apply unless_nonpos
  intro hwarm
  exact div_nonpos_of_nonpos_of_nonneg (sub_nonpos.mpr (h.ma_le hj hjk (not_lt.mp hwarm)))
    (ma_nonneg_of_pos hpos k)

theorem ema_crossover_rising (h : Rising xs) (hj : 1 ≤ j) (hjk : j ≤ k) :
    0 ≤ ema_crossover_value xs j k := by
  apply unless_nonneg
  intro hwarm
  exact div_nonneg (sub_nonneg.mpr (h.ema_le hj hjk (not_lt.mp hwarm)))
    (ema_nonneg hpos (hj.trans hjk) (not_lt.mp hwarm))

theorem ema_crossover_falling (h : Falling xs) (hj : 1 ≤ j) (hjk : j ≤ k) :
    ema_crossover_value xs j k ≤ 0 := by
  apply unless_nonpos
  intro hwarm
  exact div_nonpos_of_nonpos_of_nonneg (sub_nonpos.mpr (h.ema_le hj hjk (not_lt.mp hwarm)))
    (ema_nonneg hpos (hj.trans hjk) (not_lt.mp hwarm))

/-- Over its whole lookback the dual momentum is the change from the earlier of its
prices to the later one, with the other sign. -/
theorem dual_momentum_rising_iff (h : Rising xs) (hj : 1 ≤ j) (hjk : j < k) :
    0 ≤ dual_momentum_value xs j k ↔ xs.length < k := by
  constructor
  · intro hsign
    by_contra hwarm
    have hfirst := nth_last_pos hpos (hj.trans hjk.le) (not_lt.mp hwarm)
    rw [dual_momentum_eq (not_lt.mp hwarm)] at hsign
    have hlt := h.nth_last_lt hj hjk (not_lt.mp hwarm)
    exact not_lt.mpr hsign (div_neg_of_neg_of_pos (sub_neg.mpr hlt) hfirst)
  · intro hwarm
    rw [dual_momentum_value, if_pos hwarm]

theorem dual_momentum_falling_iff (h : Falling xs) (hj : 1 ≤ j) (hjk : j < k) :
    dual_momentum_value xs j k ≤ 0 ↔ xs.length < k := by
  constructor
  · intro hsign
    by_contra hwarm
    have hfirst := nth_last_pos hpos (hj.trans hjk.le) (not_lt.mp hwarm)
    rw [dual_momentum_eq (not_lt.mp hwarm)] at hsign
    have hlt := h.nth_last_lt hj hjk (not_lt.mp hwarm)
    exact not_lt.mpr hsign (div_pos (sub_pos.mpr hlt) hfirst)
  · intro hwarm
    rw [dual_momentum_value, if_pos hwarm]

end Signs

def TREND_STRATEGIES : List Text :=
  ["momentum".toList, "dual_momentum".toList, "breakout".toList, "donchian_channel".toList,
    "ma_crossover".toList, "ema_crossover".toList]

def trend_algo : PriceAlgo → Bool
  | .momentum | .dual_momentum | .breakout | .donchian_channel | .ma_crossover
  | .ema_crossover => true
  | _ => false

theorem trend_names : ∀ name ∈ TREND_STRATEGIES, ∃ algo, PRICE_ALGOS.lookup name = some algo ∧
    trend_algo algo = true ∧ (algo = .dual_momentum ↔ name = "dual_momentum".toList) := by
  have htable : ∀ name ∈ TREND_STRATEGIES, (PRICE_ALGOS.lookup name).any (fun algo =>
      trend_algo algo &&
        decide (algo = .dual_momentum) == decide (name = "dual_momentum".toList)) = true := by
    decide
  intro name hname
  have h := htable name hname
  rw [Option.any_eq_true] at h
  obtain ⟨algo, hlookup, halgo⟩ := h
  rw [Bool.and_eq_true, beq_iff_eq] at halgo
  exact ⟨algo, hlookup, halgo.1, decide_eq_decide.mp halgo.2⟩

theorem trend_returns {py : Python K} {lookback : ℕ} (hpos : ∀ x ∈ xs, 0 < x)
    (hlookback : 2 ≤ lookback) {algo : PriceAlgo} (h : trend_algo algo = true) :
    Returns (algo.run py xs lookback) (·.1 = algo.value py.sqrt xs lookback) := by
  obtain ⟨hfree, hrooted⟩ : algo.unit_free = true ∧ algo.rooted = false := by
    cases algo <;> first | exact ⟨rfl, rfl⟩ | cases h
  exact algo.run_returns hpos hlookback (by simp [hrooted]) hfree

theorem value_rising_iff {sqrt : K → K} {lookback : ℕ} (hpos : ∀ x ∈ xs, 0 < x)
    (hlookback : 2 ≤ lookback) {algo : PriceAlgo} (h : trend_algo algo = true) (hrise : Rising xs) :
    0 ≤ algo.value sqrt xs lookback ↔ algo ≠ .dual_momentum ∨ xs.length < lookback := by
  have hone : 1 ≤ lookback := by omega
  have hother : algo ≠ .dual_momentum → 0 ≤ algo.value sqrt xs lookback := by
    intro hne
    cases algo with
    | momentum => exact momentum_rising hpos hrise hone
    | dual_momentum => exact absurd rfl hne
    | breakout => exact breakout_rising hrise hone
    | donchian_channel => exact donchian_rising hrise hone
    | ma_crossover => exact ma_crossover_rising hpos hrise (by omega) (by omega)
    | ema_crossover => exact ema_crossover_rising hpos hrise (by omega) (by omega)
    | _ => cases h
  by_cases hdual : algo = .dual_momentum
  · subst hdual
    have hsign := dual_momentum_rising_iff hpos hrise (show 1 ≤ lookback / 2 by omega)
      (show lookback / 2 < lookback by omega)
    exact hsign.trans (or_iff_right (not_not.mpr rfl)).symm
  · exact iff_of_true (hother hdual) (.inl hdual)

theorem value_falling_iff {sqrt : K → K} {lookback : ℕ} (hpos : ∀ x ∈ xs, 0 < x)
    (hlookback : 2 ≤ lookback) {algo : PriceAlgo} (h : trend_algo algo = true)
    (hfall : Falling xs) :
    algo.value sqrt xs lookback ≤ 0 ↔ algo ≠ .dual_momentum ∨ xs.length < lookback := by
  have hone : 1 ≤ lookback := by omega
  have hother : algo ≠ .dual_momentum → algo.value sqrt xs lookback ≤ 0 := by
    intro hne
    cases algo with
    | momentum => exact momentum_falling hpos hfall hone
    | dual_momentum => exact absurd rfl hne
    | breakout => exact breakout_falling hfall hone
    | donchian_channel => exact donchian_falling hfall hone
    | ma_crossover => exact ma_crossover_falling hpos hfall (by omega) (by omega)
    | ema_crossover => exact ema_crossover_falling hpos hfall (by omega) (by omega)
    | _ => cases h
  by_cases hdual : algo = .dual_momentum
  · subst hdual
    have hsign := dual_momentum_falling_iff hpos hfall (show 1 ≤ lookback / 2 by omega)
      (show lookback / 2 < lookback by omega)
    exact hsign.trans (or_iff_right (not_not.mpr rfl)).symm
  · exact iff_of_true (hother hdual) (.inl hdual)

/-- The strategy is not the dual momentum, or its prices do not reach back far enough. -/
def Straight (strategy : Text) (plan : StrategyPlan) (prices : List K) : Prop :=
  strategy_lower strategy ≠ "dual_momentum".toList ∨ prices.length < max 2 plan.lookback

/-- On rising prices no trend strategy is bearish and on falling prices none is bullish,
but for the dual momentum once it is warm. -/
theorem trend_signal_iff (py : Python K) {strategy : Text}
    (hname : strategy_lower strategy ∈ TREND_STRATEGIES) (plan : StrategyPlan) {prices : List K}
    (hpos : ∀ p ∈ prices, 0 < p) (candles : Option (List (Candle K))) :
    (Rising prices →
      (Returns (compute_strategy_signal py strategy plan prices candles) (0 ≤ ·.1) ↔
        Straight strategy plan prices)) ∧
    (Falling prices →
      (Returns (compute_strategy_signal py strategy plan prices candles) (·.1 ≤ 0) ↔
        Straight strategy plan prices)) := by
  obtain ⟨algo, hlookup, htrend, hdual⟩ := trend_names _ hname
  have hlookback : 2 ≤ max 2 plan.lookback := le_max_left 2 plan.lookback
  have hrun : Returns (algo.run py prices (max 2 plan.lookback))
      (·.1 = algo.value py.sqrt prices (max 2 plan.lookback)) :=
    trend_returns hpos hlookback htrend
  have hsignal : compute_strategy_signal py strategy plan prices candles =
      algo.run py prices (max 2 plan.lookback) := by
    simp only [compute_strategy_signal, hlookup]
  have hother : strategy_lower strategy ≠ "dual_momentum".toList ↔ algo ≠ .dual_momentum :=
    not_congr hdual.symm
  rw [hsignal, Straight, hother]
  constructor
  · intro hrise
    exact (returns_iff hrun (0 ≤ ·)).trans (value_rising_iff hpos hlookback htrend hrise)
  · intro hfall
    exact (returns_iff hrun (· ≤ 0)).trans (value_falling_iff hpos hlookback htrend hfall)

/-- Text for the numbers of the examples. -/
def py : Python ℚ where
  sqrt := id
  fixed _ x := if x = 0 then "0.0000".toList else if x = 2 then "2.0000".toList else "0.5000".toList
  signed _ := []
  plain _ := []

def plan (lookback : ℕ) : StrategyPlan := ⟨"dual_momentum".toList, lookback, 0, 1⟩

theorem rising_prices : Rising [(1 : ℚ), 2, 3] ∧ ∀ p ∈ [(1 : ℚ), 2, 3], 0 < p := by
  constructor
  · rw [Rising]
    decide
  · decide

theorem momentum_points_up :
    Returns (compute_strategy_signal py "Momentum".toList (plan 2) [1, 2, 3] none) (0 ≤ ·.1) :=
  ((trend_signal_iff py (by decide) (plan 2) rising_prices.2 none).1 rising_prices.1).mpr
    (.inl (by decide))

/-- Three rising prices make the dual momentum bearish. -/
theorem dual_momentum_points_down :
    Rising [(1 : ℚ), 2, 3] ∧ (∀ p ∈ [(1 : ℚ), 2, 3], 0 < p) ∧
    compute_strategy_signal py "dual_momentum".toList (plan 3) [1, 2, 3] none =
      .ok (-2, "dual_mom short=0.0000 long=2.0000".toList) ∧
    ¬ Returns (compute_strategy_signal py "dual_momentum".toList (plan 3) [1, 2, 3] none)
      (0 ≤ ·.1) := by
  have hsignal : compute_strategy_signal py "dual_momentum".toList (plan 3) [1, 2, 3] none =
      .ok (-2, "dual_mom short=0.0000 long=2.0000".toList) := by
    decide +kernel
  refine ⟨rising_prices.1, rising_prices.2, hsignal, ?_⟩
  rw [hsignal]
  rintro ⟨signal, heq, hsign⟩
  cases heq
  revert hsign
  decide

end ArticTrader.TrendSigns
