import ArticTrader.BacktestDatasets

/-!
The sample of an equity curve that the publish route answers, for any number of
points.
-/

namespace ArticTrader.EquitySamples

open ArticTrader.BacktestDatasets

/-- `_sample_equity` -/
def sample_equity (curve : List ℚ) (max_points : ℕ) : List ℚ :=
  if curve.length ≤ max_points then curve
  else
    let sampled := every (max 1 (curve.length / max_points)) curve
    let sampled :=
      if sampled.getLast? ≠ curve.getLast? then sampled ++ curve.getLast?.toList else sampled
    sampled.take max_points

theorem sample_equity_default (curve : List ℚ) :
    BacktestDatasets.sample_equity curve = sample_equity curve EQUITY_SAMPLE_POINTS :=
  rfl

/-- What a sample of at most `max_points` points is for. -/
structure Spans (max_points : ℕ) (curve sample : List ℚ) : Prop where
  at_most : sample.length ≤ max_points
  sublist : sample.Sublist curve
  first : sample.head? = curve.head?
  last : sample.getLast? = curve.getLast?

variable {step max_points : ℕ} {curve : List ℚ}

theorem every_nil (step : ℕ) : every step [] = [] := rfl

theorem every_concat (step : ℕ) (curve : List ℚ) (v : ℚ) :
    every step (curve ++ [v]) =
      every step curve ++ if curve.length % step = 0 then [v] else [] := by
  unfold every
  rw [List.length_append, List.length_singleton, List.range_succ, List.filterMap_append]
  congr 1
  · apply List.filterMap_congr
    intro i hi
    rw [List.getElem?_append_left (List.mem_range.mp hi)]
  · rw [List.filterMap_cons, List.getElem?_concat_length]
    split_ifs <;> rfl

theorem every_sublist (step : ℕ) (curve : List ℚ) : (every step curve).Sublist curve := by
  induction curve using List.reverseRecOn with
  | nil => exact List.Sublist.slnil
  | append_singleton curve v ih =>
      rw [every_concat]
      apply ih.append
      split_ifs
      · exact List.Sublist.refl [v]
      · exact List.nil_sublist [v]

theorem multiple_eq {n m step : ℕ} (hle : n ≤ m * step) (hlt : m * step < n + step)
    (hmod : n % step = 0) : m * step = n := by
  have hdvd : step ∣ m * step - n :=
    Nat.dvd_sub (Nat.dvd_mul_left step m) (Nat.dvd_of_mod_eq_zero hmod)
  have hzero : m * step - n = 0 := Nat.eq_zero_of_dvd_of_lt hdvd (by omega)
  omega

/-- The next multiple of the step is not in the curve, the last one is. -/
theorem length_every (hstep : 0 < step) (curve : List ℚ) :
    curve.length ≤ (every step curve).length * step ∧
      (every step curve).length * step < curve.length + step := by
  induction curve using List.reverseRecOn with
  | nil => simpa [every_nil] using hstep
  | append_singleton curve v ih =>
      obtain ⟨hle, hlt⟩ := ih
      rw [every_concat, List.length_append, List.length_append, List.length_singleton]
      split_ifs with hmod
      · have heq := multiple_eq hle hlt hmod
        rw [List.length_singleton, Nat.add_mul, Nat.one_mul]
        omega
      · have hne : curve.length ≠ (every step curve).length * step := by
          intro heq
          rw [heq, Nat.mul_mod_left] at hmod
          exact hmod rfl
        simp only [List.length_nil, Nat.add_zero]
        omega

theorem getElem?_every (hstep : 0 < step) (curve : List ℚ) (k : ℕ) :
    (every step curve)[k]? = curve[k * step]? := by
  induction curve using List.reverseRecOn with
  | nil => rfl
  | append_singleton curve v ih =>
      obtain ⟨hle, hlt⟩ := length_every hstep curve
      rw [every_concat]
      rcases Nat.lt_or_ge k (every step curve).length with hold | hnew
      · have hkept : curve[k * step]? = some (every step curve)[k] := by
          rw [← ih, List.getElem?_eq_getElem hold]
        have hin := (List.getElem?_eq_some_iff.mp hkept).1
        rw [List.getElem?_append_left hold, List.getElem?_append_left hin, ih]
      · obtain ⟨j, rfl⟩ := Nat.exists_eq_add_of_le hnew
        have hpast : curve.length ≤ ((every step curve).length + j) * step := by
          rw [Nat.add_mul]
          omega
        rw [List.getElem?_append_right hnew, List.getElem?_append_right hpast,
          Nat.add_sub_cancel_left, Nat.add_mul]
        split_ifs with hmod
        · rw [multiple_eq hle hlt hmod, Nat.add_sub_cancel_left, List.getElem?_singleton,
            List.getElem?_singleton]
          simp only [Nat.mul_eq_zero, hstep.ne', or_false]
        · have hne : (every step curve).length * step ≠ curve.length := by
            intro heq
            rw [← heq, Nat.mul_mod_left] at hmod
            exact hmod rfl
          rw [List.getElem?_nil, List.getElem?_singleton, if_neg (by omega)]

/-- There are points enough at the step to fill the sample. -/
theorem max_points_le_length_every (hmax : 0 < max_points) (hlong : max_points < curve.length) :
    max_points ≤ (every (curve.length / max_points) curve).length := by
  have hstep : 0 < curve.length / max_points := Nat.div_pos hlong.le hmax
  have hfull : max_points * (curve.length / max_points) ≤ curve.length :=
    Nat.mul_div_le curve.length max_points
  exact Nat.le_of_mul_le_mul_right (hfull.trans (length_every hstep curve).1) hstep

/-- The last point that is appended is always cut off again. -/
theorem sample_equity_of_long (hmax : 0 < max_points) (hlong : max_points < curve.length) :
    sample_equity curve max_points =
      (every (curve.length / max_points) curve).take max_points := by
  have hstep : 1 ≤ curve.length / max_points := Nat.div_pos hlong.le hmax
  have hfull := max_points_le_length_every hmax hlong
  unfold sample_equity
  rw [if_neg (not_le.mpr hlong), max_eq_right hstep]
  dsimp only
  split_ifs
  · rw [List.take_append_of_le_length hfull]
  · rfl

theorem length_sample_equity_of_long (hmax : 0 < max_points) (hlong : max_points < curve.length) :
    (sample_equity curve max_points).length = max_points := by
  rw [sample_equity_of_long hmax hlong, List.length_take,
    min_eq_left (max_points_le_length_every hmax hlong)]

theorem getElem?_sample_equity_of_long (hmax : 0 < max_points)
    (hlong : max_points < curve.length) {k : ℕ} (hk : k < max_points) :
    (sample_equity curve max_points)[k]? = curve[k * (curve.length / max_points)]? := by
  rw [sample_equity_of_long hmax hlong, List.getElem?_take_of_lt hk,
    getElem?_every (Nat.div_pos hlong.le hmax)]

theorem getLast?_sample_equity_of_long (hmax : 0 < max_points)
    (hlong : max_points < curve.length) :
    (sample_equity curve max_points).getLast? =
      curve[(max_points - 1) * (curve.length / max_points)]? := by
  rw [List.getLast?_eq_getElem?, length_sample_equity_of_long hmax hlong,
    getElem?_sample_equity_of_long hmax hlong (by omega)]

theorem spans_of_long_iff (hmax : 0 < max_points) (hlong : max_points < curve.length) :
    Spans max_points curve (sample_equity curve max_points) ↔
      curve[(max_points - 1) * (curve.length / max_points)]? = curve.getLast? := by
  rw [← getLast?_sample_equity_of_long hmax hlong]
  refine ⟨Spans.last, fun h => ⟨(length_sample_equity_of_long hmax hlong).le, ?_, ?_, h⟩⟩
  · rw [sample_equity_of_long hmax hlong]
    exact (List.take_sublist max_points _).trans (every_sublist _ curve)
  · rw [List.head?_eq_getElem?, getElem?_sample_equity_of_long hmax hlong hmax, Nat.zero_mul,
      List.head?_eq_getElem?]

theorem spans_of_short (h : curve.length ≤ max_points) :
    Spans max_points curve (sample_equity curve max_points) := by
  unfold sample_equity
  rw [if_pos h]
  exact ⟨h, List.Sublist.refl curve, rfl, rfl⟩

theorem spans_iff (hmax : 0 < max_points) (curve : List ℚ) :
    Spans max_points curve (sample_equity curve max_points) ↔
      curve.length ≤ max_points ∨
        curve[(max_points - 1) * (curve.length / max_points)]? = curve.getLast? := by
  rcases Nat.lt_or_ge max_points curve.length with hlong | hshort
  · rw [or_iff_right (not_le.mpr hlong)]
    exact spans_of_long_iff hmax hlong
  · exact iff_of_true (spans_of_short hshort) (.inl hshort)

/-- The sample spans the curve exactly where nothing is left out, or the last point that
the stride picks is as high as the last one of the curve. -/
theorem sample_equity_spans_iff {max_points : ℕ} (hmax : 2 ≤ max_points) (curve : List ℚ) :
    Spans max_points curve (sample_equity curve max_points) ↔
      curve.length ≤ max_points ∨
        curve[(max_points - 1) * (curve.length / max_points)]? = curve.getLast? :=
  spans_iff (zero_lt_two.trans_le hmax) curve

/-- Two points out of four. -/
theorem sample_of_two :
    Spans 2 [1, 3, 2, 2] (sample_equity [1, 3, 2, 2] 2) :=
  (sample_equity_spans_iff le_rfl [1, 3, 2, 2]).mpr (.inr (by decide))

/-- What a response samples spans the curve of its backtest under the same condition. -/
theorem response_sample_spans_iff (env : Env) (body : ValidateAndBacktestBody)
    (period_start period_end : Datetimes.Datetime) (result : Result) :
    Spans EQUITY_SAMPLE_POINTS result.equity_curve
        (response env body period_start period_end result).equity_curve_sample ↔
      result.equity_curve.length ≤ EQUITY_SAMPLE_POINTS ∨
        result.equity_curve[99 * (result.equity_curve.length / EQUITY_SAMPLE_POINTS)]? =
          result.equity_curve.getLast? := by
  unfold response
  rw [sample_equity_default]
  exact spans_iff (by decide) result.equity_curve

/-- A hundred and fifty points that rise by one. -/
def rising : List ℚ := (List.range 150).map fun n => 1000 + (n : ℚ)

/-- The sample of a rising curve stops at its hundredth point. -/
theorem sample_equity_of_rising :
    (sample_equity rising 100).getLast? = some 1099 ∧ rising.getLast? = some 1149 ∧
    ¬ Spans 100 rising (sample_equity rising 100) := by
  have hsample : (sample_equity rising 100).getLast? = some 1099 := by decide +kernel
  have hcurve : rising.getLast? = some 1149 := by decide +kernel
  refine ⟨hsample, hcurve, fun h => ?_⟩
  have hlast := h.last
  rw [hsample, hcurve] at hlast
  exact absurd hlast (by decide)

end ArticTrader.EquitySamples
