import ArticTrader.StrategySignals

/-!
The numbers of the signals on the history of prices, as functions of the windows
that the algorithms read.
-/

namespace ArticTrader.SignalValues

open ArticTrader.MomentumAlgos
open ArticTrader.Numerals
open ArticTrader.PythonSequences
open ArticTrader.PythonText (Text)
open ArticTrader.ReversionAlgos
open ArticTrader.StrategySignals

variable {K : Type} [Field K] [LinearOrder K]

def momentum_value (xs : List K) (k : ℕ) : K :=
  if xs.length < k then 0 else (nth_last xs 1 - nth_last xs k) / nth_last xs k

def dual_momentum_value (xs : List K) (short long : ℕ) : K :=
  if xs.length < long then 0
  else
    (nth_last xs 1 - nth_last xs short) / nth_last xs long -
      (nth_last xs 1 - nth_last xs long) / nth_last xs long

def breakout_value (xs : List K) (k : ℕ) : K :=
  if xs.length < k + 1 then 0
  else if highest (xs.dropLast.rtake k) < nth_last xs 1 then 1
  else if nth_last xs 1 < lowest (xs.dropLast.rtake k) then -1
  else 0

def donchian_value (xs : List K) (k : ℕ) : K :=
  if xs.length < k then 0
  else
    let high := highest (xs.rtake k)
    let low := lowest (xs.rtake k)
    if high = low then 0 else clamp (-1) 1 ((nth_last xs 1 - (high + low) / 2) / (high - low))

def ma (xs : List K) (k : ℕ) : K := (xs.rtake k).sum / k

def ma_crossover_value (xs : List K) (fast slow : ℕ) : K :=
  if xs.length < slow then 0 else (ma xs fast - ma xs slow) / ma xs slow

def ema_step (k : ℕ) (average price : K) : K :=
  price * (2 / (k + 1)) + average * (1 - 2 / (k + 1))

def ema_value (xs : List K) (k : ℕ) : K := (xs.rtake (k - 1)).foldl (ema_step k) (ma xs k)

def ema_crossover_value (xs : List K) (fast slow : ℕ) : K :=
  if xs.length < slow then 0 else (ema_value xs fast - ema_value xs slow) / ema_value xs slow

def series (xs : List K) (k : ℕ) : List K :=
  (xs.drop k).scanl (ema_step k) ((xs.take k).sum / k)

def macd_line (xs : List K) (fast slow : ℕ) : List K :=
  List.zipWith (fun f s => f - s) ((series xs fast).drop (slow - fast)) (series xs slow)

def macd_value (xs : List K) (fast slow period : ℕ) : K :=
  if xs.length < slow + period then 0
  else
    let line := macd_line xs fast slow
    clamp (-1) 1 ((nth_last line 1 - ma line period) / (nth_last xs 1 * (1 / 100)))

def mean (xs : List K) : K := xs.sum / xs.length

def variance (xs : List K) : K := (xs.map fun x => (x - mean xs) ^ 2).sum / xs.length

def std (sqrt : K → K) (var : K) : K := if 0 < var then sqrt var else 1 / 10 ^ 10

def z_value (sqrt : K → K) (xs : List K) (k : ℕ) : K :=
  if xs.length < k then 0
  else
    let window := xs.rtake k
    clamp (-2) 2 (-((nth_last xs 1 - mean window) / std sqrt (variance window)))

def bollinger_value (sqrt : K → K) (xs : List K) (k : ℕ) (num_std : K) : K :=
  if xs.length < k then 0
  else
    let window := xs.rtake k
    clamp (-1) 1 (-((nth_last xs 1 - mean window) / (num_std * std sqrt (variance window))))

def changes (xs : List K) : List K :=
  List.zipWith (fun previous price => price - previous) xs xs.tail

def rsi (xs : List K) (k : ℕ) : K :=
  let gain := ma ((changes xs).map fun ch => if 0 < ch then ch else 0) k
  let loss := ma ((changes xs).map fun ch => if ch < 0 then -ch else 0) k
  if loss = 0 then 100 else 100 - 100 / (1 + gain / loss)

def rsi_value (xs : List K) (k : ℕ) (overbought oversold : K) : K :=
  if xs.length < k + 1 then 0
  else
    clamp (-1) 1
      (if rsi xs k ≤ oversold then 1 / 2
       else if overbought ≤ rsi xs k then -1 / 2
       else (50 - rsi xs k) / 50)

def range_value (xs : List K) (k : ℕ) : K :=
  if xs.length < k then 0
  else
    let high := highest (xs.rtake k)
    let low := lowest (xs.rtake k)
    if high = low then 0 else clamp (-1) 1 (1 / 2 - (nth_last xs 1 - low) / (high - low))

def places (k : ℕ) : List K := (List.range k).map fun i : ℕ => (i : K)

/-- The determinant of the normal equations of the regression over `k` places. -/
def determinant (K : Type) [Field K] (k : ℕ) : K :=
  k * ((places k).map fun x : K => x * x).sum - (places k).sum * (places k).sum

def line_slope (y : List K) : K :=
  (y.length * (List.zipWith (fun x y => x * y) (places y.length) y).sum -
    (places y.length).sum * y.sum) / determinant K y.length

def line_intercept (y : List K) : K := (y.sum - line_slope y * (places y.length).sum) / y.length

def residuals (y : List K) : List K :=
  List.zipWith (fun x yi => yi - (line_intercept y + line_slope y * x)) (places y.length) y

def regression_value (sqrt : K → K) (xs : List K) (k : ℕ) : K :=
  if xs.length < k ∨ determinant K k = 0 then 0
  else
    let y := xs.rtake k
    let var := ((residuals y).map fun r => r * r).sum / k
    clamp (-2) 2 (-((nth_last xs 1 - (line_intercept y + line_slope y * (k - 1))) / std sqrt var))

variable {py : Python K} {xs : List K} {k : ℕ}

omit [LinearOrder K] in
/-- A signal that is zero in one case. -/
theorem returns_unless {idle : Prop} [Decidable idle] {detail : Text}
    {x : Except Raised (Signal K)} {v : K} (hx : ¬ idle → Returns x (·.1 = v)) :
    Returns (if idle then pure (0, detail) else x) (·.1 = if idle then 0 else v) := by
  by_cases hidle : idle
  · rw [if_pos hidle, if_pos hidle]
    exact returns_ok rfl
  · rw [if_neg hidle, if_neg hidle]
    exact hx hidle

/-- A quotient that is zero where there is nothing to divide by. -/
theorem returns_quotient {a b : K} {invalid : Text} {detail : K → Text} :
    Returns (if b = 0 then pure (0, invalid)
      else divide a b >>= fun signal => pure (signal, detail signal)) (·.1 = a / b) := by
  apply returns_ite
  · intro hzero
    apply returns_ok
    rw [hzero, div_zero]
  · intro hne
    rw [divide_eq hne, ok_bind]
    exact returns_ok rfl

theorem simple_momentum_returns (hk : 1 ≤ k) :
    Returns (simple_momentum py xs k) (·.1 = momentum_value xs k) := by
  rw [simple_momentum, momentum_value]
  by_cases hwarm : xs.length < k
  · rw [if_pos (.inl hwarm), if_pos hwarm]
    exact returns_ok rfl
  · rw [if_neg (by omega), if_neg hwarm, index_nth_last hk (by omega), ok_bind,
      index_last (by omega), ok_bind]
    exact returns_quotient

theorem dual_momentum_returns {short : ℕ} (hshort : 1 ≤ short) (hle : short ≤ k) :
    Returns (dual_momentum py xs short k) (·.1 = dual_momentum_value xs short k) := by
  rw [dual_momentum, dual_momentum_value]
  apply returns_unless
  intro hwarm
  have hread := index_nth_last hshort (show short ≤ xs.length by omega)
  have hfirst := index_nth_last (show 1 ≤ k by omega) (show k ≤ xs.length by omega)
  have hlast := index_last (show 1 ≤ xs.length by omega)
  simp only [if_pos (show short ≤ xs.length by omega), hlast, hread, hfirst, ok_bind]
  apply returns_ite
  · intro hzero
    apply returns_ok
    rw [hzero, div_zero, div_zero, sub_zero]
  · intro hne
    rw [divide_eq hne, ok_bind, divide_eq hne, ok_bind]
    exact returns_ok rfl

theorem breakout_returns (hk : 1 ≤ k) :
    Returns (breakout py xs k) (·.1 = breakout_value xs k) := by
  rw [breakout, breakout_value]
  apply returns_unless
  intro hwarm
  have hwindow : xs.dropLast.rtake k ≠ [] := by
    apply rtake_ne_nil hk
    rw [List.length_dropLast]
    omega
  have hlast := index_last (show 1 ≤ xs.length by omega)
  simp only [slice_before_last, maximum_eq hwindow, minimum_eq hwindow, hlast, ok_bind]
  split_ifs
  · exact returns_ok rfl
  · exact returns_ok rfl
  · exact returns_ok rfl

theorem donchian_channel_returns [IsStrictOrderedRing K] (hk : 1 ≤ k) (hpos : ∀ x ∈ xs, 0 < x) :
    Returns (donchian_channel py xs k) (·.1 = donchian_value xs k) := by
  rw [donchian_channel, donchian_value]
  apply returns_unless
  intro hwarm
  have hwindow : xs.rtake k ≠ [] := rtake_ne_nil hk (by omega)
  have hhigh := hpos _ (mem_of_mem_rtake (highest_mem hwindow))
  have hlow := hpos _ (mem_of_mem_rtake (lowest_mem hwindow))
  have hmid := (half_pos (add_pos hhigh hlow)).ne'
  have hlast := index_last (show 1 ≤ xs.length by omega)
  simp only [slice_back xs hk, maximum_eq hwindow, minimum_eq hwindow, hlast, ok_bind,
    if_neg hmid]
  apply returns_unless
  intro hne
  rw [divide_eq (sub_ne_zero.mpr hne), ok_bind]
  exact returns_ok rfl

theorem ma_eq (hk : 1 ≤ k) (hx : (k : K) ≠ 0) :
    divide (slice xs (some (-k)) none).sum (k : K) = .ok (ma xs k) := by
  rw [slice_back xs hk, divide_eq hx]
  rfl

omit [LinearOrder K] in
theorem foldl_series (k : ℕ) (out : List K) (average : K) (xs : List K) :
    xs.foldl (fun state price => (state.1 ++ [ema_step k state.2 price], ema_step k state.2 price))
        (out, average) =
      (out ++ (xs.scanl (ema_step k) average).tail, xs.foldl (ema_step k) average) := by
  induction xs generalizing out average with
  | nil => simp
  | cons price xs ih =>
      rw [List.foldl_cons, ih, List.scanl_cons, List.foldl_cons]
      simp only [List.tail_cons, List.append_assoc]
      cases xs with
      | nil => rfl
      | cons next xs => simp [List.scanl_cons]

omit [LinearOrder K] in
theorem length_series (xs : List K) (k : ℕ) : (series xs k).length = xs.length - k + 1 := by
  rw [series, List.length_scanl, List.length_drop]

omit [LinearOrder K] in
theorem length_macd_line {fast slow : ℕ} (hle : fast ≤ slow) (h : slow ≤ xs.length) :
    (macd_line xs fast slow).length = xs.length - slow + 1 := by
  rw [macd_line, List.length_zipWith, List.length_drop, length_series, length_series]
  omega

variable [IsStrictOrderedRing K]

theorem cast_ne_zero (hk : 1 ≤ k) : (k : K) ≠ 0 := Nat.cast_ne_zero.mpr (by omega)

theorem ma_crossover_returns {fast : ℕ} (hfast : 1 ≤ fast) (hk : 1 ≤ k) :
    Returns (ma_crossover py xs fast k) (·.1 = ma_crossover_value xs fast k) := by
  rw [ma_crossover, ma_crossover_value]
  apply returns_unless
  intro hwarm
  rw [ma_eq hfast (cast_ne_zero hfast), ok_bind, ma_eq hk (cast_ne_zero hk), ok_bind]
  exact returns_quotient

theorem ema_eq (hk : 1 ≤ k) (h : k ≤ xs.length) : ema xs k = .ok (some (ema_value xs k)) := by
  have hstart : -(k : ℤ) + 1 = -(k - 1 : ℕ) := by omega
  rw [ema, if_neg (by omega), divide_eq (Nat.cast_add_one_ne_zero k), ok_bind,
    ma_eq hk (cast_ne_zero hk), ok_bind, hstart,
    foldlM_index_back (by omega) fun average price : K =>
      pure (price * (2 / ((k : K) + 1)) + average * (1 - 2 / ((k : K) + 1))),
    List.foldlM_pure]
  rfl

theorem ema_crossover_returns {fast : ℕ} (hfast : 1 ≤ fast) (hle : fast ≤ k) :
    Returns (ema_crossover py xs fast k) (·.1 = ema_crossover_value xs fast k) := by
  rw [ema_crossover, ema_crossover_value]
  apply returns_unless
  intro hwarm
  rw [ema_eq hfast (by omega), ok_bind, ema_eq (by omega) (by omega), ok_bind]
  exact returns_quotient

theorem ema_series_eq (hk : 1 ≤ k) (h : k ≤ xs.length) : ema_series xs k = .ok (series xs k) := by
  have hloop : (int_range k xs.length).foldlM (fun (state : List K × K) i =>
        index xs i >>= fun price : K => (pure (state.1 ++ [ema_step k state.2 price],
          ema_step k state.2 price) : Except Raised (List K × K)))
        ([(xs.take k).sum / k], (xs.take k).sum / k) =
      .ok (series xs k, (xs.drop k).foldl (ema_step k) ((xs.take k).sum / k)) := by
    rw [foldlM_index h fun (state : List K × K) price =>
      pure (state.1 ++ [ema_step k state.2 price], ema_step k state.2 price), List.foldlM_pure,
      foldl_series, series]
    cases xs.drop k with
    | nil => rfl
    | cons price rest =>
        rw [List.scanl_cons]
        rfl
  rw [ema_series, divide_eq (Nat.cast_add_one_ne_zero k), ok_bind, slice_front,
    divide_eq (cast_ne_zero hk), ok_bind]
  exact congrArg (· >>= fun state => pure state.1) hloop

omit [LinearOrder K] [IsStrictOrderedRing K] in
theorem macd_line_eq {fast slow : ℕ} (hle : fast ≤ slow) (h : slow ≤ xs.length) :
    ((int_range 0 (series xs slow).length).mapM fun j => do
      let f ← index (series xs fast) (j + slow - fast)
      let s ← index (series xs slow) j
      return f - s) = .ok (macd_line xs fast slow) := by
  apply mapM_int_range
  · rw [length_macd_line hle h, length_series]
    omega
  · intro i hi
    rw [length_macd_line hle h] at hi
    have hplace : 0 + (i : ℤ) + slow - fast = (slow - fast + i : ℕ) := by omega
    have hf : slow - fast + i < (series xs fast).length := by
      rw [length_series]
      omega
    have hs : i < (series xs slow).length := by
      rw [length_series]
      omega
    rw [hplace, index_nat hf, ok_bind, zero_add, index_nat hs, ok_bind]
    simp only [macd_line, List.getElem_zipWith, List.getElem_drop]
    rfl

theorem macd_signal_returns {fast slow period : ℕ} (hfast : 1 ≤ fast) (hle : fast ≤ slow)
    (hperiod : 1 ≤ period) (hpos : ∀ x ∈ xs, 0 < x) :
    Returns (macd_signal py xs fast slow period) (·.1 = macd_value xs fast slow period) := by
  rw [macd_signal, macd_value]
  apply returns_unless
  intro hwarm
  have hline := length_macd_line hle (show slow ≤ xs.length by omega)
  have hlast := hpos _ (nth_last_mem le_rfl (show 1 ≤ xs.length by omega))
  have hscale : nth_last xs 1 * (1 / 100) ≠ 0 := (mul_pos hlast (by norm_num)).ne'
  rw [ema_series_eq hfast (by omega), ok_bind, ema_series_eq (by omega) (by omega), ok_bind,
    macd_line_eq hle (by omega), ok_bind, if_neg (by omega), ma_eq hperiod (cast_ne_zero hperiod),
    ok_bind, index_last (by omega), ok_bind]
  simp only [index_last (show 1 ≤ xs.length by omega), ok_bind, if_pos hlast.ne', if_pos hscale,
    divide_eq hscale]
  exact returns_ok rfl

theorem average_eq (h : xs ≠ []) : average xs = .ok (mean xs) := by
  apply divide_eq
  exact cast_ne_zero (List.length_pos_iff.mpr h)

omit [IsStrictOrderedRing K] in
theorem deviation_eq (py : Python K) (var : K) : deviation py var = .ok (std py.sqrt var) := by
  rw [deviation, std]
  split
  next hpos => exact square_root_eq hpos.le
  next => rfl

theorem spread_eq (py : Python K) (h : xs ≠ []) :
    spread py xs = .ok (mean xs, std py.sqrt (variance xs)) := by
  rw [spread, average_eq h, ok_bind, divide_eq (cast_ne_zero (List.length_pos_iff.mpr h)), ok_bind,
    deviation_eq, ok_bind]
  rfl

/-- The root of a positive number is not zero. -/
def Rooted (sqrt : K → K) : Prop := ∀ x, 0 < x → 0 < sqrt x

theorem std_pos {sqrt : K → K} (hsqrt : Rooted sqrt) (var : K) : 0 < std sqrt var := by
  rw [std]
  split
  next hpos => exact hsqrt var hpos
  next => exact div_pos one_pos (pow_pos (by norm_num) 10)

theorem z_score_returns (hsqrt : Rooted py.sqrt) (hk : 1 ≤ k) :
    Returns (z_score py xs k) (·.1 = z_value py.sqrt xs k) := by
  rw [z_score, z_value]
  apply returns_unless
  intro hwarm
  simp only [slice_back xs hk, spread_eq py (rtake_ne_nil hk (not_lt.mp hwarm)),
    index_last (show 1 ≤ xs.length by omega), ok_bind, divide_eq (std_pos hsqrt _).ne']
  exact returns_ok rfl

theorem bollinger_reversion_returns (hsqrt : Rooted py.sqrt) (hk : 1 ≤ k) {num_std : K}
    (hnum : 0 < num_std) :
    Returns (bollinger_reversion py xs k num_std) (·.1 = bollinger_value py.sqrt xs k num_std) := by
  rw [bollinger_reversion, bollinger_value]
  apply returns_unless
  intro hwarm
  have hstd := std_pos hsqrt (variance (xs.rtake k))
  have hband := mul_pos hnum hstd
  simp only [slice_back xs hk, spread_eq py (rtake_ne_nil hk (not_lt.mp hwarm)),
    index_last (show 1 ≤ xs.length by omega), ok_bind, divide_eq hband.ne', if_pos hstd.ne']
  rw [if_neg (by linarith)]
  exact returns_ok rfl

omit [LinearOrder K] [IsStrictOrderedRing K] in
theorem length_changes (xs : List K) : (changes xs).length = xs.length - 1 := by
  rw [changes, List.length_zipWith, List.length_tail]
  omega

omit [LinearOrder K] [IsStrictOrderedRing K] in
theorem changes_eq (h : 1 ≤ xs.length) :
    ((int_range 1 xs.length).mapM fun i => do
      let price ← index xs i
      let previous ← index xs (i - 1)
      return price - previous) = .ok (changes xs) := by
  apply mapM_int_range
  · rw [length_changes]
    omega
  · intro i hi
    rw [length_changes] at hi
    have hprice : (1 : ℤ) + i = (i + 1 : ℕ) := by omega
    have hprevious : ((i + 1 : ℕ) : ℤ) - 1 = i := by omega
    rw [hprice, index_nat (show i + 1 < xs.length by omega), ok_bind, hprevious,
      index_nat (show i < xs.length by omega), ok_bind]
    simp only [changes, List.getElem_zipWith, List.getElem_tail]
    rfl

theorem ma_nonneg (h : ∀ x ∈ xs, 0 ≤ x) : 0 ≤ ma xs k :=
  div_nonneg (List.sum_nonneg fun x hx => h x (mem_of_mem_rtake hx)) (Nat.cast_nonneg k)

theorem gain_nonneg (xs : List K) (k : ℕ) :
    0 ≤ ma ((changes xs).map fun ch => if 0 < ch then ch else 0) k := by
  apply ma_nonneg
  intro x hx
  obtain ⟨ch, -, rfl⟩ := List.mem_map.mp hx
  split
  next hpos => exact hpos.le
  next => exact le_rfl

theorem loss_nonneg (xs : List K) (k : ℕ) :
    0 ≤ ma ((changes xs).map fun ch => if ch < 0 then -ch else 0) k := by
  apply ma_nonneg
  intro x hx
  obtain ⟨ch, -, rfl⟩ := List.mem_map.mp hx
  split
  next hneg => exact (neg_pos.mpr hneg).le
  next => exact le_rfl

theorem rsi_signal_returns (hk : 1 ≤ k) (overbought oversold : K) :
    Returns (rsi_signal py xs k overbought oversold)
      (·.1 = rsi_value xs k overbought oversold) := by
  rw [rsi_signal, rsi_value]
  apply returns_unless
  intro hwarm
  have hgain := gain_nonneg xs k
  have hloss := loss_nonneg xs k
  rw [changes_eq (by omega), ok_bind]
  simp only [ma_eq hk (cast_ne_zero hk), ok_bind]
  by_cases hzero : ma ((changes xs).map fun ch => if ch < 0 then -ch else 0) k = 0
  · have hrsi : rsi xs k = 100 := if_pos hzero
    rw [if_pos hzero, hrsi]
    exact returns_ok rfl
  · have hquotient := div_nonneg hgain hloss
    have hrsi : rsi xs k = 100 - 100 / (1 + _) := if_neg hzero
    rw [if_neg hzero, divide_eq hzero, ok_bind, divide_eq (by positivity), ok_bind, hrsi]
    exact returns_ok rfl

omit [IsStrictOrderedRing K] in
theorem range_sr_returns (hk : 1 ≤ k) : Returns (range_sr py xs k) (·.1 = range_value xs k) := by
  rw [range_sr, range_value]
  apply returns_unless
  intro hwarm
  have hwindow := rtake_ne_nil hk (not_lt.mp hwarm)
  simp only [slice_back xs hk, maximum_eq hwindow, minimum_eq hwindow,
    index_last (show 1 ≤ xs.length by omega), ok_bind]
  apply returns_unless
  intro hne
  rw [divide_eq (sub_ne_zero.mpr hne), ok_bind]
  exact returns_ok rfl

omit [LinearOrder K] [IsStrictOrderedRing K] in
theorem length_places (k : ℕ) : (places k : List K).length = k := by
  rw [places, List.length_map, List.length_range]

omit [LinearOrder K] [IsStrictOrderedRing K] in
theorem length_residuals (y : List K) : (residuals y).length = y.length := by
  rw [residuals, List.length_zipWith, length_places, min_self]

theorem linear_regression_channel_returns (hsqrt : Rooted py.sqrt) (hk : 1 ≤ k) :
    Returns (linear_regression_channel py xs k) (·.1 = regression_value py.sqrt xs k) := by
  rw [linear_regression_channel, regression_value, ite_or]
  apply returns_unless
  intro hwarm
  have hy : (xs.rtake k).length = k := by
    rw [length_rtake]
    omega
  have hplaces : (List.range k).map (fun i : ℕ => (i : K)) = places k := rfl
  have hresiduals := length_residuals (xs.rtake k)
  simp only [slice_back xs hk, hplaces, length_places]
  apply returns_unless
  intro hden
  have hslope : divide (k * (List.zipWith (fun xi yi => xi * yi) (places k) (xs.rtake k)).sum -
      (places k).sum * (xs.rtake k).sum)
      (k * ((places k).map fun xi : K => xi * xi).sum - (places k).sum * (places k).sum) =
      .ok (line_slope (xs.rtake k)) := by
    rw [divide_eq hden, line_slope, hy]
    rfl
  have hintercept :
      divide ((xs.rtake k).sum - line_slope (xs.rtake k) * (places k).sum) (k : K) =
        .ok (line_intercept (xs.rtake k)) := by
    rw [divide_eq (cast_ne_zero hk), line_intercept, hy]
  rw [hslope, ok_bind, hintercept, ok_bind]
  have hlines : List.zipWith (fun xi yi =>
      yi - (line_intercept (xs.rtake k) + line_slope (xs.rtake k) * xi))
      (places k) (xs.rtake k) = residuals (xs.rtake k) := by
    rw [residuals, hy]
  rw [hlines, hresiduals, hy, divide_eq (cast_ne_zero hk), ok_bind, deviation_eq, ok_bind,
    index_last (by omega), ok_bind, if_pos (std_pos hsqrt _).ne',
    divide_eq (std_pos hsqrt _).ne', ok_bind]
  exact returns_ok rfl

end ArticTrader.SignalValues

namespace ArticTrader.StrategySignals.PriceAlgo

open ArticTrader.MomentumAlgos
open ArticTrader.PythonSequences
open ArticTrader.SignalValues

variable {K : Type} [Field K] [LinearOrder K]

/-- The algorithms whose numbers are quotients of prices. -/
def unit_free : PriceAlgo → Bool
  | .bollinger_squeeze | .kalman_fair_value | .meth_rwa => false
  | _ => true

/-- Those of them that divide by a deviation. -/
def rooted : PriceAlgo → Bool
  | .z_score | .bollinger_reversion | .linear_regression_channel => true
  | _ => false

def value (sqrt : K → K) (xs : List K) (lookback : ℕ) : PriceAlgo → K
  | .momentum => momentum_value xs lookback
  | .dual_momentum => dual_momentum_value xs (lookback / 2) lookback
  | .breakout => breakout_value xs lookback
  | .donchian_channel => donchian_value xs lookback
  | .ma_crossover => ma_crossover_value xs (max 2 (lookback / 2)) lookback
  | .ema_crossover => ema_crossover_value xs (max 2 (lookback / 2)) lookback
  | .macd_signal => macd_value xs 12 26 9
  | .z_score => z_value sqrt xs lookback
  | .bollinger_reversion => bollinger_value sqrt xs lookback 2
  | .rsi_signal => rsi_value xs (min 14 lookback) 70 30
  | .range_sr => range_value xs lookback
  | .linear_regression_channel => regression_value sqrt xs lookback
  | .bollinger_squeeze | .kalman_fair_value | .meth_rwa => 0

theorem run_returns [IsStrictOrderedRing K] {py : Python K} {xs : List K} {lookback : ℕ}
    (hpos : ∀ x ∈ xs, 0 < x) (hlookback : 2 ≤ lookback) (algo : PriceAlgo)
    (hsqrt : algo.rooted = true → Rooted py.sqrt) (h : algo.unit_free = true) :
    Returns (algo.run py xs lookback) (·.1 = algo.value py.sqrt xs lookback) := by
  have hone : 1 ≤ lookback := by omega
  cases algo with
  | momentum => exact simple_momentum_returns hone
  | dual_momentum => exact dual_momentum_returns (by omega) (by omega)
  | breakout => exact breakout_returns hone
  | donchian_channel => exact donchian_channel_returns hone hpos
  | ma_crossover => exact ma_crossover_returns (by omega) hone
  | ema_crossover => exact ema_crossover_returns (by omega) (by omega)
  | macd_signal => exact macd_signal_returns (by omega) (by omega) (by omega) hpos
  | z_score => exact z_score_returns (hsqrt rfl) hone
  | bollinger_reversion => exact bollinger_reversion_returns (hsqrt rfl) hone two_pos
  | rsi_signal => exact rsi_signal_returns (by omega) 70 30
  | range_sr => exact range_sr_returns hone
  | linear_regression_channel => exact linear_regression_channel_returns (hsqrt rfl) hone
  | bollinger_squeeze => cases h
  | kalman_fair_value => cases h
  | meth_rwa => cases h

end ArticTrader.StrategySignals.PriceAlgo
