import ArticTrader.Datetimes
import ArticTrader.SignificantDigits
import ArticTrader.WakeProxy

/-!
The wallet page: the balance, the burn of the last week, and the date on which the one
runs out at the other.
-/

namespace ArticTrader.WalletForecast

open ArticTrader.Datetimes
open ArticTrader.PythonText (Text)
open ArticTrader.SignificantDigits
open ArticTrader.WakeProxy (MIN_START_OG can_start)

def GAS_BUDGET_PER_TX : ℕ := 250000

/-- A result of `Decimal` arithmetic in the default context; what a chain reports stays far
within the bounds of its exponents. -/
def decimal (x : ℚ) : ℚ := to_digits 10 28 x

/-- What the node answers, `none` where the call raises. The gas price is asked for twice. -/
structure Chain where
  balance : Option ℕ
  gas_price : Option ℕ
  gas_price_again : Option ℕ

def get_balance_og (address : Text) (balance : Option ℕ) : ℚ :=
  if address = [] then 0
  else
    match balance with
    | some wei => decimal (wei / 10 ^ 18)
    | none => 0

def gas_price_og : Option ℕ → ℚ
  | some wei => decimal (wei / 10 ^ 18)
  | none => 1 / 10 ^ 9

def cost_per_tx_og (gas_price : Option ℕ) : ℚ :=
  decimal (gas_price_og gas_price * GAS_BUDGET_PER_TX)

/-- `rows` is the number of trades that the query finds, `none` where it raises. -/
def burn_rate_og_per_day (gas_price rows : Option ℕ) (lookback_days : ℕ := 7) : ℚ :=
  if rows.getD 0 = 0 then 0
  else
    let txs_per_day := decimal (rows.getD 0 / lookback_days)
    decimal (decimal (txs_per_day * cost_per_tx_og gas_price) * 2)

inductive DateError where
  | OverflowError
  deriving DecidableEq, Repr

/-- The microseconds of `timedelta(days=days)`: those of the whole days, and those of the
rest, which is multiplied as a `float`. -/
def timedelta_micros (days : ℚ) : ℤ :=
  ⌊days⌋ * DAY + half_even (double (DAY * (days - ⌊days⌋)))

def timedelta (days : ℚ) : Except DateError ℤ :=
  if |timedelta_micros days / DAY| ≤ 999999999 then .ok (timedelta_micros days)
  else .error .OverflowError

/-- `t + delta`, for a difference that is not negative. -/
def add (t : Datetime) (delta : ℤ) : Except DateError Datetime :=
  match t.plus delta.toNat with
  | some t => .ok t
  | none => .error .OverflowError

def forecast_runout (now : Datetime) (balance_og burn_per_day : ℚ) :
    Except DateError (Option Datetime) :=
  if burn_per_day ≤ 0 ∨ balance_og ≤ 0 then .ok none
  else do
    let days := decimal (balance_og / burn_per_day)
    let delta ← timedelta (double days)
    let t ← add now delta
    return some t

/-- The answer, with its amounts before they are written as texts. -/
structure WalletOut where
  address : Option Text
  balance_og : ℚ
  threshold_og : ℚ
  can_start : Bool
  burn_rate_og_per_day : ℚ
  runout_at : Option Datetime
  cost_per_tx_og : ℚ
  deriving DecidableEq

def get_wallet (now : Datetime) (chain_address : Option Text) (chain : Chain) (rows : Option ℕ) :
    Except DateError WalletOut := do
  let balance := get_balance_og (chain_address.getD []) chain.balance
  let burn := burn_rate_og_per_day chain.gas_price rows
  let runout ← forecast_runout now balance burn
  return { address := chain_address, balance_og := balance, threshold_og := MIN_START_OG,
           can_start := can_start balance, burn_rate_og_per_day := burn, runout_at := runout,
           cost_per_tx_og := cost_per_tx_og chain.gas_price_again }

/-- The microseconds for which a balance lasts at a quotient of days. -/
def span (days : ℚ) : ℤ := timedelta_micros (double (decimal days))

/-- The balance runs out before the calendar does. -/
def Lasts (now : Datetime) (balance_og burn_per_day : ℚ) : Prop :=
  now.micros + span (balance_og / burn_per_day) < MAXORDINAL * DAY

instance (now : Datetime) (balance_og burn_per_day : ℚ) :
    Decidable (Lasts now balance_og burn_per_day) := Int.decLt _ _

theorem decimal_pos {x : ℚ} (h : 0 < x) : 0 < decimal x :=
  to_digits_pos (by norm_num) (by norm_num) h

theorem decimal_nonneg {x : ℚ} (h : 0 ≤ x) : 0 ≤ decimal x := to_digits_nonneg (by norm_num) h

theorem decimal_near {x : ℚ} (h : 0 ≤ x) : Near (1 / 10 ^ 27 / 2) x (decimal x) := by
  have hnear := to_digits_near (b := 10) (n := 28) (by norm_num) h
  norm_num at hnear ⊢
  exact hnear

theorem fract_nonneg (x : ℚ) : 0 ≤ x - ⌊x⌋ := sub_nonneg.mpr (Int.floor_le x)

theorem timedelta_micros_nonneg {days : ℚ} (h : 0 ≤ days) : 0 ≤ timedelta_micros days := by
  have hrest : (0 : ℚ) ≤ DAY * (days - ⌊days⌋) :=
    mul_nonneg (Nat.cast_nonneg _) (fract_nonneg days)
  exact add_nonneg (mul_nonneg (Int.floor_nonneg.mpr h) (Int.natCast_nonneg _))
    (half_even_nonneg (double_nonneg hrest))

/-- The difference is that of the exact number of days, to a microsecond. -/
theorem abs_timedelta_micros_sub_le (days : ℚ) : |timedelta_micros days - days * DAY| ≤ 3 / 4 := by
  have hrest := fract_nonneg days
  have hone : days - ⌊days⌋ < 1 := by
    have hnext := Int.lt_floor_add_one days
    linarith
  have hproduct : (0 : ℚ) ≤ DAY * (days - ⌊days⌋) := mul_nonneg (Nat.cast_nonneg _) hrest
  have hround := abs_half_even_sub (double (DAY * (days - ⌊days⌋)))
  have hdouble : |double (DAY * (days - ⌊days⌋)) - DAY * (days - ⌊days⌋)| ≤
      DAY * (days - ⌊days⌋) * (1 / 2 ^ 53) := double_near hproduct
  have hsmall : (DAY * (days - ⌊days⌋) : ℚ) * (1 / 2 ^ 53) ≤ 1 / 4 := by
    have hday : (DAY : ℚ) = 86400000000 := by norm_num [DAY]
    rw [hday]
    linarith
  have hsplit : (timedelta_micros days : ℚ) - days * DAY =
      (half_even (double (DAY * (days - ⌊days⌋))) - double (DAY * (days - ⌊days⌋))) +
        (double (DAY * (days - ⌊days⌋)) - DAY * (days - ⌊days⌋)) := by
    rw [timedelta_micros]
    push_cast
    ring
  rw [hsplit]
  have htriangle := abs_add_le
    ((half_even (double (DAY * (days - ⌊days⌋))) : ℚ) - double (DAY * (days - ⌊days⌋)))
    (double (DAY * (days - ⌊days⌋)) - DAY * (days - ⌊days⌋))
  linarith

/-- The three roundings together move the end by less than a part in 2^52, and a microsecond. -/
theorem abs_span_sub_le {days : ℚ} (h : 0 ≤ days) :
    |span days - days * DAY| ≤ days * DAY / 2 ^ 52 + 1 := by
  have hmicros := abs_timedelta_micros_sub_le (double (decimal days))
  have hround := (decimal_near h).trans (by norm_num) (double_near (decimal_nonneg h))
  have hday : |double (decimal days) - days| ≤ days / 2 ^ 52 := by
    rw [← mul_one_div]
    exact hround.mono h (by norm_num)
  have hscaled : |double (decimal days) * DAY - days * DAY| ≤ days / 2 ^ 52 * DAY := by
    rw [← sub_mul, abs_mul, abs_of_nonneg (Nat.cast_nonneg (α := ℚ) DAY)]
    exact mul_le_mul_of_nonneg_right hday (Nat.cast_nonneg _)
  have htriangle := abs_add_le (timedelta_micros (double (decimal days)) -
    double (decimal days) * DAY) (double (decimal days) * DAY - days * DAY)
  rw [sub_add_sub_cancel] at htriangle
  rw [span]
  linarith

theorem cost_per_tx_og_pos {gas_price : Option ℕ} (h : ∀ wei ∈ gas_price, 0 < wei) :
    0 < cost_per_tx_og gas_price := by
  have hprice : 0 < gas_price_og gas_price := by
    rcases gas_price with _ | wei
    · norm_num [gas_price_og]
    · have hwei : (0 : ℚ) < wei := by exact_mod_cast h wei rfl
      exact decimal_pos (div_pos hwei (by positivity))
  exact decimal_pos (mul_pos hprice (by norm_num [GAS_BUDGET_PER_TX]))

theorem burn_rate_nonpos_iff {gas_price : Option ℕ} (h : ∀ wei ∈ gas_price, 0 < wei)
    (rows : Option ℕ) : burn_rate_og_per_day gas_price rows ≤ 0 ↔ rows.getD 0 = 0 := by
  unfold burn_rate_og_per_day
  split_ifs with hrows
  · simp [hrows]
  · have hcount : (0 : ℚ) < rows.getD 0 := by exact_mod_cast Nat.pos_of_ne_zero hrows
    have htxs : 0 < decimal ((rows.getD 0 : ℚ) / (7 : ℕ)) :=
      decimal_pos (div_pos hcount (by norm_num))
    have hburn := decimal_pos (mul_pos (decimal_pos (mul_pos htxs (cost_per_tx_og_pos h)))
      (by norm_num : (0 : ℚ) < 2))
    simp only [hrows, iff_false, not_le]
    exact hburn

theorem get_balance_nonpos_iff (address : Text) (balance : Option ℕ) :
    get_balance_og address balance ≤ 0 ↔ address = [] ∨ balance.getD 0 = 0 := by
  unfold get_balance_og
  split_ifs with haddress
  · simp [haddress]
  · rcases balance with _ | wei
    · simp
    · rcases Nat.eq_zero_or_pos wei with rfl | hwei
      · simp [decimal, to_digits]
      · have hpos : (0 : ℚ) < wei := by exact_mod_cast hwei
        have hbalance := decimal_pos (div_pos hpos (by positivity : (0 : ℚ) < 10 ^ 18))
        simpa [haddress, hwei.ne'] using hbalance

theorem add_returns_iff (t : Datetime) {delta : ℤ} (h : 0 ≤ delta) :
    (∃ u, add t delta = .ok u) ↔ (t.micros : ℤ) + delta < MAXORDINAL * DAY := by
  obtain ⟨n, rfl⟩ := Int.eq_ofNat_of_zero_le h
  unfold add Datetime.plus
  rw [Int.toNat_natCast]
  split_ifs with hrange
  · simp only [Except.ok.injEq, exists_eq', true_iff]
    exact_mod_cast hrange
  · simp only [exists_false, false_iff]
    exact_mod_cast hrange

/-- A difference that ends within the calendar is one that `timedelta` can hold. -/
theorem timedelta_of_in_range {t : Datetime} {days : ℚ} (h : 0 ≤ days)
    (hrange : (t.micros : ℤ) + timedelta_micros days < MAXORDINAL * DAY) :
    timedelta days = .ok (timedelta_micros days) := by
  have hnonneg := timedelta_micros_nonneg h
  have hlt : timedelta_micros days < MAXORDINAL * DAY := by
    have hmicros := Int.natCast_nonneg t.micros
    linarith
  have hdays : timedelta_micros days / DAY < MAXORDINAL :=
    Int.ediv_lt_of_lt_mul (by norm_num [DAY]) hlt
  have hpositive : 0 ≤ timedelta_micros days / DAY :=
    Int.ediv_nonneg hnonneg (Int.natCast_nonneg _)
  have hmax : (MAXORDINAL : ℤ) ≤ 999999999 := by norm_num [MAXORDINAL]
  rw [timedelta, if_pos]
  rw [abs_of_nonneg hpositive]
  linarith

theorem forecast_returns_iff (now : Datetime) (balance_og burn_per_day : ℚ) :
    (∃ r, forecast_runout now balance_og burn_per_day = .ok r) ↔
      burn_per_day ≤ 0 ∨ balance_og ≤ 0 ∨ Lasts now balance_og burn_per_day := by
  unfold forecast_runout
  split_ifs with hnone
  · rcases hnone with h | h
    · simp [h]
    · simp [h]
  · obtain ⟨hburn, hbalance⟩ := not_or.mp hnone
    have hdays : 0 ≤ double (decimal (balance_og / burn_per_day)) :=
      double_nonneg (decimal_nonneg (div_nonneg (not_le.mp hbalance).le (not_le.mp hburn).le))
    simp only [hburn, hbalance, false_or]
    constructor
    · rintro ⟨r, hr⟩
      rcases hdelta : timedelta (double (decimal (balance_og / burn_per_day))) with e | delta
      · simp [hdelta, bind, Except.bind] at hr
      · rcases hadd : add now delta with e | u
        · simp [hdelta, hadd, bind, Except.bind] at hr
        · have heq : delta = span (balance_og / burn_per_day) := by
            unfold timedelta at hdelta
            split_ifs at hdelta
            exact (Except.ok.inj hdelta).symm
          rw [heq] at hadd
          exact (add_returns_iff now (timedelta_micros_nonneg hdays)).mp ⟨u, hadd⟩
    · intro hlasts
      obtain ⟨u, hu⟩ := (add_returns_iff now (timedelta_micros_nonneg hdays)).mpr hlasts
      refine ⟨some u, ?_⟩
      simp [timedelta_of_in_range hdays hlasts, hu, bind, Except.bind, pure, Except.pure]

/-- The wallet page is answered where the week has no trades, the wallet is empty, or what
it holds is gone before the calendar ends. -/
theorem get_wallet_returns_iff (now : Datetime) (chain_address : Option Text) (chain : Chain)
    (rows : Option ℕ) (hgas : ∀ wei ∈ chain.gas_price, 0 < wei) :
    (∃ out, get_wallet now chain_address chain rows = .ok out) ↔
      rows.getD 0 = 0 ∨ chain_address.getD [] = [] ∨ chain.balance.getD 0 = 0 ∨
        Lasts now (get_balance_og (chain_address.getD []) chain.balance)
          (burn_rate_og_per_day chain.gas_price rows) := by
  have hforecast := forecast_returns_iff now
    (get_balance_og (chain_address.getD []) chain.balance)
    (burn_rate_og_per_day chain.gas_price rows)
  rw [burn_rate_nonpos_iff hgas, get_balance_nonpos_iff, or_assoc] at hforecast
  rw [← hforecast]
  unfold get_wallet
  rcases hrun : forecast_runout now (get_balance_og (chain_address.getD []) chain.balance)
    (burn_rate_og_per_day chain.gas_price rows) with e | r
  · simp [hrun, bind, Except.bind]
  · simp [hrun, bind, Except.bind, pure, Except.pure]

def spring : Datetime := ⟨739700 * DAY, by decide⟩

def wallet_address : Text := "0xA0Cf798816D4b9b9866b5330EEa46a18382f251e".toList

/-- One trade in the week, and a wallet that lasts for 38 years. -/
theorem get_wallet_returns_of_one_trade :
    ∃ out, get_wallet spring (some wallet_address)
      ⟨some (10 ^ 18), some (10 ^ 9), some (10 ^ 9)⟩ (some 1) = .ok out :=
  (get_wallet_returns_iff _ _ _ _ (by simp)).mpr (.inr (.inr (.inr (by decide +kernel))))

/-- One trade in the week, and a wallet that would last for 38 000 years. -/
theorem get_wallet_overflows :
    get_wallet spring (some wallet_address)
      ⟨some (10 ^ 21), some (10 ^ 9), some (10 ^ 9)⟩ (some 1) = .error .OverflowError := by
  decide +kernel

end ArticTrader.WalletForecast
