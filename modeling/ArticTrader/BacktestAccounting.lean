import Mathlib.Algebra.BigOperators.Group.List.Basic
import Mathlib.Tactic.Ring
import Mathlib.Tactic.Linarith
import ArticTrader.BacktestBook

/-!
The money of a backtest: cash leaves when a position is opened and comes back
when it is closed, and the equity at the end is what the trades have earned
after the fees of both sides.
-/

namespace ArticTrader.BacktestAccounting

open ArticTrader.PythonNumbers
open ArticTrader.PythonText (Text)
open ArticTrader.BacktestEngine
open ArticTrader.BacktestTampering
open ArticTrader.BacktestBook

def usdt : Value → ℚ
  | .num q => q
  | _ => 0

/-- `pnl_usdt - 2 * size_usdt * fee_bps / 10000` -/
def net (fee_bps : ℚ) (trade : Trade) : ℚ :=
  trade.pnl_usdt - 2 * usdt trade.size_usdt * fee_bps / 10000

/-- A number, or no level at all. -/
def Numeric : Option Value → Prop
  | none => True
  | some .none => True
  | some (.num _) => True
  | some _ => False

def Priced (parse : Text → Option ℚ) (candle : Candle) : Prop :=
  ∃ high low price, Reads parse candle high low price ∧ 0 < high ∧ 0 < low ∧ 0 < price

/-- What an open position has taken out of the cash. -/
def committed (fee_bps : ℚ) (a : Account) : ℚ :=
  match a.holding with
  | none => 0
  | some h => h.size + h.fee fee_bps

structure Balanced (initial_usdt fee_bps : ℚ) (a : Account) : Prop where
  money : a.cash + committed fee_bps a = initial_usdt + (a.trades.map (net fee_bps)).sum
  sizes : ∀ trade ∈ a.trades, ∃ size, trade.size_usdt = .num size

variable {initial_usdt fee_bps : ℚ}

theorem net_trade (h : Holding) (fee_bps exit : ℚ) (reason : Text) :
    net fee_bps (h.trade exit reason) = h.size * h.gain exit - 2 * h.fee fee_bps := by
  change h.size * h.gain exit - 2 * h.size * fee_bps / 10000 = _
  rw [Holding.fee]
  ring

theorem balanced_opened {a : Account} (hb : Balanced initial_usdt fee_bps a)
    (ha : a.holding = none) (h : Holding) :
    Balanced initial_usdt fee_bps (a.opened h fee_bps) := by
  have hmoney := hb.money
  simp only [committed, ha] at hmoney
  refine ⟨?_, hb.sizes⟩
  change a.cash - (h.size + h.fee fee_bps) + (h.size + h.fee fee_bps) =
    initial_usdt + (a.trades.map (net fee_bps)).sum
  linarith

theorem balanced_closed {a : Account} {h : Holding} (hb : Balanced initial_usdt fee_bps a)
    (ha : a.holding = some h) (exit : ℚ) (reason : Text) :
    Balanced initial_usdt fee_bps (a.closed h fee_bps exit reason) := by
  have hmoney := hb.money
  simp only [committed, ha] at hmoney
  constructor
  · change a.cash + h.size + h.size * h.gain exit - h.fee fee_bps + 0 =
      initial_usdt + ((a.trades ++ [h.trade exit reason]).map (net fee_bps)).sum
    rw [List.map_append, List.sum_append, List.map_singleton, List.sum_singleton, net_trade]
    linarith
  · intro trade htrade
    rcases List.mem_append.mp htrade with hold | hnew
    · exact hb.sizes trade hold
    · rw [List.mem_singleton.mp hnew]
      exact ⟨h.size, rfl⟩

theorem Balanced.checked {a a' : Account} {high low : ℚ} (hb : Balanced initial_usdt fee_bps a)
    (h : Checked fee_bps high low a a') : Balanced initial_usdt fee_bps a' := by
  cases h with
  | kept => exact hb
  | closed holding => exact balanced_closed hb holding _ _

theorem Balanced.acted {parse : Text → Option ℚ} {a a' : Account} {signal : Signal} {price : ℚ}
    (hb : Balanced initial_usdt fee_bps a) (h : Acted parse signal price fee_bps a a') :
    Balanced initial_usdt fee_bps a' := by
  cases h with
  | kept => exact hb
  | opened opening => exact balanced_opened hb (holding_of_opening parse opening) _
  | closed holding => exact balanced_closed hb holding _ _

theorem level_of_numeric (parse : Text → Option ℚ) {v : Option Value} (h : Numeric v) :
    ∃ q, level parse v = .ok q := by
  match v, h with
  | none, _ => exact ⟨none, rfl⟩
  | some .none, _ => exact ⟨none, rfl⟩
  | some (.num q), _ => exact ⟨some q, rfl⟩

/-- No signal with numeric levels makes the engine raise. -/
theorem after_tick_of_numeric (parse : Text → Option ℚ) (fee_bps : ℚ) {a : Account} (ha : a.Solid)
    {signal : Option Signal} {price : ℚ} (hprice : price ≠ 0)
    (hstop : Numeric (signal.getD tick_error).stop_loss)
    (htake : Numeric (signal.getD tick_error).take_profit) :
    ∃ r, after_tick parse a.book signal price fee_bps = .ok r := by
  change ∃ r, after_tick parse a.book (some (signal.getD tick_error)) price fee_bps = .ok r
  generalize signal.getD tick_error = given at hstop htake ⊢
  cases hopen : opening_side parse a given with
  | some side =>
      obtain ⟨stop, hstop⟩ := level_of_numeric parse hstop
      obtain ⟨take, htake⟩ := level_of_numeric parse htake
      exact ⟨_, after_tick_of_opening parse hopen hstop htake hprice fee_bps⟩
  | none =>
      cases hholding : a.holding with
      | none => exact ⟨_, after_tick_of_neither parse ha hopen (.inl hholding) price fee_bps⟩
      | some h =>
          by_cases hclose : closes given
          · exact ⟨_, after_tick_of_closing parse hholding ha hclose price fee_bps⟩
          · exact ⟨_, after_tick_of_neither parse ha hopen (.inr hclose) price fee_bps⟩

variable {τ : Type}

/-- The engine between two bars, with what it has recorded so far. -/
structure Sound (candles : List Candle) (initial_usdt fee_bps : ℚ) (k : ℕ) (st : State τ)
    (a : Account) : Prop where
  book : st.book = a.book
  raised : st.raised = none
  candles : st.candles = candles
  solid : a.Solid
  balanced : Balanced initial_usdt fee_bps a
  length : st.equity_curve.length = k + 1
  last : a.holding = none → st.equity_curve.getLast? = some a.cash

structure NumericLevels (tick_fn : TickFn τ) : Prop where
  stop_loss : ∀ s ctx signal, (tick_fn s ctx).signal = some signal → Numeric signal.stop_loss
  take_profit : ∀ s ctx signal, (tick_fn s ctx).signal = some signal → Numeric signal.take_profit

theorem sound_start (candles : List Candle) (initial_usdt fee_bps : ℚ) (s : τ) :
    Sound candles initial_usdt fee_bps 0 (start candles initial_usdt s)
      ⟨initial_usdt, none, []⟩ where
  book := rfl
  raised := rfl
  candles := rfl
  solid := by
    intro h hh
    cases hh
  balanced := by
    refine ⟨by simp [committed], ?_⟩
    intro trade htrade
    cases htrade
  length := rfl
  last := fun _ => rfl

variable {parse : Text → Option ℚ} {tick_fn : TickFn τ} {candles : List Candle}

theorem settle_sound (hpure : ReadOnly tick_fn) (hlevels : NumericLevels tick_fn) {k i : ℕ}
    {st : State τ} {a a' : Account} (hs : Sound candles initial_usdt fee_bps k st a)
    (ha' : a'.Solid) (hb : Balanced initial_usdt fee_bps a') {price : ℚ} (hprice : price ≠ 0) :
    ∃ a'', Sound candles initial_usdt fee_bps (k + 1)
      ((st.called i a'.book (answer tick_fn st i a')).settle parse fee_bps
        (answer tick_fn st i a').signal price) a'' := by
  have hstop : Numeric ((answer tick_fn st i a').signal.getD tick_error).stop_loss := by
    cases hsignal : (answer tick_fn st i a').signal with
    | none => trivial
    | some signal => exact hlevels.stop_loss _ _ signal hsignal
  have htake : Numeric ((answer tick_fn st i a').signal.getD tick_error).take_profit := by
    cases hsignal : (answer tick_fn st i a').signal with
    | none => trivial
    | some signal => exact hlevels.take_profit _ _ signal hsignal
  obtain ⟨r, hr⟩ := after_tick_of_numeric parse fee_bps ha' hprice hstop htake
  have hcalled := called_book hpure st i a'.book st.tick_state
    ⟨window st.candles i, a'.book.position⟩
  rcases settle_cases parse fee_bps hcalled
      (answer tick_fn st i a').signal price with ⟨a'', hsolid, hacted, hsettle⟩ | ⟨e, he, -⟩
  · refine ⟨a'', ?_⟩
    rw [answer] at hsettle ⊢
    rw [hsettle]
    refine ⟨rfl, hs.raised, ?_, hsolid, hb.acted hacted, ?_, ?_⟩
    · exact (called_candles hpure st i a'.book _ _).trans hs.candles
    · change (st.equity_curve ++ [_]).length = _
      rw [List.length_append, hs.length, List.length_singleton]
    · intro hflat
      change (st.equity_curve ++ [_]).getLast? = _
      rw [List.getLast?_concat, Account.equity, hflat]
  · rw [he] at hr
    cases hr

theorem sound_bar (hpure : ReadOnly tick_fn) (hlevels : NumericLevels tick_fn)
    (hpriced : ∀ candle ∈ candles, Priced parse candle) {k i : ℕ} (hi : i < candles.length)
    {st : State τ} {a : Account} (hs : Sound candles initial_usdt fee_bps k st a) :
    ∃ a', Sound candles initial_usdt fee_bps (k + 1)
      (advance parse tick_fn fee_bps st (.bar i)) a' := by
  have hraised : ¬ st.raised.isSome = true := by rw [hs.raised]; simp
  have hcandle : st.candles[i]? = some candles[i] := by
    rw [hs.candles]
    exact List.getElem?_eq_getElem hi
  obtain ⟨high, low, price, hreads, -, -, hprice⟩ := hpriced _ (List.getElem_mem hi)
  obtain ⟨a', hchecked, -, hbar⟩ := bar_of_reads parse tick_fn fee_bps hs.book hs.solid
    hcandle hreads
  rw [advance_of_not_raised parse tick_fn fee_bps hraised]
  change ∃ a', Sound candles initial_usdt fee_bps (k + 1) (bar parse tick_fn fee_bps st i) a'
  rw [hbar]
  exact settle_sound hpure hlevels hs (hchecked.solid hs.solid) (hs.balanced.checked hchecked)
    hprice.ne'

theorem sound_bars (hpure : ReadOnly tick_fn) (hlevels : NumericLevels tick_fn)
    (hpriced : ∀ candle ∈ candles, Priced parse candle) (m : ℕ) {k i : ℕ}
    (hi : i + m ≤ candles.length) {st : State τ} {a : Account}
    (hs : Sound candles initial_usdt fee_bps k st a) :
    ∃ a', Sound candles initial_usdt fee_bps (k + m)
      (((List.range' i m).map Phase.bar).foldl (advance parse tick_fn fee_bps) st) a' := by
  induction m generalizing i k st a with
  | zero => exact ⟨a, hs⟩
  | succ m ih =>
      rw [List.range'_succ, List.map_cons, List.foldl_cons]
      obtain ⟨a', hs'⟩ := sound_bar hpure hlevels hpriced (i := i) (by omega) hs
      obtain ⟨a'', hs''⟩ := ih (i := i + 1) (by omega) hs'
      refine ⟨a'', ?_⟩
      rw [show k + (m + 1) = k + 1 + m by omega]
      exact hs''

theorem sound_force_close (tick_fn : TickFn τ) (hpriced : ∀ candle ∈ candles, Priced parse candle)
    (hne : candles ≠ []) {k : ℕ} {st : State τ} {a : Account}
    (hs : Sound candles initial_usdt fee_bps k st a) :
    ∃ a', Sound candles initial_usdt fee_bps k
      (advance parse tick_fn fee_bps st .force_close) a' ∧ a'.holding = none := by
  have hraised : ¬ st.raised.isSome = true := by rw [hs.raised]; simp
  rw [advance_of_not_raised parse tick_fn fee_bps hraised]
  change ∃ a', Sound candles initial_usdt fee_bps k (force_close parse fee_bps st) a' ∧ _
  cases ha : a.holding with
  | none =>
      refine ⟨a, ?_, ha⟩
      rw [force_close_of_none parse fee_bps hs.book ha]
      exact hs
  | some h =>
      obtain ⟨high, low, price, hreads, -, -, -⟩ := hpriced _ (List.getLast_mem hne)
      have hlast : candle_get parse (last_close st.candles) = .ok price := by
        rw [hs.candles, last_close, List.getLast?_eq_getLast_of_ne_nil hne]
        exact hreads.close
      refine ⟨a.closed h fee_bps price "force_close".toList, ?_, rfl⟩
      rw [force_close_of_some parse fee_bps hs.book ha (hs.solid h ha) hlast]
      refine ⟨rfl, hs.raised, hs.candles, solid_closed a h fee_bps price _,
        balanced_closed hs.balanced ha price _, ?_, ?_⟩
      · change (st.equity_curve.dropLast ++ [_]).length = _
        rw [List.length_append, List.length_dropLast, hs.length, List.length_singleton]
        omega
      · intro _
        exact List.getLast?_concat

theorem sound_backtest (hpure : ReadOnly tick_fn) (hlevels : NumericLevels tick_fn)
    (hpriced : ∀ candle ∈ candles, Priced parse candle) (initial_usdt fee_bps : ℚ) (s : τ) :
    ∃ a, Sound candles initial_usdt fee_bps (candles.length - WARMUP)
      (backtest parse tick_fn fee_bps candles initial_usdt s) a ∧ a.holding = none := by
  have hstart := sound_start candles initial_usdt fee_bps s
  unfold backtest phases
  split_ifs with hshort
  · rw [Nat.sub_eq_zero_of_le hshort]
    exact ⟨_, hstart, rfl⟩
  · have hne : candles ≠ [] := by
      rintro rfl
      exact hshort (Nat.zero_le _)
    obtain ⟨a, hs⟩ := sound_bars hpure hlevels hpriced (candles.length - WARMUP)
      (i := WARMUP) (by omega) hstart
    obtain ⟨a', hs', hflat⟩ := sound_force_close tick_fn hpriced hne hs
    rw [Nat.zero_add] at hs'
    rw [List.foldl_append]
    exact ⟨a', hs', hflat⟩

/-- Money is conserved over a whole backtest. -/
theorem backtest_conserves_money (hpure : ReadOnly tick_fn) (hlevels : NumericLevels tick_fn)
    (hpriced : ∀ candle ∈ candles, Priced parse candle) (initial_usdt fee_bps : ℚ) (s : τ) :
    (backtest parse tick_fn fee_bps candles initial_usdt s).book.position = none ∧
      ∃ result, (backtest parse tick_fn fee_bps candles initial_usdt s).result = .ok result ∧
        (∀ trade ∈ result.trades, ∃ size, trade.size_usdt = .num size) ∧
        result.final_equity = initial_usdt + (result.trades.map (net fee_bps)).sum ∧
        result.equity_curve.getLast? = some result.final_equity ∧
        result.equity_curve.length = max 1 (candles.length - 19) := by
  obtain ⟨a, hs, hflat⟩ := sound_backtest hpure hlevels hpriced initial_usdt fee_bps s
  have hlast := hs.last hflat
  have hmoney := hs.balanced.money
  simp only [committed, hflat, add_zero] at hmoney
  refine ⟨by rw [hs.book, book_of_none hflat], _, by rw [State.result, hs.raised], ?_, ?_, ?_, ?_⟩
  · simp only [hs.book]
    exact hs.balanced.sizes
  · simp only [List.getLastD_eq_getLast?, hlast, hs.book]
    exact hmoney
  · simp only [List.getLastD_eq_getLast?, hlast]
    rfl
  · simp only [hs.length, WARMUP]
    omega

theorem backtest_conserves_money_stopped :
    (backtest (fun _ => none) (stopped 100) 10 (List.replicate 23 flat_candle) 1000
        ()).book.position = none ∧
      ∃ result, (backtest (fun _ => none) (stopped 100) 10 (List.replicate 23 flat_candle) 1000
          ()).result = .ok result ∧
        (∀ trade ∈ result.trades, ∃ size, trade.size_usdt = .num size) ∧
        result.final_equity = 1000 + (result.trades.map (net 10)).sum ∧
        result.equity_curve.getLast? = some result.final_equity ∧
        result.equity_curve.length =
          max 1 ((List.replicate 23 flat_candle).length - 19) := by
  refine backtest_conserves_money (readOnly_stopped 100) ⟨?_, ?_⟩ ?_ 1000 10 ()
  · intro s ctx signal hsignal
    cases hsignal
    split_ifs
    · trivial
    · trivial
  · intro s ctx signal hsignal
    cases hsignal
    split_ifs
    · trivial
    · trivial
  · intro candle hcandle
    rw [List.eq_of_mem_replicate hcandle]
    exact ⟨100, 100, 100, ⟨rfl, rfl, rfl⟩, by norm_num, by norm_num, by norm_num⟩

end ArticTrader.BacktestAccounting
