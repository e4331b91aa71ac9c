import Mathlib.Tactic.Ring
import ArticTrader.BacktestBook
import ArticTrader.BacktestDatasets
import ArticTrader.BacktestEngine
import ArticTrader.BacktestMetrics
import ArticTrader.DatasetHashes

/-!
A backtest with more capital. A strategy that does not look at the size of its position
trades the same trades with it, each as many times larger, and the metrics that are
published stay as they are.
-/

namespace ArticTrader.BacktestScaling

open ArticTrader.BacktestBook (ok_bind stopped)
open ArticTrader.BacktestDatasets
open ArticTrader.BacktestEngine hiding Result
open ArticTrader.BacktestMetrics
open ArticTrader.DatasetHashes (publication sample)
open ArticTrader.Datetimes (Datetime)
open ArticTrader.PythonNumbers
open ArticTrader.PythonText (Text)

section Scaled

variable (c : ℚ)

def scaled_value : Value → Value
  | .num q => .num (c * q)
  | v => v

def scaled_position (p : Position) : Position :=
  { p with size_usdt := p.size_usdt.map (scaled_value c) }

def scaled_trade (t : Trade) : Trade :=
  { t with size_usdt := scaled_value c t.size_usdt, pnl_usdt := c * t.pnl_usdt }

def scaled_book (b : Book) : Book where
  cash := c * b.cash
  position := b.position.map (scaled_position c)
  trades := b.trades.map (scaled_trade c)

variable {τ : Type}

def scaled_state (st : State τ) : State τ :=
  { st with book := scaled_book c st.book, equity_curve := st.equity_curve.map (c * ·) }

def scaled_ctx (ctx : Ctx) : Ctx := { ctx with position := ctx.position.map (scaled_position c) }

/-- The strategy answers the same whatever the size of its position, and does to the
position what it would do to a smaller one. -/
structure MoneyBlind (tick_fn : TickFn τ) : Prop where
  state : ∀ s ctx, (tick_fn s (scaled_ctx c ctx)).state = (tick_fn s ctx).state
  touch : ∀ s ctx, (tick_fn s (scaled_ctx c ctx)).touch = (tick_fn s ctx).touch
  signal : ∀ s ctx, (tick_fn s (scaled_ctx c ctx)).signal = (tick_fn s ctx).signal
  tamper : ∀ s ctx p, (tick_fn s (scaled_ctx c ctx)).tamper (scaled_position c p) =
    scaled_position c ((tick_fn s ctx).tamper p)

end Scaled

section Metrics

variable (sqrt : ℚ → ℚ)

def sharpe (equity_curve : List ℚ) (periods_per_year : ℚ) : ℚ :=
  let rets := returns equity_curve
  if rets.length < 2 then 0
  else
    let mean : ℚ := rets.sum / rets.length
    let var : ℚ := (rets.map fun r => (r - mean) ^ 2).sum / (rets.length - 1)
    let std := sqrt var
    if std = 0 then 0 else mean / std * sqrt periods_per_year

def win_rate (trades : List Trade) : ℚ :=
  if trades.isEmpty then 0
  else ((trades.filter fun t => 0 < t.pnl_usdt).length : ℚ) / trades.length

def total_return (equity_curve : List ℚ) (initial : ℚ) : ℚ :=
  match equity_curve.getLast? with
  | none => 0
  | some last => if initial = 0 then 0 else (last - initial) / initial

/-- The hours of a year. -/
def PERIODS_PER_YEAR : ℚ := 8760

variable {τ : Type}

/-- `engine.run`; without a bar behind the warm-up its metrics are zero. -/
def run (parse : Text → Option ℚ) (tick_fn : TickFn τ) (fee_bps : ℚ) (s : τ)
    (initial_usdt : ℚ) (candles : List Candle) : Except PyError Result :=
  let st := backtest parse tick_fn fee_bps candles initial_usdt s
  match st.raised with
  | some e => .error e
  | none =>
      if candles.length ≤ WARMUP then
        .ok ⟨0, 0, 0, 0, 0, initial_usdt, st.equity_curve⟩
      else
        .ok
          { sharpe := sharpe sqrt st.equity_curve PERIODS_PER_YEAR
            max_drawdown := max_drawdown st.equity_curve
            total_return := total_return st.equity_curve initial_usdt
            win_rate := win_rate st.book.trades
            n_trades := st.book.trades.length
            final_equity := st.equity_curve.getLastD 0
            equity_curve := st.equity_curve }

end Metrics

section Steps

variable {c : ℚ} {τ : Type}

theorem arith_scaled (v : Value) : arith (scaled_value c v) = (arith v).map (c * ·) := by
  cases v <;> rfl

theorem getitem_scaled (v : Option Value) :
    getitem (v.map (scaled_value c)) = (getitem v).map (scaled_value c) := by
  cases v <;> rfl

theorem close_position_scaled (p : Position) (exit_price fee_bps cash : ℚ) (trades : List Trade)
    (reason : Text) :
    close_position (scaled_position c p) exit_price fee_bps (c * cash)
        (trades.map (scaled_trade c)) reason =
      (close_position p exit_price fee_bps cash trades reason).map fun closed =>
        (c * closed.1, closed.2.map (scaled_trade c)) := by
  unfold close_position
  rw [scaled_position, getitem_scaled]
  cases hentry : getitem p.entry with
  | error e => rfl
  | ok entry =>
      cases hsize : getitem p.size_usdt with
      | error e => rfl
      | ok size_usdt =>
          cases hside : getitem p.side with
          | error e => rfl
          | ok side =>
              cases hfrac : pnl_frac side entry exit_price with
              | error e =>
                  simp only [ok_bind, Except.map, hfrac]
                  rfl
              | ok frac =>
                  cases size_usdt with
                  | num size =>
                      simp only [Except.map, ok_bind, hfrac, scaled_value, arith, pure, Except.pure,
                        List.map_append, List.map_cons, List.map_nil, scaled_trade,
                        Except.ok.injEq, Prod.mk.injEq]
                      refine ⟨by ring, ?_⟩
                      rw [mul_assoc]
                  | _ =>
                      simp only [Except.map, ok_bind, hfrac, scaled_value, arith]
                      rfl

theorem mtm_scaled (p : Option Position) (cash price : ℚ) :
    mtm (p.map (scaled_position c)) (c * cash) price = (mtm p cash price).map (c * ·) := by
  cases p with
  | none => rfl
  | some p =>
      rw [Option.map_some, mtm, mtm, scaled_position, getitem_scaled]
      cases hentry : getitem p.entry with
      | error e => rfl
      | ok entry =>
          cases hsize : getitem p.size_usdt with
          | error e => rfl
          | ok size_usdt =>
              cases hside : getitem p.side with
              | error e => rfl
              | ok side =>
                  cases hfrac : pnl_frac side entry price with
                  | error e =>
                      simp only [ok_bind, Except.map, hfrac]
                      rfl
                  | ok frac =>
                      cases size_usdt with
                      | num size =>
                          simp only [Except.map, ok_bind, hfrac, scaled_value, arith, pure,
                            Except.pure, Except.ok.injEq]
                          ring
                      | _ =>
                          simp only [Except.map, ok_bind, hfrac, scaled_value, arith]
                          rfl

theorem check_levels_scaled (b : Book) (high low fee_bps : ℚ) :
    check_levels (scaled_book c b) high low fee_bps =
      (check_levels b high low fee_bps).map (scaled_book c) := by
  obtain ⟨cash, p, trades⟩ := b
  cases p with
  | none => rfl
  | some p =>
      have hhit : level_hit (scaled_position c p) high low = level_hit p high low := rfl
      unfold check_levels
      simp only [scaled_book, Option.map_some]
      rw [hhit]
      cases level_hit p high low with
      | error e => rfl
      | ok hit =>
          cases hit with
          | none => rfl
          | some hit =>
              dsimp only
              rw [close_position_scaled]
              cases close_position p hit.1 fee_bps cash trades hit.2 <;> rfl

theorem open_position_scaled (parse : Text → Option ℚ) (b : Book) (side : Text) (signal : Signal)
    (price fee_bps size_frac : ℚ) :
    open_position parse (scaled_book c b) side signal price fee_bps size_frac =
      (open_position parse b side signal price fee_bps size_frac).map (scaled_book c) := by
  unfold open_position
  cases optional_float parse signal.stop_loss with
  | error e => rfl
  | ok stop_loss =>
      cases optional_float parse signal.take_profit with
      | error e => rfl
      | ok take_profit =>
          simp only [ok_bind, Except.map, pure, Except.pure, scaled_book, scaled_position,
            scaled_value, Option.map_some, Except.ok.injEq, Book.mk.injEq, Option.some.injEq,
            Position.mk.injEq, Value.num.injEq, and_true, true_and]
          constructor
          · ring
          · ring

theorem apply_action_scaled (hc : 0 < c) (parse : Text → Option ℚ) (b : Book) (signal : Signal)
    (price fee_bps : ℚ) :
    apply_action parse (scaled_book c b) signal price fee_bps =
      (apply_action parse b signal price fee_bps).map (scaled_book c) := by
  obtain ⟨cash, p, trades⟩ := b
  cases p with
  | none =>
      have hcash : 0 < c * cash ↔ 0 < cash := mul_pos_iff_of_pos_left hc
      unfold apply_action
      simp only [scaled_book, Option.map_none, hcash]
      split_ifs
      · exact open_position_scaled parse ⟨cash, none, trades⟩ _ _ _ _ _
      · exact open_position_scaled parse ⟨cash, none, trades⟩ _ _ _ _ _
      · rfl
  | some p =>
      unfold apply_action
      simp only [scaled_book, Option.map_some]
      split_ifs
      · rw [close_position_scaled]
        cases close_position p price fee_bps cash trades "signal_close".toList <;> rfl
      · rfl

theorem before_tick_scaled (parse : Text → Option ℚ) (candle : Candle) (b : Book) (fee_bps : ℚ) :
    before_tick parse candle (scaled_book c b) fee_bps =
      (before_tick parse candle b fee_bps).map fun r => (r.1, scaled_book c r.2) := by
  unfold before_tick
  cases candle_get parse candle.high with
  | error e => rfl
  | ok high =>
      cases candle_get parse candle.low with
      | error e => rfl
      | ok low =>
          cases candle_get parse candle.close with
          | error e => rfl
          | ok price =>
              simp only [ok_bind]
              rw [check_levels_scaled]
              cases check_levels b high low fee_bps <;> rfl

theorem after_tick_scaled (hc : 0 < c) (parse : Text → Option ℚ) (b : Book)
    (signal : Option Signal) (price fee_bps : ℚ) :
    after_tick parse (scaled_book c b) signal price fee_bps =
      (after_tick parse b signal price fee_bps).map fun r => (scaled_book c r.1, c * r.2) := by
  unfold after_tick
  rw [apply_action_scaled hc]
  cases apply_action parse b (signal.getD tick_error) price fee_bps with
  | error e => rfl
  | ok b' =>
      simp only [Except.map, ok_bind, scaled_book]
      rw [mtm_scaled]
      cases mtm b'.position b'.cash price <;> rfl

variable {parse : Text → Option ℚ} {tick_fn : TickFn τ} {fee_bps : ℚ}

theorem settle_scaled (hc : 0 < c) (st : State τ) (signal : Option Signal) (price : ℚ) :
    (scaled_state c st).settle parse fee_bps signal price =
      scaled_state c (st.settle parse fee_bps signal price) := by
  unfold State.settle
  simp only [scaled_state]
  rw [after_tick_scaled hc]
  cases after_tick parse st.book signal price fee_bps with
  | error e => rfl
  | ok r => simp [Except.map]

theorem called_scaled (st : State τ) (i : ℕ) (b : Book) {out out' : TickOutcome τ}
    (hstate : out'.state = out.state) (htouch : out'.touch = out.touch)
    (hsignal : out'.signal = out.signal)
    (htamper : ∀ p, out'.tamper (scaled_position c p) = scaled_position c (out.tamper p)) :
    (scaled_state c st).called i (scaled_book c b) out' = scaled_state c (st.called i b out) := by
  have hposition : (b.position.map (scaled_position c)).map out'.tamper =
      (b.position.map out.tamper).map (scaled_position c) := by
    rw [Option.map_map, Option.map_map]
    exact congrArg (fun f => b.position.map f) (funext htamper)
  simp only [State.called, scaled_state, scaled_book, hstate, htouch, hsignal, hposition]

/-- A bar with more capital. -/
theorem bar_scaled (hc : 0 < c) (hblind : MoneyBlind c tick_fn) (st : State τ) (i : ℕ) :
    bar parse tick_fn fee_bps (scaled_state c st) i =
      scaled_state c (bar parse tick_fn fee_bps st i) := by
  have hcandles : (scaled_state c st).candles = st.candles := rfl
  have hbook : (scaled_state c st).book = scaled_book c st.book := rfl
  have htick : (scaled_state c st).tick_state = st.tick_state := rfl
  unfold bar
  rw [hcandles, hbook, htick]
  cases st.candles[i]? with
  | none => rfl
  | some candle =>
      dsimp only
      rw [before_tick_scaled]
      cases before_tick parse candle st.book fee_bps with
      | error e => rfl
      | ok r =>
          obtain ⟨price, b⟩ := r
          let ctx : Ctx := ⟨window st.candles i, b.position⟩
          have hctx : scaled_ctx c ctx = ⟨window st.candles i, (scaled_book c b).position⟩ := rfl
          simp only [Except.map]
          rw [← hctx, called_scaled st i b (hblind.state _ ctx) (hblind.touch _ ctx)
            (hblind.signal _ ctx) (hblind.tamper _ ctx), settle_scaled hc, hblind.signal]

theorem force_close_scaled (st : State τ) :
    force_close parse fee_bps (scaled_state c st) =
      scaled_state c (force_close parse fee_bps st) := by
  obtain ⟨⟨cash, p, trades⟩, curve, candles, s, signals, raised⟩ := st
  cases p with
  | none => rfl
  | some p =>
      unfold force_close
      simp only [scaled_state, scaled_book, Option.map_some]
      cases candle_get parse (last_close candles) with
      | error e => rfl
      | ok last_price =>
          simp only [ok_bind]
          rw [close_position_scaled]
          cases close_position p last_price fee_bps cash trades "force_close".toList with
          | error e => rfl
          | ok closed => simp [Except.map, List.map_dropLast]

theorem advance_scaled (hc : 0 < c) (hblind : MoneyBlind c tick_fn) (st : State τ) (phase : Phase) :
    advance parse tick_fn fee_bps (scaled_state c st) phase =
      scaled_state c (advance parse tick_fn fee_bps st phase) := by
  have hraised : (scaled_state c st).raised = st.raised := rfl
  unfold advance
  rw [hraised]
  split_ifs
  · rfl
  · cases phase with
    | bar i => exact bar_scaled hc hblind st i
    | force_close => exact force_close_scaled st

/-- A whole backtest with more capital. -/
theorem backtest_scaled (hc : 0 < c) (hblind : MoneyBlind c tick_fn) (candles : List Candle)
    (initial_usdt : ℚ) (s : τ) :
    backtest parse tick_fn fee_bps candles (c * initial_usdt) s =
      scaled_state c (backtest parse tick_fn fee_bps candles initial_usdt s) := by
  have hfold : ∀ (ps : List Phase) (st : State τ),
      ps.foldl (advance parse tick_fn fee_bps) (scaled_state c st) =
        scaled_state c (ps.foldl (advance parse tick_fn fee_bps) st) := by
    intro ps
    induction ps with
    | nil => intro st; rfl
    | cons phase ps ih =>
        intro st
        rw [List.foldl_cons, advance_scaled hc hblind, ih, List.foldl_cons]
  exact hfold _ (start candles initial_usdt s)

end Steps

section Unchanged

variable {c : ℚ}

theorem step_return_scaled (hc : c ≠ 0) (prev v : ℚ) :
    step_return (c * prev) (c * v) = step_return prev v := by
  unfold step_return
  by_cases hzero : prev = 0
  · rw [if_pos hzero, if_pos (by rw [hzero, mul_zero])]
  · rw [if_neg hzero, if_neg (mul_ne_zero hc hzero), ← mul_sub, mul_div_mul_left _ _ hc]

theorem returns_scaled (hc : c ≠ 0) (equity_curve : List ℚ) :
    returns (equity_curve.map (c * ·)) = returns equity_curve := by
  unfold returns steps
  rw [← List.map_tail, List.zip_map, List.map_map]
  apply List.map_congr_left
  intro step _
  exact step_return_scaled hc step.1 step.2

theorem sharpe_scaled (hc : c ≠ 0) (sqrt : ℚ → ℚ) (equity_curve : List ℚ) (periods : ℚ) :
    sharpe sqrt (equity_curve.map (c * ·)) periods = sharpe sqrt equity_curve periods := by
  unfold sharpe
  rw [returns_scaled hc]

theorem drawdown_step_scaled (hc : 0 < c) (s : ℚ × ℚ) (v : ℚ) :
    drawdown_step (c * s.1, s.2) (c * v) = (c * (drawdown_step s v).1, (drawdown_step s v).2) := by
  have hlt : c * s.1 < c * v ↔ s.1 < v := mul_lt_mul_iff_right₀ hc
  have hpeak : (if c * s.1 < c * v then c * v else c * s.1) = c * (if s.1 < v then v else s.1) := by
    simp only [hlt]
    split_ifs <;> rfl
  unfold drawdown_step
  dsimp only
  rw [hpeak]
  generalize (if s.1 < v then v else s.1) = peak
  have hpos : 0 < c * peak ↔ 0 < peak := mul_pos_iff_of_pos_left hc
  by_cases h : 0 < peak
  · rw [if_pos (hpos.mpr h), if_pos h, ← mul_sub, mul_div_mul_left _ _ hc.ne']
  · rw [if_neg (mt hpos.mp h), if_neg h]

theorem max_drawdown_scaled (hc : 0 < c) (equity_curve : List ℚ) :
    max_drawdown (equity_curve.map (c * ·)) = max_drawdown equity_curve := by
  have hfold : ∀ (curve : List ℚ) (s : ℚ × ℚ),
      (curve.map (c * ·)).foldl drawdown_step (c * s.1, s.2) =
        (c * (curve.foldl drawdown_step s).1, (curve.foldl drawdown_step s).2) := by
    intro curve
    induction curve with
    | nil => intro s; rfl
    | cons v curve ih =>
        intro s
        rw [List.map_cons, List.foldl_cons, drawdown_step_scaled hc, ih, List.foldl_cons]
  cases equity_curve with
  | nil => rfl
  | cons first rest =>
      have hdrawdown := congrArg Prod.snd (hfold (first :: rest) (first, 0))
      exact hdrawdown

theorem win_rate_scaled (hc : 0 < c) (trades : List Trade) :
    win_rate (trades.map (scaled_trade c)) = win_rate trades := by
  have hfilter : ((trades.map (scaled_trade c)).filter fun t => 0 < t.pnl_usdt).length =
      (trades.filter fun t => 0 < t.pnl_usdt).length := by
    rw [List.filter_map, List.length_map]
    congr 1
    apply List.filter_congr
    intro t _
    exact decide_eq_decide.mpr (mul_pos_iff_of_pos_left hc)
  unfold win_rate
  rw [hfilter, List.isEmpty_map, List.length_map]

theorem total_return_scaled (hc : c ≠ 0) (equity_curve : List ℚ) (initial : ℚ) :
    total_return (equity_curve.map (c * ·)) (c * initial) = total_return equity_curve initial := by
  unfold total_return
  rw [List.getLast?_map]
  cases equity_curve.getLast? with
  | none => rfl
  | some last =>
      rw [Option.map_some]
      dsimp only
      by_cases hzero : initial = 0
      · rw [if_pos hzero, if_pos (by rw [hzero, mul_zero])]
      · rw [if_neg hzero, if_neg (mul_ne_zero hc hzero), ← mul_sub, mul_div_mul_left _ _ hc]

theorem every_scaled (c : ℚ) (step : ℕ) (curve : List ℚ) :
    every step (curve.map (c * ·)) = (every step curve).map (c * ·) := by
  unfold every
  rw [List.length_map, List.map_filterMap]
  apply List.filterMap_congr
  intro i _
  rw [List.getElem?_map]
  split_ifs <;> rfl

theorem sample_equity_scaled (hc : c ≠ 0) (curve : List ℚ) :
    sample_equity (curve.map (c * ·)) = (sample_equity curve).map (c * ·) := by
  have hlast : ∀ a b : Option ℚ, a.map (c * ·) ≠ b.map (c * ·) ↔ a ≠ b := fun a b =>
    (Option.map_injective (mul_right_injective₀ hc)).ne_iff
  unfold sample_equity
  simp only [List.length_map, every_scaled, List.getLast?_map, hlast]
  split_ifs
  · rfl
  · rw [Option.toList_map, ← List.map_append, List.map_take]
  · rw [List.map_take]

def scaled_result (c : ℚ) (r : Result) : Result :=
  { r with final_equity := c * r.final_equity, equity_curve := r.equity_curve.map (c * ·) }

def scaled_out (c : ℚ) (out : ValidateAndBacktestOut) : ValidateAndBacktestOut :=
  { out with
    final_equity := c * out.final_equity
    equity_curve_sample := out.equity_curve_sample.map (c * ·) }

theorem run_scaled (hc : 0 < c) (sqrt : ℚ → ℚ) (parse : Text → Option ℚ) {τ : Type}
    {tick_fn : TickFn τ} (hblind : MoneyBlind c tick_fn) (fee_bps : ℚ) (s : τ) (initial_usdt : ℚ)
    (candles : List Candle) :
    run sqrt parse tick_fn fee_bps s (c * initial_usdt) candles =
      (run sqrt parse tick_fn fee_bps s initial_usdt candles).map (scaled_result c) := by
  unfold run
  rw [backtest_scaled hc hblind]
  generalize backtest parse tick_fn fee_bps candles initial_usdt s = st
  dsimp only
  have hraised : (scaled_state c st).raised = st.raised := rfl
  have hcurve : (scaled_state c st).equity_curve = st.equity_curve.map (c * ·) := rfl
  have htrades : (scaled_state c st).book.trades = st.book.trades.map (scaled_trade c) := rfl
  have hfinal : (st.equity_curve.map (c * ·)).getLastD 0 = c * st.equity_curve.getLastD 0 := by
    rw [List.getLastD_eq_getLast?, List.getLastD_eq_getLast?, List.getLast?_map]
    cases st.equity_curve.getLast? with
    | none => exact (mul_zero c).symm
    | some last => rfl
  rw [hraised]
  cases st.raised with
  | some e => rfl
  | none =>
      dsimp only
      split_ifs
      · rfl
      · rw [hcurve, htrades, sharpe_scaled hc.ne', max_drawdown_scaled hc,
          total_return_scaled hc.ne', win_rate_scaled hc, List.length_map, hfinal]
        rfl

theorem response_scaled (hc : c ≠ 0) (env : Env) (body : ValidateAndBacktestBody)
    (period_start period_end : Datetime) (result : Result) :
    response env body period_start period_end (scaled_result c result) =
      scaled_out c (response env body period_start period_end result) := by
  unfold response scaled_result scaled_out
  rw [sample_equity_scaled hc]

end Unchanged

section Published

variable (sqrt : ℚ → ℚ) (parse : Text → Option ℚ) {τ : Type} (tick_fn : TickFn τ) (fee_bps : ℚ)
  (s : τ)

/-- The request with the engine that starts on so much. -/
def funded (r : Request) (initial_usdt : ℚ) : Request :=
  { r with backtest := run sqrt parse tick_fn fee_bps s initial_usdt }

variable {tick_fn} {c : ℚ}

theorem evaluate_scaled (env : Env) (r : Request) (initial_usdt : ℚ) (dataset : Dataset)
    (hc : 0 < c) (hblind : MoneyBlind c tick_fn) :
    evaluate env (funded sqrt parse tick_fn fee_bps s r (c * initial_usdt)) dataset =
      (evaluate env (funded sqrt parse tick_fn fee_bps s r initial_usdt) dataset).map
        (scaled_out c) := by
  unfold evaluate funded
  dsimp only
  rw [run_scaled hc sqrt parse hblind]
  cases run sqrt parse tick_fn fee_bps s initial_usdt dataset.candles with
  | error e => rfl
  | ok result =>
      simp only [Except.map]
      cases r.now.minus (Datetimes.DAY * r.body.days.toNat) with
      | none => rfl
      | some period_start =>
          exact congrArg Except.ok (response_scaled hc.ne' env r.body period_start r.now result)

end Published

theorem moneyBlind_stopped (c stop_loss : ℚ) : MoneyBlind c (stopped stop_loss) := by
  have hsignal : ∀ s ctx, (stopped stop_loss s (scaled_ctx c ctx)).signal =
      (stopped stop_loss s ctx).signal := by
    intro s ctx
    obtain ⟨candles, p⟩ := ctx
    cases p <;> rfl
  exact ⟨fun _ _ => rfl, fun _ _ => rfl, hsignal, fun _ _ _ => rfl⟩

end ArticTrader.BacktestScaling
