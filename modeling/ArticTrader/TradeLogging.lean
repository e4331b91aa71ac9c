import ArticTrader.HotReload

/-!
The numbers that go on chain with a trade, and the ranges in which the contract's
types hold them.
-/

namespace ArticTrader.TradeLogging

open ArticTrader.EngineSession
open ArticTrader.HotReload
open ArticTrader.LabelledRuns
open ArticTrader.PaperExecutor
open ArticTrader.PythonNumbers
open ArticTrader.PythonText (Text)
open ArticTrader.TradingEngine

def SIDE_MAP : List (Text × ℤ) :=
  [("OPEN_LONG".toList, 0), ("OPEN_SHORT".toList, 1), ("CLOSE_LONG".toList, 2),
    ("CLOSE_SHORT".toList, 3)]

def PRICE_SCALE : ℚ := 10 ^ 8

/-- The numbers among the arguments of `logTrade`; the others are hashes. -/
structure LogTradeArgs where
  side : ℤ
  entryPrice : ℤ
  exitPrice : ℤ
  pnlBps : ℤ
  deriving DecidableEq, Repr

def log_trade (side : Text) (entry_price exit_price : ℚ) (pnl_bps : ℤ) : LogTradeArgs where
  side := (SIDE_MAP.lookup side).getD 0
  entryPrice := int (entry_price * PRICE_SCALE)
  exitPrice := int (exit_price * PRICE_SCALE)
  pnlBps := pnl_bps

/-- The types of `logTrade`: `uint8`, twice `uint256`, and `int16`. -/
structure LogTradeArgs.Fits (args : LogTradeArgs) : Prop where
  side : 0 ≤ args.side ∧ args.side < 2 ^ 8
  entryPrice : 0 ≤ args.entryPrice ∧ args.entryPrice < 2 ^ 256
  exitPrice : 0 ≤ args.exitPrice ∧ args.exitPrice < 2 ^ 256
  pnlBps : -2 ^ 15 ≤ args.pnlBps ∧ args.pnlBps < 2 ^ 15

/-- The trades that the effects of an action put on chain. -/
def logged (effects : List Effect) : List LogTradeArgs :=
  effects.filterMap fun
    | .log_trade_onchain side (some entry_price) exit_price pnl_bps _ =>
        some (log_trade side entry_price exit_price pnl_bps)
    | _ => none

/-- The first price that `uint256` has no room for. -/
def PRICE_LIMIT : ℚ := 2 ^ 256 / PRICE_SCALE

/-- What a position of `size` at `entry` may be closed at. -/
def ClosesInRange (side : PositionSide) (entry price : ℚ) : Prop :=
  match side with
  | .LONG => price * 10000 < 42768 * entry
  | .SHORT => price * 10000 < 42769 * entry
  | .FLAT => True

structure InRange (side : PositionSide) (entry price size : ℚ) : Prop where
  entry_fits : entry < PRICE_LIMIT
  price_fits : price < PRICE_LIMIT
  gain_fits : size = 0 ∨ ClosesInRange side entry price

theorem int_lt_iff {n : ℤ} (hn : 0 < n) (x : ℚ) : int x < n ↔ x < n := by
  unfold int
  split_ifs with hx
  · exact Int.floor_lt
  · have hx : x < 0 := not_le.mp hx
    have hceil : ⌈x⌉ ≤ 0 := Int.ceil_le.mpr (by exact_mod_cast hx.le)
    have hn' : (0 : ℚ) < n := by exact_mod_cast hn
    exact iff_of_true (hceil.trans_lt hn) (hx.trans hn')

theorem neg_le_int_iff {n : ℤ} (hn : 0 ≤ n) (x : ℚ) : -n ≤ int x ↔ -(n + 1 : ℚ) < x := by
  have hn' : (0 : ℚ) ≤ n := by exact_mod_cast hn
  unfold int
  split_ifs with hx
  · have hfloor : 0 ≤ ⌊x⌋ := Int.floor_nonneg.mpr hx
    exact iff_of_true (by omega) (by linarith)
  · rw [Int.le_ceil_iff]
    push_cast
    rw [neg_add, sub_eq_add_neg]

theorem scaled_fits_iff {price : ℚ} (h : 0 ≤ price) :
    (0 ≤ int (price * PRICE_SCALE) ∧ int (price * PRICE_SCALE) < 2 ^ 256) ↔
      price < PRICE_LIMIT := by
  have hscale : (0 : ℚ) < PRICE_SCALE := by
    unfold PRICE_SCALE
    positivity
  have hnonneg : 0 ≤ int (price * PRICE_SCALE) := by
    rw [int_of_nonneg (mul_nonneg h hscale.le)]
    exact Int.floor_nonneg.mpr (mul_nonneg h hscale.le)
  rw [and_iff_right hnonneg, int_lt_iff (by positivity), PRICE_LIMIT, lt_div_iff₀ hscale]
  norm_cast

theorem lookup_side (side : PositionSide) (hside : side ≠ .FLAT) (kind : Text)
    (hkind : kind = "OPEN_".toList ∨ kind = "CLOSE_".toList) :
    0 ≤ (SIDE_MAP.lookup (kind ++ side.value)).getD 0 ∧
      (SIDE_MAP.lookup (kind ++ side.value)).getD 0 < 2 ^ 8 := by
  rcases hkind with rfl | rfl
  · cases side with
    | FLAT => exact absurd rfl hside
    | LONG => decide
    | SHORT => decide
  · cases side with
    | FLAT => exact absurd rfl hside
    | LONG => decide
    | SHORT => decide

theorem logged_scheduled (e : Engine) (trade : TradeReport) (side : Text)
    (entry_price exit_price : ℚ) (pnl_bps : ℤ) (reason : Text) {order : Effect}
    (horder : logged [order] = []) :
    logged (scheduled e trade (.log_trade_onchain side (some entry_price) exit_price pnl_bps reason)
      order) = [log_trade side entry_price exit_price pnl_bps] := by
  unfold scheduled
  split_ifs
  · simpa [logged] using horder
  · rfl
  · simpa [logged] using horder
  · rfl

/-- The basis points that are logged when a position of `size` is closed. -/
def closing_bps (side : PositionSide) (entry price size : ℚ) : ℤ :=
  if size = 0 then 0 else int (gain side entry price * 10000)

theorem logged_open (e : Engine) {opening : Action} (hopens : Action.opens opening) (price : ℚ)
    (reason : Text) :
    logged (execute_action e opening price reason).effects =
      [log_trade ("OPEN_".toList ++ (opening_side opening).value) price 0 0] := by
  cases opening with
  | OPEN_LONG =>
      exact logged_scheduled _ _ _ price 0 0 reason rfl
  | OPEN_SHORT =>
      exact logged_scheduled _ _ _ price 0 0 reason rfl
  | HOLD => exact hopens.elim
  | CLOSE => exact hopens.elim

theorem logged_close {e : Engine} {entry size : ℚ} {leverage : ℤ}
    (h : Held e.position entry size leverage) (price : ℚ) (reason : Text) :
    logged (execute_action e .CLOSE price reason).effects =
      [log_trade ("CLOSE_".toList ++ e.position.side.value) entry price
        (closing_bps e.position.side entry price size)] := by
  have hleverage : (leverage : ℚ) ≠ 0 := h.leverage_cast_pos.ne'
  have hbps : (if size * (leverage : ℚ) = 0 then 0
      else int (gain e.position.side entry price * (size * leverage) / (size * leverage) * 10000)) =
        closing_bps e.position.side entry price size := by
    unfold closing_bps
    by_cases hsize : size = 0
    · rw [if_pos hsize, if_pos (by rw [hsize, zero_mul])]
    · have hstake : size * (leverage : ℚ) ≠ 0 := mul_ne_zero hsize hleverage
      rw [if_neg hsize, if_neg hstake, mul_div_cancel_right₀ _ hstake]
  have hne : leverage ≠ 0 := by exact_mod_cast hleverage
  unfold execute_action execute_close
  dsimp only
  rw [if_neg h.side, h.pnl price]
  dsimp only
  rw [h.size_usdt, h.leverage, h.entry_price]
  simp only [Option.getD_some, if_neg hne, hbps]
  exact logged_scheduled e _ _ entry price _ reason rfl

theorem closing_bps_fits_iff {side : PositionSide} {entry price : ℚ} (hside : side ≠ .FLAT)
    (hentry : 0 < entry) (hprice : 0 < price) (size : ℚ) :
    (-2 ^ 15 ≤ closing_bps side entry price size ∧ closing_bps side entry price size < 2 ^ 15) ↔
      size = 0 ∨ ClosesInRange side entry price := by
  unfold closing_bps
  by_cases hsize : size = 0
  · rw [if_pos hsize]
    exact iff_of_true ⟨by norm_num, by norm_num⟩ (.inl hsize)
  · rw [if_neg hsize, or_iff_right hsize, int_lt_iff (by norm_num), neg_le_int_iff (by norm_num)]
    have hratio : 0 < price / entry := div_pos hprice hentry
    have hcloses : ∀ limit : ℚ, price * 10000 < limit * entry ↔ price / entry * 10000 < limit := by
      intro limit
      rw [div_mul_eq_mul_div, div_lt_iff₀ hentry]
    push_cast
    cases side with
    | FLAT => exact absurd rfl hside
    | LONG =>
        have hgain : gain .LONG entry price = price / entry - 1 := by
          rw [gain, if_pos rfl, sub_div, div_self hentry.ne']
        rw [hgain, ClosesInRange, hcloses]
        constructor
        · rintro ⟨-, h⟩
          linarith
        · intro h
          exact ⟨by linarith, by linarith⟩
    | SHORT =>
        have hgain : gain .SHORT entry price = 1 - price / entry := by
          rw [gain, if_neg (by simp), sub_div, div_self hentry.ne']
        rw [hgain, ClosesInRange, hcloses]
        constructor
        · rintro ⟨h, -⟩
          linarith
        · intro h
          exact ⟨by linarith, by linarith⟩

theorem open_fits_iff {side : PositionSide} (hside : side ≠ .FLAT) {entry : ℚ}
    (hentry : 0 < entry) :
    (log_trade ("OPEN_".toList ++ side.value) entry 0 0).Fits ↔ entry < PRICE_LIMIT := by
  have hzero : 0 < PRICE_LIMIT := by
    unfold PRICE_LIMIT PRICE_SCALE
    positivity
  constructor
  · intro h
    exact (scaled_fits_iff hentry.le).mp h.entryPrice
  · intro h
    exact ⟨lookup_side side hside _ (.inl rfl), (scaled_fits_iff hentry.le).mpr h,
      (scaled_fits_iff le_rfl).mpr hzero, by simp [log_trade]⟩

theorem close_fits_iff {side : PositionSide} (hside : side ≠ .FLAT) {entry price : ℚ}
    (hentry : 0 < entry) (hprice : 0 < price) (size : ℚ) :
    (log_trade ("CLOSE_".toList ++ side.value) entry price
        (closing_bps side entry price size)).Fits ↔ InRange side entry price size := by
  constructor
  · intro h
    exact ⟨(scaled_fits_iff hentry.le).mp h.entryPrice, (scaled_fits_iff hprice.le).mp h.exitPrice,
      (closing_bps_fits_iff hside hentry hprice size).mp h.pnlBps⟩
  · intro h
    exact ⟨lookup_side side hside _ (.inr rfl), (scaled_fits_iff hentry.le).mpr h.entry_fits,
      (scaled_fits_iff hprice.le).mpr h.price_fits,
      (closing_bps_fits_iff hside hentry hprice size).mpr h.gain_fits⟩

/-- Every position of a run has been opened at a positive price, with an amount and a
leverage. -/
theorem held_of_run {env : Env} {agent_id : Text} {es : List Event} {s : State}
    (hrun : run (step env) (initial agent_id) es = some s) (haccepted : ∀ e ∈ es, Accepted e)
    (hopen : s.trader.position.side ≠ .FLAT) :
    ∃ entry size leverage, Held s.trader.position entry size leverage := by
  have hsound : Sound s :=
    run_invariant_of_allSteps (fun s e s' hs he h => sound_step hs he h) hrun
      (allSteps_of_forall_mem haccepted _) (initial_sound agent_id).1
  obtain ⟨entry, size, leverage, hheld, -⟩ := hsound.solid hopen
  exact ⟨entry, size, leverage, hheld⟩

/-- The open and the close of a position fit the types of the contract exactly where both
prices are below the limit and the close does not gain or lose too much. -/
theorem trade_fits_iff {env : Env} {agent_id : Text} {es : List Event} {s : State}
    (hrun : run (step env) (initial agent_id) es = some s) (haccepted : ∀ e ∈ es, Accepted e)
    (hopen : s.trader.position.side ≠ .FLAT) {e : Engine} {opening : Action}
    (hopening : opening_side opening = s.trader.position.side) {price : ℚ} (hprice : 0 < price)
    (reason reason' : Text) :
    ∃ entry size, s.trader.position.entry_price = some entry ∧
      s.trader.position.size_usdt = some size ∧
      ∃ opened closed, logged (execute_action e opening entry reason).effects = [opened] ∧
        logged (execute_action s.trader.engine .CLOSE price reason').effects = [closed] ∧
        (opened.Fits ∧ closed.Fits ↔ InRange s.trader.position.side entry price size) := by
  obtain ⟨entry, size, leverage, hheld⟩ := held_of_run hrun haccepted hopen
  have hopens : Action.opens opening := by
    cases opening with
    | OPEN_LONG => trivial
    | OPEN_SHORT => trivial
    | HOLD => exact absurd hopening.symm hopen
    | CLOSE => exact absurd hopening.symm hopen
  refine ⟨entry, size, hheld.entry_price, hheld.size_usdt, _, _,
    logged_open e hopens entry reason, logged_close hheld price reason', ?_⟩
  rw [hopening, open_fits_iff hopen hheld.entry_pos]
  rw [show s.trader.engine.position.side = s.trader.position.side from rfl,
    close_fits_iff hopen hheld.entry_pos hprice size]
  exact ⟨fun h => h.2, fun h => ⟨h.entry_fits, h⟩⟩

/-- A start, and three prices after which the engine buys at a hundred. -/
def bought : List Event := updated_session no_update

theorem bought_run :
    ∃ s, run (step demo_env) (initial []) bought = some s ∧
      s.trader.position = opened .LONG 100 (some 100) (some 5) (some (1 / 20)) (some (1 / 50))
        none none := by
  have hend : (run (step demo_env) (initial []) bought).map (·.trader.position) =
      some (opened .LONG 100 (some 100) (some 5) (some (1 / 20)) (some (1 / 50)) none none) := by
    decide +kernel
  exact Option.map_eq_some_iff.mp hend

theorem trade_at_profit_fits :
    ∃ s, run (step demo_env) (initial []) bought = some s ∧
      ∃ closed, logged (execute_action s.trader.engine .CLOSE 110 []).effects = [closed] ∧
        closed.Fits := by
  obtain ⟨s, hrun, hposition⟩ := bought_run
  have hside : opening_side .OPEN_LONG = s.trader.position.side := by
    rw [hposition]
    rfl
  obtain ⟨entry, size, hentry, hsize, _, closed, -, hclosed, hiff⟩ :=
    trade_fits_iff hrun (updated_session_accepted no_update) (by simp [hposition, opened])
      (e := s.trader.engine) hside (show (0 : ℚ) < 110 by norm_num) [] []
  rw [hposition] at hentry hsize hiff
  cases hentry
  cases hsize
  refine ⟨s, hrun, closed, hclosed, (hiff.mpr ⟨?_, ?_, .inr ?_⟩).2⟩
  · norm_num [PRICE_LIMIT, PRICE_SCALE]
  · norm_num [PRICE_LIMIT, PRICE_SCALE]
  · norm_num [ClosesInRange, opened]

/-- A long position that is closed at five times its price has more basis points than
`int16` holds. -/
theorem fourfold_gain_not_logged :
    ∃ s, run (step demo_env) (initial []) bought = some s ∧
      ∃ closed, logged (execute_action s.trader.engine .CLOSE 500 []).effects = [closed] ∧
        closed.pnlBps = 40000 ∧ ¬ closed.Fits := by
  have hend : (run (step demo_env) (initial []) bought).map (fun s =>
      logged (execute_action s.trader.engine .CLOSE 500 []).effects) =
      some [⟨2, 10000000000, 50000000000, 40000⟩] := by
    decide +kernel
  obtain ⟨s, hrun, hlogged⟩ := Option.map_eq_some_iff.mp hend
  refine ⟨s, hrun, _, hlogged, rfl, fun h => ?_⟩
  exact absurd h.pnlBps.2 (by decide)

end ArticTrader.TradeLogging
