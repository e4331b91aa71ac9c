import ArticTrader.LabelledRuns
import ArticTrader.TradingEngine

/-!
The trading loop of the engine and the requests that start, stop and configure
it. A run is a sequence of slices, each up to the next point at which the loop
waits. Starts and stops come one at a time here.
-/

namespace ArticTrader.EngineSession

open ArticTrader.LabelledRuns
open ArticTrader.PaperExecutor
open ArticTrader.PythonNumbers
open ArticTrader.PythonText (Text lower upper strip ascii_space)
open ArticTrader.TradingEngine

/-- The signals of the quantitative strategies, and how numbers are written into
reasons. -/
structure Env where
  quant_signal : StrategyPlan → List ℚ → Option (List Candle) → Except PyError (ℚ × Text)
  bps_text : ℚ → Text
  trigger_text : Trigger → Text

inductive Executor where
  | HashKey
  | Pancake
  deriving DecidableEq, Repr

inductive ExecutorCall where
  | place_order (executor : Executor) (symbol : Option Text) (side : Text) (amount : ℚ)
      (leverage : ℤ) (price : ℚ) (stop_loss take_profit : Option ℚ)
  | get_positions (executor : Executor) (symbol : Option Text)
  | close_position (executor : Executor) (symbol : Option Text)
  deriving DecidableEq, Repr

/-- The engine object. `executor` says whether `_executor` is set, as
`engine.trading_client` does for `_trading_client`. -/
structure Trader where
  engine : Engine
  running : Bool
  price_history : List ℚ
  last_candle_refresh_tick : ℕ
  supervisor_interval_seconds : ℚ
  last_supervisor_time : ℚ
  executor : Bool
  deriving DecidableEq, Repr

def Trader.position (t : Trader) : PaperPosition := t.engine.position

/-- Where the loop task stands: at its `while`, or waiting for the calls that log
the supervisor's answer. -/
inductive Loop where
  | absent
  | top (tick_count : ℕ)
  | checking (tick_count : ℕ) (price : ℚ) (resp : SupervisorResponse)
  deriving DecidableEq, Repr

structure StartRequest where
  symbol : Text
  amount_usdt : ℚ
  leverage : ℤ
  tp_pct : Option ℚ
  sl_pct : Option ℚ
  live_mode : Bool
  tp_sl_mode : Text
  supervisor_interval_seconds : ℚ
  llm_provider : Option Text
  deriving DecidableEq, Repr

/-- What a start finds outside the engine: the HashKey key in the environment,
the first price, the planner's strategy and the candles. -/
structure StartAnswers where
  hashkey_key : Bool
  initial_price : Option ℚ
  strategy_plan : StrategyPlan
  candles : Option (List Candle)
  deriving DecidableEq, Repr

/-- What one pass of the loop finds outside the engine. There is no `resp` if the
question to the supervisor raises. -/
structure TickInput where
  price : Option ℚ
  now : ℚ
  resp : Option SupervisorResponse
  candles : Option (List Candle)
  deriving DecidableEq, Repr

structure ConfigUpdateRequest where
  amount_usdt : Option ℚ
  tp_pct : Option ℚ
  sl_pct : Option ℚ
  tp_sl_mode : Option Text
  supervisor_interval_seconds : Option ℚ
  deriving DecidableEq, Repr

inductive Event where
  | start (request : StartRequest) (answers : StartAnswers)
  | tick (input : TickInput)
  | answer (input : TickInput)
  | config (request : ConfigUpdateRequest)
  | stop (close_position : Bool)
  | finish (final_price : Option ℚ)
  deriving DecidableEq, Repr

/-- What a slice computes, executes, schedules and calls, and the position it
leaves. -/
structure Slice where
  signal : Option (ℚ × Text)
  action : Option (Action × ℚ × Text)
  effects : List Effect
  calls : List ExecutorCall
  position : PaperPosition
  deriving DecidableEq, Repr

/-- The engine with its loop and the stop that waits for it. Of the history it
keeps the slices, the executor selected at the start of the session, if that is
a live one, and the symbol on which the position was opened. -/
structure State where
  trader : Trader
  loop : Loop
  stopping : Option Bool
  slices : List Slice
  selected : Option Executor
  opened_on : Option Text
  deriving DecidableEq, Repr

/-- `deque(maxlen=200)` -/
def append_price (price_history : List ℚ) (price : ℚ) : List ℚ :=
  let appended := price_history ++ [price]
  appended.drop (appended.length - 200)

def refresh_candles (t : Trader) (candles : Option (List Candle)) : Trader :=
  match candles with
  | some (c :: cs) => { t with engine := { t.engine with candle_cache := some (c :: cs) } }
  | _ => t

def signal_demo_mode (env : Env) (prices : List ℚ) : ℚ × Text :=
  match prices.drop (prices.length - 4) with
  | [first, _, before, last] =>
      if first = 0 then (0, "demo: zero base".toList)
      else
        let bps := (last - first) / first * 10000
        let sig :=
          if bps = 0 then if before ≤ last then 6 / 10 else -6 / 10
          else
            let clamped := max (-1) (min 1 bps)
            if |clamped| < 4 / 10 then if 0 ≤ clamped then 4 / 10 else -4 / 10 else clamped
        (sig, "demo: ".toList ++ env.bps_text bps ++ " bps over 4 ticks".toList)
  | _ => (0, "demo: warming up".toList)

def compute_strategy_signal (env : Env) (plan : StrategyPlan) (price_history : List ℚ)
    (candles : Option (List Candle)) : Except PyError (ℚ × Text) :=
  if strip (lower plan.strategy) = "demo_mode".toList then
    .ok (signal_demo_mode env price_history)
  else env.quant_signal plan price_history candles

def decide_action (e : Engine) (plan : StrategyPlan) (signal : ℚ) (detail : Text) :
    Action × Text :=
  let strat := lower (if plan.strategy = [] then "momentum".toList else plan.strategy)
  let detailed := fun text : Text => text ++ " (".toList ++ detail ++ ")".toList
  match e.position.side with
  | .LONG =>
      if signal < -plan.threshold then (.CLOSE, detailed "signal reversed".toList)
      else (.HOLD, detailed "holding long".toList)
  | .SHORT =>
      if plan.threshold < signal then (.CLOSE, detailed "signal reversed".toList)
      else (.HOLD, detailed "holding short".toList)
  | .FLAT =>
      if plan.threshold < signal then (.OPEN_LONG, detailed (strat ++ " long".toList))
      else if signal < -plan.threshold then (.OPEN_SHORT, detailed (strat ++ " short".toList))
      else (.HOLD, detailed "signal weak".toList)

/-- What a slice of the loop comes to before it executes its action. -/
structure Verdict where
  trader : Trader
  signal : Option (ℚ × Text)
  action : Option (Action × ℚ × Text)
  loop : Loop
  deriving DecidableEq, Repr

def Verdict.quiet (t : Trader) (loop : Loop) : Verdict :=
  { trader := t, signal := none, action := none, loop }

/-- The part of a pass behind the take-profit, stop-loss and supervisor checks. -/
def signal_pass (env : Env) (t : Trader) (tick_count : ℕ) (price : ℚ)
    (candles : Option (List Candle)) : Verdict :=
  let t :=
    if t.last_candle_refresh_tick + 300 ≤ tick_count then
      { refresh_candles t candles with last_candle_refresh_tick := tick_count }
    else t
  match t.engine.strategy_plan with
  | none => .quiet t (.top tick_count)
  | some plan =>
      match compute_strategy_signal env plan t.price_history t.engine.candle_cache with
      | .error _ => .quiet t (.top tick_count)
      | .ok (signal, detail) =>
          let (action, reason) := decide_action t.engine plan signal detail
          { trader := t
            signal := some (signal, detail)
            action := if action = .HOLD then none else some (action, price, reason)
            loop := .top tick_count }

def supervisor_due (t : Trader) (now : ℚ) : Prop :=
  t.last_supervisor_time = 0 ∨ t.supervisor_interval_seconds ≤ now - t.last_supervisor_time

instance (t : Trader) (now : ℚ) : Decidable (supervisor_due t now) :=
  inferInstanceAs (Decidable (_ ∨ _))

def run_supervisor_check (env : Env) (t : Trader) (tick_count : ℕ) (price : ℚ)
    (input : TickInput) : Verdict :=
  match supervisor_question t.engine price, input.resp with
  | .error _, _ => .quiet t (.top tick_count)
  | .ok none, _ => signal_pass env t tick_count price input.candles
  | .ok (some _), none => .quiet t (.top tick_count)
  | .ok (some _), some resp => .quiet t (.checking tick_count price resp)

/-- An exception ends the pass: the loop logs it and goes on. -/
def trading_loop (env : Env) (t : Trader) (tick_count : ℕ) (input : TickInput) : Verdict :=
  match input.price with
  | none => .quiet t (.top tick_count)
  | some price =>
      let t := { t with price_history := append_price t.price_history price }
      if t.position.side = .FLAT then signal_pass env t tick_count price input.candles
      else
        match check_tp_sl t.position price with
        | .error _ => .quiet t (.top tick_count)
        | .ok (some trigger) =>
            { trader := t
              signal := none
              action := some (.CLOSE, price, env.trigger_text trigger)
              loop := .top tick_count }
        | .ok none =>
            if supervisor_due t input.now then
              run_supervisor_check env { t with last_supervisor_time := input.now } tick_count
                price input
            else signal_pass env t tick_count price input.candles

/-- The pass goes on with the supervisor's answer. -/
def supervisor_pass (env : Env) (t : Trader) (tick_count : ℕ) (price : ℚ)
    (resp : SupervisorResponse) (candles : Option (List Candle)) : Verdict :=
  match resp.action with
  | .CLOSE =>
      { trader := t
        signal := none
        action := some (.CLOSE, price, "supervisor: ".toList ++ resp.reasoning)
        loop := .top tick_count }
  | _ =>
      let o := apply_supervisor_response t.engine price resp
      let t := { t with engine := o.engine }
      if o.raised.isSome ∨ t.position.side = .FLAT then .quiet t (.top tick_count)
      else signal_pass env t tick_count price candles

/-- `round(x, 6)` -/
def round6 (x : ℚ) : ℚ :=
  let scaled := x * 1000000
  let down := ⌊scaled⌋
  let rest := scaled - down
  (if rest < 1 / 2 ∨ rest = 1 / 2 ∧ down % 2 = 0 then down else down + 1) / 1000000

def compute_amount (amount_usdt : ℚ) (leverage : ℤ) (price : ℚ) : ℚ :=
  if 0 < price then round6 (amount_usdt * leverage / price) else 0

def order_levels (e : Engine) (side : Text) (price : ℚ) : Option ℚ × Option ℚ :=
  if e.is_dynamic ∧ e.position.tp_price.isSome ∧ e.position.sl_price.isSome then
    (e.position.sl_price, e.position.tp_price)
  else if truthy e.tp_pct ∧ truthy e.sl_pct then
    let sign : ℚ := if side = "long".toList then 1 else -1
    (some (price * (1 - sign * e.sl_pct.getD 0)), some (price * (1 + sign * e.tp_pct.getD 0)))
  else (none, none)

def execute_live_order (e : Engine) (side : Text) (price : ℚ) : List ExecutorCall :=
  match e.amount_usdt, e.leverage with
  | some amount_usdt, some leverage =>
      let amount := compute_amount amount_usdt leverage price
      if amount ≤ 0 then []
      else
        let (stop_loss, take_profit) := order_levels e side price
        [.place_order .Pancake e.symbol side amount leverage price stop_loss take_profit,
          .get_positions .Pancake e.symbol]
  | _, _ => []

def live_calls (e : Engine) : Effect → List ExecutorCall
  | .execute_live_order side price _ => execute_live_order e side price
  | .close_position symbol => [.close_position .Pancake symbol]
  | _ => []

def State.record (s : State) (t : Trader) (slice : Slice) : State :=
  { s with
    trader := t
    slices := s.slices ++ [slice]
    opened_on :=
      if t.position.side = .FLAT then none
      else if s.trader.position.side = .FLAT then t.engine.symbol
      else s.opened_on }

def idle_slice (t : Trader) : Slice :=
  { signal := none, action := none, effects := [], calls := [], position := t.position }

/-- Executes the action of a verdict. -/
def State.enact (s : State) (v : Verdict) : State :=
  match v.action with
  | none =>
      { s.record v.trader { idle_slice v.trader with signal := v.signal } with loop := v.loop }
  | some (action, price, reason) =>
      let o := execute_action v.trader.engine action price reason
      let t := { v.trader with engine := o.engine }
      { s.record t
          { signal := v.signal, action := v.action, effects := o.effects
            calls := o.effects.flatMap (live_calls o.engine), position := t.position } with
        loop := v.loop }

def select_executor (t : Trader) (live_mode hashkey_key : Bool) : Trader :=
  let t := { t with engine := { t.engine with live_mode } }
  if live_mode then
    if hashkey_key then { t with executor := true }
    else { t with engine := { t.engine with trading_client := true } }
  else t

def normalize_symbol (symbol : Text) : Text :=
  let s := upper (strip symbol)
  (s.reverse.takeWhile (· ≠ ':')).reverse

def PROVIDERS : List Text :=
  ["openai".toList, "anthropic".toList, "deepseek".toList, "gemini".toList]

def provider_override (llm_provider : Option Text) : Option Text :=
  let provider := lower (strip (llm_provider.getD []))
  if PROVIDERS.contains provider then some provider else none

def set_parameters (t : Trader) (r : StartRequest) : Trader :=
  { t with
    engine :=
      { t.engine with
        symbol := some (upper (normalize_symbol r.symbol))
        amount_usdt := some r.amount_usdt
        leverage := some r.leverage
        tp_pct := r.tp_pct
        sl_pct := r.sl_pct
        tp_sl_mode := lower (if r.tp_sl_mode = [] then "fixed".toList else r.tp_sl_mode)
        llm_provider_override := provider_override r.llm_provider }
    supervisor_interval_seconds :=
      max 30 (if r.supervisor_interval_seconds = 0 then 60 else r.supervisor_interval_seconds)
    last_supervisor_time := 0 }

/-- A start that gets no price has changed the parameters by then. -/
def start (t : Trader) (r : StartRequest) (a : StartAnswers) : Trader × Bool :=
  let t := set_parameters (select_executor t r.live_mode a.hashkey_key) r
  match a.initial_price with
  | none => (t, false)
  | some price =>
      let t :=
        { t with
          price_history := append_price t.price_history price
          engine :=
            { t.engine with
              strategy_plan := some a.strategy_plan
              sl_pct := some (t.engine.sl_pct.getD a.strategy_plan.max_loss_pct) } }
      ({ refresh_candles t a.candles with running := true }, true)

def selected_executor (r : StartRequest) (a : StartAnswers) : Option Executor :=
  if r.live_mode then some (if a.hashkey_key then .HashKey else .Pancake) else none

def update_position (p : PaperPosition) (r : ConfigUpdateRequest) : PaperPosition :=
  if p.side = .FLAT then p
  else { p with tp_pct := r.tp_pct.or p.tp_pct, sl_pct := r.sl_pct.or p.sl_pct }

def update_config (t : Trader) (r : ConfigUpdateRequest) : Trader :=
  { t with
    engine :=
      { t.engine with
        amount_usdt := r.amount_usdt.or t.engine.amount_usdt
        tp_pct := r.tp_pct.or t.engine.tp_pct
        sl_pct := r.sl_pct.or t.engine.sl_pct
        tp_sl_mode := r.tp_sl_mode.getD t.engine.tp_sl_mode
        position := update_position t.position r }
    supervisor_interval_seconds :=
      r.supervisor_interval_seconds.getD t.supervisor_interval_seconds }

/-- `stop` closes the position, unless the gain it logs cannot be computed. -/
def closes_on_stop (t : Trader) (close_position : Bool) (final_price : Option ℚ) : Bool :=
  close_position && t.position.side ≠ .FLAT &&
    match final_price with
    | none => true
    | some price => price = 0 || (unrealized_pnl t.position price).isOk

/-- What `stop` does once the loop has ended. -/
def finish_stop (t : Trader) (close_position : Bool) (final_price : Option ℚ) :
    Trader × List ExecutorCall :=
  if closes_on_stop t close_position final_price then
    ({ t with engine := { t.engine with position := close t.position } },
      if t.engine.live_mode ∧ t.engine.trading_client then
        [.close_position .Pancake t.engine.symbol]
      else [])
  else (t, [])

def State.start (s : State) (request : StartRequest) (answers : StartAnswers) : State :=
  let (t, started) := EngineSession.start s.trader request answers
  if started then
    { s.record t (idle_slice t) with
      loop := .top 0
      selected := selected_executor request answers }
  else s.record t (idle_slice t)

def State.finish (s : State) (close_position : Bool) (final_price : Option ℚ) : State :=
  let (t, calls) := finish_stop s.trader close_position final_price
  { s.record t { idle_slice t with calls } with loop := .absent, stopping := none }

def step (env : Env) (s : State) : Event → Option State
  | .start request answers =>
      if s.trader.running then some (s.record s.trader (idle_slice s.trader))
      else
        match s.loop, s.stopping with
        | .absent, none => some (s.start request answers)
        | _, _ => none
  | .tick input =>
      match s.loop with
      | .top tick_count =>
          if s.trader.running then
            some (s.enact (trading_loop env s.trader (tick_count + 1) input))
          else none
      | _ => none
  | .answer input =>
      match s.loop with
      | .checking tick_count price resp =>
          some (s.enact (supervisor_pass env s.trader tick_count price resp input.candles))
      | _ => none
  | .config request =>
      if s.trader.running then
        let t := update_config s.trader request
        some (s.record t (idle_slice t))
      else some (s.record s.trader (idle_slice s.trader))
  | .stop close_position =>
      if s.trader.running then
        let t := { s.trader with running := false }
        some { s.record t (idle_slice t) with stopping := some close_position }
      else some (s.record s.trader (idle_slice s.trader))
  | .finish final_price =>
      match s.loop, s.stopping with
      | .top _, some close_position => some (s.finish close_position final_price)
      | _, _ => none

/-- What the loop decides in a slice of its own. -/
def verdict (env : Env) (s : State) : Event → Option Verdict
  | .tick input =>
      match s.loop with
      | .top tick_count => some (trading_loop env s.trader (tick_count + 1) input)
      | _ => none
  | .answer input =>
      match s.loop with
      | .checking tick_count price resp =>
          some (supervisor_pass env s.trader tick_count price resp input.candles)
      | _ => none
  | _ => none

def fresh_engine (agent_id : Text) : Engine where
  symbol := none
  position := flat
  last_action := none
  last_reason := none
  amount_usdt := none
  leverage := none
  tp_pct := none
  sl_pct := none
  strategy_plan := none
  candle_cache := none
  live_mode := false
  trading_client := false
  agent_id := agent_id
  tp_sl_mode := "fixed".toList
  llm_provider_override := none

def fresh_trader (agent_id : Text) : Trader where
  engine := fresh_engine agent_id
  running := false
  price_history := []
  last_candle_refresh_tick := 0
  supervisor_interval_seconds := 60
  last_supervisor_time := 0
  executor := false

def initial (agent_id : Text) : State where
  trader := fresh_trader agent_id
  loop := .absent
  stopping := none
  slices := []
  selected := none
  opened_on := none

/-- The engine once the action of a verdict has been executed. -/
def enacted (v : Verdict) : Trader :=
  match v.action with
  | none => v.trader
  | some (action, price, reason) =>
      { v.trader with engine := (execute_action v.trader.engine action price reason).engine }

/-- The parts of the engine that only a start sets. -/
structure SameSession (e e' : Engine) : Prop where
  symbol : e'.symbol = e.symbol
  live_mode : e'.live_mode = e.live_mode
  trading_client : e'.trading_client = e.trading_client
  agent_id : e'.agent_id = e.agent_id

theorem SameSession.refl (e : Engine) : SameSession e e := ⟨rfl, rfl, rfl, rfl⟩

theorem SameSession.trans {e e' e'' : Engine} (h : SameSession e e') (h' : SameSession e' e'') :
    SameSession e e'' :=
  ⟨h'.symbol.trans h.symbol, h'.live_mode.trans h.live_mode,
    h'.trading_client.trans h.trading_client, h'.agent_id.trans h.agent_id⟩

def Action.opens : Action → Prop
  | .OPEN_LONG => True
  | .OPEN_SHORT => True
  | _ => False

/-- A transition schedules its report, if the agent has an id, its on-chain log
and, with the Pancake client in live mode, its order. -/
def scheduled (e : Engine) (trade : TradeReport) (log order : Effect) : List Effect :=
  (if e.agent_id ≠ [] then [.report_trade trade] else []) ++ [log] ++
    (if e.live_mode ∧ e.trading_client then [order] else [])

/-- What the execution of an action comes to. -/
inductive Executed (e : Engine) (action : Action) (price : ℚ) : Outcome → Prop where
  | keeps {o : Outcome} (hsession : SameSession e o.engine)
      (hposition : o.engine.position = e.position) (heffects : o.effects = [])
      (hopens : ¬ Action.opens action)
      (hcloses : action = .CLOSE → e.position.side = .FLAT ∨
        ∃ err, unrealized_pnl e.position price = .error err) : Executed e action price o
  | opens {o : Outcome} {side : PositionSide} {trade : TradeReport} {reason : Text}
      (hsession : SameSession e o.engine) (hopens : Action.opens action) (hside : side ≠ .FLAT)
      (hposition : o.engine.position.side = side)
      (hstake : o.engine.amount_usdt = e.amount_usdt ∧ o.engine.leverage = e.leverage)
      (hreport : trade.exit_price = none ∧ trade.side = lower side.value)
      (heffects : o.effects = scheduled e trade
        (.log_trade_onchain ("OPEN_".toList ++ side.value) (some price) 0 0 reason)
        (.execute_live_order (lower side.value) price reason)) : Executed e action price o
  | closes {o : Outcome} {trade : TradeReport} {pnl : ℚ} {pnl_bps : ℤ} {reason : Text}
      (hsession : SameSession e o.engine) (haction : action = .CLOSE)
      (hside : e.position.side ≠ .FLAT) (hposition : o.engine.position.side = .FLAT)
      (hpnl : unrealized_pnl e.position price = .ok pnl)
      (hreport : trade.exit_price = some price ∧ trade.pnl = some pnl ∧
        trade.side = lower e.position.side.value)
      (heffects : o.effects = scheduled e trade
        (.log_trade_onchain ("CLOSE_".toList ++ e.position.side.value) e.position.entry_price price
          pnl_bps reason) (.close_position e.symbol)) : Executed e action price o

theorem Executed.session {e : Engine} {action : Action} {price : ℚ} {o : Outcome}
    (h : Executed e action price o) : SameSession e o.engine := by
  cases h <;> assumption

theorem execute_action_executed (e : Engine) (action : Action) (price : ℚ) (reason : Text) :
    Executed e action price (execute_action e action price reason) := by
  have hsession : ∀ o : Outcome, o.engine = { e with
      last_action := some action, last_reason := some reason, position := o.engine.position } →
      SameSession e o.engine := by
    intro o ho
    rw [ho]
    exact ⟨rfl, rfl, rfl, rfl⟩
  cases action with
  | OPEN_LONG =>
      have hname : "long".toList = lower PositionSide.LONG.value := by decide
      exact .opens (hsession _ rfl) trivial (show PositionSide.LONG ≠ .FLAT by simp) rfl
        ⟨rfl, rfl⟩ ⟨rfl, hname⟩ rfl
  | OPEN_SHORT =>
      have hname : "short".toList = lower PositionSide.SHORT.value := by decide
      exact .opens (hsession _ rfl) trivial (show PositionSide.SHORT ≠ .FLAT by simp) rfl
        ⟨rfl, rfl⟩ ⟨rfl, hname⟩ rfl
  | HOLD => exact .keeps (hsession _ rfl) rfl rfl (by simp [Action.opens]) (by simp)
  | CLOSE =>
      rw [execute_action]
      unfold execute_close
      split
      · rename_i hflat
        exact .keeps (hsession _ rfl) rfl rfl (by simp [Action.opens]) fun _ => .inl hflat
      · rename_i hside
        split
        · rename_i err herr
          exact .keeps (hsession _ rfl) rfl rfl (by simp [Action.opens]) fun _ => .inr ⟨err, herr⟩
        · rename_i pnl hpnl
          exact .closes (hsession _ rfl) rfl hside rfl hpnl ⟨rfl, rfl, rfl⟩ rfl

/-- A verdict has changed no position yet, and opens one only where there is none. -/
structure Decided (t : Trader) (v : Verdict) : Prop where
  session : SameSession t.engine v.trader.engine
  running : v.trader.running = t.running
  side : v.trader.position.side = t.position.side
  opens : ∀ action price reason, v.action = some (action, price, reason) →
    Action.opens action → t.position.side = .FLAT

theorem Decided.of_same {t t' : Trader} {v : Verdict} (h : Decided t' v)
    (hsession : SameSession t.engine t'.engine) (hrunning : t'.running = t.running)
    (hside : t'.position.side = t.position.side) : Decided t v where
  session := hsession.trans h.session
  running := h.running.trans hrunning
  side := h.side.trans hside
  opens := fun action price reason hv hopens => hside ▸ h.opens action price reason hv hopens

theorem decided_quiet (t : Trader) (loop : Loop) : Decided t (.quiet t loop) :=
  ⟨.refl _, rfl, rfl, by simp [Verdict.quiet]⟩

theorem decided_close (t : Trader) (signal : Option (ℚ × Text)) (price : ℚ) (reason : Text)
    (loop : Loop) : Decided t ⟨t, signal, some (.CLOSE, price, reason), loop⟩ := by
  refine ⟨.refl _, rfl, rfl, ?_⟩
  intro action price' reason' h hopens
  cases h
  exact hopens.elim

theorem decide_action_opens (e : Engine) (plan : StrategyPlan) (signal : ℚ) (detail : Text)
    (h : Action.opens (decide_action e plan signal detail).1) : e.position.side = .FLAT := by
  cases hside : e.position.side with
  | FLAT => rfl
  | LONG =>
      simp only [decide_action, hside] at h
      split_ifs at h
      · exact h.elim
      · exact h.elim
  | SHORT =>
      simp only [decide_action, hside] at h
      split_ifs at h
      · exact h.elim
      · exact h.elim

def Trader.refreshed (t : Trader) (candle_cache : Option (List Candle)) (tick : ℕ) : Trader :=
  { t with engine := { t.engine with candle_cache }, last_candle_refresh_tick := tick }

/-- A pass for a signal has at most refreshed the candles, and it acts as the signal says. -/
inductive Passed (t : Trader) (tick_count : ℕ) (price : ℚ) : Verdict → Prop where
  | rests (candle_cache : Option (List Candle)) (tick : ℕ) (signal : Option (ℚ × Text)) :
      Passed t tick_count price ⟨t.refreshed candle_cache tick, signal, none, .top tick_count⟩
  | acts (candle_cache : Option (List Candle)) (tick : ℕ) {plan : StrategyPlan} {signal : ℚ}
      {detail reason : Text} {action : Action}
      (hdecided : decide_action (t.refreshed candle_cache tick).engine plan signal detail =
        (action, reason)) :
      Passed t tick_count price ⟨t.refreshed candle_cache tick, some (signal, detail),
        some (action, price, reason), .top tick_count⟩

theorem signal_pass_passed (env : Env) (t : Trader) (tick_count : ℕ) (price : ℚ)
    (candles : Option (List Candle)) :
    Passed t tick_count price (signal_pass env t tick_count price candles) := by
  obtain ⟨candle_cache, tick, hrefreshed⟩ : ∃ candle_cache tick,
      (if t.last_candle_refresh_tick + 300 ≤ tick_count then
        { refresh_candles t candles with last_candle_refresh_tick := tick_count } else t) =
        t.refreshed candle_cache tick := by
    split_ifs
    · unfold refresh_candles
      split
      · exact ⟨_, tick_count, rfl⟩
      · exact ⟨t.engine.candle_cache, tick_count, rfl⟩
    · exact ⟨t.engine.candle_cache, t.last_candle_refresh_tick, rfl⟩
  unfold signal_pass
  dsimp only
  rw [hrefreshed]
  split
  · exact .rests candle_cache tick none
  · split
    · exact .rests candle_cache tick none
    · split_ifs
      · exact .rests candle_cache tick _
      · exact .acts candle_cache tick rfl

theorem signal_pass_decided (env : Env) (t : Trader) (tick_count : ℕ) (price : ℚ)
    (candles : Option (List Candle)) : Decided t (signal_pass env t tick_count price candles) := by
  have hpassed := signal_pass_passed env t tick_count price candles
  generalize signal_pass env t tick_count price candles = v at hpassed ⊢
  have hsession (candle_cache tick) :
      SameSession t.engine (t.refreshed candle_cache tick).engine := ⟨rfl, rfl, rfl, rfl⟩
  cases hpassed with
  | rests => exact ⟨hsession .., rfl, rfl, by simp⟩
  | @acts candle_cache tick plan signal detail reason action hdecided =>
      have hside := decide_action_opens (t.refreshed candle_cache tick).engine plan signal detail
      rw [hdecided] at hside
      refine ⟨hsession .., rfl, rfl, ?_⟩
      intro action' price' reason' h hopens
      cases h
      exact hside hopens

theorem run_supervisor_check_decided (env : Env) (t : Trader) (tick_count : ℕ) (price : ℚ)
    (input : TickInput) : Decided t (run_supervisor_check env t tick_count price input) := by
  unfold run_supervisor_check
  split
  · exact decided_quiet _ _
  · exact signal_pass_decided ..
  · exact decided_quiet _ _
  · exact decided_quiet _ _

theorem trading_loop_decided (env : Env) (t : Trader) (tick_count : ℕ) (input : TickInput) :
    Decided t (trading_loop env t tick_count input) := by
  unfold trading_loop
  split
  · exact decided_quiet _ _
  · rename_i price _
    dsimp only
    generalize append_price t.price_history price = history
    split
    · exact (signal_pass_decided ..).of_same (.refl _) rfl rfl
    · split
      · exact (decided_quiet _ _).of_same (.refl _) rfl rfl
      · exact (decided_close ..).of_same (.refl _) rfl rfl
      · split
        · exact (run_supervisor_check_decided ..).of_same (.refl _) rfl rfl
        · exact (signal_pass_decided ..).of_same (.refl _) rfl rfl

theorem enacted_session {t : Trader} {v : Verdict} (hv : Decided t v) :
    SameSession t.engine (enacted v).engine := by
  unfold enacted
  split
  · exact hv.session
  · exact hv.session.trans (execute_action_executed _ _ _ _).session

theorem enacted_running (v : Verdict) : (enacted v).running = v.trader.running := by
  unfold enacted
  split <;> rfl

/-- Without a close the supervisor's answer moves nothing but the levels. -/
theorem supervisor_levels {e : Engine} {price : ℚ} {resp : SupervisorResponse}
    (h : resp.action ≠ .CLOSE) :
    SameSession e (apply_supervisor_response e price resp).engine ∧
      (apply_supervisor_response e price resp).engine.position.side = e.position.side ∧
      (apply_supervisor_response e price resp).effects = [] := by
  unfold apply_supervisor_response
  split
  · exact absurd (by assumption) h
  · split_ifs
    · split
      · exact ⟨.refl _, rfl, rfl⟩
      · exact ⟨⟨rfl, rfl, rfl, rfl⟩, rfl, rfl⟩
    · exact ⟨.refl _, rfl, rfl⟩
  · exact ⟨.refl _, rfl, rfl⟩

theorem supervisor_pass_decided (env : Env) (t : Trader) (tick_count : ℕ) (price : ℚ)
    (resp : SupervisorResponse) (candles : Option (List Candle)) :
    Decided t (supervisor_pass env t tick_count price resp candles) := by
  unfold supervisor_pass
  split
  · exact decided_close ..
  · rename_i hclose
    obtain ⟨hsession, hside, -⟩ := @supervisor_levels t.engine price resp hclose
    dsimp only
    split_ifs
    · exact (decided_quiet _ _).of_same hsession rfl hside
    · exact (signal_pass_decided ..).of_same hsession rfl hside

inductive Judged (env : Env) (s : State) : Event → Verdict → Prop where
  | tick {tick_count : ℕ} (input : TickInput) (hloop : s.loop = .top tick_count) :
      Judged env s (.tick input) (trading_loop env s.trader (tick_count + 1) input)
  | answer {tick_count : ℕ} {price : ℚ} {resp : SupervisorResponse} (input : TickInput)
      (hloop : s.loop = .checking tick_count price resp) :
      Judged env s (.answer input)
        (supervisor_pass env s.trader tick_count price resp input.candles)

theorem judged_of_verdict {env : Env} {s : State} {e : Event} {v : Verdict}
    (h : verdict env s e = some v) : Judged env s e v := by
  cases e with
  | tick input =>
      cases hloop : s.loop with
      | top tick_count =>
          simp only [verdict, hloop, Option.some.injEq] at h
          exact h ▸ .tick input hloop
      | _ => simp [verdict, hloop] at h
  | answer input =>
      cases hloop : s.loop with
      | checking tick_count price resp =>
          simp only [verdict, hloop, Option.some.injEq] at h
          exact h ▸ .answer input hloop
      | _ => simp [verdict, hloop] at h
  | _ => cases h

theorem verdict_decided {env : Env} {s : State} {e : Event} {v : Verdict}
    (hverdict : verdict env s e = some v) : Decided s.trader v := by
  cases judged_of_verdict hverdict with
  | tick input hloop => exact trading_loop_decided ..
  | answer input hloop => exact supervisor_pass_decided ..

/-- A step enacts what the loop decides, or serves a request. -/
inductive Transition (env : Env) (s : State) : Event → State → Prop where
  | enact {e : Event} {v : Verdict} (hverdict : verdict env s e = some v)
      (hloop : s.loop ≠ .absent)
      (htop : ∀ tick_count, s.loop = .top tick_count → s.trader.running = true) :
      Transition env s e (s.enact v)
  | start {request : StartRequest} {answers : StartAnswers}
      (hrunning : s.trader.running = false) (hloop : s.loop = .absent) :
      Transition env s (.start request answers) (s.start request answers)
  | start_again {request : StartRequest} {answers : StartAnswers}
      (hrunning : s.trader.running = true) :
      Transition env s (.start request answers) (s.record s.trader (idle_slice s.trader))
  | config {request : ConfigUpdateRequest} (hrunning : s.trader.running = true) :
      Transition env s (.config request) (s.record (update_config s.trader request)
        (idle_slice (update_config s.trader request)))
  | config_idle {request : ConfigUpdateRequest} (hrunning : s.trader.running = false) :
      Transition env s (.config request) (s.record s.trader (idle_slice s.trader))
  | stop {close_position : Bool} (hrunning : s.trader.running = true) :
      Transition env s (.stop close_position)
        { s.record { s.trader with running := false } (idle_slice { s.trader with running := false })
          with stopping := some close_position }
  | stop_idle {close_position : Bool} (hrunning : s.trader.running = false) :
      Transition env s (.stop close_position) (s.record s.trader (idle_slice s.trader))
  | finish {final_price : Option ℚ} {close_position : Bool} (hloop : s.loop ≠ .absent)
      (hstopping : s.stopping = some close_position) :
      Transition env s (.finish final_price) (s.finish close_position final_price)

theorem step_transition {env : Env} {s s' : State} {e : Event} (h : step env s e = some s') :
    Transition env s e s' := by
  cases e with
  | start request answers =>
      simp only [step] at h
      split_ifs at h with hrunning
      · cases h
        exact .start_again hrunning
      · split at h
        next hloop hstopping =>
            cases h
            exact .start (by simpa using hrunning) hloop
        next => cases h
  | tick input =>
      cases hloop : s.loop with
      | top tick_count =>
          simp only [step, hloop] at h
          split_ifs at h with hrunning
          cases h
          exact .enact (by simp [verdict, hloop]) (by simp [hloop]) fun _ _ => hrunning
      | _ => simp [step, hloop] at h
  | answer input =>
      cases hloop : s.loop with
      | checking tick_count price resp =>
          simp only [step, hloop, Option.some.injEq] at h
          subst h
          exact .enact (by simp [verdict, hloop]) (by simp [hloop]) (by simp [hloop])
      | _ => simp [step, hloop] at h
  | config request =>
      simp only [step] at h
      split_ifs at h with hrunning
      · cases h
        exact .config hrunning
      · cases h
        exact .config_idle (by simpa using hrunning)
  | stop close_position =>
      simp only [step] at h
      split_ifs at h with hrunning
      · cases h
        exact .stop hrunning
      · cases h
        exact .stop_idle (by simpa using hrunning)
  | finish final_price =>
      simp only [step] at h
      split at h
      next tick_count close_position hloop hstopping =>
          cases h
          exact .finish (by simp [hloop]) hstopping
      next => cases h

/-- What one step of a run comes to. -/
inductive Stepped (env : Env) (s : State) : Event → State → Prop where
  | enacts {e : Event} {v : Verdict} (hverdict : verdict env s e = some v)
      (hloop : s.loop ≠ .absent) (hv : Decided s.trader v) : Stepped env s e (s.enact v)
  | starts {request : StartRequest} {answers : StartAnswers}
      (hrunning : s.trader.running = false) (hloop : s.loop = .absent) :
      Stepped env s (.start request answers) (s.start request answers)
  | settles {e : Event} {t : Trader} (stopping : Option Bool) (hverdict : verdict env s e = none)
      (he : ∀ final_price, e ≠ .finish final_price)
      (hsession : SameSession s.trader.engine t.engine)
      (hside : t.position.side = s.trader.position.side) :
      Stepped env s e { s.record t (idle_slice t) with stopping }
  | finishes {final_price : Option ℚ} {close_position : Bool} (hloop : s.loop ≠ .absent)
      (hstopping : s.stopping = some close_position) :
      Stepped env s (.finish final_price) (s.finish close_position final_price)

@[simp] theorem record_slices (s : State) (t : Trader) (slice : Slice) :
    (s.record t slice).slices = s.slices ++ [slice] := rfl

@[simp] theorem record_trader (s : State) (t : Trader) (slice : Slice) :
    (s.record t slice).trader = t := rfl

theorem update_position_side (p : PaperPosition) (r : ConfigUpdateRequest) :
    (update_position p r).side = p.side := by
  unfold update_position
  split_ifs <;> rfl

theorem step_stepped {env : Env} {s s' : State} {e : Event} (h : step env s e = some s') :
    Stepped env s e s' := by
  cases step_transition h with
  | enact hverdict hloop => exact .enacts hverdict hloop (verdict_decided hverdict)
  | start hrunning hloop => exact .starts hrunning hloop
  | start_again => exact .settles s.stopping rfl (by simp) (.refl _) rfl
  | config hrunning =>
      exact .settles s.stopping rfl (by simp) ⟨rfl, rfl, rfl, rfl⟩
        (update_position_side s.trader.position _)
  | config_idle => exact .settles s.stopping rfl (by simp) (.refl _) rfl
  | stop =>
      exact .settles (t := { s.trader with running := false }) _ rfl (by simp) (.refl _) rfl
  | stop_idle => exact .settles s.stopping rfl (by simp) (.refl _) rfl
  | finish hloop hstopping => exact .finishes hloop hstopping

theorem start_keeps (t : Trader) (r : StartRequest) (a : StartAnswers) :
    (start t r a).1.position = t.position ∧ (start t r a).1.engine.agent_id = t.engine.agent_id := by
  have hselect : (select_executor t r.live_mode a.hashkey_key).position = t.position ∧
      (select_executor t r.live_mode a.hashkey_key).engine.agent_id = t.engine.agent_id := by
    unfold select_executor
    dsimp only
    split_ifs <;> exact ⟨rfl, rfl⟩
  unfold start
  dsimp only
  split
  · exact hselect
  · unfold refresh_candles
    split <;> exact hselect

theorem start_trader (s : State) (request : StartRequest) (answers : StartAnswers) :
    (s.start request answers).trader = (start s.trader request answers).1 := by
  unfold State.start
  dsimp only
  split_ifs <;> rfl

theorem start_slices (s : State) (request : StartRequest) (answers : StartAnswers) :
    (s.start request answers).slices =
      s.slices ++ [idle_slice (start s.trader request answers).1] := by
  unfold State.start
  dsimp only
  split_ifs <;> rfl

theorem start_position (s : State) (request : StartRequest) (answers : StartAnswers) :
    (s.start request answers).trader.position = s.trader.position := by
  rw [start_trader]
  exact (start_keeps s.trader request answers).1

/-- The demo strategy on a constant price. -/
def demo_env : Env where
  quant_signal := fun _ _ _ => .ok (0, [])
  bps_text := fun _ => "+0.00".toList
  trigger_text := fun _ => []

def demo_request (live_mode : Bool) : StartRequest where
  symbol := "BTCUSDT".toList
  amount_usdt := 100
  leverage := 5
  tp_pct := some (1 / 20)
  sl_pct := some (1 / 50)
  live_mode := live_mode
  tp_sl_mode := "fixed".toList
  supervisor_interval_seconds := 60
  llm_provider := none

def demo_answers (hashkey_key : Bool) : StartAnswers where
  hashkey_key := hashkey_key
  initial_price := some 100
  strategy_plan :=
    { strategy := "demo_mode".toList, lookback := 10, threshold := 1 / 10, max_loss_pct := 1 / 50 }
  candles := none

def demo_tick : TickInput := { price := some 100, now := 1, resp := none, candles := none }

end ArticTrader.EngineSession
