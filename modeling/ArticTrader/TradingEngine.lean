import Mathlib.Tactic.FieldSimp
import Mathlib.Tactic.Linarith
import Mathlib.Tactic.Positivity
import ArticTrader.PaperExecutor

/-!
The decisions of the trading engine: what it does with an action or with the
supervisor's answer, and the take-profit and stop-loss prices of dynamic mode.
-/

namespace ArticTrader.TradingEngine

open ArticTrader.PythonNumbers
open ArticTrader.PythonText
open ArticTrader.PaperExecutor

structure Candle where
  open_ : ℚ
  high : ℚ
  low : ℚ
  close : ℚ
  volume : ℚ
  deriving DecidableEq, Repr

inductive Action where
  | OPEN_LONG
  | OPEN_SHORT
  | HOLD
  | CLOSE
  deriving DecidableEq, Repr

structure StrategyPlan where
  strategy : Text
  lookback : ℕ
  threshold : ℚ
  max_loss_pct : ℚ
  deriving DecidableEq, Repr

inductive SupervisorAction where
  | KEEP
  | CLOSE
  | ADJUST_TP_SL
  deriving DecidableEq, Repr

structure SupervisorResponse where
  action : SupervisorAction
  reasoning : Text
  deriving DecidableEq, Repr

structure Engine where
  symbol : Option Text
  position : PaperPosition
  last_action : Option Action
  last_reason : Option Text
  amount_usdt : Option ℚ
  leverage : Option ℤ
  tp_pct : Option ℚ
  sl_pct : Option ℚ
  strategy_plan : Option StrategyPlan
  candle_cache : Option (List Candle)
  live_mode : Bool
  trading_client : Bool
  agent_id : Text
  tp_sl_mode : Text
  llm_provider_override : Option Text
  deriving DecidableEq, Repr

/-- The payload of `report_trade`. `strategy_hash` is a function of the name
and of the process environment, and is not repeated here. -/
structure TradeReport where
  agent_id : Text
  side : Text
  entry_price : Option ℚ
  exit_price : Option ℚ
  pnl : Option ℚ
  size_usdt : Option ℚ
  leverage : Option ℤ
  strategy : Option Text
  close_reason : Option Text
  deriving DecidableEq, Repr

inductive Effect where
  | report_trade (trade : TradeReport)
  | log_trade_onchain (side : Text) (entry_price : Option ℚ) (exit_price : ℚ)
      (pnl_bps : ℤ) (reason : Text)
  | execute_live_order (side : Text) (price : ℚ) (reason : Text)
  | close_position (symbol : Option Text)
  deriving DecidableEq, Repr

/-- A call of the engine leaves it in a state, also when it raises. -/
structure Outcome where
  engine : Engine
  effects : List Effect
  raised : Option PyError
  deriving DecidableEq, Repr

def true_ranges (candles : List Candle) : List ℚ :=
  candles.zipWith
    (fun previous candle =>
      max (max (candle.high - candle.low) |candle.high - previous.close|)
        |candle.low - previous.close|)
    candles.tail

def compute_atr (candles : List Candle) (period : ℕ) : Option ℚ :=
  if candles = [] ∨ candles.length < period + 1 then none
  else
    let tr_list := true_ranges candles
    if tr_list.length < period then none
    else some ((tr_list.drop (tr_list.length - period)).sum / period)

/-- The `side` argument of `_compute_dynamic_tp_sl`: annotated as `str`, and
given as an enumeration member. -/
inductive SideArgument where
  | text (side : Text)
  | member (side : PositionSide)
  deriving DecidableEq, Repr

/-- `str(side)`; the text of an enumeration member is its qualified name. -/
def SideArgument.str : SideArgument → Text
  | .text side => side
  | .member .LONG => "PositionSide.LONG".toList
  | .member .SHORT => "PositionSide.SHORT".toList
  | .member .FLAT => "PositionSide.FLAT".toList

def SideArgument.is_long (side : SideArgument) : Bool :=
  ["long".toList, lower PositionSide.LONG.value].contains (lower side.str)

def sl_dist (e : Engine) (entry_price atr_mult : ℚ) : ℚ :=
  match compute_atr (e.candle_cache.getD []) 14 with
  | none => entry_price * (3 / 100)
  | some atr => if atr ≤ 0 then entry_price * (3 / 100) else atr * atr_mult

def compute_dynamic_tp_sl (e : Engine) (entry_price : ℚ) (side : SideArgument)
    (atr_mult : ℚ := 2) (rr_ratio : ℚ := 2) : ℚ × ℚ :=
  let dist := sl_dist e entry_price atr_mult
  if side.is_long then (entry_price + dist * rr_ratio, entry_price - dist)
  else (entry_price - dist * rr_ratio, entry_price + dist)

def Engine.is_dynamic (e : Engine) : Prop := e.tp_sl_mode = "dynamic".toList

instance (e : Engine) : Decidable e.is_dynamic :=
  inferInstanceAs (Decidable (_ = _))

def Engine.strategy_name (e : Engine) : Option Text := e.strategy_plan.map (·.strategy)

/-- The two opening branches of `_execute_action`, which differ in the side and
in its three spellings. -/
def execute_open (e : Engine) (side : PositionSide) (name action_name : Text) (price : ℚ)
    (reason : Text) : Outcome :=
  let levels :=
    if e.is_dynamic then some (compute_dynamic_tp_sl e price (.member side)) else none
  let position := opened side price e.amount_usdt e.leverage e.tp_pct e.sl_pct
    (levels.map Prod.fst) (levels.map Prod.snd)
  { engine := { e with position }
    effects :=
      (if e.agent_id ≠ [] then
        [.report_trade
          { agent_id := e.agent_id, side := name, entry_price := some price,
            exit_price := none, pnl := none, size_usdt := e.amount_usdt,
            leverage := e.leverage, strategy := e.strategy_name, close_reason := none }]
      else []) ++
      [.log_trade_onchain action_name (some price) 0 0 reason] ++
      (if e.live_mode ∧ e.trading_client then [.execute_live_order name price reason]
      else [])
    raised := none }

def execute_close (e : Engine) (price : ℚ) (reason : Text) : Outcome :=
  if e.position.side = .FLAT then { engine := e, effects := [], raised := none }
  else
    match unrealized_pnl e.position price with
    | .error err => { engine := e, effects := [], raised := some err }
    | .ok pnl =>
        let notional := e.position.size_usdt.getD 0 *
          (match e.position.leverage with
          | none => 1
          | some leverage => if leverage = 0 then 1 else (leverage : ℚ))
        let pnl_bps := if notional = 0 then 0 else int (pnl / notional * 10000)
        { engine := { e with position := close e.position }
          effects :=
            (if e.agent_id ≠ [] then
              [.report_trade
                { agent_id := e.agent_id, side := lower e.position.side.value,
                  entry_price := e.position.entry_price, exit_price := some price,
                  pnl := some pnl, size_usdt := e.position.size_usdt,
                  leverage := e.position.leverage, strategy := e.strategy_name,
                  close_reason := some reason }]
            else []) ++
            [.log_trade_onchain ("CLOSE_".toList ++ e.position.side.value)
              e.position.entry_price price pnl_bps reason] ++
            (if e.live_mode ∧ e.trading_client then [.close_position e.symbol] else [])
          raised := none }

def execute_action (e : Engine) (action : Action) (price : ℚ) (reason : Text) : Outcome :=
  let e := { e with last_action := some action, last_reason := some reason }
  match action with
  | .OPEN_LONG => execute_open e .LONG "long".toList "OPEN_LONG".toList price reason
  | .OPEN_SHORT => execute_open e .SHORT "short".toList "OPEN_SHORT".toList price reason
  | .CLOSE => execute_close e price reason
  | .HOLD => { engine := e, effects := [], raised := none }

structure SupervisorQuestion where
  symbol : Option Text
  current_price : ℚ
  entry_price : Option ℚ
  side : Text
  unrealized_pnl_usdt : ℚ
  unrealized_pnl_pct : ℚ
  strategy_name : Text
  tp_sl_mode : Text
  llm_provider : Option Text
  deriving DecidableEq, Repr

/-- `_run_supervisor_check` up to the call of the planner; `none` where the
check returns without asking. -/
def supervisor_question (e : Engine) (current_price : ℚ) :
    Except PyError (Option SupervisorQuestion) :=
  match e.strategy_plan with
  | none => .ok none
  | some plan =>
      if e.position.side = .FLAT then .ok none
      else do
        let u_pnl ← unrealized_pnl e.position current_price
        let size ← number e.position.size_usdt
        let leverage ← number e.position.leverage
        let notional := size * leverage
        let u_pnl_pct := if notional = 0 then 0 else u_pnl / notional
        return some
          { symbol := e.symbol, current_price, entry_price := e.position.entry_price,
            side := lower e.position.side.value, unrealized_pnl_usdt := u_pnl,
            unrealized_pnl_pct := u_pnl_pct, strategy_name := plan.strategy,
            tp_sl_mode := e.tp_sl_mode, llm_provider := e.llm_provider_override }

/-- `_run_supervisor_check` from the planner's answer on, in the state in which
the awaited logging calls have left the engine. -/
def apply_supervisor_response (e : Engine) (current_price : ℚ) (resp : SupervisorResponse) :
    Outcome :=
  match resp.action with
  | .CLOSE =>
      execute_action e .CLOSE current_price ("supervisor: ".toList ++ resp.reasoning)
  | .ADJUST_TP_SL =>
      if e.is_dynamic then
        match e.position.entry_price with
        | none => { engine := e, effects := [], raised := some .TypeError }
        | some entry_price =>
            let levels := compute_dynamic_tp_sl e entry_price (.member e.position.side)
            { engine :=
                { e with position := update_dynamic_tp_sl e.position levels.1 levels.2 }
              effects := [], raised := none }
      else { engine := e, effects := [], raised := none }
  | .KEEP => { engine := e, effects := [], raised := none }

/-- Dynamic mode stores its levels in the position, at its opening or on the
supervisor's answer. -/
inductive StoresDynamic (e : Engine) : Engine → Prop where
  | opens {action : Action} {price : ℚ} (reason : Text) (hmode : e.is_dynamic)
      (haction : action = .OPEN_LONG ∨ action = .OPEN_SHORT) (hprice : 0 < price) :
      StoresDynamic e (execute_action e action price reason).engine
  | adjusts {resp : SupervisorResponse} {entry : ℚ} (current_price : ℚ)
      (hmode : e.is_dynamic) (hresp : resp.action = .ADJUST_TP_SL)
      (hside : e.position.side ≠ .FLAT) (hentry : e.position.entry_price = some entry)
      (hpos : 0 < entry) :
      StoresDynamic e (apply_supervisor_response e current_price resp).engine

def Bracketed (p : PaperPosition) : Prop :=
  ∃ entry tp sl, p.entry_price = some entry ∧ p.tp_price = some tp ∧ p.sl_price = some sl ∧
    (p.side = .LONG → sl < entry ∧ entry < tp) ∧ (p.side = .SHORT → tp < entry ∧ entry < sl)

structure Honest (p : PaperPosition) : Prop where
  bracketed : Bracketed p
  sl_hit : ∀ price value level pnl, check_tp_sl p price = .ok (some (.SL value level)) →
    unrealized_pnl p price = .ok pnl → pnl ≤ 0
  tp_hit : ∀ price value level pnl, check_tp_sl p price = .ok (some (.TP value level)) →
    unrealized_pnl p price = .ok pnl → 0 ≤ pnl
  quiet : ∀ entry, p.entry_price = some entry → check_tp_sl p entry = .ok none

/-- Size and leverage, where both are set, do not turn gains into losses. -/
def StakeNonneg (p : PaperPosition) : Prop :=
  ∀ size leverage, p.size_usdt = some size → p.leverage = some leverage → 0 ≤ size * leverage

theorem sl_dist_pos (e : Engine) {entry_price atr_mult : ℚ} (hentry : 0 < entry_price)
    (hmult : 0 < atr_mult) : 0 < sl_dist e entry_price atr_mult := by
  have hfallback : 0 < entry_price * (3 / 100) := by positivity
  rw [sl_dist]
  split
  · exact hfallback
  · rename_i atr _
    split
    · exact hfallback
    · rename_i hatr
      exact mul_pos (not_le.mp hatr) hmult

theorem member_is_long (side : PositionSide) : (SideArgument.member side).is_long = false := by
  cases side <;> decide

theorem compute_dynamic_tp_sl_member (e : Engine) (entry_price : ℚ) (side : PositionSide) :
    compute_dynamic_tp_sl e entry_price (.member side) =
      (entry_price - sl_dist e entry_price 2 * 2, entry_price + sl_dist e entry_price 2) := by
  simp [compute_dynamic_tp_sl, member_is_long]

structure ShortLevels (p : PaperPosition) (entry dist : ℚ) : Prop where
  side : p.side ≠ .FLAT
  entry_price : p.entry_price = some entry
  entry_pos : 0 < entry
  dist_pos : 0 < dist
  tp_price : p.tp_price = some (entry - dist * 2)
  sl_price : p.sl_price = some (entry + dist)

theorem StoresDynamic.shortLevels {e e' : Engine} (h : StoresDynamic e e') :
    ∃ entry dist, ShortLevels e'.position entry dist := by
  have htwo : (0 : ℚ) < 2 := by norm_num
  cases h with
  | @opens action price reason hmode haction hprice =>
      have hlevels := compute_dynamic_tp_sl_member
        { e with last_action := some action, last_reason := some reason } price
      refine ⟨price, sl_dist e price 2, ?_⟩
      rcases haction with rfl | rfl
      · have hopen : Engine.is_dynamic
          { e with last_action := some .OPEN_LONG, last_reason := some reason } := hmode
        simp only [execute_action, execute_open, if_pos hopen, hlevels]
        exact ⟨by simp [opened], rfl, hprice, sl_dist_pos e hprice htwo, rfl, rfl⟩
      · have hopen : Engine.is_dynamic
          { e with last_action := some .OPEN_SHORT, last_reason := some reason } := hmode
        simp only [execute_action, execute_open, if_pos hopen, hlevels]
        exact ⟨by simp [opened], rfl, hprice, sl_dist_pos e hprice htwo, rfl, rfl⟩
  | @adjusts resp entry current_price hmode hresp hside hentry hpos =>
      refine ⟨entry, sl_dist e entry 2, ?_⟩
      simp only [apply_supervisor_response, hresp, if_pos hmode, hentry,
        compute_dynamic_tp_sl_member]
      exact ⟨hside, hentry, hpos, sl_dist_pos e hpos htwo, rfl, rfl⟩

namespace ShortLevels

variable {p : PaperPosition} {entry dist : ℚ}

theorem not_bracketed_long (h : ShortLevels p entry dist) (hside : p.side = .LONG) :
    ¬ Bracketed p := by
  rintro ⟨entry', tp, sl, hentry, htp, hsl, hlong, -⟩
  have htp' : entry - dist * 2 = tp := Option.some.inj (h.tp_price.symm.trans htp)
  have hentry' : entry = entry' := Option.some.inj (h.entry_price.symm.trans hentry)
  have := (hlong hside).2
  have := h.dist_pos
  linarith

theorem bracketed_short (h : ShortLevels p entry dist) (hside : p.side = .SHORT) :
    Bracketed p := by
  refine ⟨entry, _, _, h.entry_price, h.tp_price, h.sl_price, ?_, ?_⟩
  · intro hlong
    simp [hside] at hlong
  · intro _
    have := h.dist_pos
    constructor <;> linarith

theorem check_tp_sl_short (h : ShortLevels p entry dist) (hside : p.side = .SHORT)
    (price : ℚ) :
    check_tp_sl p price = .ok (
      if price ≤ entry - dist * 2 then some (.TP price (entry - dist * 2))
      else if entry + dist ≤ price then some (.SL price (entry + dist))
      else none) := by
  simp only [check_tp_sl, hside, h.tp_price, h.sl_price]
  split_ifs <;> simp_all

theorem unrealized_pnl_short (h : ShortLevels p entry dist) (hside : p.side = .SHORT)
    (price pnl : ℚ) :
    unrealized_pnl p price = .ok pnl ↔
      ∃ size leverage, p.size_usdt = some size ∧ p.leverage = some leverage ∧
        pnl = (entry - price) / entry * (size * leverage) := by
  rw [unrealized_pnl_open h.side h.entry_price h.entry_pos.ne']
  simp only [gain, hside, reduceCtorEq, if_false, mul_assoc]

theorem sl_hit_short (h : ShortLevels p entry dist) (hside : p.side = .SHORT) {price value level : ℚ}
    (hhit : check_tp_sl p price = .ok (some (.SL value level))) : entry + dist ≤ price := by
  rw [h.check_tp_sl_short hside] at hhit
  split_ifs at hhit with htp hsl <;> simp_all

theorem tp_hit_short (h : ShortLevels p entry dist) (hside : p.side = .SHORT) {price value level : ℚ}
    (hhit : check_tp_sl p price = .ok (some (.TP value level))) : price ≤ entry - dist * 2 := by
  rw [h.check_tp_sl_short hside] at hhit
  split_ifs at hhit with htp hsl <;> simp_all

theorem honest_short (h : ShortLevels p entry dist) (hside : p.side = .SHORT)
    (hstake : StakeNonneg p) : Honest p := by
  have hdist := h.dist_pos
  have hentry := h.entry_pos
  refine ⟨h.bracketed_short hside, ?_, ?_, ?_⟩
  · intro price value level pnl hhit hpnl
    obtain ⟨size, leverage, hsize, hleverage, rfl⟩ :=
      (h.unrealized_pnl_short hside price pnl).mp hpnl
    have hprice := h.sl_hit_short hside hhit
    have hloss : (entry - price) / entry ≤ 0 :=
      div_nonpos_of_nonpos_of_nonneg (by linarith) hentry.le
    exact mul_nonpos_of_nonpos_of_nonneg hloss (hstake size leverage hsize hleverage)
  · intro price value level pnl hhit hpnl
    obtain ⟨size, leverage, hsize, hleverage, rfl⟩ :=
      (h.unrealized_pnl_short hside price pnl).mp hpnl
    have hprice := h.tp_hit_short hside hhit
    have hgain : 0 ≤ (entry - price) / entry := div_nonneg (by linarith) hentry.le
    exact mul_nonneg hgain (hstake size leverage hsize hleverage)
  · intro price hprice
    obtain rfl : entry = price := Option.some.inj (h.entry_price.symm.trans hprice)
    rw [h.check_tp_sl_short hside, if_neg (by linarith), if_neg (by linarith)]

/-- At its stop-loss price a short position with a negative stake gains. -/
theorem stake_of_honest (h : ShortLevels p entry dist) (hside : p.side = .SHORT)
    (hhonest : Honest p) : StakeNonneg p := by
  intro size leverage hsize hleverage
  have hdist := h.dist_pos
  have hhit : check_tp_sl p (entry + dist) =
      .ok (some (.SL (entry + dist) (entry + dist))) := by
    rw [h.check_tp_sl_short hside, if_neg (by linarith), if_pos le_rfl]
  have hpnl := (h.unrealized_pnl_short hside (entry + dist) _).mpr
    ⟨size, leverage, hsize, hleverage, rfl⟩
  have hle := hhonest.sl_hit _ _ _ _ hhit hpnl
  have hloss : (entry - (entry + dist)) / entry < 0 :=
    div_neg_of_neg_of_pos (by linarith) h.entry_pos
  by_contra hneg
  have := mul_pos_of_neg_of_neg hloss (not_le.mp hneg)
  linarith

end ShortLevels

/-- The levels that dynamic mode stores are honest exactly for a short position
with a nonnegative stake. -/
theorem dynamic_levels_honest_iff {e e' : Engine} (h : StoresDynamic e e') :
    Honest e'.position ↔ e'.position.side = .SHORT ∧ StakeNonneg e'.position := by
  obtain ⟨entry, dist, hlevels⟩ := h.shortLevels
  constructor
  · intro hhonest
    cases hside : e'.position.side with
    | FLAT => exact absurd hside hlevels.side
    | LONG => exact absurd hhonest.bracketed (hlevels.not_bracketed_long hside)
    | SHORT => exact ⟨rfl, hlevels.stake_of_honest hside hhonest⟩
  · rintro ⟨hside, hstake⟩
    exact hlevels.honest_short hside hstake

def dynamic_engine : Engine where
  symbol := some "BTCUSDT".toList
  position := flat
  last_action := none
  last_reason := none
  amount_usdt := some 100
  leverage := some 5
  tp_pct := none
  sl_pct := none
  strategy_plan := none
  candle_cache := none
  live_mode := false
  trading_client := false
  agent_id := []
  tp_sl_mode := "dynamic".toList
  llm_provider_override := none

theorem dynamic_levels_honest_short :
    let e' := (execute_action dynamic_engine .OPEN_SHORT 100 []).engine
    Honest e'.position ↔ e'.position.side = .SHORT ∧ StakeNonneg e'.position :=
  dynamic_levels_honest_iff (.opens [] rfl (.inr rfl) (by norm_num))

/-- A long position opened at 100 closes at once: its stop-loss price is 103
and its take-profit price 94. -/
theorem dynamic_long_not_honest :
    ¬ ∀ e e' : Engine, StoresDynamic e e' → Honest e'.position := by
  intro h
  have hhonest := h dynamic_engine _ (.opens [] rfl (.inl rfl) (show (0 : ℚ) < 100 by norm_num))
  have hquiet := hhonest.quiet 100 rfl
  exact absurd hquiet (by decide +kernel)

end ArticTrader.TradingEngine
