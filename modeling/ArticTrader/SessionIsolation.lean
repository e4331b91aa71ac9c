import ArticTrader.EngineSession

/-!
What a session on an engine sees of the sessions before it.
-/

namespace ArticTrader.SessionIsolation

open ArticTrader.EngineSession
open ArticTrader.LabelledRuns
open ArticTrader.PaperExecutor
open ArticTrader.PythonNumbers
open ArticTrader.PythonText (Text lower upper strip)
open ArticTrader.TradingEngine

/-- Between two sessions. -/
structure AtRest (s : State) : Prop where
  running : s.trader.running = false
  loop : s.loop = .absent
  stopping : s.stopping = none

structure Decision where
  signal : Option (ℚ × Text)
  action : Option (Action × ℚ × Text)
  position : PaperPosition
  deriving DecidableEq, Repr

def decision (slice : Slice) : Decision where
  signal := slice.signal
  action := slice.action
  position := slice.position

/-- The decisions of the slices between two states. -/
def decisions (s t : State) : List Decision := (t.slices.drop s.slices.length).map decision

/-- A start that the running engine refuses is part of the session. -/
def InSession (s : State) : Event → Prop
  | .start _ _ => s.trader.running = true
  | _ => True

def OnSymbol (s : State) : Prop :=
  s.trader.position.side ≠ .FLAT → s.opened_on = s.trader.engine.symbol

def DecideAlike (s s' : State) : Prop :=
  ∀ (env : Env) (request : StartRequest) (answers : StartAnswers) (later : List Event),
    answers.initial_price.isSome →
      (run (step env) s (.start request answers :: later)).map (decisions s) =
        (run (step env) s' (.start request answers :: later)).map (decisions s')

def TradesOneSymbol (s : State) : Prop :=
  ∀ (env : Env) (request : StartRequest) (answers : StartAnswers) (later : List Event) (t : State),
    answers.initial_price.isSome →
    AllSteps (step env) InSession (s.start request answers) later →
    run (step env) s (.start request answers :: later) = some t → OnSymbol t

/-- The prices that are left when `kept` of them have been dropped off by new ones. -/
@[irreducible] def latest (count : ℕ) (prices : List ℚ) : List ℚ :=
  prices.drop (prices.length - count)

/-- What a start takes over from the sessions before. The first signal comes after
two new prices. -/
structure Leftover where
  position : PaperPosition
  candle_cache : Option (List Candle)
  last_candle_refresh_tick : ℕ
  prices : List ℚ
  deriving DecidableEq, Repr

def leftover (t : Trader) : Leftover where
  position := t.position
  candle_cache := t.engine.candle_cache
  last_candle_refresh_tick := t.last_candle_refresh_tick
  prices := latest 198 t.price_history

theorem latest_append (count : ℕ) (prices : List ℚ) (price : ℚ) :
    latest (count + 1) (prices ++ [price]) = latest count prices ++ [price] := by
  have hlength : (prices ++ [price]).length - (count + 1) = prices.length - count := by simp
  rw [latest, latest, hlength, List.drop_append_of_le_length (Nat.sub_le _ _)]

theorem latest_latest {count count' : ℕ} (h : count ≤ count') (prices : List ℚ) :
    latest count (latest count' prices) = latest count prices := by
  simp only [latest, List.drop_drop, List.length_drop]
  congr 1
  omega

theorem append_price_eq (prices : List ℚ) (price : ℚ) :
    append_price prices price = latest 199 prices ++ [price] := by
  rw [← latest_append, latest]
  rfl

theorem latest_append_price (prices : List ℚ) (price : ℚ) :
    latest 199 (append_price prices price) = latest 198 prices ++ [price] := by
  rw [append_price_eq, latest_append, latest_latest (by omega)]

/-- The engine without what has no part in its decisions. -/
def engine_core (e : Engine) : Engine :=
  { e with last_action := none, last_reason := none, trading_client := false, agent_id := [] }

def core (t : Trader) : Trader := { t with engine := engine_core t.engine, executor := false }

def verdict_core (v : Verdict) : Verdict := { v with trader := core v.trader }

theorem refresh_candles_core (t : Trader) (candles : Option (List Candle)) :
    refresh_candles (core t) candles = core (refresh_candles t candles) := by
  unfold refresh_candles
  split <;> rfl

theorem signal_pass_core (env : Env) (t : Trader) (tick_count : ℕ) (price : ℚ)
    (candles : Option (List Candle)) :
    signal_pass env (core t) tick_count price candles =
      verdict_core (signal_pass env t tick_count price candles) := by
  have hrefresh : (if (core t).last_candle_refresh_tick + 300 ≤ tick_count then
      { refresh_candles (core t) candles with last_candle_refresh_tick := tick_count }
      else core t) =
      core (if t.last_candle_refresh_tick + 300 ≤ tick_count then
        { refresh_candles t candles with last_candle_refresh_tick := tick_count } else t) := by
    rw [refresh_candles_core]
    change (if t.last_candle_refresh_tick + 300 ≤ tick_count then _ else _) = _
    split_ifs <;> rfl
  simp only [signal_pass, hrefresh]
  generalize (if t.last_candle_refresh_tick + 300 ≤ tick_count then
    { refresh_candles t candles with last_candle_refresh_tick := tick_count } else t) = t'
  have hplan : (core t').engine.strategy_plan = t'.engine.strategy_plan := rfl
  rw [hplan]
  cases t'.engine.strategy_plan with
  | none => rfl
  | some plan =>
      have hsignal : compute_strategy_signal env plan (core t').price_history
          (core t').engine.candle_cache =
          compute_strategy_signal env plan t'.price_history t'.engine.candle_cache := rfl
      dsimp only
      rw [hsignal]
      cases compute_strategy_signal env plan t'.price_history t'.engine.candle_cache with
      | error _ => rfl
      | ok answer => rfl

theorem supervisor_question_core (t : Trader) (price : ℚ) :
    supervisor_question (core t).engine price = supervisor_question t.engine price := rfl

theorem run_supervisor_check_core (env : Env) (t : Trader) (tick_count : ℕ) (price : ℚ)
    (input : TickInput) :
    run_supervisor_check env (core t) tick_count price input =
      verdict_core (run_supervisor_check env t tick_count price input) := by
  simp only [run_supervisor_check, supervisor_question_core]
  split
  · rfl
  · exact signal_pass_core ..
  · rfl
  · rfl

theorem trading_loop_core (env : Env) (t : Trader) (tick_count : ℕ) (input : TickInput) :
    trading_loop env (core t) tick_count input =
      verdict_core (trading_loop env t tick_count input) := by
  obtain ⟨engine, running, prices, refreshed, interval, asked, executor⟩ := t
  unfold trading_loop
  split
  · rfl
  · rename_i price _
    have hposition : (engine_core engine).position = engine.position := rfl
    have hdue : ∀ prices : List ℚ,
        supervisor_due ⟨engine_core engine, running, prices, refreshed, interval, asked, false⟩
          input.now ↔
        supervisor_due ⟨engine, running, prices, refreshed, interval, asked, executor⟩ input.now :=
      fun _ => Iff.rfl
    simp only [core, Trader.position, hposition, hdue]
    generalize append_price prices price = prices'
    by_cases hflat : engine.position.side = .FLAT
    · simp only [if_pos hflat]
      exact signal_pass_core env ⟨engine, running, prices', refreshed, interval, asked, executor⟩ ..
    · simp only [if_neg hflat]
      cases check_tp_sl engine.position price with
      | error _ => rfl
      | ok trigger =>
          cases trigger with
          | some _ => rfl
          | none =>
              dsimp only
              split_ifs
              · exact run_supervisor_check_core env
                  ⟨engine, running, prices', refreshed, interval, input.now, executor⟩ ..
              · exact signal_pass_core env
                  ⟨engine, running, prices', refreshed, interval, asked, executor⟩ ..

theorem apply_supervisor_response_core {e : Engine} {price : ℚ} {resp : SupervisorResponse}
    (h : resp.action ≠ .CLOSE) :
    (apply_supervisor_response (engine_core e) price resp).engine =
        engine_core (apply_supervisor_response e price resp).engine ∧
      (apply_supervisor_response (engine_core e) price resp).raised =
        (apply_supervisor_response e price resp).raised := by
  have hmode : (engine_core e).is_dynamic ↔ e.is_dynamic := Iff.rfl
  have hposition : (engine_core e).position = e.position := rfl
  unfold apply_supervisor_response
  split
  · exact absurd (by assumption) h
  · simp only [hmode, hposition]
    split_ifs
    · split <;> exact ⟨rfl, rfl⟩
    · exact ⟨rfl, rfl⟩
  · exact ⟨rfl, rfl⟩

theorem supervisor_pass_core (env : Env) (t : Trader) (tick_count : ℕ) (price : ℚ)
    (resp : SupervisorResponse) (candles : Option (List Candle)) :
    supervisor_pass env (core t) tick_count price resp candles =
      verdict_core (supervisor_pass env t tick_count price resp candles) := by
  obtain ⟨engine, running, prices, refreshed, interval, asked, executor⟩ := t
  unfold supervisor_pass Trader.position
  split
  · rfl
  · rename_i hclose
    obtain ⟨hengine, hraised⟩ := @apply_supervisor_response_core engine price resp hclose
    simp only [core, hengine, hraised]
    generalize apply_supervisor_response engine price resp = o
    have hposition : (engine_core o.engine).position = o.engine.position := rfl
    rw [hposition]
    by_cases hended : o.raised.isSome ∨ o.engine.position.side = .FLAT
    · simp only [if_pos hended]
      rfl
    · simp only [if_neg hended]
      exact signal_pass_core env
        ⟨o.engine, running, prices, refreshed, interval, asked, executor⟩ ..

theorem execute_close_core (e : Engine) (price : ℚ) (reason : Text) :
    engine_core (execute_close (engine_core e) price reason).engine =
      engine_core (execute_close e price reason).engine := by
  have hposition : (engine_core e).position = e.position := rfl
  unfold execute_close
  rw [hposition]
  by_cases hflat : e.position.side = .FLAT
  · rw [if_pos hflat, if_pos hflat]
    rfl
  · rw [if_neg hflat, if_neg hflat]
    cases unrealized_pnl e.position price with
    | error _ => rfl
    | ok _ => rfl

theorem execute_action_core (e : Engine) (action : Action) (price : ℚ) (reason : Text) :
    engine_core (execute_action (engine_core e) action price reason).engine =
      engine_core (execute_action e action price reason).engine := by
  cases action with
  | OPEN_LONG => rfl
  | OPEN_SHORT => rfl
  | HOLD => rfl
  | CLOSE =>
      exact (execute_close_core { engine_core e with
        last_action := some .CLOSE, last_reason := some reason } price reason).symm.trans
          (execute_close_core { e with
            last_action := some .CLOSE, last_reason := some reason } price reason)

theorem enact_eq (s : State) (v : Verdict) :
    ∃ slice, s.enact v = { s.record (enacted v) slice with loop := v.loop } ∧
      decision slice = ⟨v.signal, v.action, (enacted v).position⟩ := by
  unfold State.enact enacted
  cases haction : v.action with
  | none => exact ⟨_, rfl, rfl⟩
  | some taken => exact ⟨_, rfl, rfl⟩

/-- The engine with the prices that another price leaves in its history. -/
def trimmed (t : Trader) : Trader := { t with price_history := latest 199 t.price_history }

theorem trimmed_core_congr {t t' : Trader} (h : core t = core t') :
    core (trimmed t) = core (trimmed t') := by
  have htrimmed : ∀ t, core (trimmed t) = trimmed (core t) := fun _ => rfl
  rw [htrimmed, htrimmed, h]

/-- What works on the engine apart from the prices and from what has no part in the
decisions keeps two engines alike. -/
theorem update_alike {f : Trader → Trader} (hcore : ∀ t, core (f t) = core (f (core t)))
    (htrimmed : ∀ t, trimmed (f t) = f (trimmed t)) {t t' : Trader}
    (h : core (trimmed t) = core (trimmed t')) :
    core (trimmed (f t)) = core (trimmed (f t')) := by
  rw [htrimmed, htrimmed, hcore, h, ← hcore]

/-- Two verdicts that differ in nothing the decisions depend on. -/
structure VerdictsAlike (v v' : Verdict) : Prop where
  signal : v.signal = v'.signal
  action : v.action = v'.action
  loop : v.loop = v'.loop
  trader : core (trimmed v.trader) = core (trimmed v'.trader)
  waiting : ∀ tick_count price resp, v.loop = .checking tick_count price resp →
    core v.trader = core v'.trader

theorem verdictsAlike_of_core {v v' : Verdict} (h : verdict_core v = verdict_core v') :
    VerdictsAlike v v' where
  signal := (Verdict.mk.inj h).2.1
  action := (Verdict.mk.inj h).2.2.1
  loop := (Verdict.mk.inj h).2.2.2
  trader := trimmed_core_congr (Verdict.mk.inj h).1
  waiting := fun _ _ _ _ => (Verdict.mk.inj h).1

theorem supervisor_pass_alike (env : Env) {t t' : Trader} (h : core t = core t') (tick_count : ℕ)
    (price : ℚ) (resp : SupervisorResponse) (candles : Option (List Candle)) :
    VerdictsAlike (supervisor_pass env t tick_count price resp candles)
      (supervisor_pass env t' tick_count price resp candles) := by
  apply verdictsAlike_of_core
  rw [← supervisor_pass_core, ← supervisor_pass_core, h]

theorem trading_loop_trimmed (env : Env) (t : Trader) (tick_count : ℕ) {input : TickInput}
    {price : ℚ} (hprice : input.price = some price) :
    trading_loop env (trimmed t) tick_count input = trading_loop env t tick_count input := by
  have hhistory : append_price (latest 199 t.price_history) price =
      append_price t.price_history price := by
    rw [append_price_eq, append_price_eq, latest_latest le_rfl]
  simp only [trading_loop, hprice, trimmed, hhistory]

theorem trading_loop_alike (env : Env) {t t' : Trader} (h : core (trimmed t) = core (trimmed t'))
    (tick_count : ℕ) (input : TickInput) :
    VerdictsAlike (trading_loop env t tick_count input)
      (trading_loop env t' tick_count input) := by
  cases hprice : input.price with
  | none =>
      simp only [trading_loop, hprice]
      exact ⟨rfl, rfl, rfl, h, by simp [Verdict.quiet]⟩
  | some price =>
      apply verdictsAlike_of_core
      rw [← trading_loop_trimmed env t tick_count hprice,
        ← trading_loop_trimmed env t' tick_count hprice, ← trading_loop_core,
        ← trading_loop_core, h]

theorem enacted_core (v : Verdict) : core (enacted (verdict_core v)) = core (enacted v) := by
  obtain ⟨t, signal, action, loop⟩ := v
  cases action with
  | none => rfl
  | some taken =>
      obtain ⟨action, price, reason⟩ := taken
      have hengine := execute_action_core t.engine action price reason
      simp only [enacted, verdict_core, core, hengine]

theorem enacted_alike {v v' : Verdict} (h : VerdictsAlike v v') :
    core (trimmed (enacted v)) = core (trimmed (enacted v')) ∧
      ∀ tick_count price resp, v.loop = .checking tick_count price resp →
        core (enacted v) = core (enacted v') := by
  have hcongr : ∀ {w w' : Verdict}, w.action = w'.action → core w.trader = core w'.trader →
      core (enacted w) = core (enacted w') := by
    intro w w' haction hcore
    have hverdict : ∀ w : Verdict, core (enacted w) =
        core (enacted ⟨core w.trader, none, w.action, .absent⟩) := by
      intro w
      rw [← enacted_core w]
      rfl
    rw [hverdict w, hverdict w', haction, hcore]
  have htrim : ∀ w : Verdict,
      trimmed (enacted w) = enacted { w with trader := trimmed w.trader } := by
    intro w
    obtain ⟨t, signal, action, loop⟩ := w
    cases action <;> rfl
  constructor
  · rw [htrim, htrim]
    exact hcongr h.action h.trader
  · intro tick_count price resp hloop
    exact hcongr h.action (h.waiting tick_count price resp hloop)

theorem select_executor_core (t : Trader) (live_mode hashkey_key : Bool) :
    core (select_executor t live_mode hashkey_key) =
      core { t with engine := { t.engine with live_mode } } := by
  unfold select_executor
  dsimp only
  split_ifs <;> rfl

/-- What a start makes of the engine whose executor has been selected. -/
def planned (t : Trader) (r : StartRequest) (a : StartAnswers) (prices : List ℚ) : Trader :=
  let t := set_parameters t r
  let t :=
    { t with
      price_history := prices
      engine :=
        { t.engine with
          strategy_plan := some a.strategy_plan
          sl_pct := some (t.engine.sl_pct.getD a.strategy_plan.max_loss_pct) } }
  { refresh_candles t a.candles with running := true }

theorem select_executor_prices (t : Trader) (live_mode hashkey_key : Bool) :
    (select_executor t live_mode hashkey_key).price_history = t.price_history := by
  unfold select_executor
  dsimp only
  split_ifs <;> rfl

theorem start_eq_planned (t : Trader) {r : StartRequest} {a : StartAnswers} {price : ℚ}
    (hprice : a.initial_price = some price) :
    start t r a = (planned (select_executor t r.live_mode a.hashkey_key) r a
      (append_price t.price_history price), true) := by
  rw [← select_executor_prices t r.live_mode a.hashkey_key]
  simp only [start, hprice]
  rfl

theorem planned_core (t : Trader) (r : StartRequest) (a : StartAnswers) (prices : List ℚ) :
    planned (core t) r a prices = core (planned t r a prices) := by
  unfold planned refresh_candles
  split <;> rfl

theorem start_core (t : Trader) {r : StartRequest} {a : StartAnswers} {price : ℚ}
    (hprice : a.initial_price = some price) :
    core (start t r a).1 =
      core (planned { t with engine := { t.engine with live_mode := r.live_mode } } r a
        (append_price t.price_history price)) := by
  rw [start_eq_planned t hprice, ← planned_core, ← planned_core, select_executor_core]

theorem start_of_leftover {t t' : Trader} {r : StartRequest} {a : StartAnswers} {price : ℚ}
    (h : leftover t = leftover t') (hprice : a.initial_price = some price) :
    core (trimmed (start t r a).1) = core (trimmed (start t' r a).1) ∧
      (start t r a).2 = (start t' r a).2 := by
  obtain ⟨hposition, hcache, hrefreshed, hprices⟩ := Leftover.mk.inj h
  have hhistory : latest 199 (append_price t.price_history price) =
      latest 199 (append_price t'.price_history price) := by
    rw [latest_append_price, latest_append_price, hprices]
  have hposition' : t.engine.position = t'.engine.position := hposition
  constructor
  · rw [trimmed_core_congr (start_core t hprice), trimmed_core_congr (start_core t' hprice)]
    unfold planned refresh_candles
    split <;> simp only [set_parameters, core, trimmed, engine_core, hhistory, hposition', hcache,
      hrefreshed]
  · rw [start_eq_planned t hprice, start_eq_planned t' hprice]

theorem start_unpriced_core {r : StartRequest} {a : StartAnswers} (t : Trader)
    (hprice : a.initial_price = none) :
    core (trimmed (start t r a).1) = core (start (core (trimmed t)) r a).1 ∧
      (start t r a).2 = false := by
  have hcore : ∀ u, core (set_parameters u r) = set_parameters (core u) r := fun _ => rfl
  have htrimmed : ∀ u, trimmed (set_parameters (select_executor u r.live_mode a.hashkey_key) r) =
      set_parameters (select_executor (trimmed u) r.live_mode a.hashkey_key) r := by
    intro u
    unfold select_executor
    dsimp only
    split_ifs <;> rfl
  simp only [start, hprice, and_true]
  rw [htrimmed, hcore, hcore, select_executor_core, select_executor_core]
  rfl

theorem start_alike {t t' : Trader} (h : core (trimmed t) = core (trimmed t')) (r : StartRequest)
    (a : StartAnswers) :
    core (trimmed (start t r a).1) = core (trimmed (start t' r a).1) ∧
      (start t r a).2 = (start t' r a).2 := by
  cases hprice : a.initial_price with
  | none =>
      obtain ⟨hcore, hfailed⟩ := start_unpriced_core (r := r) t hprice
      obtain ⟨hcore', hfailed'⟩ := start_unpriced_core (r := r) t' hprice
      exact ⟨by rw [hcore, hcore', h], by rw [hfailed, hfailed']⟩
  | some price =>
      refine start_of_leftover ?_ hprice
      have hleftover : ∀ t, leftover t = leftover (core (trimmed t)) := by
        intro t
        simp only [leftover, core, trimmed, latest_latest (show 198 ≤ 199 by omega)]
        rfl
      rw [hleftover t, hleftover t', h]

/-- Two runs that have decided the same, on engines that go on to do so. -/
structure Alike (base base' s s' : State) : Prop where
  trader : core (trimmed s.trader) = core (trimmed s'.trader)
  loop : s.loop = s'.loop
  stopping : s.stopping = s'.stopping
  waiting : ∀ tick_count price resp, s.loop = .checking tick_count price resp →
    core s.trader = core s'.trader
  decided : decisions base s = decisions base' s'
  length : base.slices.length ≤ s.slices.length
  length' : base'.slices.length ≤ s'.slices.length

section Steps

variable {base base' s s' r r' : State}

theorem decisions_append {slice : Slice} (hlength : base.slices.length ≤ s.slices.length)
    (hslice : r.slices = s.slices ++ [slice]) :
    decisions base r = decisions base s ++ [decision slice] := by
  rw [decisions, hslice, List.drop_append_of_le_length hlength, List.map_append]
  rfl

theorem Alike.append {slice slice' : Slice} (h : Alike base base' s s')
    (hslice : r.slices = s.slices ++ [slice]) (hslice' : r'.slices = s'.slices ++ [slice'])
    (hdecision : decision slice = decision slice')
    (htrader : core (trimmed r.trader) = core (trimmed r'.trader)) (hloop : r.loop = r'.loop)
    (hstopping : r.stopping = r'.stopping)
    (hwaiting : ∀ tick_count price resp, r.loop = .checking tick_count price resp →
      core r.trader = core r'.trader) : Alike base base' r r' where
  trader := htrader
  loop := hloop
  stopping := hstopping
  waiting := hwaiting
  decided := by
    rw [decisions_append h.length hslice, decisions_append h.length' hslice', h.decided, hdecision]
  length := by
    rw [hslice, List.length_append]
    exact h.length.trans (Nat.le_add_right _ _)
  length' := by
    rw [hslice', List.length_append]
    exact h.length'.trans (Nat.le_add_right _ _)

theorem position_of_trimmed {t t' : Trader} (h : core (trimmed t) = core (trimmed t')) :
    t.position = t'.position := by
  have hengine := congrArg (fun t : Trader => t.engine.position) h
  exact hengine

theorem idle_slice_alike {t t' : Trader} (h : core (trimmed t) = core (trimmed t'))
    (calls calls' : List ExecutorCall) :
    decision { idle_slice t with calls } = decision { idle_slice t' with calls := calls' } := by
  simp only [decision, idle_slice, position_of_trimmed h]

theorem enact_alike {v v' : Verdict} (h : Alike base base' s s') (hv : VerdictsAlike v v') :
    Alike base base' (s.enact v) (s'.enact v') := by
  obtain ⟨slice, heq, hdecision⟩ := enact_eq s v
  obtain ⟨slice', heq', hdecision'⟩ := enact_eq s' v'
  obtain ⟨htrader, hwaiting⟩ := enacted_alike hv
  rw [heq, heq']
  refine h.append rfl rfl ?_ htrader hv.loop h.stopping hwaiting
  rw [hdecision, hdecision', hv.signal, hv.action, position_of_trimmed htrader]

/-- A step other than one of the loop leaves both loops where they may still wait. -/
theorem Alike.idle (h : Alike base base' s s')
    (hslice : r.slices = s.slices ++ [idle_slice r.trader])
    (hslice' : r'.slices = s'.slices ++ [idle_slice r'.trader])
    (hloop : r.loop = s.loop) (hloop' : r'.loop = s'.loop) (hstopping : r.stopping = r'.stopping)
    (htrader : core (trimmed r.trader) = core (trimmed r'.trader))
    (hwaiting : core s.trader = core s'.trader → core r.trader = core r'.trader) :
    Alike base base' r r' := by
  have hloops : r.loop = r'.loop := by rw [hloop, hloop', h.loop]
  refine h.append hslice hslice' (idle_slice_alike htrader [] []) htrader hloops hstopping ?_
  intro tick_count price resp hchecking
  exact hwaiting (h.waiting tick_count price resp (hloop.symm.trans hchecking))

theorem start_state_alike {request : StartRequest} {answers : StartAnswers}
    (h : Alike base base' s s')
    (hstart : core (trimmed (start s.trader request answers).1) =
        core (trimmed (start s'.trader request answers).1) ∧
      (start s.trader request answers).2 = (start s'.trader request answers).2)
    (hloop : s.loop = .absent) :
    Alike base base' (s.start request answers) (s'.start request answers) := by
  obtain ⟨htrader, hstarted⟩ := hstart
  unfold State.start
  dsimp only
  rw [← hstarted]
  split_ifs
  · exact h.append rfl rfl (idle_slice_alike htrader [] []) htrader rfl h.stopping (by simp)
  · exact h.append rfl rfl (idle_slice_alike htrader [] []) htrader h.loop h.stopping
      (by simp [State.record, hloop])

theorem finish_stop_trader (t : Trader) (close_position : Bool) (final_price : Option ℚ) :
    (finish_stop t close_position final_price).1 =
      if closes_on_stop t close_position final_price then
        { t with engine := { t.engine with position := close t.position } }
      else t := by
  unfold finish_stop
  split <;> rfl

theorem finish_alike (h : Alike base base' s s') (close_position : Bool)
    (final_price : Option ℚ) :
    Alike base base' (s.finish close_position final_price)
      (s'.finish close_position final_price) := by
  have hposition := position_of_trimmed h.trader
  have hcloses : closes_on_stop s'.trader close_position final_price =
      closes_on_stop s.trader close_position final_price := by
    simp only [closes_on_stop, hposition]
  have htrader : core (trimmed (finish_stop s.trader close_position final_price).1) =
      core (trimmed (finish_stop s'.trader close_position final_price).1) := by
    rw [finish_stop_trader, finish_stop_trader, hcloses]
    split_ifs
    · exact update_alike (f := fun t => { t with engine :=
        { t.engine with position := close t.position } }) (fun _ => rfl) (fun _ => rfl) h.trader
    · exact h.trader
  exact h.append rfl rfl (idle_slice_alike htrader _ _) htrader rfl rfl (by simp [State.finish])

theorem step_alike (env : Env) (h : Alike base base' s s') (e : Event) :
    Option.Rel (Alike base base') (step env s e) (step env s' e) := by
  have hrunning : s'.trader.running = s.trader.running :=
    (congrArg Trader.running h.trader).symm
  cases e with
  | start request answers =>
      simp only [step, hrunning, ← h.loop, ← h.stopping]
      split_ifs
      · exact .some (h.idle rfl rfl rfl rfl h.stopping h.trader id)
      · split
        · rename_i hloop _
          exact .some (start_state_alike h (start_alike h.trader request answers) hloop)
        · exact .none
  | tick input =>
      simp only [step, hrunning, ← h.loop]
      split
      · split_ifs
        · exact .some (enact_alike h (trading_loop_alike env h.trader _ input))
        · exact .none
      · exact .none
  | answer input =>
      simp only [step, ← h.loop]
      split
      · rename_i tick_count price resp hloop
        exact .some (enact_alike h
          (supervisor_pass_alike env (h.waiting tick_count price resp hloop) ..))
      · exact .none
  | config request =>
      simp only [step, hrunning]
      split_ifs
      · have hcore : ∀ t, core (update_config t request) = core (update_config (core t) request) :=
          fun _ => rfl
        have htrader := update_alike hcore (fun _ => rfl) h.trader
        refine .some (h.idle rfl rfl rfl rfl h.stopping htrader ?_)
        intro hfull
        rw [record_trader, record_trader, hcore, hfull, ← hcore]
      · exact .some (h.idle rfl rfl rfl rfl h.stopping h.trader id)
  | stop close_position =>
      simp only [step, hrunning]
      split_ifs
      · have htrader := update_alike (f := fun t => { t with running := false }) (fun _ => rfl)
          (fun _ => rfl) h.trader
        refine .some (h.idle rfl rfl rfl rfl rfl htrader ?_)
        intro hfull
        exact congrArg (fun t : Trader => { t with running := false }) hfull
      · exact .some (h.idle rfl rfl rfl rfl h.stopping h.trader id)
  | finish final_price =>
      simp only [step, ← h.loop, ← h.stopping]
      split
      · exact .some (finish_alike h _ final_price)
      · exact .none

end Steps

theorem run_start {env : Env} {s : State} (hrest : AtRest s) (request : StartRequest)
    (answers : StartAnswers) (later : List Event) :
    run (step env) s (.start request answers :: later) =
      run (step env) (s.start request answers) later := by
  simp [run, step, hrest.running, hrest.loop, hrest.stopping]

theorem start_started {s : State} (request : StartRequest) {answers : StartAnswers} {price : ℚ}
    (hprice : answers.initial_price = some price) :
    s.start request answers =
      { s.record (start s.trader request answers).1
          (idle_slice (start s.trader request answers).1) with
        loop := .top 0
        selected := selected_executor request answers } := by
  simp only [State.start, start, hprice, if_true]

theorem decideAlike_of_leftover {s s' : State} (hs : AtRest s) (hs' : AtRest s')
    (h : leftover s.trader = leftover s'.trader) : DecideAlike s s' := by
  intro env request answers later hprice
  obtain ⟨price, hprice⟩ := Option.isSome_iff_exists.mp hprice
  obtain ⟨htrader, -⟩ := start_of_leftover (r := request) h hprice
  have halike : Alike s s' (s.start request answers) (s'.start request answers) := by
    rw [start_started request hprice, start_started request hprice]
    constructor
    · exact htrader
    · rfl
    · exact hs.stopping.trans hs'.stopping.symm
    · simp
    · simp only [decisions, record_slices, List.drop_left, List.map_singleton]
      exact congrArg (fun d => [d]) (idle_slice_alike htrader [] [])
    · simp
    · simp
  rw [run_start hs, run_start hs']
  exact run_map_eq (fun _ _ e h => step_alike env h e) (fun _ _ h => h.decided) halike later

theorem record_onSymbol {s : State} {t : Trader} (hs : OnSymbol s)
    (hsession : SameSession s.trader.engine t.engine) (slice : Slice) :
    OnSymbol (s.record t slice) := by
  intro hside
  rw [record_trader] at hside
  rw [record_trader, State.record, if_neg hside]
  split_ifs with hflat
  · rfl
  · rw [hsession.symbol]
    exact hs hflat

theorem onSymbol_step {env : Env} {s s' : State} {e : Event} (hs : OnSymbol s)
    (hsession : InSession s e) (h : step env s e = some s') : OnSymbol s' := by
  cases step_stepped h with
  | @enacts _ v _ _ hv =>
      obtain ⟨slice, heq, -⟩ := enact_eq s v
      rw [heq]
      exact record_onSymbol hs (enacted_session hv) slice
  | starts hrunning => exact absurd (hsession.symm.trans hrunning) (by simp)
  | @settles _ t _ _ _ hsame => exact record_onSymbol hs hsame (idle_slice t)
  | @finishes final_price close_position =>
      have hsame : SameSession s.trader.engine
          (finish_stop s.trader close_position final_price).1.engine := by
        rw [finish_stop_trader]
        split_ifs
        · exact ⟨rfl, rfl, rfl, rfl⟩
        · exact .refl _
      exact record_onSymbol hs hsame (idle_slice s.trader)

theorem tradesOneSymbol_of_flat {s : State} (hs : AtRest s)
    (hflat : s.trader.position.side = .FLAT) : TradesOneSymbol s := by
  intro env request answers later t _ hlater hrun
  rw [run_start hs] at hrun
  have hstart : OnSymbol (s.start request answers) := by
    intro hside
    rw [start_position] at hside
    exact absurd hflat hside
  exact run_invariant_of_allSteps (fun _ _ _ => onSymbol_step) hrun hlater hstart

theorem position_of_decideAlike {s s' : State} (hs : AtRest s) (hs' : AtRest s')
    (h : DecideAlike s s') : s.trader.position = s'.trader.position := by
  have hfirst := h demo_env (demo_request false) (demo_answers false) [] rfl
  simp only [run_start hs, run_start hs', run_nil, Option.map_some, Option.some.injEq, decisions,
    start_slices, List.drop_left, List.map_singleton, List.cons.injEq, and_true] at hfirst
  have hstarted := congrArg Decision.position hfirst
  simp only [decision, idle_slice, (start_keeps _ _ _).1] at hstarted
  exact hstarted

/-- A session on another symbol than the one of an open position. -/
theorem flat_of_tradesOneSymbol {s : State} (hs : AtRest s) (h : TradesOneSymbol s) :
    s.trader.position.side = .FLAT := by
  by_contra hside
  have hsymbol : ∀ symbol, s.opened_on = some (upper (normalize_symbol symbol)) := by
    intro symbol
    let request := { demo_request false with symbol }
    have hon := h demo_env request (demo_answers false) [] _ rfl trivial (run_start hs _ _ _)
    have hopen : (s.start request (demo_answers false)).trader.position.side ≠ .FLAT := by
      rw [start_position]
      exact hside
    have hopened : (s.start request (demo_answers false)).opened_on = s.opened_on := by
      have hkept : (start s.trader request (demo_answers false)).1.position = s.trader.position :=
        (start_keeps _ _ _).1
      rw [@start_started s request (demo_answers false) 100 rfl]
      simp only [State.record, hkept, if_neg hside]
    rw [← hopened, hon hopen, start_trader]
    rfl
  have hname : upper (normalize_symbol "A".toList) = upper (normalize_symbol "B".toList) :=
    Option.some.inj ((hsymbol _).symm.trans (hsymbol _))
  exact absurd hname (by decide)

/-- The plan, the price and the candles of a session that asks what the engine remembers. -/
def probe_plan : StrategyPlan where
  strategy := "probe".toList
  lookback := 1
  threshold := 10
  max_loss_pct := 0

def probe_env (test : List ℚ → Option (List Candle) → Bool) : Env where
  quant_signal := fun _ prices candles => .ok (if test prices candles then 1 else 0, [])
  bps_text := fun _ => []
  trigger_text := fun _ => []

def probe_answers (candles : Option (List Candle)) : StartAnswers where
  hashkey_key := false
  initial_price := some 1
  strategy_plan := probe_plan
  candles := candles

def probe_tick (candles : Option (List Candle)) : TickInput where
  price := some 1
  now := 0
  resp := none
  candles := candles

/-- The `n`-th tick of such a session has passed. -/
structure Probing (base s : State) (n : ℕ) : Prop where
  loop : s.loop = .top n
  running : s.trader.running = true
  side : s.trader.position.side = .FLAT
  plan : s.trader.engine.strategy_plan = some probe_plan
  length : base.slices.length ≤ s.slices.length

theorem start_priced (t : Trader) (r : StartRequest) {a : StartAnswers} {price : ℚ}
    (hprice : a.initial_price = some price) :
    (start t r a).1.running = true ∧
      (start t r a).1.engine.strategy_plan = some a.strategy_plan ∧
      (start t r a).1.price_history = append_price t.price_history price ∧
      (start t r a).1.engine.candle_cache = (refresh_candles t a.candles).engine.candle_cache ∧
      (start t r a).1.last_candle_refresh_tick = t.last_candle_refresh_tick := by
  have hselect := select_executor_core t r.live_mode a.hashkey_key
  have hcache : (select_executor t r.live_mode a.hashkey_key).engine.candle_cache =
      t.engine.candle_cache := congrArg (fun t => t.engine.candle_cache) hselect
  have hrefreshed : (select_executor t r.live_mode a.hashkey_key).last_candle_refresh_tick =
      t.last_candle_refresh_tick := congrArg (fun t => t.last_candle_refresh_tick) hselect
  rw [start_eq_planned t hprice]
  generalize append_price t.price_history price = prices
  unfold planned refresh_candles
  cases a.candles with
  | none => exact ⟨rfl, rfl, rfl, hcache, hrefreshed⟩
  | some candles =>
      cases candles with
      | nil => exact ⟨rfl, rfl, rfl, hcache, hrefreshed⟩
      | cons => exact ⟨rfl, rfl, rfl, rfl, hrefreshed⟩

theorem probe_start {s : State} (hflat : s.trader.position.side = .FLAT)
    (candles : Option (List Candle)) :
    Probing s (s.start (demo_request false) (probe_answers candles)) 0 := by
  have hprice : (probe_answers candles).initial_price = some 1 := rfl
  obtain ⟨hrunning, hplan, -⟩ := start_priced s.trader (demo_request false) hprice
  refine ⟨?_, ?_, ?_, ?_, ?_⟩
  · rw [start_started _ hprice]
  · rw [start_trader]
    exact hrunning
  · rw [start_position]
    exact hflat
  · rw [start_trader]
    exact hplan
  · simp [start_slices]

/-- The engine after a price and the candles that are due. -/
def probed (t : Trader) (n : ℕ) (candles : Option (List Candle)) : Trader :=
  let t := { t with price_history := append_price t.price_history 1 }
  if t.last_candle_refresh_tick + 300 ≤ n then
    { refresh_candles t candles with last_candle_refresh_tick := n }
  else t

theorem probed_keeps (t : Trader) (n : ℕ) (candles : Option (List Candle)) :
    (probed t n candles).running = t.running ∧
      (probed t n candles).position = t.position ∧
      (probed t n candles).engine.strategy_plan = t.engine.strategy_plan ∧
      (probed t n candles).price_history = append_price t.price_history 1 := by
  unfold probed refresh_candles
  generalize append_price t.price_history 1 = prices
  dsimp only
  split_ifs
  · split <;> exact ⟨rfl, rfl, rfl, rfl⟩
  · exact ⟨rfl, rfl, rfl, rfl⟩

theorem decide_action_hold {e : Engine} {plan : StrategyPlan} {signal : ℚ} (detail : Text)
    (hflat : e.position.side = .FLAT) (hlow : -plan.threshold ≤ signal)
    (hhigh : signal ≤ plan.threshold) : (decide_action e plan signal detail).1 = .HOLD := by
  unfold decide_action
  dsimp only
  rw [hflat]
  dsimp only
  rw [if_neg (not_lt.mpr hhigh), if_neg (not_lt.mpr hlow)]

theorem trading_loop_probe (test : List ℚ → Option (List Candle) → Bool) {t : Trader}
    (hside : t.position.side = .FLAT) (hplan : t.engine.strategy_plan = some probe_plan) (n : ℕ)
    (candles : Option (List Candle)) :
    trading_loop (probe_env test) t n (probe_tick candles) =
      { trader := probed t n candles
        signal := some (if test (probed t n candles).price_history
          (probed t n candles).engine.candle_cache then 1 else 0, [])
        action := none
        loop := .top n } := by
  obtain ⟨-, hposition, hplan', -⟩ := probed_keeps t n candles
  have hname : strip (lower probe_plan.strategy) ≠ "demo_mode".toList := by decide
  have hhold : ∀ signal : ℚ, signal = 0 ∨ signal = 1 →
      (decide_action (probed t n candles).engine probe_plan signal []).1 = .HOLD := by
    intro signal hsignal
    have hflat : (probed t n candles).engine.position.side = .FLAT := by
      rw [← hside, ← hposition]
      rfl
    have hthreshold : probe_plan.threshold = 10 := rfl
    apply decide_action_hold [] hflat <;> rw [hthreshold] <;> rcases hsignal with rfl | rfl <;>
      norm_num
  have hpass : trading_loop (probe_env test) t n (probe_tick candles) =
      signal_pass (probe_env test) { t with price_history := append_price t.price_history 1 } n 1
        candles := by
    simp only [trading_loop, probe_tick]
    generalize append_price t.price_history 1 = prices
    exact if_pos hside
  have htaken : (if t.last_candle_refresh_tick + 300 ≤ n then
      { refresh_candles { t with price_history := append_price t.price_history 1 } candles with
        last_candle_refresh_tick := n }
      else { t with price_history := append_price t.price_history 1 }) = probed t n candles := rfl
  rw [hpass, signal_pass]
  dsimp only
  rw [htaken, hplan', hplan]
  simp only [compute_strategy_signal, if_neg hname, probe_env]
  rw [if_pos (hhold _ ?_)]
  split_ifs
  · exact .inr rfl
  · exact .inl rfl

theorem probe_step (test : List ℚ → Option (List Candle) → Bool) {base s : State} {n : ℕ}
    (h : Probing base s n) (candles : Option (List Candle)) :
    ∃ s', step (probe_env test) s (.tick (probe_tick candles)) = some s' ∧
      Probing base s' (n + 1) ∧ s'.trader = probed s.trader (n + 1) candles ∧
      ∃ slice, s'.slices = s.slices ++ [slice] ∧ slice.signal =
        some (if test s'.trader.price_history s'.trader.engine.candle_cache then 1 else 0, []) := by
  obtain ⟨hrunning, hposition, hplan, -⟩ := probed_keeps s.trader (n + 1) candles
  have hverdict := trading_loop_probe test h.side h.plan (n + 1) candles
  have hstep : step (probe_env test) s (.tick (probe_tick candles)) =
      some (s.enact (trading_loop (probe_env test) s.trader (n + 1) (probe_tick candles))) := by
    simp only [step, h.loop, h.running, if_true]
  rw [hverdict] at hstep
  refine ⟨_, hstep, ?_, rfl, _, rfl, rfl⟩
  refine ⟨rfl, hrunning.trans h.running, ?_, hplan.trans h.plan, ?_⟩
  · exact (congrArg PaperPosition.side hposition).trans h.side
  · exact h.length.trans (by simp [State.enact])

def probes (t : Trader) (candles : Option (List Candle)) : ℕ → Trader
  | 0 => t
  | n + 1 => probed (probes t candles n) (n + 1) candles

theorem probes_prices (t : Trader) (candles : Option (List Candle)) (n : ℕ) :
    (probes t candles (n + 1)).price_history =
      append_price (probes t candles n).price_history 1 :=
  (probed_keeps _ _ _).2.2.2

def candle (close : ℚ) : Candle where
  open_ := 1
  high := 1
  low := 1
  close := close
  volume := 1

/-- Until the refresh is due the candles of the start stay. -/
theorem probes_before (t : Trader) (candles : Option (List Candle)) {n : ℕ}
    (hn : n < t.last_candle_refresh_tick + 300) :
    (probes t candles n).engine.candle_cache = t.engine.candle_cache ∧
      (probes t candles n).last_candle_refresh_tick = t.last_candle_refresh_tick := by
  induction n with
  | zero => exact ⟨rfl, rfl⟩
  | succ n ih =>
      obtain ⟨hcache, hrefreshed⟩ := ih (by omega)
      rw [probes, probed]
      dsimp only
      rw [if_neg (by omega)]
      exact ⟨hcache, hrefreshed⟩

theorem probes_due (t : Trader) {candles : List Candle} (hcandles : candles ≠ []) {n : ℕ}
    (hn : n + 1 = t.last_candle_refresh_tick + 300) :
    (probes t (some candles) (n + 1)).engine.candle_cache = some candles := by
  have hrefreshed := (probes_before t (some candles) (show n < _ by omega)).2
  rw [probes, probed]
  dsimp only
  rw [if_pos (by omega)]
  cases candles with
  | nil => exact absurd rfl hcandles
  | cons c cs => rfl

theorem probe_run (test : List ℚ → Option (List Candle) → Bool) {base s : State}
    (h : Probing base s 0) (candles : Option (List Candle)) (n : ℕ) :
    ∃ t, run (step (probe_env test)) s (List.replicate n (.tick (probe_tick candles))) = some t ∧
      Probing base t n ∧ t.trader = probes s.trader candles n := by
  induction n with
  | zero => exact ⟨s, rfl, h, rfl⟩
  | succ n ih =>
      obtain ⟨m, hrun, hm, htrader⟩ := ih
      obtain ⟨t, hstep, ht, hprobed, -⟩ := probe_step test hm candles
      refine ⟨t, ?_, ht, by rw [hprobed, htrader]; rfl⟩
      rw [List.replicate_succ', run_append_iff]
      exact ⟨m, hrun, run_cons_iff.mpr ⟨t, hstep, rfl⟩⟩

def probe_end (s : State) (first next : Option (List Candle)) (n : ℕ) : Trader :=
  probes (start s.trader (demo_request false) (probe_answers first)).1 next (n + 1)

/-- The last signal of a probing session is the test of its prices and candles. -/
theorem probe_session (test : List ℚ → Option (List Candle) → Bool) {s : State} (hs : AtRest s)
    (hflat : s.trader.position.side = .FLAT) (first next : Option (List Candle)) (n : ℕ) :
    ((run (step (probe_env test)) s (.start (demo_request false) (probe_answers first) ::
      List.replicate (n + 1) (.tick (probe_tick next)))).map (decisions s)).map
        (fun ds => ds.getLast?.map Decision.signal) =
      some (some (some (if test (probe_end s first next n).price_history
        (probe_end s first next n).engine.candle_cache then 1 else 0, []))) := by
  obtain ⟨m, hrun, hm, htrader⟩ := probe_run test (probe_start hflat first) next n
  obtain ⟨m', hstep, -, hprobed, slice, hslice, hsignal⟩ := probe_step test hm next
  have hend : m'.trader = probe_end s first next n := by
    rw [hprobed, htrader, start_trader]
    rfl
  have hrun' : run (step (probe_env test)) s (.start (demo_request false) (probe_answers first) ::
      List.replicate (n + 1) (.tick (probe_tick next))) = some m' := by
    rw [run_start hs, List.replicate_succ', run_append_iff]
    exact ⟨m, hrun, run_cons_iff.mpr ⟨m', hstep, rfl⟩⟩
  rw [hrun', ← hend]
  simp [decisions_append hm.length hslice, decision, hsignal]

section Converse

variable {s s' : State} (hs : AtRest s) (hs' : AtRest s')
  (hflat : s.trader.position.side = .FLAT) (hflat' : s'.trader.position.side = .FLAT)
  (h : DecideAlike s s')

include hs hs' hflat hflat' h

theorem probe_end_eq (first next : Option (List Candle)) (n : ℕ) :
    (probe_end s first next n).price_history = (probe_end s' first next n).price_history ∧
      (probe_end s first next n).engine.candle_cache =
        (probe_end s' first next n).engine.candle_cache := by
  let test : List ℚ → Option (List Candle) → Bool := fun prices candles =>
    prices = (probe_end s first next n).price_history ∧
      candles = (probe_end s first next n).engine.candle_cache
  have hself : test (probe_end s first next n).price_history
      (probe_end s first next n).engine.candle_cache = true := decide_eq_true ⟨rfl, rfl⟩
  have hleft := probe_session test hs hflat first next n
  rw [h (probe_env test) (demo_request false) (probe_answers first) _ rfl,
    probe_session test hs' hflat' first next n, if_pos hself] at hleft
  have htold : test (probe_end s' first next n).price_history
      (probe_end s' first next n).engine.candle_cache = true := by
    by_contra hfalse
    rw [if_neg hfalse] at hleft
    simp at hleft
  obtain ⟨hprices, hcandles⟩ := of_decide_eq_true htold
  exact ⟨hprices.symm, hcandles.symm⟩

theorem prices_of_decideAlike :
    latest 198 s.trader.price_history = latest 198 s'.trader.price_history := by
  have hends : ∀ s : State, (probe_end s none none 0).price_history =
      latest 198 s.trader.price_history ++ [1] ++ [1] := by
    intro s
    obtain ⟨-, -, hstart, -⟩ := start_priced s.trader (demo_request false)
      (show (probe_answers none).initial_price = some 1 from rfl)
    rw [probe_end, probes_prices, probes, hstart, append_price_eq, latest_append_price]
  have hprices := (probe_end_eq hs hs' hflat hflat' h none none 0).1
  rw [hends, hends] at hprices
  exact List.append_cancel_right (List.append_cancel_right hprices)

theorem candles_of_decideAlike :
    s.trader.engine.candle_cache = s'.trader.engine.candle_cache := by
  have hends : ∀ s : State, (probe_end s none none 0).engine.candle_cache =
      s.trader.engine.candle_cache := by
    intro s
    obtain ⟨-, -, -, hstart, -⟩ := start_priced s.trader (demo_request false)
      (show (probe_answers none).initial_price = some 1 from rfl)
    rw [probe_end, (probes_before _ none (by omega)).1, hstart]
    rfl
  have hcandles := (probe_end_eq hs hs' hflat hflat' h none none 0).2
  rwa [hends, hends] at hcandles

/-- The candles of the ticks arrive when the refresh is due, and not before. -/
theorem refreshed_of_decideAlike :
    s'.trader.last_candle_refresh_tick ≤ s.trader.last_candle_refresh_tick := by
  by_contra hlater
  have hprice : (probe_answers (some [candle 1])).initial_price = some 1 := rfl
  obtain ⟨-, -, -, -, hstart⟩ := start_priced s.trader (demo_request false) hprice
  obtain ⟨-, -, -, hstart', htick'⟩ := start_priced s'.trader (demo_request false) hprice
  have hcandles := (probe_end_eq hs hs' hflat hflat' h (some [candle 1]) (some [candle 2])
    (s.trader.last_candle_refresh_tick + 299)).2
  rw [probe_end, probe_end, probes_due _ (by simp) (by omega),
    (probes_before _ _ (by omega)).1, hstart'] at hcandles
  have hclose : candle 2 = candle 1 := (List.cons.inj (Option.some.inj hcandles)).1
  exact absurd (congrArg Candle.close hclose) (by norm_num [candle])

end Converse

theorem leftover_of_decideAlike {s s' : State} (hs : AtRest s) (hs' : AtRest s')
    (hflat : s.trader.position.side = .FLAT) (h : DecideAlike s s') :
    leftover s.trader = leftover s'.trader := by
  have hposition := position_of_decideAlike hs hs' h
  have hflat' : s'.trader.position.side = .FLAT := by
    rw [← hposition]
    exact hflat
  have hsymm : DecideAlike s' s := fun env request answers later hprice =>
    (h env request answers later hprice).symm
  have hrefreshed := le_antisymm (refreshed_of_decideAlike hs' hs hflat' hflat hsymm)
    (refreshed_of_decideAlike hs hs' hflat hflat' h)
  simp only [leftover, hposition, candles_of_decideAlike hs hs' hflat hflat' h, hrefreshed,
    prices_of_decideAlike hs hs' hflat hflat' h]

/-- Two engines at rest decide the same in every new session, each with its position on
the symbol of the session, exactly if the sessions before have left them no position
and the same in all that a start takes over. -/
theorem sessions_isolated_iff {s s' : State} (hs : AtRest s) (hs' : AtRest s') :
    (DecideAlike s s' ∧ TradesOneSymbol s ∧ TradesOneSymbol s') ↔
      s.trader.position.side = .FLAT ∧ leftover s.trader = leftover s'.trader := by
  constructor
  · rintro ⟨halike, hsymbol, -⟩
    have hflat := flat_of_tradesOneSymbol hs hsymbol
    exact ⟨hflat, leftover_of_decideAlike hs hs' hflat halike⟩
  · rintro ⟨hflat, hleftover⟩
    have hflat' : s'.trader.position.side = .FLAT := by
      have hposition : s.trader.position = s'.trader.position :=
        congrArg Leftover.position hleftover
      rw [← hposition]
      exact hflat
    exact ⟨decideAlike_of_leftover hs hs' hleftover, tradesOneSymbol_of_flat hs hflat,
      tradesOneSymbol_of_flat hs' hflat'⟩

theorem sessions_isolated_fresh :
    (DecideAlike (initial "a1".toList) (initial "a2".toList) ∧
        TradesOneSymbol (initial "a1".toList) ∧ TradesOneSymbol (initial "a2".toList)) ↔
      (initial "a1".toList).trader.position.side = .FLAT ∧
        leftover (initial "a1".toList).trader = leftover (initial "a2".toList).trader :=
  sessions_isolated_iff ⟨rfl, rfl, rfl⟩ ⟨rfl, rfl, rfl⟩

def closed_session : List Event :=
  [.start (demo_request false) (demo_answers false), .tick demo_tick, .stop true,
    .finish (some 100)]

def other_request : StartRequest := { demo_request false with symbol := "ETHUSDT".toList }

def other_answers : StartAnswers := { demo_answers false with initial_price := some 1 }

def other_tick : TickInput := { demo_tick with price := some 1 }

def sides_on_other (s : State) : Option (List PositionSide) :=
  ((run (step demo_env) s [.start other_request other_answers, .tick other_tick]).map
    (decisions s)).map fun ds => ds.map fun d => d.position.side

/-- The first tick of the session on ETHUSDT opens a short position, at the sight of
the prices of BTCUSDT. -/
theorem prices_carried_to_other_symbol :
    ¬ ∀ (env : Env) (agent_id agent_id' : Text) (past past' : List Event) (s s' : State),
      run (step env) (initial agent_id) past = some s →
      run (step env) (initial agent_id') past' = some s' → AtRest s → AtRest s' →
      DecideAlike s s' ∧ TradesOneSymbol s ∧ TradesOneSymbol s' := by
  intro h
  have hpast : (run (step demo_env) (initial []) closed_session).map (fun s =>
      (s.trader.running, s.loop, s.stopping, sides_on_other s)) =
      some (false, .absent, none, some [.FLAT, .SHORT]) := by
    decide +kernel
  have hfresh : sides_on_other (initial []) = some [.FLAT, .FLAT] := by decide +kernel
  obtain ⟨s, hrun, hs⟩ := Option.map_eq_some_iff.mp hpast
  simp only [Prod.mk.injEq] at hs
  obtain ⟨hrunning, hloop, hstopping, hsides⟩ := hs
  obtain ⟨halike, -⟩ := h demo_env [] [] closed_session [] s (initial []) hrun rfl
    ⟨hrunning, hloop, hstopping⟩ ⟨rfl, rfl, rfl⟩
  have hsame : sides_on_other s = sides_on_other (initial []) := by
    rw [sides_on_other, halike _ _ _ _ rfl]
    rfl
  rw [hsides, hfresh] at hsame
  exact absurd hsame (by decide)

end ArticTrader.SessionIsolation
