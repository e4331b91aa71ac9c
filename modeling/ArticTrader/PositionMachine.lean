import ArticTrader.EngineSession

/-!
The position of an engine as a machine with the states flat, long and short.
-/

namespace ArticTrader.PositionMachine

open ArticTrader.EngineSession
open ArticTrader.LabelledRuns
open ArticTrader.PaperExecutor
open ArticTrader.PythonNumbers
open ArticTrader.PythonText (Text)
open ArticTrader.TradingEngine

structure Kept (p : PaperPosition) : Prop where
  flat_iff : p.side = .FLAT ↔ p.entry_price = none ∧ p.size_usdt = none ∧ p.leverage = none
  set : p.side ≠ .FLAT → p.entry_price.isSome ∧ p.size_usdt.isSome ∧ p.leverage.isSome

/-- The loop opens from flat and closes from long or short, and no step turns the
position around. -/
structure Guarded (env : Env) (s : State) (e : Event) : Prop where
  opens : ∀ v action price reason, verdict env s e = some v →
    v.action = some (action, price, reason) → Action.opens action →
      s.trader.position.side = .FLAT
  closes : ∀ v price reason, verdict env s e = some v →
    v.action = some (.CLOSE, price, reason) → s.trader.position.side ≠ .FLAT
  turns : ∀ s' ∈ step env s e, s.trader.position.side ≠ .FLAT →
    s'.trader.position.side = s.trader.position.side ∨ s'.trader.position.side = .FLAT

/-- A price that triggers a level closes the position. The pass does the same whatever
the supervisor would answer, and executes nothing but the close. -/
def TriggerCloses (env : Env) (s : State) : Event → Prop
  | .tick input =>
      ∀ price trigger, input.price = some price →
        check_tp_sl s.trader.position price = .ok (some trigger) →
          ∀ s' ∈ step env s (.tick input),
            s'.trader.position.side = .FLAT ∧
            (∃ slice, s'.slices = s.slices ++ [slice] ∧
              slice.action = some (.CLOSE, price, env.trigger_text trigger)) ∧
            ∀ now resp candles, step env s (.tick { price := some price, now, resp, candles }) =
              some s'
  | _ => True

/-- No level is triggered for a position that was opened at a price of zero. -/
def Closable (s : State) : Event → Prop
  | .tick input =>
      ∀ price trigger, input.price = some price →
        check_tp_sl s.trader.position price = .ok (some trigger) →
          s.trader.position.entry_price ≠ some 0
  | _ => True

theorem kept_flat : Kept flat :=
  ⟨⟨fun _ => ⟨rfl, rfl, rfl⟩, fun _ => rfl⟩, fun h => absurd rfl h⟩

theorem kept_opened {side : PositionSide} (hside : side ≠ .FLAT) (price : ℚ)
    {size_usdt : Option ℚ} {leverage : Option ℤ} (hsize : size_usdt.isSome)
    (hleverage : leverage.isSome) (tp_pct sl_pct tp_price sl_price : Option ℚ) :
    Kept (opened side price size_usdt leverage tp_pct sl_pct tp_price sl_price) := by
  refine ⟨⟨fun h => absurd h hside, ?_⟩, fun _ => ⟨rfl, hsize, hleverage⟩⟩
  rintro ⟨h, -⟩
  cases h

/-- What the position and the stake of the next one have in common. -/
structure SameHolding (t t' : Trader) : Prop where
  side : t'.position.side = t.position.side
  entry_price : t'.position.entry_price = t.position.entry_price
  size_usdt : t'.position.size_usdt = t.position.size_usdt
  position_leverage : t'.position.leverage = t.position.leverage
  amount_usdt : t'.engine.amount_usdt = t.engine.amount_usdt
  leverage : t'.engine.leverage = t.engine.leverage

theorem SameHolding.refl (t : Trader) : SameHolding t t := ⟨rfl, rfl, rfl, rfl, rfl, rfl⟩

theorem SameHolding.trans {t t' t'' : Trader} (h : SameHolding t t') (h' : SameHolding t' t'') :
    SameHolding t t'' :=
  ⟨h'.side.trans h.side, h'.entry_price.trans h.entry_price, h'.size_usdt.trans h.size_usdt,
    h'.position_leverage.trans h.position_leverage, h'.amount_usdt.trans h.amount_usdt,
    h'.leverage.trans h.leverage⟩

theorem kept_congr {p p' : PaperPosition} (h : Kept p) (hside : p'.side = p.side)
    (hentry : p'.entry_price = p.entry_price) (hsize : p'.size_usdt = p.size_usdt)
    (hleverage : p'.leverage = p.leverage) : Kept p' := by
  constructor
  · rw [hside, hentry, hsize, hleverage]
    exact h.flat_iff
  · rw [hside, hentry, hsize, hleverage]
    exact h.set

theorem SameHolding.kept {t t' : Trader} (h : SameHolding t t') (hk : Kept t.position) :
    Kept t'.position :=
  kept_congr hk h.side h.entry_price h.size_usdt h.position_leverage

/-- A verdict on a trader: it has not touched the holding, and it closes and waits for the
supervisor only with a position. -/
structure Careful (t : Trader) (v : Verdict) : Prop where
  holding : SameHolding t v.trader
  closes : ∀ price reason, v.action = some (.CLOSE, price, reason) → t.position.side ≠ .FLAT
  waits : ∀ tick_count price resp, v.loop = .checking tick_count price resp →
    t.position.side ≠ .FLAT ∧ v.action = none

theorem Careful.of_same {t t' : Trader} {v : Verdict} (h : Careful t' v)
    (hsame : SameHolding t t') : Careful t v where
  holding := hsame.trans h.holding
  closes := fun price reason hv => hsame.side ▸ h.closes price reason hv
  waits := fun tick_count price resp hv =>
    ⟨hsame.side ▸ (h.waits tick_count price resp hv).1, (h.waits tick_count price resp hv).2⟩

theorem careful_quiet (t : Trader) (tick_count : ℕ) : Careful t (.quiet t (.top tick_count)) := by
  refine ⟨.refl t, ?_, ?_⟩
  · intro price reason h
    cases h
  · intro k price resp h
    cases h

theorem careful_of_side {t : Trader} {v : Verdict} (hside : t.position.side ≠ .FLAT)
    (hholding : SameHolding t v.trader) (hloop : ∃ tick_count, v.loop = .top tick_count) :
    Careful t v := by
  refine ⟨hholding, fun _ _ _ => hside, ?_⟩
  intro k price resp h
  obtain ⟨tick_count, htop⟩ := hloop
  rw [htop] at h
  cases h

theorem decide_action_closes (e : Engine) (plan : StrategyPlan) (signal : ℚ) (detail : Text)
    (h : (decide_action e plan signal detail).1 = .CLOSE) : e.position.side ≠ .FLAT := by
  intro hside
  simp only [decide_action, hside] at h
  split_ifs at h

theorem signal_pass_careful (env : Env) (t : Trader) (tick_count : ℕ) (price : ℚ)
    (candles : Option (List Candle)) : Careful t (signal_pass env t tick_count price candles) := by
  have hpassed := signal_pass_passed env t tick_count price candles
  generalize signal_pass env t tick_count price candles = v at hpassed ⊢
  have hsame (candle_cache tick) : SameHolding t (t.refreshed candle_cache tick) :=
    ⟨rfl, rfl, rfl, rfl, rfl, rfl⟩
  cases hpassed with
  | rests => exact ⟨hsame .., by simp, by simp⟩
  | @acts candle_cache tick plan signal detail reason action hdecided =>
      have hheld := decide_action_closes (t.refreshed candle_cache tick).engine plan signal detail
      rw [hdecided] at hheld
      refine ⟨hsame .., ?_, by simp⟩
      intro price' reason' h
      cases h
      exact hheld rfl

theorem run_supervisor_check_careful (env : Env) (t : Trader) (tick_count : ℕ) (price : ℚ)
    (input : TickInput) (hside : t.position.side ≠ .FLAT) :
    Careful t (run_supervisor_check env t tick_count price input) := by
  unfold run_supervisor_check
  split
  · exact careful_quiet _ _
  · exact signal_pass_careful ..
  · exact careful_quiet _ _
  · exact ⟨.refl t, fun _ _ _ => hside, fun _ _ _ _ => ⟨hside, rfl⟩⟩

theorem trading_loop_careful (env : Env) (t : Trader) (tick_count : ℕ) (input : TickInput) :
    Careful t (trading_loop env t tick_count input) := by
  unfold trading_loop
  split
  · exact careful_quiet _ _
  · rename_i price _
    dsimp only
    generalize append_price t.price_history price = history
    split
    · exact (signal_pass_careful ..).of_same ⟨rfl, rfl, rfl, rfl, rfl, rfl⟩
    · rename_i hside
      split
      · exact (careful_quiet _ _).of_same ⟨rfl, rfl, rfl, rfl, rfl, rfl⟩
      · exact careful_of_side hside ⟨rfl, rfl, rfl, rfl, rfl, rfl⟩ ⟨_, rfl⟩
      · split
        · refine Careful.of_same (run_supervisor_check_careful env _ _ _ _ ?_)
            ⟨rfl, rfl, rfl, rfl, rfl, rfl⟩
          exact hside
        · exact (signal_pass_careful ..).of_same ⟨rfl, rfl, rfl, rfl, rfl, rfl⟩

theorem supervisor_holding {t : Trader} {price : ℚ} {resp : SupervisorResponse}
    (h : resp.action ≠ .CLOSE) :
    SameHolding t { t with engine := (apply_supervisor_response t.engine price resp).engine } := by
  unfold apply_supervisor_response
  split
  · exact absurd (by assumption) h
  · split_ifs
    · split
      · exact .refl t
      · exact ⟨rfl, rfl, rfl, rfl, rfl, rfl⟩
    · exact .refl t
  · exact .refl t

theorem supervisor_pass_careful (env : Env) (t : Trader) (tick_count : ℕ) (price : ℚ)
    (resp : SupervisorResponse) (candles : Option (List Candle))
    (hside : t.position.side ≠ .FLAT) :
    Careful t (supervisor_pass env t tick_count price resp candles) := by
  unfold supervisor_pass
  split
  · exact careful_of_side hside (.refl t) ⟨_, rfl⟩
  · rename_i hclose
    have hsame := @supervisor_holding t price resp hclose
    dsimp only
    split_ifs
    · exact (careful_quiet _ _).of_same hsame
    · exact (signal_pass_careful ..).of_same hsame

structure Invariant (s : State) : Prop where
  kept : Kept s.trader.position
  stake : s.loop ≠ .absent →
    s.trader.engine.amount_usdt.isSome ∧ s.trader.engine.leverage.isSome
  waits : ∀ tick_count price resp, s.loop = .checking tick_count price resp →
    s.trader.position.side ≠ .FLAT

theorem verdict_careful {env : Env} {s : State} {e : Event} {v : Verdict} (hs : Invariant s)
    (hverdict : verdict env s e = some v) : Careful s.trader v := by
  cases judged_of_verdict hverdict with
  | @tick tick_count input => exact trading_loop_careful env s.trader (tick_count + 1) input
  | answer input hloop =>
      exact supervisor_pass_careful env s.trader _ _ _ input.candles (hs.waits _ _ _ hloop)

theorem execute_close_kept {e : Engine} (h : Kept e.position) (price : ℚ) (reason : Text) :
    Kept (execute_close e price reason).engine.position ∧
      ((execute_close e price reason).engine.position.side = e.position.side ∨
        (execute_close e price reason).engine.position.side = .FLAT) ∧
      (execute_close e price reason).engine.amount_usdt = e.amount_usdt ∧
      (execute_close e price reason).engine.leverage = e.leverage := by
  unfold execute_close
  split
  · exact ⟨h, .inl rfl, rfl, rfl⟩
  · split
    · exact ⟨h, .inl rfl, rfl, rfl⟩
    · exact ⟨kept_flat, .inr rfl, rfl, rfl⟩

theorem execute_action_kept {e : Engine} (h : Kept e.position) (hamount : e.amount_usdt.isSome)
    (hleverage : e.leverage.isSome) (action : Action) (price : ℚ) (reason : Text) :
    Kept (execute_action e action price reason).engine.position ∧
      (¬ Action.opens action →
        (execute_action e action price reason).engine.position.side = e.position.side ∨
          (execute_action e action price reason).engine.position.side = .FLAT) ∧
      (execute_action e action price reason).engine.amount_usdt = e.amount_usdt ∧
      (execute_action e action price reason).engine.leverage = e.leverage := by
  cases action with
  | OPEN_LONG =>
      exact ⟨kept_opened (by simp) price hamount hleverage _ _ _ _, fun h => absurd trivial h,
        rfl, rfl⟩
  | OPEN_SHORT =>
      exact ⟨kept_opened (by simp) price hamount hleverage _ _ _ _, fun h => absurd trivial h,
        rfl, rfl⟩
  | HOLD => exact ⟨h, fun _ => .inl rfl, rfl, rfl⟩
  | CLOSE =>
      obtain ⟨hkept, hside, hstake⟩ := execute_close_kept
        (e := { e with last_action := some .CLOSE, last_reason := some reason }) h price reason
      exact ⟨hkept, fun _ => hside, hstake⟩

theorem enact_trader (s : State) (v : Verdict) :
    (s.enact v).trader = enacted v ∧ (s.enact v).loop = v.loop := by
  unfold State.enact enacted
  split
  · exact ⟨rfl, rfl⟩
  · exact ⟨rfl, rfl⟩

theorem enact_turns {s : State} {v : Verdict} (hs : Invariant s) (hloop : s.loop ≠ .absent)
    (hdecided : Decided s.trader v) (hcareful : Careful s.trader v) :
    Kept (enacted v).position ∧
      (s.trader.position.side ≠ .FLAT →
        (enacted v).position.side = s.trader.position.side ∨ (enacted v).position.side = .FLAT) ∧
      (enacted v).engine.amount_usdt.isSome ∧ (enacted v).engine.leverage.isSome := by
  have hkept := hcareful.holding.kept hs.kept
  obtain ⟨hamount, hleverage⟩ := hs.stake hloop
  rw [← hcareful.holding.amount_usdt] at hamount
  rw [← hcareful.holding.leverage] at hleverage
  unfold enacted
  split
  · exact ⟨hkept, fun _ => .inl hcareful.holding.side, hamount, hleverage⟩
  · rename_i action price reason haction
    obtain ⟨hkept', hside, hamount', hleverage'⟩ :=
      execute_action_kept hkept hamount hleverage action price reason
    refine ⟨hkept', ?_, by rw [hamount', hamount], by rw [hleverage', hleverage]⟩
    intro hopen
    have hnot : ¬ Action.opens action :=
      fun h => hopen (hdecided.opens action price reason haction h)
    rcases hside hnot with hsame | hflat
    · exact .inl (hsame.trans hcareful.holding.side)
    · exact .inr hflat

theorem enact_invariant {s : State} {v : Verdict} (hs : Invariant s) (hloop : s.loop ≠ .absent)
    (hdecided : Decided s.trader v) (hcareful : Careful s.trader v) : Invariant (s.enact v) := by
  obtain ⟨htrader, hloop'⟩ := enact_trader s v
  obtain ⟨hkept, -, hstake⟩ := enact_turns hs hloop hdecided hcareful
  refine ⟨by rw [htrader]; exact hkept, fun _ => by rw [htrader]; exact hstake, ?_⟩
  intro tick_count price resp hchecking
  rw [hloop'] at hchecking
  obtain ⟨hside, hquiet⟩ := hcareful.waits _ _ _ hchecking
  rw [htrader, enacted, hquiet]
  exact hcareful.holding.side.trans_ne hside

theorem start_stake (t : Trader) (r : StartRequest) (a : StartAnswers) :
    (start t r a).1.engine.amount_usdt = some r.amount_usdt ∧
      (start t r a).1.engine.leverage = some r.leverage := by
  unfold start
  dsimp only
  split
  · exact ⟨rfl, rfl⟩
  · unfold refresh_candles
    split
    · exact ⟨rfl, rfl⟩
    · exact ⟨rfl, rfl⟩

theorem start_loop (s : State) (r : StartRequest) (a : StartAnswers) :
    (s.start r a).loop = .top 0 ∨ (s.start r a).loop = s.loop := by
  unfold State.start
  dsimp only
  split_ifs
  · exact .inl rfl
  · exact .inr rfl

theorem start_invariant {s : State} (hs : Invariant s) (r : StartRequest) (a : StartAnswers) :
    Invariant (s.start r a) := by
  have hposition := start_position s r a
  refine ⟨by rw [hposition]; exact hs.kept, ?_, ?_⟩
  · intro _
    obtain ⟨hamount, hleverage⟩ := start_stake s.trader r a
    rw [start_trader, hamount, hleverage]
    exact ⟨rfl, rfl⟩
  · intro tick_count price resp hchecking
    rw [hposition]
    rcases start_loop s r a with htop | hsame
    · rw [htop] at hchecking
      cases hchecking
    · rw [hsame] at hchecking
      exact hs.waits _ _ _ hchecking

theorem update_config_holding (t : Trader) (r : ConfigUpdateRequest) :
    (update_config t r).position.side = t.position.side ∧
      (update_config t r).position.entry_price = t.position.entry_price ∧
      (update_config t r).position.size_usdt = t.position.size_usdt ∧
      (update_config t r).position.leverage = t.position.leverage := by
  change (update_position t.position r).side = _ ∧ (update_position t.position r).entry_price = _ ∧
    (update_position t.position r).size_usdt = _ ∧ (update_position t.position r).leverage = _
  unfold update_position
  split_ifs
  · exact ⟨rfl, rfl, rfl, rfl⟩
  · exact ⟨rfl, rfl, rfl, rfl⟩

theorem update_config_invariant {s : State} (hs : Invariant s) (r : ConfigUpdateRequest) :
    Invariant (s.record (update_config s.trader r) (idle_slice (update_config s.trader r))) := by
  obtain ⟨hside, hentry, hsize, hleverage⟩ := update_config_holding s.trader r
  refine ⟨kept_congr hs.kept hside hentry hsize hleverage, ?_, ?_⟩
  · intro hloop
    obtain ⟨hamount, hleverage⟩ := hs.stake hloop
    refine ⟨?_, hleverage⟩
    change (r.amount_usdt.or s.trader.engine.amount_usdt).isSome = true
    rw [Option.isSome_or, hamount, Bool.or_true]
  · intro tick_count price resp hchecking
    exact hside.trans_ne (hs.waits _ _ _ hchecking)

theorem finish_stop_kept {t : Trader} (h : Kept t.position) (close_position : Bool)
    (final_price : Option ℚ) :
    Kept (finish_stop t close_position final_price).1.position ∧
      ((finish_stop t close_position final_price).1.position.side = t.position.side ∨
        (finish_stop t close_position final_price).1.position.side = .FLAT) := by
  unfold finish_stop
  cases closes_on_stop t close_position final_price with
  | false => exact ⟨h, .inl rfl⟩
  | true => exact ⟨kept_flat, .inr rfl⟩

def NotTurned (s s' : State) : Prop :=
  s.trader.position.side ≠ .FLAT →
    s'.trader.position.side = s.trader.position.side ∨ s'.trader.position.side = .FLAT

theorem verdict_invariant {env : Env} {s : State} {e : Event} {v : Verdict} (hs : Invariant s)
    (hverdict : verdict env s e = some v) (hloop : s.loop ≠ .absent) :
    Invariant (s.enact v) ∧ NotTurned s (s.enact v) := by
  have hdecided := verdict_decided hverdict
  have hcareful := verdict_careful hs hverdict
  refine ⟨enact_invariant hs hloop hdecided hcareful, ?_⟩
  rw [NotTurned, (enact_trader s v).1]
  exact (enact_turns hs hloop hdecided hcareful).2.1

theorem step_invariant {env : Env} {s s' : State} {e : Event} (hs : Invariant s)
    (h : step env s e = some s') : Invariant s' ∧ NotTurned s s' := by
  have hkeeps : Invariant (s.record s.trader (idle_slice s.trader)) :=
    ⟨hs.kept, hs.stake, hs.waits⟩
  cases step_transition h with
  | enact hverdict hloop => exact verdict_invariant hs hverdict hloop
  | @start request answers =>
      exact ⟨start_invariant hs request answers,
        fun _ => .inl (congrArg (·.side) (start_position s request answers))⟩
  | start_again => exact ⟨hkeeps, fun _ => .inl rfl⟩
  | @config request =>
      exact ⟨update_config_invariant hs request,
        fun _ => .inl (update_config_holding s.trader request).1⟩
  | config_idle => exact ⟨hkeeps, fun _ => .inl rfl⟩
  | stop => exact ⟨⟨hs.kept, hs.stake, hs.waits⟩, fun _ => .inl rfl⟩
  | stop_idle => exact ⟨hkeeps, fun _ => .inl rfl⟩
  | @finish final_price close_position =>
      obtain ⟨hkept, hside⟩ := finish_stop_kept hs.kept close_position final_price
      refine ⟨⟨hkept, fun hloop => absurd rfl hloop, ?_⟩, fun _ => hside⟩
      intro k price resp hchecking
      cases hchecking

theorem initial_invariant (agent_id : Text) : Invariant (initial agent_id) := by
  refine ⟨kept_flat, fun h => absurd rfl h, ?_⟩
  intro tick_count price resp h
  cases h

theorem step_guarded {env : Env} {s : State} {e : Event} (hs : Invariant s) : Guarded env s e where
  opens := fun _ action price reason hverdict haction hopens =>
    (verdict_decided hverdict).opens action price reason haction hopens
  closes := fun _ price reason hverdict haction =>
    (verdict_careful hs hverdict).closes price reason haction
  turns := fun _ h hside => (step_invariant hs h).2 hside

theorem side_of_trigger {p : PaperPosition} {price : ℚ} {trigger : Trigger}
    (h : check_tp_sl p price = .ok (some trigger)) : p.side ≠ .FLAT := by
  intro hside
  rw [check_tp_sl, if_pos hside] at h
  cases h

theorem pnl_error_iff {p : PaperPosition} (hk : Kept p) (hside : p.side ≠ .FLAT) (price : ℚ) :
    (∃ err, unrealized_pnl p price = .error err) ↔ p.entry_price = some 0 := by
  obtain ⟨hentry, hsize, hleverage⟩ := hk.set hside
  obtain ⟨entry, hentry⟩ := Option.isSome_iff_exists.mp hentry
  obtain ⟨size, hsize⟩ := Option.isSome_iff_exists.mp hsize
  obtain ⟨leverage, hleverage⟩ := Option.isSome_iff_exists.mp hleverage
  rw [hentry, Option.some.injEq]
  constructor
  · rintro ⟨err, herr⟩
    by_contra hne
    have hpnl := (unrealized_pnl_open hside hentry hne price _).mpr
      ⟨size, leverage, hsize, hleverage, rfl⟩
    rw [hpnl] at herr
    cases herr
  · rintro rfl
    refine ⟨.ZeroDivisionError, ?_⟩
    cases hs : p.side with
    | FLAT => exact absurd hs hside
    | LONG => simp [unrealized_pnl, hs, hentry, true_div, bind, Except.bind]
    | SHORT => simp [unrealized_pnl, hs, hentry, true_div, bind, Except.bind]

theorem trading_loop_of_trigger (env : Env) {t : Trader} (tick_count : ℕ) {input : TickInput}
    {price : ℚ} {trigger : Trigger} (hprice : input.price = some price)
    (htrigger : check_tp_sl t.position price = .ok (some trigger)) :
    trading_loop env t tick_count input =
      { trader := { t with price_history := append_price t.price_history price }
        signal := none
        action := some (.CLOSE, price, env.trigger_text trigger)
        loop := .top tick_count } := by
  have hside : ¬ t.position.side = .FLAT := side_of_trigger htrigger
  unfold trading_loop
  simp only [hprice]
  generalize append_price t.price_history price = history
  have hposition : Trader.position { t with price_history := history } = t.position := rfl
  simp only [hposition, if_neg hside, htrigger]

theorem execute_close_flat_iff {e : Engine} (hk : Kept e.position) (hside : e.position.side ≠ .FLAT)
    (price : ℚ) (reason : Text) :
    (execute_action e .CLOSE price reason).engine.position.side = .FLAT ↔
      e.position.entry_price ≠ some 0 := by
  have herror := pnl_error_iff hk hside price
  rw [execute_action, execute_close, if_neg hside]
  dsimp only
  cases hpnl : unrealized_pnl e.position price with
  | error err => simp [hside, herror.mp ⟨err, hpnl⟩]
  | ok pnl =>
      have hentry : e.position.entry_price ≠ some 0 := by
        intro hzero
        obtain ⟨err, herr⟩ := herror.mpr hzero
        rw [hpnl] at herr
        cases herr
      simp [close, flat, hentry]

theorem triggerCloses_iff {env : Env} {s s' : State} {e : Event} (hs : Invariant s)
    (h : step env s e = some s') : TriggerCloses env s e ↔ Closable s e := by
  cases e with
  | tick input =>
      cases hloop : s.loop with
      | top tick_count =>
          have hrunning : s.trader.running = true := by
            by_contra hnot
            simp [step, hloop, hnot] at h
          have hstep : ∀ input, step env s (.tick input) =
              some (s.enact (trading_loop env s.trader (tick_count + 1) input)) := by
            intro input
            simp only [step, hloop, if_pos hrunning]
          have hclosed : ∀ price trigger, check_tp_sl s.trader.position price = .ok (some trigger) →
              ∀ input : TickInput, input.price = some price →
                ((s.enact (trading_loop env s.trader (tick_count + 1) input)).trader.position.side =
                  .FLAT ↔ s.trader.position.entry_price ≠ some 0) := by
            intro price trigger htrigger input hprice
            rw [trading_loop_of_trigger env _ hprice htrigger, (enact_trader _ _).1, enacted]
            exact execute_close_flat_iff (e := s.trader.engine) hs.kept (side_of_trigger htrigger)
              price _
          constructor
          · intro hcloses price trigger hprice htrigger
            exact (hclosed price trigger htrigger input hprice).mp
              (hcloses price trigger hprice htrigger _ (hstep input)).1
          · intro hclosable price trigger hprice htrigger s'' hs''
            rw [hstep] at hs''
            cases hs''
            refine ⟨(hclosed price trigger htrigger input hprice).mpr
              (hclosable price trigger hprice htrigger), ?_, ?_⟩
            · rw [trading_loop_of_trigger env _ hprice htrigger]
              exact ⟨_, rfl, rfl⟩
            · intro now resp candles
              rw [hstep, trading_loop_of_trigger env _ rfl htrigger,
                trading_loop_of_trigger env _ hprice htrigger]
      | _ => simp [step, hloop] at h
  | _ => exact Iff.rfl

/-- Every run keeps the position's fields together, opens only from flat, closes only a
position and turns none around. Its triggers close exactly if none is of a position opened
at a price of zero. -/
theorem position_machine {env : Env} {agent_id : Text} {es : List Event} {s : State}
    (hrun : run (step env) (initial agent_id) es = some s) :
    Kept s.trader.position ∧ AllSteps (step env) (Guarded env) (initial agent_id) es ∧
      (AllSteps (step env) (TriggerCloses env) (initial agent_id) es ↔
        AllSteps (step env) Closable (initial agent_id) es) := by
  have hinvariant : ∀ s e s', Invariant s → step env s e = some s' → Invariant s' :=
    fun _ _ _ hs h => (step_invariant hs h).1
  have hinitial := initial_invariant agent_id
  refine ⟨(run_invariant hinvariant hrun hinitial).kept, ?_, ?_⟩
  · exact allSteps_of_invariant (fun _ _ hs => step_guarded hs) hinvariant hinitial
  · exact allSteps_congr hinvariant (fun _ _ _ => triggerCloses_iff) hrun hinitial

/-- In dynamic mode the fourth price opens a position if it differs from the others. -/
def dynamic_start (price : ℚ) : List Event :=
  [.start { demo_request false with tp_sl_mode := "dynamic".toList } (demo_answers false),
    .tick demo_tick, .tick demo_tick, .tick { demo_tick with price := some price }]

theorem position_machine_stopped :
    ∃ s, run (step demo_env) (initial []) (dynamic_start 90 ++ [.tick demo_tick]) = some s ∧
      Kept s.trader.position ∧
      AllSteps (step demo_env) (Guarded demo_env) (initial [])
        (dynamic_start 90 ++ [.tick demo_tick]) ∧
      (AllSteps (step demo_env) (TriggerCloses demo_env) (initial [])
          (dynamic_start 90 ++ [.tick demo_tick]) ↔
        AllSteps (step demo_env) Closable (initial []) (dynamic_start 90 ++ [.tick demo_tick])) := by
  obtain ⟨s, hrun⟩ : ∃ s, run (step demo_env) (initial []) (dynamic_start 90 ++ [.tick demo_tick]) =
      some s := Option.isSome_iff_exists.mp (by decide +kernel)
  exact ⟨s, hrun, position_machine hrun⟩

/-- A short position opened at zero has its stop there and cannot be closed by it. -/
theorem zero_price_stays_open :
    ¬ ∀ (env : Env) (agent_id : Text) (es : List Event) (s : State),
      run (step env) (initial agent_id) es = some s →
      Kept s.trader.position ∧ AllSteps (step env) (Guarded env) (initial agent_id) es ∧
        AllSteps (step env) (TriggerCloses env) (initial agent_id) es := by
  intro h
  have hend : (run (step demo_env) (initial []) (dynamic_start 0)).bind (fun m =>
      (step demo_env m (.tick demo_tick)).map fun s =>
        (m.trader.position, s.trader.position.side)) =
      some (opened .SHORT 0 (some 100) (some 5) (some (1 / 20)) (some (1 / 50)) (some 0) (some 0),
        .SHORT) := by
    decide +kernel
  obtain ⟨m, hm, hlast⟩ := Option.bind_eq_some_iff.mp hend
  obtain ⟨s, hs, hopen⟩ := Option.map_eq_some_iff.mp hlast
  have hrun : run (step demo_env) (initial []) (dynamic_start 0 ++ [.tick demo_tick]) = some s :=
    run_append_iff.mpr ⟨m, hm, run_cons_iff.mpr ⟨s, hs, rfl⟩⟩
  have hlater := (allSteps_append_iff.mp (h _ _ _ _ hrun).2.2).2 m hm
  have htrigger : check_tp_sl m.trader.position 100 = .ok (some (.SL 100 0)) := by
    rw [(Prod.mk.inj hopen).1]
    simp [check_tp_sl, opened]
  have hflat := (hlater.1 100 _ rfl htrigger s hs).1
  rw [(Prod.mk.inj hopen).2] at hflat
  cases hflat

end ArticTrader.PositionMachine
