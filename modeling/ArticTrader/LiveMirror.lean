import ArticTrader.EngineSession

/-!
The executor calls of a live session against the changes of the paper position.
-/

namespace ArticTrader.LiveMirror

open ArticTrader.EngineSession
open ArticTrader.LabelledRuns
open ArticTrader.PaperExecutor
open ArticTrader.PythonText (Text lower)
open ArticTrader.TradingEngine (Action Effect Engine Outcome TradeReport)

def is_order : ExecutorCall → Bool
  | .place_order .. => true
  | .get_positions .. => false
  | .close_position .. => true

def call_executor : ExecutorCall → Executor
  | .place_order executor .. => executor
  | .get_positions executor _ => executor
  | .close_position executor _ => executor

/-- The calls that belong to a change of the position's side: one order on the
executor of the session, and nothing on another. -/
def Corresponds (x : Executor) (before after : PositionSide) (calls : List ExecutorCall) : Prop :=
  (∀ call ∈ calls, call_executor call = x) ∧
    if before = after then calls.filter is_order = []
    else if before = .FLAT then
      ∃ symbol amount leverage price stop_loss take_profit, calls.filter is_order =
        [.place_order x symbol (lower after.value) amount leverage price stop_loss take_profit]
    else after = .FLAT ∧ ∃ symbol, calls.filter is_order = [.close_position x symbol]

def MirroredCalls (selected : Option Executor) (before after : PositionSide)
    (calls : List ExecutorCall) : Prop :=
  match selected with
  | none => calls = []
  | some x => Corresponds x before after calls

def Mirrored (env : Env) (s : State) (e : Event) : Prop :=
  ∀ s' ∈ step env s e, ∃ slice, s'.slices = s.slices ++ [slice] ∧
    MirroredCalls s.selected s.trader.position.side s'.trader.position.side slice.calls

/-- The action changes the side of the position. -/
def Moves (e : Engine) (action : Action) (price : ℚ) : Prop :=
  Action.opens action ∨
    action = .CLOSE ∧ e.position.side ≠ .FLAT ∧ ∃ pnl, unrealized_pnl e.position price = .ok pnl

def order_amount (e : Engine) (price : ℚ) : ℚ :=
  match e.amount_usdt, e.leverage with
  | some amount_usdt, some leverage => compute_amount amount_usdt leverage price
  | _, _ => 0

/-- Where a live session moves its position, the stub was selected at its start,
and an order it opens with has an amount. -/
def Served (env : Env) (s : State) (e : Event) : Prop :=
  ∀ x, s.selected = some x →
    (∀ v action price reason, verdict env s e = some v → v.action = some (action, price, reason) →
      Moves v.trader.engine action price →
        x = .Pancake ∧ (Action.opens action → 0 < order_amount v.trader.engine price)) ∧
    ∀ final_price close_position, e = .finish final_price → s.stopping = some close_position →
      closes_on_stop s.trader close_position final_price = true → x = .Pancake

/-- While a session runs, the flags of the engine are those its start has set. -/
def FlagsSet (s : State) : Prop :=
  s.loop ≠ .absent → s.trader.engine.live_mode = s.selected.isSome ∧
    (s.selected = some .Pancake → s.trader.engine.trading_client = true)

theorem mirrored_self (selected : Option Executor) (side : PositionSide) :
    MirroredCalls selected side side [] := by
  cases selected with
  | none => rfl
  | some x => exact ⟨by simp, by simp⟩

theorem execute_live_order_cases (e : Engine) (side : Text) (price : ℚ) :
    (order_amount e price ≤ 0 ∧ execute_live_order e side price = []) ∨
      (0 < order_amount e price ∧ ∃ amount leverage stop_loss take_profit,
        execute_live_order e side price =
          [.place_order .Pancake e.symbol side amount leverage price stop_loss take_profit,
            .get_positions .Pancake e.symbol]) := by
  unfold execute_live_order order_amount
  cases e.amount_usdt with
  | none => exact .inl ⟨le_rfl, rfl⟩
  | some amount_usdt =>
      cases e.leverage with
      | none => exact .inl ⟨le_rfl, rfl⟩
      | some leverage =>
          dsimp only
          split_ifs with hle
          · exact .inl ⟨hle, rfl⟩
          · exact .inr ⟨not_le.mp hle, _, _, _, _, rfl⟩

/-- What a transition calls: its order, in live mode and if the stub is there. -/
theorem live_calls_scheduled (e e' : Engine) (trade : TradeReport) (side reason : Text)
    (entry : Option ℚ) (exit : ℚ) (bps : ℤ) (order : Effect) :
    (scheduled e trade (.log_trade_onchain side entry exit bps reason) order).flatMap
        (live_calls e') =
      if e.live_mode ∧ e.trading_client then live_calls e' order else [] := by
  unfold scheduled
  split_ifs <;> simp [live_calls]

/-- Opening calls of the stub correspond exactly if the stub was selected and the
order has an amount. -/
theorem corresponds_open_iff {x : Executor} {e : Engine} {side : PositionSide} (price : ℚ)
    (hside : side ≠ .FLAT) :
    Corresponds x .FLAT side (execute_live_order e (lower side.value) price) ↔
      x = .Pancake ∧ 0 < order_amount e price := by
  rcases execute_live_order_cases e (lower side.value) price with
    ⟨hle, heq⟩ | ⟨hlt, amount, leverage, stop_loss, take_profit, heq⟩
  · rw [heq, Corresponds, if_neg (Ne.symm hside), if_pos rfl]
    refine iff_of_false ?_ fun h => absurd h.2 (not_lt.mpr hle)
    rintro ⟨-, symbol, amount, leverage, price', stop_loss, take_profit, h⟩
    cases h
  · rw [heq, Corresponds, if_neg (Ne.symm hside), if_pos rfl]
    constructor
    · rintro ⟨hall, -⟩
      exact ⟨(hall _ (List.mem_cons_self ..)).symm, hlt⟩
    · rintro ⟨rfl, -⟩
      refine ⟨?_, _, amount, leverage, price, stop_loss, take_profit, rfl⟩
      simp [call_executor]

theorem corresponds_close_iff {x : Executor} {side : PositionSide} (symbol : Option Text)
    (hside : side ≠ .FLAT) :
    Corresponds x side .FLAT [.close_position .Pancake symbol] ↔ x = .Pancake := by
  rw [Corresponds, if_neg hside, if_neg hside]
  constructor
  · rintro ⟨hall, -⟩
    exact (hall _ (List.mem_singleton.mpr rfl)).symm
  · rintro rfl
    exact ⟨by simp [call_executor], rfl, symbol, rfl⟩

theorem not_corresponds_nil {x : Executor} {before after : PositionSide} (h : before ≠ after) :
    ¬ Corresponds x before after [] := by
  rw [Corresponds, if_neg h]
  rintro ⟨-, hcalls⟩
  split_ifs at hcalls
  · obtain ⟨_, _, _, _, _, _, hnil⟩ := hcalls
    cases hnil
  · obtain ⟨-, _, hnil⟩ := hcalls
    cases hnil

theorem executed_mirrored_iff {e : Engine} {selected : Option Executor} {action : Action}
    {price : ℚ} {o : Outcome} (h : Executed e action price o)
    (hopens : Action.opens action → e.position.side = .FLAT)
    (hlive : e.live_mode = selected.isSome)
    (hclient : selected = some .Pancake → e.trading_client = true) :
    MirroredCalls selected e.position.side o.engine.position.side
        (o.effects.flatMap (live_calls o.engine)) ↔
      ∀ x, selected = some x → Moves e action price →
        x = .Pancake ∧ (Action.opens action → 0 < order_amount e price) := by
  cases h with
  | keeps hsession hposition heffects hnotOpen hcloses =>
      rw [hposition, heffects]
      refine iff_of_true (mirrored_self _ _) ?_
      rintro x - (hopen | ⟨hclose, hside, pnl, hpnl⟩)
      · exact absurd hopen hnotOpen
      · rcases hcloses hclose with hflat | ⟨err, herr⟩
        · exact absurd hflat hside
        · rw [hpnl] at herr
          cases herr
  | @opens side trade reason hsession hopen hside hposition hstake hreport heffects =>
      have hamount : order_amount o.engine price = order_amount e price := by
        rw [order_amount, hstake.1, hstake.2, order_amount]
      rw [heffects, live_calls_scheduled, hposition, hopens hopen]
      cases selected with
      | none => simp [hlive, MirroredCalls]
      | some x =>
          have hcalls : Corresponds x .FLAT side (if e.live_mode ∧ e.trading_client then
              execute_live_order o.engine (lower side.value) price else []) ↔
              x = .Pancake ∧ 0 < order_amount e price := by
            split_ifs with hboth
            · rw [corresponds_open_iff price hside, hamount]
            · refine iff_of_false (not_corresponds_nil (Ne.symm hside)) ?_
              rintro ⟨rfl, -⟩
              exact hboth ⟨by simpa using hlive, hclient rfl⟩
          rw [MirroredCalls, live_calls, hcalls]
          simp only [Option.some.injEq, forall_eq', Moves, hopen, true_or, forall_const]
  | @closes trade pnl pnl_bps reason hsession haction hside hposition hpnl hreport heffects =>
      subst haction
      have hmoves : Moves e .CLOSE price := .inr ⟨rfl, hside, pnl, hpnl⟩
      rw [heffects, live_calls_scheduled, hposition]
      cases selected with
      | none => simp [hlive, MirroredCalls]
      | some x =>
          have hcalls : Corresponds x e.position.side .FLAT (if e.live_mode ∧ e.trading_client then
              [.close_position .Pancake e.symbol] else []) ↔ x = .Pancake := by
            split_ifs with hboth
            · rw [corresponds_close_iff _ hside]
            · refine iff_of_false (not_corresponds_nil hside) ?_
              rintro rfl
              exact hboth ⟨by simpa using hlive, hclient rfl⟩
          rw [MirroredCalls, live_calls, hcalls]
          simp [hmoves, Action.opens]

theorem start_selects (t : Trader) (r : StartRequest) (a : StartAnswers) :
    (start t r a).1.engine.live_mode = (selected_executor r a).isSome ∧
      (selected_executor r a = some .Pancake → (start t r a).1.engine.trading_client = true) := by
  have hselect : (select_executor t r.live_mode a.hashkey_key).engine.live_mode =
        (selected_executor r a).isSome ∧
      (selected_executor r a = some .Pancake →
        (select_executor t r.live_mode a.hashkey_key).engine.trading_client = true) := by
    unfold select_executor selected_executor
    cases r.live_mode with
    | false => exact ⟨rfl, by simp⟩
    | true =>
        cases a.hashkey_key with
        | false => exact ⟨rfl, fun _ => rfl⟩
        | true => exact ⟨rfl, by simp⟩
  unfold start
  dsimp only
  split
  · exact hselect
  · unfold refresh_candles
    split <;> exact hselect

theorem start_flagsSet (s : State) (request : StartRequest) (answers : StartAnswers)
    (hloop : s.loop = .absent) : FlagsSet (s.start request answers) := by
  unfold State.start
  dsimp only
  split_ifs
  · exact fun _ => start_selects s.trader request answers
  · exact fun hrunning => absurd hloop hrunning

theorem flagsSet_step {env : Env} {s s' : State} {e : Event} (hs : FlagsSet s)
    (h : step env s e = some s') : FlagsSet s' := by
  have hkept : ∀ {t : Trader}, SameSession s.trader.engine t.engine → s.loop ≠ .absent →
      t.engine.live_mode = s.selected.isSome ∧
        (s.selected = some .Pancake → t.engine.trading_client = true) := by
    intro t hsession hloop
    rw [hsession.live_mode, hsession.trading_client]
    exact hs hloop
  cases step_stepped h with
  | @enacts _ v _ hloop hv =>
      intro _
      unfold State.enact
      split
      · exact hkept hv.session hloop
      · rename_i action price reason _
        exact hkept (hv.session.trans (execute_action_executed _ action price reason).session) hloop
  | starts _ hloop => exact start_flagsSet s _ _ hloop
  | settles _ _ _ hsession => exact hkept hsession
  | finishes => exact fun hloop => absurd rfl hloop

theorem served_of_no_verdict {env : Env} {s : State} {e : Event} (hverdict : verdict env s e = none)
    (he : ∀ final_price, e ≠ .finish final_price) : Served env s e := by
  intro x _
  constructor
  · intro v action price reason hv
    rw [hverdict] at hv
    cases hv
  · intro final_price close_position hfinish
    exact absurd hfinish (he final_price)

theorem enact_mirrored_iff {env : Env} {s : State} {e : Event} {v : Verdict}
    (hverdict : verdict env s e = some v) (hv : Decided s.trader v) (hflags : FlagsSet s)
    (hloop : s.loop ≠ .absent) :
    (∃ slice, (s.enact v).slices = s.slices ++ [slice] ∧
      MirroredCalls s.selected s.trader.position.side (s.enact v).trader.position.side slice.calls) ↔
      Served env s e := by
  have hserved : Served env s e ↔ ∀ x, s.selected = some x → ∀ action price reason,
      v.action = some (action, price, reason) → Moves v.trader.engine action price →
        x = .Pancake ∧ (Action.opens action → 0 < order_amount v.trader.engine price) := by
    constructor
    · intro h x hx action price reason
      exact (h x hx).1 v action price reason hverdict
    · intro h x hx
      refine ⟨fun v' action price reason hv' => ?_, fun final_price _ hfinish => ?_⟩
      · rw [hverdict] at hv'
        cases hv'
        exact h x hx action price reason
      · subst hfinish
        cases hverdict
  obtain ⟨hlive, hclient⟩ := hflags hloop
  rw [hserved, ← hv.side]
  cases haction : v.action with
  | none =>
      refine iff_of_true ⟨_, by simp only [State.enact, haction]; rfl, ?_⟩ (by simp)
      simp only [State.enact, haction, record_trader]
      exact mirrored_self _ _
  | some executed =>
      obtain ⟨action, price, reason⟩ := executed
      have hexec := execute_action_executed v.trader.engine action price reason
      have hiff := executed_mirrored_iff hexec
        (fun hopens => hv.side.trans (hv.opens action price reason haction hopens))
        (hv.session.live_mode.trans hlive)
        (fun hx => hv.session.trading_client.trans (hclient hx))
      constructor
      · rintro ⟨slice, hslice, hmirrored⟩ x hx action' price' reason' heq hmoves
        cases heq
        simp only [State.enact, haction, record_slices] at hslice hmirrored
        obtain rfl := (List.cons.inj (List.append_cancel_left hslice)).1
        exact hiff.mp hmirrored x hx hmoves
      · intro hall
        refine ⟨_, by simp only [State.enact, haction]; rfl, ?_⟩
        simp only [State.enact, haction, record_trader]
        exact hiff.mpr fun x hx => hall x hx action price reason rfl

theorem finish_stop_mirrored_iff {t : Trader} {selected : Option Executor} {close_position : Bool}
    {final_price : Option ℚ} (hlive : t.engine.live_mode = selected.isSome)
    (hclient : selected = some .Pancake → t.engine.trading_client = true) :
    MirroredCalls selected t.position.side (finish_stop t close_position final_price).1.position.side
        (finish_stop t close_position final_price).2 ↔
      ∀ x, selected = some x → closes_on_stop t close_position final_price = true →
        x = .Pancake := by
  unfold finish_stop
  cases hcloses : closes_on_stop t close_position final_price with
  | false => exact iff_of_true (mirrored_self _ _) (by simp)
  | true =>
      have hopen : t.position.side ≠ .FLAT := by
        simp only [closes_on_stop, Bool.and_eq_true, decide_eq_true_eq] at hcloses
        simpa using hcloses.1.2
      rw [if_pos rfl]
      change MirroredCalls selected t.position.side .FLAT (if _ then _ else _) ↔ _
      cases selected with
      | none => simp [hlive, MirroredCalls]
      | some x =>
          rw [MirroredCalls]
          simp only [Option.some.injEq, forall_eq', forall_const]
          split_ifs with hboth
          · exact corresponds_close_iff _ hopen
          · refine iff_of_false (not_corresponds_nil hopen) ?_
            rintro rfl
            exact hboth ⟨by simpa using hlive, hclient rfl⟩

theorem finish_mirrored_iff {env : Env} {s : State} {close_position : Bool}
    {final_price : Option ℚ} (hstopping : s.stopping = some close_position) (hflags : FlagsSet s)
    (hloop : s.loop ≠ .absent) :
    (∃ slice, (s.finish close_position final_price).slices = s.slices ++ [slice] ∧
      MirroredCalls s.selected s.trader.position.side
        (s.finish close_position final_price).trader.position.side slice.calls) ↔
      Served env s (.finish final_price) := by
  obtain ⟨hlive, hclient⟩ := hflags hloop
  have hstop := @finish_stop_mirrored_iff _ _ close_position final_price hlive hclient
  constructor
  · rintro ⟨slice, hslice, hcalls⟩ x hx
    refine ⟨by simp [verdict], ?_⟩
    intro final_price' close_position' hfinish hstopping' hcloses
    cases hfinish
    rw [hstopping] at hstopping'
    cases hstopping'
    simp only [State.finish, record_slices] at hslice
    obtain rfl := (List.cons.inj (List.append_cancel_left hslice)).1
    exact hstop.mp hcalls x hx hcloses
  · intro hserved
    refine ⟨_, rfl, hstop.mpr fun x hx hcloses => ?_⟩
    exact (hserved x hx).2 final_price close_position rfl hstopping hcloses

/-- A step mirrors the paper position exactly if it is served. -/
theorem mirrored_iff {env : Env} {s s' : State} {e : Event} (hflags : FlagsSet s)
    (h : step env s e = some s') : Mirrored env s e ↔ Served env s e := by
  have honly : Mirrored env s e ↔ ∃ slice, s'.slices = s.slices ++ [slice] ∧
      MirroredCalls s.selected s.trader.position.side s'.trader.position.side slice.calls :=
    forall_step_iff h
  rw [honly]
  cases step_stepped h with
  | enacts hverdict hloop hv => exact enact_mirrored_iff hverdict hv hflags hloop
  | @starts request answers _ hloop =>
      refine iff_of_true ⟨_, start_slices s request answers, ?_⟩
        (served_of_no_verdict rfl (by simp))
      rw [start_position]
      exact mirrored_self _ _
  | settles _ hverdict he _ hside =>
      refine iff_of_true ⟨_, rfl, ?_⟩ (served_of_no_verdict hverdict he)
      rw [record_trader, hside]
      exact mirrored_self _ _
  | finishes hloop hstopping => exact finish_mirrored_iff hstopping hflags hloop

/-- The executor mirrors the paper position in exactly the runs in which every
move of a live session is served. -/
theorem live_mirrors_iff {env : Env} {agent_id : Text} {es : List Event} {s : State}
    (hrun : run (step env) (initial agent_id) es = some s) :
    AllSteps (step env) (Mirrored env) (initial agent_id) es ↔
      AllSteps (step env) (Served env) (initial agent_id) es :=
  allSteps_congr (fun _ _ _ => flagsSet_step) (fun _ _ _ => mirrored_iff) hrun
    fun hloop => absurd rfl hloop

def live_start (hashkey_key : Bool) : List Event :=
  [.start (demo_request true) (demo_answers hashkey_key), .tick demo_tick, .tick demo_tick]

theorem live_mirrors_stub :
    ∃ s, run (step demo_env) (initial []) (live_start false ++ [.tick demo_tick]) = some s ∧
      (AllSteps (step demo_env) (Mirrored demo_env) (initial [])
          (live_start false ++ [.tick demo_tick]) ↔
        AllSteps (step demo_env) (Served demo_env) (initial [])
          (live_start false ++ [.tick demo_tick])) := by
  obtain ⟨s, hrun⟩ : ∃ s, run (step demo_env) (initial []) (live_start false ++ [.tick demo_tick]) =
      some s := Option.isSome_iff_exists.mp (by decide +kernel)
  exact ⟨s, hrun, live_mirrors_iff hrun⟩

/-- With the HashKey executor selected, a long position is opened on paper alone. -/
theorem hashkey_not_called :
    ¬ ∀ (env : Env) (agent_id : Text) (es : List Event) (s : State),
      run (step env) (initial agent_id) es = some s →
      AllSteps (step env) (Mirrored env) (initial agent_id) es := by
  intro h
  have hend : (run (step demo_env) (initial []) (live_start true)).bind (fun m =>
      (step demo_env m (.tick demo_tick)).map fun s =>
        (m.selected, m.trader.position.side, s.trader.position.side,
          s.slices.getLast?.map Slice.calls)) = some (some .HashKey, .FLAT, .LONG, some []) := by
    decide +kernel
  obtain ⟨m, hm, hlast⟩ := Option.bind_eq_some_iff.mp hend
  obtain ⟨s, hs, heq⟩ := Option.map_eq_some_iff.mp hlast
  simp only [Prod.mk.injEq] at heq
  obtain ⟨hselected, hbefore, hafter, hcalls⟩ := heq
  have hrun := run_append_iff.mpr ⟨m, hm, run_cons_iff.mpr ⟨s, hs, run_nil s⟩⟩
  have hmirrored := ((allSteps_append_iff.mp (h _ _ _ _ hrun)).2 m hm).1
  obtain ⟨slice, hslice, hmatches⟩ := hmirrored s hs
  have hnone : slice.calls = [] := by simpa [hslice] using hcalls
  rw [hselected, hbefore, hafter, hnone] at hmatches
  exact not_corresponds_nil (by simp) hmatches

end ArticTrader.LiveMirror
