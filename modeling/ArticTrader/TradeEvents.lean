import ArticTrader.EngineSession

/-!
The trade reports and on-chain logs of an engine against the changes of its
position.
-/

namespace ArticTrader.TradeEvents

open ArticTrader.EngineSession
open ArticTrader.LabelledRuns
open ArticTrader.PaperExecutor
open ArticTrader.PythonNumbers
open ArticTrader.PythonText (Text lower)
open ArticTrader.TradingEngine (Action TradeReport Effect Engine Outcome StrategyPlan)

def reports (effects : List Effect) : List TradeReport :=
  effects.filterMap fun
    | .report_trade trade => some trade
    | _ => none

/-- The sides of the on-chain logs, such as `OPEN_LONG`. -/
def logged_sides (effects : List Effect) : List Text :=
  effects.filterMap fun
    | .log_trade_onchain side _ _ _ _ => some side
    | _ => none

def is_open (trade : TradeReport) : Bool := trade.exit_price.isNone

/-- The reports and logs that belong to a change of the position's side. -/
def Matches (before after : PositionSide) (effects : List Effect) : Prop :=
  if before = after then reports effects = [] ∧ logged_sides effects = []
  else if before = .FLAT then
    ∃ trade, reports effects = [trade] ∧ trade.exit_price = none ∧
      trade.side = lower after.value ∧ logged_sides effects = ["OPEN_".toList ++ after.value]
  else
    after = .FLAT ∧ ∃ trade, reports effects = [trade] ∧ trade.exit_price.isSome ∧
      trade.pnl.isSome ∧ trade.side = lower before.value ∧
        logged_sides effects = ["CLOSE_".toList ++ before.value]

def Paired (env : Env) (s : State) (e : Event) : Prop :=
  ∀ s' ∈ step env s e, ∃ slice, s'.slices = s.slices ++ [slice] ∧
    Matches s.trader.position.side s'.trader.position.side slice.effects

def all_reports (s : State) : List TradeReport :=
  s.slices.flatMap fun slice => reports slice.effects

/-- Opens and closes take turns, beginning with `next`. -/
def Alternates : Bool → List Bool → Prop
  | _, [] => True
  | next, b :: bs => b = next ∧ Alternates (!next) bs

/-- A stop that has to close finds no position. -/
def StopsFlat (s : State) : Event → Prop
  | .finish final_price =>
      ∀ close_position, s.stopping = some close_position →
        closes_on_stop s.trader close_position final_price = false
  | _ => True

theorem matches_self (side : PositionSide) : Matches side side [] := by
  rw [Matches, if_pos rfl]
  exact ⟨rfl, rfl⟩

theorem reports_scheduled {e : Engine} (hagent : e.agent_id ≠ []) (trade : TradeReport)
    {side reason : Text} {entry : Option ℚ} {exit : ℚ} {bps : ℤ} (order : Effect)
    (horder : reports [order] = [] ∧ logged_sides [order] = []) :
    reports (scheduled e trade (.log_trade_onchain side entry exit bps reason) order) = [trade] ∧
      logged_sides (scheduled e trade (.log_trade_onchain side entry exit bps reason) order) =
        [side] := by
  simp only [scheduled, if_pos hagent, reports, logged_sides] at horder ⊢
  split
  · simp only [List.filterMap_append, horder]
    exact ⟨rfl, rfl⟩
  · exact ⟨rfl, rfl⟩

theorem executed_matches {e : Engine} {action : Action} {price : ℚ} {o : Outcome}
    (h : Executed e action price o) (hagent : e.agent_id ≠ [])
    (hopens : Action.opens action → e.position.side = .FLAT) :
    Matches e.position.side o.engine.position.side o.effects := by
  cases h with
  | keeps _ hposition heffects =>
      rw [hposition, heffects]
      exact matches_self _
  | @opens side trade reason _ hopen hside hposition _ hreport heffects =>
      obtain ⟨hreports, hlogged⟩ := reports_scheduled hagent trade
        (.execute_live_order (lower side.value) price reason) ⟨rfl, rfl⟩
      rw [hopens hopen, hposition, Matches, if_neg (Ne.symm hside), if_pos rfl, heffects]
      exact ⟨_, hreports, hreport.1, hreport.2, hlogged⟩
  | @closes trade _ _ _ _ _ hside hposition _ hreport heffects =>
      obtain ⟨hreports, hlogged⟩ := reports_scheduled hagent trade (.close_position e.symbol)
        ⟨rfl, rfl⟩
      rw [hposition, Matches, if_neg hside, if_neg hside, heffects]
      exact ⟨rfl, _, hreports, by simp [hreport.1], by simp [hreport.2.1], hreport.2.2, hlogged⟩

theorem enact_matches {s : State} {v : Verdict} (hv : Decided s.trader v)
    (hagent : s.trader.engine.agent_id ≠ []) :
    ∃ slice, (s.enact v).slices = s.slices ++ [slice] ∧
      Matches s.trader.position.side (s.enact v).trader.position.side slice.effects ∧
      (s.enact v).trader.engine.agent_id = s.trader.engine.agent_id := by
  unfold State.enact
  split
  · refine ⟨_, rfl, ?_, hv.session.agent_id⟩
    rw [← hv.side]
    exact matches_self _
  · rename_i action price reason haction
    have hexec := execute_action_executed v.trader.engine action price reason
    have hagent' : v.trader.engine.agent_id ≠ [] := by
      rw [hv.session.agent_id]
      exact hagent
    refine ⟨_, rfl, ?_, ?_⟩
    · rw [← hv.side]
      exact executed_matches hexec hagent' fun h => hv.side.trans (hv.opens _ _ _ haction h)
    · exact hexec.session.agent_id.trans hv.session.agent_id

theorem finish_matches_iff (s : State) (close_position : Bool) (final_price : Option ℚ) :
    (∃ slice, (s.finish close_position final_price).slices = s.slices ++ [slice] ∧
      Matches s.trader.position.side
        (s.finish close_position final_price).trader.position.side slice.effects) ↔
      closes_on_stop s.trader close_position final_price = false := by
  cases hcloses : closes_on_stop s.trader close_position final_price with
  | false =>
      have hkept : (finish_stop s.trader close_position final_price).1 = s.trader := by
        simp [finish_stop, hcloses]
      refine ⟨fun _ => rfl, fun _ => ⟨_, rfl, ?_⟩⟩
      simp only [State.finish, record_trader, hkept]
      exact matches_self _
  | true =>
      have hopen : s.trader.position.side ≠ .FLAT := by
        simp only [closes_on_stop, Bool.and_eq_true, decide_eq_true_eq] at hcloses
        simpa using hcloses.1.2
      have hflat : (s.finish close_position final_price).trader.position.side = .FLAT := by
        simp [State.finish, finish_stop, hcloses, Trader.position, close, flat]
      refine ⟨?_, fun h => by cases h⟩
      rintro ⟨slice, hslice, hmatches⟩
      have hquiet : slice.effects = [] := by
        have hlast := List.append_cancel_left hslice
        rw [← (List.cons.inj hlast).1]
        rfl
      rw [hflat, Matches, if_neg hopen, if_neg hopen, hquiet] at hmatches
      obtain ⟨-, trade, htrade, -⟩ := hmatches
      cases htrade

/-- A step pairs the change of the position with its reports exactly if it is not
a stop that closes one. -/
theorem paired_iff {env : Env} {s s' : State} {e : Event} (hagent : s.trader.engine.agent_id ≠ [])
    (h : step env s e = some s') : Paired env s e ↔ StopsFlat s e := by
  have honly : Paired env s e ↔ ∃ slice, s'.slices = s.slices ++ [slice] ∧
      Matches s.trader.position.side s'.trader.position.side slice.effects :=
    forall_step_iff h
  rw [honly]
  cases step_stepped h with
  | enacts hverdict _ hv =>
      obtain ⟨slice, hslice, hmatches, -⟩ := enact_matches hv hagent
      refine iff_of_true ⟨slice, hslice, hmatches⟩ ?_
      cases e with
      | finish final_price => cases hverdict
      | _ => trivial
  | starts =>
      refine iff_of_true ⟨_, start_slices s _ _, ?_⟩ trivial
      rw [start_position]
      exact matches_self _
  | settles _ _ he _ hside =>
      refine iff_of_true ⟨_, rfl, ?_⟩ ?_
      · rw [record_trader, hside]
        exact matches_self _
      · cases e with
        | finish final_price => exact absurd rfl (he final_price)
        | _ => trivial
  | finishes _ hstopping =>
      rw [finish_matches_iff]
      simp only [StopsFlat, hstopping, Option.some.injEq, forall_eq']

theorem agent_id_step {env : Env} {s s' : State} {e : Event}
    (hagent : s.trader.engine.agent_id ≠ []) (h : step env s e = some s') :
    s'.trader.engine.agent_id ≠ [] := by
  cases step_stepped h with
  | enacts _ _ hv =>
      obtain ⟨_, _, _, hkept⟩ := enact_matches hv hagent
      rw [hkept]
      exact hagent
  | starts =>
      rw [start_trader, (start_keeps s.trader _ _).2]
      exact hagent
  | settles _ _ _ hsession =>
      rw [record_trader, hsession.agent_id]
      exact hagent
  | finishes =>
      simp only [State.finish, record_trader, finish_stop]
      split_ifs <;> exact hagent

theorem alternates_append (next : Bool) (xs ys : List Bool) :
    Alternates next (xs ++ ys) ↔
      Alternates next xs ∧ Alternates (next ^^ decide (xs.length % 2 = 1)) ys := by
  induction xs generalizing next with
  | nil => simp [Alternates]
  | cons x xs ih =>
      have hparity : ((!next) ^^ decide (xs.length % 2 = 1)) =
          (next ^^ decide ((x :: xs).length % 2 = 1)) := by
        rcases Nat.mod_two_eq_zero_or_one xs.length with h | h
        · simp [List.length_cons, Nat.add_mod, h]
        · simp [List.length_cons, Nat.add_mod, h]
      rw [List.cons_append, Alternates, ih, hparity, Alternates, and_assoc]

/-- The next report is that of an open exactly while there is no position. -/
def TakesTurns (s : State) : Prop :=
  Alternates true ((all_reports s).map is_open) ∧
    ((all_reports s).length % 2 = 1 ↔ s.trader.position.side ≠ .FLAT)

theorem takesTurns_step {env : Env} {s s' : State} {e : Event} (hs : TakesTurns s)
    (hpaired : Paired env s e) (h : step env s e = some s') : TakesTurns s' := by
  obtain ⟨slice, hslice, hmatches⟩ := hpaired s' h
  obtain ⟨halternates, hparity⟩ := hs
  have hall : all_reports s' = all_reports s ++ reports slice.effects := by
    simp [all_reports, hslice]
  rw [TakesTurns, hall, List.map_append, alternates_append, List.length_map, List.length_append]
  unfold Matches at hmatches
  split_ifs at hmatches with hsame hflat
  · rw [hmatches.1, ← hsame]
    simpa [Alternates] using ⟨halternates, hparity⟩
  · obtain ⟨trade, hreports, hopen, -⟩ := hmatches
    have heven : (all_reports s).length % 2 = 0 := by
      by_contra hodd
      exact hparity.mp (by omega) hflat
    refine ⟨⟨halternates, by simp [hreports, Alternates, heven, is_open, hopen]⟩, ?_⟩
    rw [hreports, List.length_singleton]
    constructor
    · intro _ hflat'
      exact hsame (hflat.trans hflat'.symm)
    · intro _
      omega
  · obtain ⟨hflat', trade, hreports, hclose, -⟩ := hmatches
    have hodd : (all_reports s).length % 2 = 1 := hparity.mpr hflat
    have hnotOpen : is_open trade = false := by
      rw [is_open, Option.isNone_eq_false_iff]
      exact hclose
    refine ⟨⟨halternates, by simp [hreports, Alternates, hodd, hnotOpen]⟩, ?_⟩
    rw [hreports, List.length_singleton]
    constructor
    · intro hlength
      omega
    · intro hopen
      exact absurd hflat' hopen

theorem takesTurns_run {env : Env} {agent_id : Text} {es : List Event} {s : State}
    (hrun : run (step env) (initial agent_id) es = some s)
    (hall : AllSteps (step env) (Paired env) (initial agent_id) es) : TakesTurns s := by
  have hinitial : TakesTurns (initial agent_id) :=
    ⟨trivial, by simp [all_reports, initial, fresh_trader, fresh_engine, Trader.position, flat]⟩
  exact run_invariant_of_allSteps (fun _ _ _ hs hpaired h => takesTurns_step hs hpaired h) hrun
    hall hinitial

/-- The changes of the position and the reports go together, and the reports take
turns, exactly in the runs in which no stop closes a position. -/
theorem events_match_iff {env : Env} {agent_id : Text} (hagent : agent_id ≠ []) {es : List Event}
    {s : State} (hrun : run (step env) (initial agent_id) es = some s) :
    (AllSteps (step env) (Paired env) (initial agent_id) es ∧
      Alternates true ((all_reports s).map is_open)) ↔
      AllSteps (step env) StopsFlat (initial agent_id) es := by
  have hiff : AllSteps (step env) (Paired env) (initial agent_id) es ↔
      AllSteps (step env) StopsFlat (initial agent_id) es :=
    allSteps_congr (fun _ _ _ => agent_id_step) (fun _ _ _ => paired_iff) hrun hagent
  rw [← hiff]
  exact ⟨fun h => h.1, fun hall => ⟨hall, (takesTurns_run hrun hall).1⟩⟩

/-- The third tick has four prices and opens a long position. -/
def demo_session (close_position : Bool) : List Event :=
  [.start (demo_request false) (demo_answers false), .tick demo_tick, .tick demo_tick,
    .tick demo_tick, .stop close_position, .finish (some 110)]

theorem events_match_kept_open :
    ∃ s, run (step demo_env) (initial "a1".toList) (demo_session false) = some s ∧
      ((AllSteps (step demo_env) (Paired demo_env) (initial "a1".toList) (demo_session false) ∧
          Alternates true ((all_reports s).map is_open)) ↔
        AllSteps (step demo_env) StopsFlat (initial "a1".toList) (demo_session false)) := by
  obtain ⟨s, hrun⟩ : ∃ s, run (step demo_env) (initial "a1".toList) (demo_session false) =
      some s := Option.isSome_iff_exists.mp (by decide +kernel)
  exact ⟨s, hrun, events_match_iff (by decide) hrun⟩

/-- The stop closes the position and leaves the trade it belongs to reported open. -/
theorem stop_closes_silently :
    ¬ ∀ (env : Env) (agent_id : Text) (es : List Event) (s : State), agent_id ≠ [] →
      run (step env) (initial agent_id) es = some s →
      AllSteps (step env) (Paired env) (initial agent_id) es ∧
        Alternates true ((all_reports s).map is_open) := by
  intro h
  have hend : (run (step demo_env) (initial "a1".toList) (demo_session true)).map
      (fun s => ((all_reports s).length, s.trader.position.side)) = some (1, .FLAT) := by
    decide +kernel
  obtain ⟨s, hrun, heq⟩ := Option.map_eq_some_iff.mp hend
  simp only [Prod.mk.injEq] at heq
  have hturns := takesTurns_run hrun (h _ _ _ _ (by decide) hrun).1
  exact hturns.2.mp (by omega) heq.2

end ArticTrader.TradeEvents
