import ArticTrader.ConcurrentCalls
import ArticTrader.EngineSession

/-!
Any number of `/start` and `/stop` requests on one engine, interleaved at their
awaits with the trading loops that the starts create.
-/

namespace ArticTrader.EngineLifecycle

open ArticTrader.ConcurrentCalls
open ArticTrader.EngineSession
open ArticTrader.LabelledRuns
open ArticTrader.TradingEngine (Candle StrategyPlan)

inductive Request where
  | start (request : StartRequest)
  | stop (close_position : Bool)
  deriving DecidableEq, Repr

variable {ι : Type*}

/-- Where a request stands. The task of a start waits in turn for the price, the
market summary, the planner and the candles; the loop that it has created goes by
its name. A stop waits for the loop task and then for the price listener. -/
inductive Phase (ι : Type*) where
  | idle
  | scheduled
  | pricing
  | summarizing
  | planning
  | refreshing
  | returned
  | looping (loop : Loop)
  | ended
  | stopping (close_position : Bool) (loop_task : Option ι)
  | unlistening
  | stopped
  deriving DecidableEq

/-- The engine object. Of the requests it keeps whether the last one was a stop. -/
structure Shared (ι : Type*) where
  trader : Trader
  loop_task : Option ι
  price_listener : Bool
  last_is_stop : Bool

abbrev State (ι : Type*) := System ι (Shared ι) (Phase ι)

inductive Step (ι : Type*) where
  | issue (i : ι)
  | check (i : ι) (hashkey_key : Bool)
  | price (i : ι) (initial_price : Option ℚ)
  | summary (i : ι)
  | plan (i : ι) (strategy_plan : StrategyPlan)
  | candles (i : ι) (candles : Option (List Candle))
  | tick (i : ι) (input : TickInput)
  | answer (i : ι) (input : TickInput)
  | close (i : ι) (final_price : Option ℚ)
  | unlisten (i : ι)

/-- A start has been requested and has neither returned nor created its loop. -/
def Phase.starting : Phase ι → Bool
  | .scheduled => true
  | .pricing => true
  | .summarizing => true
  | .planning => true
  | .refreshing => true
  | _ => false

/-- A start has found the engine not running and has not created its loop yet. -/
def Phase.checked : Phase ι → Bool
  | .scheduled => false
  | p => p.starting

def Phase.live : Phase ι → Bool
  | .looping _ => true
  | _ => false

def Phase.finished : Phase ι → Bool
  | .stopping .. => false
  | .unlistening => false
  | p => !p.starting

def set_strategy (t : Trader) (plan : StrategyPlan) : Trader :=
  { t with
    engine :=
      { t.engine with
        strategy_plan := some plan
        sl_pct := some (t.engine.sl_pct.getD plan.max_loss_pct) } }

def initial (agent_id : PythonText.Text) : State ι where
  shared :=
    { trader := fresh_trader agent_id
      loop_task := none
      price_listener := false
      last_is_stop := false }
  calls := fun _ => .idle

def OneLoop (s : State ι) : Prop :=
  ∀ i j, (s.calls i).live = true → (s.calls j).live = true → i = j

/-- After a stop as the last request, and once all requests have finished, no loop runs. -/
def StopKept (s : State ι) : Prop :=
  s.shared.last_is_stop = true → (∀ i, (s.calls i).finished = true) → ∀ i, (s.calls i).live = false

structure Kept (s : State ι) : Prop where
  alone : ∀ i, (s.calls i).checked = true → s.shared.trader.running = false ∧
    ∀ j, (s.calls j).live = false ∧ (j ≠ i → (s.calls j).checked = false)
  task : ∀ i, (s.calls i).live = true → s.shared.loop_task = some i
  awaited : ∀ i, (s.calls i).live = true → s.shared.trader.running = false →
    ∃ j close_position, s.calls j = .stopping close_position (some i)
  stopped : s.shared.last_is_stop = true → s.shared.trader.running = false ∧
    ∀ i, (s.calls i).starting = false

theorem Phase.starting_of_checked {p : Phase ι} (h : p.checked = true) : p.starting = true := by
  cases p <;> simp_all [Phase.checked, Phase.starting]

theorem Phase.not_live_of_starting {p : Phase ι} (h : p.starting = true) : p.live = false := by
  cases p <;> simp_all [Phase.live, Phase.starting]

theorem initial_kept (agent_id : PythonText.Text) : Kept (initial agent_id : State ι) where
  alone := fun _ h => by cases h
  task := fun _ h => by cases h
  awaited := fun _ h => by cases h
  stopped := fun h => by cases h

theorem Kept.oneLoop {s : State ι} (hs : Kept s) : OneLoop s := by
  intro i j hi hj
  exact Option.some.inj ((hs.task i hi).symm.trans (hs.task j hj))

theorem Kept.stopKept {s : State ι} (hs : Kept s) : StopKept s := by
  intro hstop hfinished i
  by_contra hlive
  obtain ⟨j, close_position, hj⟩ :=
    hs.awaited i (by simpa using hlive) (hs.stopped hstop).1
  have hunfinished := hfinished j
  rw [hj] at hunfinished
  cases hunfinished

variable [DecidableEq ι]

def State.update (s : State ι) (trader : Trader) (i : ι) (p : Phase ι) : State ι :=
  (s.write { s.shared with trader }).set i p

def issue (s : State ι) (i : ι) : Request → State ι
  | .start _ => (s.write { s.shared with last_is_stop := false }).set i .scheduled
  | .stop close_position =>
      if s.shared.trader.running then
        (s.write { s.shared with
          trader := { s.shared.trader with running := false }
          last_is_stop := true }).set i (.stopping close_position s.shared.loop_task)
      else (s.write { s.shared with last_is_stop := true }).set i .stopped

/-- The first slice of `start`. -/
def check (s : State ι) (i : ι) (hashkey_key : Bool) : Request → Option (State ι)
  | .start r =>
      if s.shared.trader.running then some (s.set i .returned)
      else
        some (s.update (set_parameters (select_executor s.shared.trader r.live_mode hashkey_key) r) i
          .pricing)
  | .stop _ => none

/-- The last slice of `start`. -/
def create_loop (hub_url : Bool) (s : State ι) (i : ι) (candles : Option (List Candle)) : State ι :=
  (s.write { s.shared with
    trader := { refresh_candles s.shared.trader candles with running := true }
    loop_task := some i
    price_listener := s.shared.price_listener || hub_url }).set i (.looping (.top 0))

def enact (s : State ι) (i : ι) (v : Verdict) : State ι := s.update (enacted v) i (.looping v.loop)

def loop_ended (s : State ι) : Option ι → Bool
  | none => true
  | some j =>
      match s.calls j with
      | .ended => true
      | _ => false

def step (env : Env) (hub_url : Bool) (requests : ι → Request) (s : State ι) :
    Step ι → Option (State ι)
  | .issue i =>
      match s.calls i with
      | .idle => some (issue s i (requests i))
      | _ => none
  | .check i hashkey_key =>
      match s.calls i with
      | .scheduled => check s i hashkey_key (requests i)
      | _ => none
  | .price i initial_price =>
      match s.calls i, initial_price with
      | .pricing, none => some (s.set i .returned)
      | .pricing, some price =>
          some (s.update { s.shared.trader with
            price_history := append_price s.shared.trader.price_history price } i .summarizing)
      | _, _ => none
  | .summary i =>
      match s.calls i with
      | .summarizing => some (s.set i .planning)
      | _ => none
  | .plan i strategy_plan =>
      match s.calls i with
      | .planning => some (s.update (set_strategy s.shared.trader strategy_plan) i .refreshing)
      | _ => none
  | .candles i candles =>
      match s.calls i with
      | .refreshing => some (create_loop hub_url s i candles)
      | _ => none
  | .tick i input =>
      match s.calls i with
      | .looping (.top tick_count) =>
          if s.shared.trader.running then
            some (enact s i (trading_loop env s.shared.trader (tick_count + 1) input))
          else some (s.set i .ended)
      | _ => none
  | .answer i input =>
      match s.calls i with
      | .looping (.checking tick_count price resp) =>
          some (enact s i
            (supervisor_pass env s.shared.trader tick_count price resp input.candles))
      | _ => none
  | .close i final_price =>
      match s.calls i with
      | .stopping close_position loop_task =>
          if loop_ended s loop_task then
            some (s.update (finish_stop s.shared.trader close_position final_price).1 i
              (if s.shared.price_listener then .unlistening else .stopped))
          else none
      | _ => none
  | .unlisten i =>
      match s.calls i with
      | .unlistening => some ((s.write { s.shared with price_listener := false }).set i .stopped)
      | _ => none

/-- A start that nothing interrupts is the start of the sequential engine. -/
theorem start_run (env : Env) (hub_url : Bool) {requests : ι → Request} {s : State ι} {i : ι}
    {r : StartRequest} {a : StartAnswers} {price : ℚ} (hi : s.calls i = .idle)
    (hrequest : requests i = .start r) (hrunning : s.shared.trader.running = false)
    (hprice : a.initial_price = some price) :
    ∃ t, run (step env hub_url requests) s [.issue i, .check i a.hashkey_key,
        .price i a.initial_price, .summary i, .plan i a.strategy_plan, .candles i a.candles] =
      some t ∧ t.shared.trader = (EngineSession.start s.shared.trader r a).1 ∧
        t.calls i = .looping (.top 0) := by
  simp [run, step, hi, issue, check, hrequest, hrunning, hprice, State.update, create_loop,
    EngineSession.start, set_strategy]

/-- A stop is issued while no start is on its way, and a start finds the engine not
running only if no other start is on its way and no loop is left. -/
def Separate (requests : ι → Request) (s : State ι) : Step ι → Prop
  | .issue i =>
      ∀ close_position, requests i = .stop close_position → ∀ j, (s.calls j).starting = false
  | .check i _ =>
      s.shared.trader.running = false →
        ∀ j, j ≠ i → (s.calls j).checked = false ∧ (s.calls j).live = false
  | _ => True

/-- What one step does to the engine and to the request or loop that takes it. -/
inductive Move (requests : ι → Request) (s : State ι) : Step ι → State ι → Prop where
  | schedules {i : ι} {sh : Shared ι} (hi : s.calls i = .idle)
      (htrader : sh.trader = s.shared.trader) (htask : sh.loop_task = s.shared.loop_task)
      (hlast : sh.last_is_stop = false) :
      Move requests s (.issue i) ((s.write sh).set i .scheduled)
  | stops {i : ι} {sh : Shared ι} {close_position : Bool} {p : Phase ι}
      (hi : s.calls i = .idle) (hrequest : requests i = .stop close_position)
      (hrunning : sh.trader.running = false) (htask : sh.loop_task = s.shared.loop_task)
      (hp : s.shared.trader.running = true ∧ p = .stopping close_position s.shared.loop_task ∨
        s.shared.trader.running = false ∧ p = .stopped) :
      Move requests s (.issue i) ((s.write sh).set i p)
  | refuses {i : ι} {hashkey_key : Bool} (hi : s.calls i = .scheduled)
      (hrunning : s.shared.trader.running = true) :
      Move requests s (.check i hashkey_key) (s.set i .returned)
  | checks {i : ι} {hashkey_key : Bool} {t : Trader} (hi : s.calls i = .scheduled)
      (hrunning : s.shared.trader.running = false) (ht : t.running = false) :
      Move requests s (.check i hashkey_key) (s.update t i .pricing)
  | proceeds {i : ι} {e : Step ι} {t : Trader} {p : Phase ι} (hi : (s.calls i).checked = true)
      (ht : t.running = s.shared.trader.running) (hp : p.checked = true ∨ p = .returned) :
      Move requests s e (s.update t i p)
  | creates {i : ι} {e : Step ι} {sh : Shared ι} {loop : Loop} (hi : (s.calls i).checked = true)
      (hrunning : sh.trader.running = true) (htask : sh.loop_task = some i)
      (hlast : sh.last_is_stop = s.shared.last_is_stop) :
      Move requests s e ((s.write sh).set i (.looping loop))
  | loops {i : ι} {e : Step ι} {t : Trader} {loop : Loop} (hi : (s.calls i).live = true)
      (ht : t.running = s.shared.trader.running) :
      Move requests s e (s.update t i (.looping loop))
  | ends {i : ι} {e : Step ι} (hi : (s.calls i).live = true)
      (hrunning : s.shared.trader.running = false) : Move requests s e (s.set i .ended)
  | resumes {i : ι} {e : Step ι} {sh : Shared ι} {p : Phase ι}
      (hi : (s.calls i).starting = false ∧ (s.calls i).live = false)
      (hwaited : ∀ close_position j, s.calls i = .stopping close_position (some j) →
        s.calls j = .ended)
      (ht : sh.trader.running = s.shared.trader.running)
      (htask : sh.loop_task = s.shared.loop_task)
      (hlast : sh.last_is_stop = s.shared.last_is_stop) (hp : p = .unlistening ∨ p = .stopped) :
      Move requests s e ((s.write sh).set i p)

theorem parameters_running (t : Trader) (r : StartRequest) (live_mode hashkey_key : Bool) :
    (set_parameters (select_executor t live_mode hashkey_key) r).running = t.running := by
  unfold select_executor
  dsimp only
  split_ifs <;> rfl

theorem finish_stop_running (t : Trader) (close_position : Bool) (final_price : Option ℚ) :
    (finish_stop t close_position final_price).1.running = t.running := by
  unfold finish_stop
  split_ifs <;> rfl

variable {env : Env} {hub_url : Bool} {requests : ι → Request} {s s' : State ι} {e : Step ι}

theorem step_move (h : step env hub_url requests s e = some s') : Move requests s e s' := by
  cases e with
  | issue i =>
      cases hi : s.calls i <;> simp only [step, hi, Option.some.injEq, reduceCtorEq] at h
      subst h
      cases hrequest : requests i with
      | start r => exact .schedules hi rfl rfl rfl
      | stop close_position =>
          simp only [issue]
          split_ifs with hrunning
          · exact .stops hi hrequest rfl rfl (.inl ⟨hrunning, rfl⟩)
          · rw [Bool.not_eq_true] at hrunning
            exact .stops hi hrequest hrunning rfl (.inr ⟨hrunning, rfl⟩)
  | check i hashkey_key =>
      cases hi : s.calls i <;> simp only [step, hi, reduceCtorEq] at h
      cases hrequest : requests i with
      | start r =>
          simp only [check, hrequest] at h
          split_ifs at h with hrunning
          · cases h
            exact .refuses hi hrunning
          · rw [Bool.not_eq_true] at hrunning
            cases h
            exact .checks hi hrunning ((parameters_running ..).trans hrunning)
      | stop close_position => simp [check, hrequest] at h
  | price i initial_price =>
      cases hi : s.calls i <;> cases initial_price <;> simp [step, hi] at h
      · subst h
        exact .proceeds (t := s.shared.trader) (by simp [hi, Phase.checked, Phase.starting]) rfl
          (.inr rfl)
      · subst h
        exact .proceeds (by simp [hi, Phase.checked, Phase.starting]) rfl (.inl rfl)
  | summary i =>
      cases hi : s.calls i <;> simp [step, hi] at h
      subst h
      exact .proceeds (t := s.shared.trader) (by simp [hi, Phase.checked, Phase.starting]) rfl
        (.inl rfl)
  | plan i strategy_plan =>
      cases hi : s.calls i <;> simp [step, hi] at h
      subst h
      exact .proceeds (by simp [hi, Phase.checked, Phase.starting]) rfl (.inl rfl)
  | candles i candles =>
      cases hi : s.calls i <;> simp [step, hi] at h
      subst h
      exact .creates (by simp [hi, Phase.checked, Phase.starting]) rfl rfl rfl
  | tick i input =>
      cases hi : s.calls i with
      | looping loop =>
          cases loop with
          | top tick_count =>
              have hlive : (s.calls i).live = true := by simp [hi, Phase.live]
              simp only [step, hi] at h
              split_ifs at h with hrunning
              · cases h
                exact .loops hlive
                  ((enacted_running _).trans (trading_loop_decided env _ _ input).running)
              · cases h
                exact .ends hlive (by simpa using hrunning)
          | _ => simp [step, hi] at h
      | _ => simp [step, hi] at h
  | answer i input =>
      cases hi : s.calls i with
      | looping loop =>
          cases loop with
          | checking tick_count price resp =>
              simp only [step, hi, Option.some.injEq] at h
              subst h
              exact .loops (by simp [hi, Phase.live])
                ((enacted_running _).trans (supervisor_pass_decided ..).running)
          | _ => simp [step, hi] at h
      | _ => simp [step, hi] at h
  | close i final_price =>
      cases hi : s.calls i with
      | stopping close_position loop_task =>
          by_cases hended : loop_ended s loop_task = true
          · simp only [step, hi, hended, if_true, Option.some.injEq] at h
            subst h
            have hwaited : ∀ c j, s.calls i = .stopping c (some j) → s.calls j = .ended := by
              intro c j hj
              rw [hi] at hj
              cases hj
              cases hended' : s.calls j <;> simp [loop_ended, hended'] at hended
              rfl
            have hquiet : (s.calls i).starting = false ∧ (s.calls i).live = false := by
              simp [hi, Phase.starting, Phase.live]
            refine .resumes hquiet hwaited (finish_stop_running ..) rfl rfl ?_
            split_ifs
            · exact .inl rfl
            · exact .inr rfl
          · simp [step, hi, hended] at h
      | _ => simp [step, hi] at h
  | unlisten i =>
      cases hi : s.calls i <;> simp [step, hi] at h
      subst h
      exact .resumes (by simp [hi, Phase.starting, Phase.live]) (by simp [hi]) rfl rfl rfl (.inr rfl)

section Preservation

variable {i : ι} {sh : Shared ι} {p : Phase ι}

/-- A request or loop that ends, a start that is still to check, or a stop. -/
theorem Kept.leave (hs : Kept s) (hp : p.checked = false ∧ p.live = false)
    (hrunning : s.shared.trader.running = false → sh.trader.running = false)
    (htask : sh.loop_task = s.shared.loop_task)
    (hawaited : ∀ j, j ≠ i → (s.calls j).live = true → sh.trader.running = false →
      ∃ k close_position, ((s.write sh).set i p).calls k = .stopping close_position (some j))
    (hstopped : sh.last_is_stop = true → sh.trader.running = false ∧ p.starting = false ∧
      ∀ j, (s.calls j).starting = true → j = i) :
    Kept ((s.write sh).set i p) where
  alone := by
    intro j hj
    rcases (s.write sh).set_cases i j p with ⟨rfl, heq⟩ | ⟨-, heq⟩
    · rw [heq, hp.1] at hj
      cases hj
    · rw [heq] at hj
      obtain ⟨hfalse, hothers⟩ := hs.alone j hj
      refine ⟨hrunning hfalse, fun k => ?_⟩
      rcases (s.write sh).set_cases i k p with ⟨rfl, heq'⟩ | ⟨-, heq'⟩
      · rw [heq']
        exact ⟨hp.2, fun _ => hp.1⟩
      · rw [heq']
        exact hothers k
  task := by
    intro j hj
    rcases (s.write sh).set_cases i j p with ⟨rfl, heq⟩ | ⟨-, heq⟩
    · rw [heq, hp.2] at hj
      cases hj
    · rw [heq] at hj
      exact htask.trans (hs.task j hj)
  awaited := by
    intro j hj hfalse
    rcases (s.write sh).set_cases i j p with ⟨rfl, heq⟩ | ⟨hne, heq⟩
    · rw [heq, hp.2] at hj
      cases hj
    · rw [heq] at hj
      exact hawaited j hne hj hfalse
  stopped := by
    intro hlast
    obtain ⟨hfalse, hstarting, honly⟩ := hstopped hlast
    refine ⟨hfalse, System.forall_set (P := fun _ (p : Phase ι) => p.starting = false)
      hstarting fun j hj => ?_⟩
    by_contra hother
    exact hj (honly j (by simpa using hother))

/-- The loops that some stop waits for stay so when another request moves on. -/
theorem Kept.awaited_set (hs : Kept s) (hrunning : sh.trader.running = s.shared.trader.running)
    (hwaited : ∀ j close_position, s.calls i = .stopping close_position (some j) →
      (s.calls j).live = false) (j : ι) (hj : (s.calls j).live = true)
    (hfalse : sh.trader.running = false) :
    ∃ k close_position, ((s.write sh).set i p).calls k = .stopping close_position (some j) := by
  obtain ⟨k, close_position, hk⟩ := hs.awaited j hj (hrunning.symm.trans hfalse)
  refine ⟨k, close_position, ?_⟩
  rw [System.set_of_ne]
  · exact hk
  · rintro rfl
    exact absurd hj (by simp [hwaited j close_position hk])

theorem Kept.quiet (hs : Kept s) (hp : p.starting = false ∧ p.live = false)
    (hrunning : sh.trader.running = s.shared.trader.running)
    (htask : sh.loop_task = s.shared.loop_task)
    (hlast : sh.last_is_stop = s.shared.last_is_stop)
    (hwaited : ∀ j close_position, s.calls i = .stopping close_position (some j) →
      (s.calls j).live = false) : Kept ((s.write sh).set i p) := by
  have hchecked : p.checked = false := by
    by_contra hchecked
    rw [Phase.starting_of_checked (by simpa using hchecked)] at hp
    cases hp.1
  refine hs.leave ⟨hchecked, hp.2⟩ hrunning.trans htask
    (fun j _ => hs.awaited_set hrunning hwaited j) ?_
  intro hstop
  obtain ⟨hfalse, hstarting⟩ := hs.stopped (hlast.symm.trans hstop)
  refine ⟨hrunning.trans hfalse, hp.1, fun j hj => ?_⟩
  rw [hstarting j] at hj
  cases hj

/-- A start that has found the engine not running goes on alone. -/
theorem Kept.check (hs : Kept s) (hi : (s.calls i).starting = true)
    (hrunning : sh.trader.running = false)
    (hlast : sh.last_is_stop = s.shared.last_is_stop)
    (hothers : ∀ j, j ≠ i → (s.calls j).checked = false ∧ (s.calls j).live = false)
    (hp : p.checked = true) : Kept ((s.write sh).set i p) := by
  have hlive : ∀ j, (((s.write sh).set i p).calls j).live = false :=
    System.forall_set (P := fun _ (p : Phase ι) => p.live = false)
      (Phase.not_live_of_starting (Phase.starting_of_checked hp)) fun j hj => (hothers j hj).2
  have honly : ∀ j, j ≠ i → (((s.write sh).set i p).calls j).checked = false := by
    intro j hj
    rw [System.set_of_ne _ _ hj]
    exact (hothers j hj).1
  constructor
  · intro j hj
    have hji : j = i := by
      by_contra hne
      rw [honly j hne] at hj
      cases hj
    subst hji
    exact ⟨hrunning, fun k => ⟨hlive k, honly k⟩⟩
  · intro j hj
    rw [hlive j] at hj
    cases hj
  · intro j hj
    rw [hlive j] at hj
    cases hj
  · intro hstop
    have hstarting := (hs.stopped (hlast.symm.trans hstop)).2 i
    rw [hi] at hstarting
    cases hstarting

/-- No start is on its way past its check when a loop takes its turn. -/
theorem Kept.looping (hp : p.checked = false) (hothers : ∀ j, j ≠ i → (s.calls j).checked = false)
    (htask : ∀ j, (((s.write sh).set i p).calls j).live = true → sh.loop_task = some j)
    (hawaited : ∀ j, (((s.write sh).set i p).calls j).live = true →
      ((s.write sh).set i p).shared.trader.running = false →
      ∃ k close_position, ((s.write sh).set i p).calls k = .stopping close_position (some j))
    (hstopped : sh.last_is_stop = true → sh.trader.running = false ∧
      ∀ j, (((s.write sh).set i p).calls j).starting = false) : Kept ((s.write sh).set i p) where
  alone := by
    intro j hj
    have hnone : (((s.write sh).set i p).calls j).checked = false :=
      System.forall_set (P := fun _ (p : Phase ι) => p.checked = false) hp hothers j
    rw [hnone] at hj
    cases hj
  task := htask
  awaited := hawaited
  stopped := hstopped

end Preservation

theorem Move.kept (h : Move requests s e s') (hs : Kept s) (he : Separate requests s e) :
    Kept s' := by
  cases h with
  | @schedules i sh hi htrader htask hlast =>
      have hrunning := congrArg Trader.running htrader
      exact hs.leave ⟨rfl, rfl⟩ hrunning.trans htask
        (fun j _ => hs.awaited_set hrunning (by simp [hi]) j) (by simp [hlast])
  | @stops i sh close_position p hi hrequest hrunning htask hp =>
      have hnone := he close_position hrequest
      have hleft : p.checked = false ∧ p.live = false ∧ p.starting = false := by
        rcases hp with ⟨-, rfl⟩ | ⟨-, rfl⟩ <;> exact ⟨rfl, rfl, rfl⟩
      refine hs.leave ⟨hleft.1, hleft.2.1⟩ (fun _ => hrunning) htask ?_ fun _ =>
        ⟨hrunning, hleft.2.2, fun j hj => absurd hj (by simp [hnone j])⟩
      intro j _ hj _
      rcases hp with ⟨-, rfl⟩ | ⟨hfalse, rfl⟩
      · rw [hs.task j hj]
        exact ⟨i, close_position, System.set_self _ _ _⟩
      · exact hs.awaited_set (hrunning.trans hfalse.symm) (by simp [hi]) j hj hrunning
  | @refuses i _ hi hrunning =>
      have hwaited : ∀ j c, s.calls i = .stopping c (some j) → (s.calls j).live = false := by
        simp [hi]
      exact @Kept.quiet _ _ s i s.shared _ hs ⟨rfl, rfl⟩ rfl rfl rfl hwaited
  | checks hi hrunning ht =>
      exact hs.check (by simp [hi, Phase.starting]) ht rfl (he hrunning) rfl
  | @proceeds i _ t p hi ht hp =>
      obtain ⟨hfalse, hothers⟩ := hs.alone i hi
      rcases hp with hp | rfl
      · exact hs.check (Phase.starting_of_checked hi) (ht.trans hfalse) rfl
          (fun j hj => ⟨(hothers j).2 hj, (hothers j).1⟩) hp
      · exact hs.quiet ⟨rfl, rfl⟩ ht rfl rfl fun j _ _ => (hothers j).1
  | @creates i _ sh loop hi hrunning htask hlast =>
      obtain ⟨-, hothers⟩ := hs.alone i hi
      refine Kept.looping rfl (fun j hj => (hothers j).2 hj) ?_ ?_ ?_
      · intro j hj
        rcases (s.write sh).set_cases i j (.looping loop) with ⟨rfl, -⟩ | ⟨-, heq⟩
        · exact htask
        · rw [heq, System.write_calls, (hothers j).1] at hj
          cases hj
      · intro j _ hfalse
        rw [System.set_shared, System.write_shared, hrunning] at hfalse
        cases hfalse
      · intro hstop
        have hstarting := (hs.stopped (hlast.symm.trans hstop)).2 i
        rw [Phase.starting_of_checked hi] at hstarting
        cases hstarting
  | @loops i _ t loop hi ht =>
      have hfrom : ∀ j, ((s.update t i (.looping loop)).calls j).live = true →
          (s.calls j).live = true := by
        intro j hj
        rcases (s.write { s.shared with trader := t }).set_cases i j (.looping loop) with
          ⟨rfl, -⟩ | ⟨-, heq⟩
        · exact hi
        · exact heq ▸ hj
      refine Kept.looping rfl ?_ ?_ ?_ ?_
      · intro j _
        by_contra hchecked
        obtain ⟨-, hothers⟩ := hs.alone j (by simpa using hchecked)
        exact absurd hi (by simp [(hothers i).1])
      · intro j hj
        exact hs.task j (hfrom j hj)
      · intro j hj hfalse
        refine hs.awaited_set ht ?_ j (hfrom j hj) hfalse
        intro k close_position hstop
        rw [hstop] at hi
        cases hi
      · intro hstop
        obtain ⟨hfalse, hstarting⟩ := hs.stopped hstop
        exact ⟨ht.trans hfalse, System.forall_set (P := fun _ (p : Phase ι) => p.starting = false)
          rfl fun j _ => hstarting j⟩
  | @ends i _ hi hrunning =>
      have hwaited : ∀ j c, s.calls i = .stopping c (some j) → (s.calls j).live = false := by
        intro j c hstop
        rw [hstop] at hi
        cases hi
      exact @Kept.quiet _ _ s i s.shared _ hs ⟨rfl, rfl⟩ rfl rfl rfl hwaited
  | @resumes i _ sh p hi hwaited ht htask hlast hp =>
      have hleft : p.starting = false ∧ p.live = false := by
        rcases hp with rfl | rfl <;> exact ⟨rfl, rfl⟩
      refine hs.quiet hleft ht htask hlast ?_
      intro j close_position hstop
      rw [hwaited close_position j hstop]
      rfl

/-- In every interleaving whose requests stay separate there is one loop at most, and
no stop is lost. -/
theorem one_loop_no_lost_stop {agent_id : PythonText.Text} {es : List (Step ι)} {t : State ι}
    (hrun : run (step env hub_url requests) (initial agent_id) es = some t)
    (hseparate : AllSteps (step env hub_url requests) (Separate requests) (initial agent_id) es) :
    OneLoop t ∧ StopKept t := by
  have hkept : Kept t := run_invariant_of_allSteps (fun _ _ _ hs he h => (step_move h).kept hs he)
    hrun hseparate (initial_kept agent_id)
  exact ⟨hkept.oneLoop, hkept.stopKept⟩

instance (requests : Fin 3 → Request) (s : State (Fin 3)) (e : Step (Fin 3)) :
    Decidable (Separate requests s e) :=
  match e with
  | .issue i =>
      inferInstanceAs (Decidable (∀ close_position, requests i = .stop close_position →
        ∀ j, (s.calls j).starting = false))
  | .check i _ =>
      inferInstanceAs (Decidable (s.shared.trader.running = false →
        ∀ j, j ≠ i → (s.calls j).checked = false ∧ (s.calls j).live = false))
  | .price .. => .isTrue trivial
  | .summary _ => .isTrue trivial
  | .plan .. => .isTrue trivial
  | .candles .. => .isTrue trivial
  | .tick .. => .isTrue trivial
  | .answer .. => .isTrue trivial
  | .close .. => .isTrue trivial
  | .unlisten _ => .isTrue trivial

/-- Two starts and a stop. -/
def demo_requests : Fin 3 → Request
  | 2 => .stop true
  | _ => .start (demo_request false)

def start_stages (i : Fin 3) : List (Step (Fin 3)) :=
  [.price i (some 100), .summary i, .plan i (demo_answers false).strategy_plan, .candles i none]

def separate_requests : List (Step (Fin 3)) :=
  [.issue 0, .check 0 false] ++ start_stages 0 ++
    [.tick 0 demo_tick, .issue 2, .tick 0 demo_tick, .close 2 none]

theorem one_loop_separate :
    ∃ t, run (step demo_env false demo_requests) (initial "a1".toList) separate_requests = some t ∧
      OneLoop t ∧ StopKept t := by
  obtain ⟨t, hrun⟩ : ∃ t, run (step demo_env false demo_requests) (initial "a1".toList)
      separate_requests = some t := Option.isSome_iff_exists.mp (by decide +kernel)
  exact ⟨t, hrun, one_loop_no_lost_stop hrun (by decide +kernel)⟩

/-- Both starts find the engine not running, and so does the stop. -/
def overlapping_requests : List (Step (Fin 3)) :=
  [.issue 0, .check 0 false, .issue 1, .check 1 false, .issue 2] ++ start_stages 0 ++
    start_stages 1

theorem two_loops_after_stop :
    ∃ t, run (step demo_env false demo_requests) (initial []) overlapping_requests = some t ∧
      ¬ OneLoop t ∧ ¬ StopKept t := by
  have hend : (run (step demo_env false demo_requests) (initial []) overlapping_requests).map
      (fun t => (t.shared.last_is_stop, (t.calls 0).live, (t.calls 1).live,
        decide (∀ i, (t.calls i).finished = true))) = some (true, true, true, true) := by
    decide
  obtain ⟨t, hrun, ht⟩ := Option.map_eq_some_iff.mp hend
  simp only [Prod.mk.injEq, decide_eq_true_eq] at ht
  obtain ⟨hstop, hlive, hlive', hfinished⟩ := ht
  refine ⟨t, hrun, ?_, ?_⟩
  · intro hone
    exact absurd (hone 0 1 hlive hlive') (by decide)
  · intro hkept
    rw [hkept hstop hfinished 0] at hlive
    cases hlive

end ArticTrader.EngineLifecycle
