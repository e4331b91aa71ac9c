import ArticTrader.BacktestEngine
import ArticTrader.SandboxValidator

/-!
The runner of user-written strategies: one thread loads them, calls `on_tick`
under an alarm and replays them in backtests. The user's code takes its steps
between those of the runner, and the alarm may go off between any two of them.
-/

namespace ArticTrader.StrategyRunner

open ArticTrader.PythonNumbers (PyError)
open ArticTrader.PythonText (Text)
open ArticTrader.TreeWalk
open ArticTrader.PythonGrammar
open ArticTrader.SandboxValidator
open ArticTrader.BacktestEngine

def VALID_ACTIONS : List Text :=
  ["OPEN_LONG".toList, "OPEN_SHORT".toList, "CLOSE".toList, "HOLD".toList]

def MAX_ENTRIES : ℕ := 256

def TIMEOUT_S : ℕ := 2

/-- The statements that take over when an exception leaves their body. -/
def HANDLER_NODES : List NodeType := [.Try, .TryStar, .With, .AsyncWith]

structure Item where
  value : Value
  type_name : Text
  repr : Text
  hashable : Bool

def Item.None : Item := ⟨.none, "NoneType".toList, "None".toList, true⟩

def Item.zero : Item := ⟨.num 0, "int".toList, "0".toList, true⟩

def Item.empty_str : Item := ⟨.str [], "str".toList, "''".toList, true⟩

/-- What `on_tick` returns; an entry is `none` where the key is missing. -/
inductive Reply where
  | dict (action size reason : Option Item)
  | object (type_name : Text)

inductive Raised where
  | TimeoutViolation
  | other (type_name text : Text)
  deriving DecidableEq, Repr

def timeout_text : Text := "strategy on_tick exceeded wall-clock budget".toList

/-- `f"{type(exc).__name__}: {exc}"` -/
def Raised.described : Raised → Text
  | .TimeoutViolation => "TimeoutViolation: ".toList ++ timeout_text
  | .other type_name text => type_name ++ ": ".toList ++ text

inductive RunnerError where
  | ASTViolation (violation : SandboxValidator.ASTViolation)
  | RuntimeViolation (message : Text)
  | TimeoutViolation
  | TypeError (message : Text)
  deriving DecidableEq, Repr

structure StrategyHandle (ω : Type) where
  on_tick : ω
  on_init : Option ω
  on_close : Option ω
  get_params : Option ω
  code_hash : Text

structure TickResult where
  action : Text
  size : ℚ
  reason : Text
  deriving DecidableEq, Repr

inductive Progress (π ω : Type) where
  | running (p : π)
  | ended (p : π) (result : Except Raised ω)

/-- What the runner takes from the language: `η` are the heaps, `π` the points
between two steps of running user code, `ω` the objects. The machine takes at
most `steps_per_second` steps in a second. -/
structure Python (η π ω : Type) where
  parse : Text → Option Ast
  parse_float : Text → Option ℚ
  sha256 : Text → Text
  steps_per_second : ℕ
  module_body : η → Ast → π
  call_on_tick : η → ω → Ctx → π
  step : π → Progress π ω
  /-- the module whose code stands at the point -/
  tree : π → Ast
  /-- the statements around the point that an exception reaches, innermost first -/
  handlers : π → List Ast
  handlers_enclose : ∀ p, ∀ a ∈ handlers p, Within iter_child_nodes (tree p) a ∧
    ∃ type fields, a = .node type fields ∧ type ∈ HANDLER_NODES
  enter_handler : π → π
  heap : π → η
  namespace_get : π → Text → Option ω
  callable : ω → Bool
  reply : π → ω → Reply
  touch : π → ℕ → Candle → Candle
  tamper : π → Position → Position

inductive Alarm where
  | off
  | armed (steps : ℕ)
  deriving DecidableEq, Repr

def Alarm.is_armed : Alarm → Bool
  | .off => false
  | .armed _ => true

def Alarm.left : Alarm → ℕ
  | .off => 0
  | .armed steps => steps

def Alarm.elapse : Alarm → Option Alarm
  | .off => some .off
  | .armed 0 => none
  | .armed (steps + 1) => some (.armed steps)

/-- A bar of a backtest whose call of the strategy is still open. -/
structure Bar (η : Type) where
  st : State η
  i : ℕ
  price : ℚ
  book : Book
  rest : List Phase

inductive Frame (η ω : Type) where
  | load (source : Text) (cached : Bool)
  | tick
  | bar (handle : StrategyHandle ω) (fee_bps : ℚ) (open_bar : Bar η)

inductive Outcome (ω : Type) where
  | loaded (result : Except RunnerError (StrategyHandle ω))
  | ticked (result : Except RunnerError TickResult)
  | backtested (result : Except PyError Result)

inductive Activity (η π ω : Type) where
  | idle (outcome : Option (Outcome ω))
  | user (p : π) (frame : Frame η ω)
  /-- the user's code has ended and the runner has not cleaned up yet -/
  | finishing (p : π) (result : Except Raised ω) (frame : Frame η ω)

/-- `fired` says that an alarm has gone off in the call that is running. -/
structure Thread (η π ω : Type) where
  cache : List (Text × StrategyHandle ω)
  alarm : Alarm
  fired : Bool
  heap : η
  activity : Activity η π ω

inductive Entry (ω : Type) where
  | load_strategy (source : Text)
  | get_or_load (source : Text)
  | tick (handle : StrategyHandle ω) (ctx : Ctx) (timeout_s : ℕ)
  | backtest (handle : StrategyHandle ω) (candles : List Candle) (initial_usdt fee_bps : ℚ)

inductive Label (ω : Type) where
  | call (entry : Entry ω)
  | user_step
  | alarm
  | finish

variable {η π ω : Type}

def move_to_end (cache : List (Text × StrategyHandle ω)) (key : Text)
    (handle : StrategyHandle ω) : List (Text × StrategyHandle ω) :=
  cache.filter (·.1 ≠ key) ++ [(key, handle)]

def cache_get (cache : List (Text × StrategyHandle ω)) (key : Text) :
    Option (StrategyHandle ω) :=
  (cache.find? (·.1 = key)).map (·.2)

def cache_put (cache : List (Text × StrategyHandle ω)) (key : Text)
    (handle : StrategyHandle ω) : List (Text × StrategyHandle ω) :=
  let cache := move_to_end cache key handle
  cache.drop (cache.length - MAX_ENTRIES)

def check_reason (action : Text) (size : ℚ) (reason : Item) : Except RunnerError TickResult :=
  match reason.value with
  | .str reason => .ok { action, size, reason }
  | _ => .error (.RuntimeViolation
      ("invalid reason; must be str, got ".toList ++ reason.type_name))

def check_size (action : Text) (size reason : Item) : Except RunnerError TickResult :=
  let invalid : Except RunnerError TickResult := .error (.RuntimeViolation
    ("invalid size ".toList ++ size.repr ++ "; must be number in [0, 1]".toList))
  match size.value with
  | .num q => if 0 ≤ q ∧ q ≤ 1 then check_reason action q reason else invalid
  | _ => invalid

def check_entries (action size reason : Item) : Except RunnerError TickResult :=
  let invalid : Except RunnerError TickResult := .error (.RuntimeViolation
    ("invalid action ".toList ++ action.repr ++
      "; must be one of ['CLOSE', 'HOLD', 'OPEN_LONG', 'OPEN_SHORT']".toList))
  if action.hashable = false then
    .error (.TypeError ("unhashable type: '".toList ++ action.type_name ++ "'".toList))
  else
    match action.value with
    | .str name => if VALID_ACTIONS.contains name then check_size name size reason else invalid
    | _ => invalid

def check_reply : Reply → Except RunnerError TickResult
  | .object type_name =>
      .error (.RuntimeViolation ("on_tick must return dict, got ".toList ++ type_name))
  | .dict action size reason =>
      check_entries (action.getD .None) (size.getD .zero) (reason.getD .empty_str)

/-- The dict as the engine reads it: `tick` drops the levels. -/
def TickResult.signal (result : TickResult) : Signal where
  action := some (.str result.action)
  size := some (.num result.size)
  stop_loss := none
  take_profit := none

variable (py : Python η π ω)

def signal_alarm (seconds : ℕ) : Alarm :=
  if seconds = 0 then .off else .armed (seconds * py.steps_per_second)

def optional_function (p : π) (name : Text) : Option ω :=
  (py.namespace_get p name).filter fun f => py.callable f

def load_result (source : Text) (p : π) : Except Raised ω → Except RunnerError (StrategyHandle ω)
  | .error exc => .error (.RuntimeViolation ("load failed: ".toList ++ exc.described))
  | .ok _ =>
      match optional_function py p "on_tick".toList with
      | none => .error
          (.RuntimeViolation "strategy missing required `on_tick(ctx)` function".toList)
      | some on_tick => .ok
          { on_tick
            on_init := optional_function py p "on_init".toList
            on_close := optional_function py p "on_close".toList
            get_params := optional_function py p "get_params".toList
            code_hash := py.sha256 source }

def tick_result (p : π) : Except Raised ω → Except RunnerError TickResult
  | .error .TimeoutViolation => .error .TimeoutViolation
  | .error exc => .error (.RuntimeViolation ("on_tick raised: ".toList ++ exc.described))
  | .ok result => check_reply (py.reply p result)

/-- The engine up to its next call of the strategy, or to the end. -/
def next_call (fee_bps : ℚ) (st : State η) : List Phase → State η ⊕ Bar η
  | [] => .inl st
  | phase :: rest =>
      if st.raised.isSome then next_call fee_bps st rest
      else
        match phase with
        | .force_close => next_call fee_bps (force_close py.parse_float fee_bps st) rest
        | .bar i =>
            match st.candles[i]? with
            | none => next_call fee_bps st rest
            | some candle =>
                match before_tick py.parse_float candle st.book fee_bps with
                | .error e => next_call fee_bps (st.raise e) rest
                | .ok (price, book) => .inr { st, i, price, book, rest }

def Bar.answer (fee_bps : ℚ) (b : Bar η) (out : TickOutcome η) : State η :=
  (b.st.called b.i b.book out).settle py.parse_float fee_bps out.signal b.price

def Bar.ctx (b : Bar η) : Ctx := ⟨window b.st.candles b.i, b.book.position⟩

variable (s : Thread η π ω)

def Thread.resume (handle : StrategyHandle ω) (fee_bps : ℚ) :
    State η ⊕ Bar η → Thread η π ω
  | .inl st => { s with activity := .idle (some (.backtested st.result)) }
  | .inr b =>
      { s with
        alarm := signal_alarm py TIMEOUT_S
        activity := .user (py.call_on_tick s.heap handle.on_tick b.ctx) (.bar handle fee_bps b) }

def Thread.load (source : Text) (cached : Bool) : Thread η π ω :=
  match parse_and_validate py.parse source with
  | .error violation =>
      { s with activity := .idle (some (.loaded (.error (.ASTViolation violation)))) }
  | .ok tree => { s with activity := .user (py.module_body s.heap tree) (.load source cached) }

def Thread.get_or_load (source : Text) : Thread η π ω :=
  match cache_get s.cache (py.sha256 source) with
  | some handle =>
      { s with
        cache := move_to_end s.cache (py.sha256 source) handle
        activity := .idle (some (.loaded (.ok handle))) }
  | none => s.load py source true

def Thread.enter : Entry ω → Thread η π ω
  | .load_strategy source => s.load py source false
  | .get_or_load source => s.get_or_load py source
  | .tick handle ctx timeout_s =>
      { s with
        alarm := signal_alarm py timeout_s
        activity := .user (py.call_on_tick s.heap handle.on_tick ctx) .tick }
  | .backtest handle candles initial_usdt fee_bps =>
      s.resume py handle fee_bps
        (next_call py fee_bps (start candles initial_usdt s.heap) (phases candles.length))

/-- `load_strategy` after `exec`, and the end of `get_or_load`. -/
def Thread.finish_load (source : Text) (cached : Bool) (p : π) (result : Except Raised ω) :
    Thread η π ω :=
  let loaded := load_result py source p result
  { s with
    cache :=
      match cached, loaded with
      | true, .ok handle => cache_put s.cache (py.sha256 source) handle
      | _, _ => s.cache
    activity := .idle (some (.loaded loaded)) }

def Thread.finish (p : π) (result : Except Raised ω) : Frame η ω → Thread η π ω
  | .load source cached => { s with heap := py.heap p }.finish_load py source cached p result
  | .tick =>
      { s with
        alarm := .off
        heap := py.heap p
        activity := .idle (some (.ticked (tick_result py p result))) }
  | .bar handle fee_bps b =>
      let out : TickOutcome η :=
        { state := py.heap p
          touch := py.touch p
          tamper := py.tamper p
          signal := (tick_result py p result).toOption.map TickResult.signal }
      { s with alarm := .off, heap := py.heap p }.resume py handle fee_bps
        (next_call py fee_bps (b.answer py fee_bps out) b.rest)

def interrupted (p : π) (frame : Frame η ω) : Activity η π ω :=
  if py.handlers p = [] then .finishing p (.error .TimeoutViolation) frame
  else .user (py.enter_handler p) frame

def advanced (p : π) (frame : Frame η ω) : Activity η π ω :=
  match py.step p with
  | .running p => .user p frame
  | .ended p result => .finishing p result frame

def step (s : Thread η π ω) : Label ω → Option (Thread η π ω)
  | .call entry =>
      match s.activity with
      | .idle _ => some ({ s with fired := false }.enter py entry)
      | _ => none
  | .user_step =>
      match s.activity with
      | .user p frame =>
          s.alarm.elapse.map fun alarm => { s with alarm, activity := advanced py p frame }
      | _ => none
  | .alarm =>
      if s.alarm.is_armed then
        match s.activity with
        | .idle _ => none
        | .user p frame =>
            some { s with alarm := .off, fired := true, activity := interrupted py p frame }
        | .finishing p _ frame =>
            some { s with
              alarm := .off
              fired := true
              activity := .finishing p (.error .TimeoutViolation) frame }
      else none
  | .finish =>
      match s.activity with
      | .finishing p result frame => some (s.finish py p result frame)
      | _ => none

/-- The engine that waits for the strategy's answer and then goes on is the
engine that calls the strategy itself. -/
theorem foldl_advance (tick_fn : TickFn η) (fee_bps : ℚ) (st : State η) (phases : List Phase) :
    phases.foldl (advance py.parse_float tick_fn fee_bps) st =
      match next_call py fee_bps st phases with
      | .inl st' => st'
      | .inr b =>
          b.rest.foldl (advance py.parse_float tick_fn fee_bps)
            (b.answer py fee_bps (tick_fn b.st.tick_state b.ctx)) := by
  fun_induction next_call with
  | case1 => rfl
  | case2 st phase rest hraised ih =>
      have hstays : advance py.parse_float tick_fn fee_bps st phase = st := if_pos hraised
      rw [List.foldl_cons, hstays, ih]
  | case3 st rest hraised ih =>
      rw [List.foldl_cons, advance, if_neg hraised, ih]
  | case4 st rest hraised i hcandle ih =>
      rw [List.foldl_cons, advance, if_neg hraised]
      simp only [bar, hcandle, ih]
  | case5 st rest hraised i candle hcandle e hbefore ih =>
      rw [List.foldl_cons, advance, if_neg hraised]
      simp only [bar, hcandle, hbefore, ih]
  | case6 st rest hraised i candle hcandle price book hbefore =>
      rw [List.foldl_cons, advance, if_neg hraised]
      simp only [bar, hcandle, hbefore, Bar.answer, Bar.ctx]

end ArticTrader.StrategyRunner
