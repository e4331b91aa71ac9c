import Mathlib.Data.List.MinMax
import Mathlib.Algebra.Order.Floor.Ring
import Mathlib.Data.Rat.Floor
import ArticTrader.BacktestEngine
import ArticTrader.Datetimes
import ArticTrader.LabelledRuns

/-!
The route of the user server that validates and backtests a strategy before it
is published, and the table in which it keeps the candles of earlier requests.
-/

namespace ArticTrader.BacktestDatasets

open ArticTrader.BacktestEngine (Candle Value)
open ArticTrader.Datetimes
open ArticTrader.LabelledRuns
open ArticTrader.PythonNumbers (PyError)
open ArticTrader.PythonText (Text)

def DEFAULT_DAYS : ℤ := 30

def DEFAULT_GRANULARITY : Text := "1h".toList

def EQUITY_SAMPLE_POINTS : ℕ := 100

/-- The keys of `_GRANULARITY_TO_TIMEFRAME`. -/
def GRANULARITIES : List Text :=
  ["1m", "5m", "15m", "30m", "1h", "2h", "4h", "1d", "1day"].map String.toList

def BOUND_TOLERANCE : ℕ := DAY

/-- A candle as the market client returns it; an attribute may be missing. -/
structure RawCandle where
  timestamp : Datetime ⊕ Value
  open_ : Option ℚ
  high : Option ℚ
  low : Option ℚ
  close : Option ℚ
  volume : Option ℚ

def candle_to_dict (c : RawCandle) : Candle where
  timestamp :=
    match c.timestamp with
    | .inl t => some (.str t.isoformat)
    | .inr v => some v
  open_ := some (.num (c.open_.getD 0))
  high := some (.num (c.high.getD 0))
  low := some (.num (c.low.getD 0))
  close := some (.num (c.close.getD 0))
  volume := some (.num (c.volume.getD 0))

structure BacktestCandles where
  symbol : Text
  granularity : Text
  period_start : Datetime
  period_end : Datetime
  candles_json : List Candle
  cached_at : Datetime
  deriving DecidableEq, Repr

/-- What a database session sees: the rows that are committed, and its own. -/
structure Session where
  committed : List BacktestCandles
  flushed : List BacktestCandles

def Session.rows (session : Session) : List BacktestCandles :=
  session.committed ++ session.flushed

/-- `uq_backtest_candles_window` -/
def same_window (row row' : BacktestCandles) : Bool :=
  row.symbol = row'.symbol && row.granularity = row'.granularity &&
    row.period_start = row'.period_start && row.period_end = row'.period_end

def Session.flush (session : Session) (row : BacktestCandles) : Option Session :=
  if session.rows.any (same_window row) then none
  else some { session with flushed := session.flushed ++ [row] }

/-- The end of `get_session`: what is not committed is rolled back. -/
def Session.close (session : Session) : List BacktestCandles := session.committed

inductive Failure where
  | http (status : ℕ) (kind message : Text)
  | unprocessable (fields : List Text)
  | overflow
  | integrity
  | raised (e : PyError)
  deriving DecidableEq, Repr

structure Env where
  sha256_hex : Text → Text
  fetch : Text → Text → Datetime → Datetime → Except PyError (List RawCandle)

/-- The candles, with the window of the row that holds them and whether they
were fetched. -/
structure Dataset where
  candles : List Candle
  period_start : Datetime
  period_end : Datetime
  fetched : Bool
  deriving DecidableEq, Repr

/-- What the bounds of a row are compared with. -/
structure Bounds where
  start_low : Datetime
  start_high : Datetime
  end_low : Datetime
  end_high : Datetime

def bounds (period_start period_end : Datetime) : Option Bounds := do
  let start_low ← period_start.minus BOUND_TOLERANCE
  let start_high ← period_start.plus BOUND_TOLERANCE
  let end_low ← period_end.minus BOUND_TOLERANCE
  let end_high ← period_end.plus BOUND_TOLERANCE
  return { start_low, start_high, end_low, end_high }

def Bounds.admits (b : Bounds) (row : BacktestCandles) : Bool :=
  b.start_low.micros ≤ row.period_start.micros &&
    row.period_start.micros ≤ b.start_high.micros &&
    b.end_low.micros ≤ row.period_end.micros && row.period_end.micros ≤ b.end_high.micros

/-- The newest row that the lookup finds. -/
def Session.lookup (session : Session) (symbol granularity : Text) (b : Bounds) :
    Option BacktestCandles :=
  (session.rows.filter fun row =>
    row.symbol = symbol && row.granularity = granularity && b.admits row).argmax
      fun row => row.cached_at.micros

def unsupported (granularity : Text) : Text := "unsupported granularity: ".toList ++ granularity

/-- The fetcher's own `ValueError` is handled as that of the granularity check. -/
def bad_dataset (message : Text) : Failure := .http 400 "bad_dataset".toList message

variable (env : Env)

def fetch_candles (session : Session) (symbol granularity : Text)
    (period_start period_end cached_at : Datetime) : Session × Except Failure Dataset :=
  match env.fetch symbol granularity period_start period_end with
  | .error .ValueError => (session, .error (bad_dataset []))
  | .error e => (session, .error (.raised e))
  | .ok raw =>
      let candles_json := raw.map candle_to_dict
      match session.flush
          { symbol, granularity, period_start, period_end, candles_json, cached_at } with
      | none => (session, .error .integrity)
      | some session' =>
          (session', .ok { candles := candles_json, period_start, period_end, fetched := true })

def get_candles (session : Session) (symbol : Text) (days : ℕ) (granularity : Text)
    (now cached_at : Datetime) : Session × Except Failure Dataset :=
  if granularity ∉ GRANULARITIES then
    (session, .error (bad_dataset (unsupported granularity)))
  else
    match now.minus (DAY * days) with
    | none => (session, .error .overflow)
    | some start =>
        match bounds start now with
        | none => (session, .error .overflow)
        | some b =>
            match session.lookup symbol granularity b with
            | some row =>
                (session, .ok
                  { candles := row.candles_json, period_start := row.period_start
                    period_end := row.period_end, fetched := false })
            | none => fetch_candles env session symbol granularity start now cached_at

structure ValidateAndBacktestBody where
  code : Text
  name : Text
  symbol : Text
  days : ℤ
  granularity : Text
  deriving DecidableEq, Repr

def field_error (field : Text) (valid : Bool) : List Text := if valid then [] else [field]

/-- The fields for which a body is refused. -/
def ValidateAndBacktestBody.errors (body : ValidateAndBacktestBody) : List Text :=
  field_error "code".toList (1 ≤ body.code.length) ++
    field_error "name".toList (1 ≤ body.name.length && body.name.length ≤ 64) ++
    field_error "days".toList (1 ≤ body.days && body.days ≤ 365)

inductive Violation where
  | ast_violation
  | runtime_violation
  | sandbox_error
  deriving DecidableEq, Repr

def Violation.kind : Violation → Text
  | .ast_violation => "ast_violation".toList
  | .runtime_violation => "runtime_violation".toList
  | .sandbox_error => "sandbox_error".toList

structure Result where
  sharpe : ℚ
  max_drawdown : ℚ
  total_return : ℚ
  win_rate : ℚ
  n_trades : ℕ
  final_equity : ℚ
  equity_curve : List ℚ

/-- A request, the refusal of its code if it is refused, the route's clock and
the database's, and what the engine makes of the candles. -/
structure Request where
  body : ValidateAndBacktestBody
  violation : Option (Violation × Text)
  now : Datetime
  cached_at : Datetime
  backtest : List Candle → Except PyError Result

structure ValidateAndBacktestOut where
  strategy_hash : Text
  dataset_hash : Text
  sharpe_bps : ℤ
  max_dd_bps : ℤ
  total_return_bps : ℤ
  win_rate_bps : ℤ
  n_trades : ℤ
  final_equity : ℚ
  equity_curve_sample : List ℚ
  deriving DecidableEq, Repr

def strategy_hash (code : Text) : Text := env.sha256_hex code

def dataset_payload (symbol : Text) (period_start period_end : Datetime) (granularity : Text) :
    Text :=
  symbol ++ '|' :: period_start.isoformat ++ '|' :: period_end.isoformat ++ '|' :: granularity

def dataset_hash (symbol : Text) (period_start period_end : Datetime) (granularity : Text) :
    Text :=
  env.sha256_hex (dataset_payload symbol period_start period_end granularity)

/-- `round(v)`, where a half goes to the even neighbour. -/
def round (v : ℚ) : ℤ :=
  let rest := v - ⌊v⌋
  if rest < 1 / 2 ∨ rest = 1 / 2 ∧ ⌊v⌋ % 2 = 0 then ⌊v⌋ else ⌊v⌋ + 1

def clamp_int (v : ℚ) (lo hi : ℤ) : ℤ := max lo (min hi (round v))

/-- `curve[::step]` -/
def every (step : ℕ) (curve : List ℚ) : List ℚ :=
  (List.range curve.length).filterMap fun i => if i % step = 0 then curve[i]? else none

def sample_equity (curve : List ℚ) : List ℚ :=
  if curve.length ≤ EQUITY_SAMPLE_POINTS then curve
  else
    let sampled := every (max 1 (curve.length / EQUITY_SAMPLE_POINTS)) curve
    let sampled :=
      if sampled.getLast? ≠ curve.getLast? then sampled ++ curve.getLast?.toList else sampled
    sampled.take EQUITY_SAMPLE_POINTS

def response (body : ValidateAndBacktestBody) (period_start period_end : Datetime)
    (result : Result) : ValidateAndBacktestOut where
  strategy_hash := strategy_hash env body.code
  dataset_hash := dataset_hash env body.symbol period_start period_end body.granularity
  sharpe_bps := clamp_int (result.sharpe * 100) (-(2 ^ 31 - 1)) (2 ^ 31 - 1)
  max_dd_bps := clamp_int (result.max_drawdown * 10000) 0 10000
  total_return_bps := clamp_int (result.total_return * 10000) (-(2 ^ 31 - 1)) (2 ^ 31 - 1)
  win_rate_bps := clamp_int (result.win_rate * 10000) 0 10000
  n_trades := clamp_int result.n_trades 0 (2 ^ 32 - 1)
  final_equity := result.final_equity
  equity_curve_sample := sample_equity result.equity_curve

/-- What a request got for candles, if `get_candles` was called and returned, and
its response. -/
structure Answer where
  request : Request
  dataset : Option Dataset
  out : Except Failure ValidateAndBacktestOut

/-- The rest of the route, where the window is computed once more. -/
def evaluate (r : Request) (dataset : Dataset) : Except Failure ValidateAndBacktestOut :=
  match r.backtest dataset.candles with
  | .error e => .error (.raised e)
  | .ok result =>
      match r.now.minus (DAY * r.body.days.toNat) with
      | none => .error .overflow
      | some period_start => .ok (response env r.body period_start r.now result)

def validate_and_backtest (session : Session) (r : Request) : Session × Answer :=
  if r.body.errors ≠ [] then (session, ⟨r, none, .error (.unprocessable r.body.errors)⟩)
  else
    match r.violation with
    | some (violation, message) =>
        (session, ⟨r, none, .error (.http 400 violation.kind message)⟩)
    | none =>
        match get_candles env session r.body.symbol r.body.days.toNat r.body.granularity r.now
            r.cached_at with
        | (session', .error e) => (session', ⟨r, none, .error e⟩)
        | (session', .ok dataset) => (session', ⟨r, some dataset, evaluate env r dataset⟩)

/-- A request in a session of its own. -/
def serve (table : List BacktestCandles) (r : Request) : List BacktestCandles × Answer :=
  let served := validate_and_backtest env ⟨table, []⟩ r
  (served.1.close, served.2)

/-- What requests one after another are answered, from the empty table on. -/
def answers (requests : List Request) : List Answer :=
  record (fun table r => (serve env table r).1) (fun table r => (serve env table r).2) []
    requests

end ArticTrader.BacktestDatasets
