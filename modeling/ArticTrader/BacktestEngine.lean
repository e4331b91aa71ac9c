import Mathlib.Data.List.Basic
import ArticTrader.LabelledRuns
import ArticTrader.PythonNumbers
import ArticTrader.PythonText

/-!
The backtest engine: it replays a strategy over candles, bar by bar. What it
hands to the strategy it hands over by reference, so a call of the strategy may
change the candles it has seen and the open position.
-/

namespace ArticTrader.BacktestEngine

open ArticTrader.PythonNumbers
open ArticTrader.PythonText (Text)

def WARMUP : ℕ := 20

def WINDOW_LOOKBACK : ℕ := 100

/-- A value in a dict that user code has had in its hands. -/
inductive Value where
  | none
  | num (q : ℚ)
  | str (s : Text)
  | other
  deriving DecidableEq, Repr

/-- A candle dict; a field is `none` where the key is missing. -/
structure Candle where
  timestamp : Option Value
  open_ : Option Value
  high : Option Value
  low : Option Value
  close : Option Value
  volume : Option Value
  deriving DecidableEq, Repr

structure Position where
  side : Option Value
  entry : Option Value
  size_usdt : Option Value
  stop_loss : Option Value
  take_profit : Option Value
  deriving DecidableEq, Repr

structure Signal where
  action : Option Value
  size : Option Value
  stop_loss : Option Value
  take_profit : Option Value
  deriving DecidableEq, Repr

structure Trade where
  side : Value
  entry : Value
  exit : ℚ
  size_usdt : Value
  pnl_usdt : ℚ
  reason : Text
  deriving DecidableEq, Repr

structure Book where
  cash : ℚ
  position : Option Position
  trades : List Trade
  deriving DecidableEq, Repr

structure Ctx where
  candles : List Candle
  position : Option Position

/-- What one call of the strategy does: the state it keeps for itself, the
candles and the position dict as it leaves them, and its signal, or `none` if
it raises. -/
structure TickOutcome (τ : Type) where
  state : τ
  touch : ℕ → Candle → Candle
  tamper : Position → Position
  signal : Option Signal

abbrev TickFn (τ : Type) := τ → Ctx → TickOutcome τ

/-- The engine after some bars. `signals` lists what the strategy has answered
so far and is read by nothing in the engine. -/
structure State (τ : Type) where
  book : Book
  equity_curve : List ℚ
  candles : List Candle
  tick_state : τ
  signals : List (Option Signal)
  raised : Option PyError

structure Result where
  equity_curve : List ℚ
  trades : List Trade
  final_equity : ℚ
  deriving DecidableEq, Repr

def getitem : Option Value → Except PyError Value
  | none => .error .KeyError
  | some v => .ok v

def arith : Value → Except PyError ℚ
  | .num q => .ok q
  | _ => .error .TypeError

/-- `float(v)`, where `parse` reads the text of a number. -/
def float (parse : Text → Option ℚ) : Value → Except PyError ℚ
  | .num q => .ok q
  | .str s =>
      match parse s with
      | some q => .ok q
      | none => .error .ValueError
  | _ => .error .TypeError

def candle_get (parse : Text → Option ℚ) (field : Option Value) : Except PyError ℚ := do
  let v ← getitem field
  float parse v

def pnl_frac (side entry : Value) (price : ℚ) : Except PyError ℚ := do
  let entry ← arith entry
  if side = .str "long".toList then true_div (price - entry) entry
  else true_div (entry - price) entry

def close_position (position : Position) (exit_price fee_bps cash : ℚ) (trades : List Trade)
    (reason : Text) : Except PyError (ℚ × List Trade) := do
  let entry ← getitem position.entry
  let size_usdt ← getitem position.size_usdt
  let side ← getitem position.side
  let frac ← pnl_frac side entry exit_price
  let size ← arith size_usdt
  let pnl_usdt := size * frac
  let fee := size * fee_bps / 10000
  return (cash + size + pnl_usdt - fee,
    trades ++ [{ side, entry, exit := exit_price, size_usdt, pnl_usdt, reason }])

def mtm (position : Option Position) (cash price : ℚ) : Except PyError ℚ :=
  match position with
  | none => .ok cash
  | some position => do
      let entry ← getitem position.entry
      let size ← getitem position.size_usdt
      let side ← getitem position.side
      let frac ← pnl_frac side entry price
      let size ← arith size
      return cash + size * (1 + frac)

/-- `level is not None and reaches(level)` -/
def reached (level : Option Value) (reaches : ℚ → Bool) : Except PyError (Option ℚ) :=
  match level.getD .none with
  | .none => .ok none
  | v => do
      let q ← arith v
      return if reaches q then some q else none

def first_hit (stop take : Except PyError (Option ℚ)) : Except PyError (Option (ℚ × Text)) :=
  match stop with
  | .error e => .error e
  | .ok (some price) => .ok (some (price, "stop_loss".toList))
  | .ok none =>
      match take with
      | .error e => .error e
      | .ok (some price) => .ok (some (price, "take_profit".toList))
      | .ok none => .ok none

def level_hit (position : Position) (high low : ℚ) :
    Except PyError (Option (ℚ × Text)) := do
  let side ← getitem position.side
  if side = .str "long".toList then
    first_hit (reached position.stop_loss (low ≤ ·)) (reached position.take_profit (· ≤ high))
  else
    first_hit (reached position.stop_loss (· ≤ high)) (reached position.take_profit (low ≤ ·))

def check_levels (book : Book) (high low fee_bps : ℚ) : Except PyError Book :=
  match book.position with
  | none => .ok book
  | some position =>
      match level_hit position high low with
      | .error e => .error e
      | .ok none => .ok book
      | .ok (some (hit_price, hit_reason)) => do
          let closed ←
            close_position position hit_price fee_bps book.cash book.trades hit_reason
          return { cash := closed.1, position := none, trades := closed.2 }

def clamp (size_frac : ℚ) : ℚ :=
  let capped := if size_frac < 1 then size_frac else 1
  if 0 < capped then capped else 0

def optional_float (parse : Text → Option ℚ) (v : Option Value) : Except PyError Value :=
  match v.getD .none with
  | .none => .ok .none
  | v => do
      let q ← float parse v
      return .num q

def open_position (parse : Text → Option ℚ) (book : Book) (side : Text) (signal : Signal)
    (price fee_bps size_frac : ℚ) : Except PyError Book := do
  let size := book.cash * size_frac
  let fee := size * fee_bps / 10000
  let stop_loss ← optional_float parse signal.stop_loss
  let take_profit ← optional_float parse signal.take_profit
  let position : Position :=
    { side := some (.str side), entry := some (.num price), size_usdt := some (.num size),
      stop_loss := some stop_loss, take_profit := some take_profit }
  return { book with cash := book.cash - (size + fee), position := some position }

def apply_action (parse : Text → Option ℚ) (book : Book) (signal : Signal)
    (price fee_bps : ℚ) : Except PyError Book :=
  let action := signal.action.getD (.str "HOLD".toList)
  let size_frac := clamp
    (match float parse (signal.size.getD (.num 1)) with
    | .ok q => q
    | .error _ => 1)
  match book.position with
  | none =>
      if action = .str "OPEN_LONG".toList ∧ 0 < book.cash ∧ 0 < size_frac then
        open_position parse book "long".toList signal price fee_bps size_frac
      else if action = .str "OPEN_SHORT".toList ∧ 0 < book.cash ∧ 0 < size_frac then
        open_position parse book "short".toList signal price fee_bps size_frac
      else .ok book
  | some position =>
      if action = .str "CLOSE".toList then do
        let closed ← close_position position price fee_bps book.cash book.trades
          "signal_close".toList
        return { cash := closed.1, position := none, trades := closed.2 }
      else .ok book

/-- The signal that stands for a tick that raises. -/
def tick_error : Signal where
  action := some (.str "HOLD".toList)
  size := some (.num 0)
  stop_loss := none
  take_profit := none

def before_tick (parse : Text → Option ℚ) (candle : Candle) (book : Book) (fee_bps : ℚ) :
    Except PyError (ℚ × Book) := do
  let high ← candle_get parse candle.high
  let low ← candle_get parse candle.low
  let price ← candle_get parse candle.close
  let book ← check_levels book high low fee_bps
  return (price, book)

def after_tick (parse : Text → Option ℚ) (book : Book) (signal : Option Signal)
    (price fee_bps : ℚ) : Except PyError (Book × ℚ) := do
  let book ← apply_action parse book (signal.getD tick_error) price fee_bps
  let equity ← mtm book.position book.cash price
  return (book, equity)

variable {τ : Type}

def State.raise (st : State τ) (e : PyError) : State τ := { st with raised := some e }

/-- The candles of the bars up to `i` are known to the strategy. -/
def touched (touch : ℕ → Candle → Candle) (i : ℕ) (candles : List Candle) : List Candle :=
  candles.mapIdx fun j candle => if j ≤ i then touch j candle else candle

def window (candles : List Candle) (i : ℕ) : List Candle :=
  (candles.take (i + 1)).drop (i - WINDOW_LOOKBACK)

def State.called (st : State τ) (i : ℕ) (book : Book) (out : TickOutcome τ) : State τ :=
  { st with
    book := { book with position := book.position.map out.tamper }
    candles := touched out.touch i st.candles
    tick_state := out.state
    signals := st.signals ++ [out.signal] }

inductive Phase where
  | bar (i : ℕ)
  | force_close
  deriving DecidableEq, Repr

variable (parse : Text → Option ℚ) (tick_fn : TickFn τ) (fee_bps : ℚ)

def State.settle (st : State τ) (signal : Option Signal) (price : ℚ) : State τ :=
  match after_tick parse st.book signal price fee_bps with
  | .error e => st.raise e
  | .ok (book, equity) => { st with book, equity_curve := st.equity_curve ++ [equity] }

def bar (st : State τ) (i : ℕ) : State τ :=
  match st.candles[i]? with
  | none => st
  | some candle =>
      match before_tick parse candle st.book fee_bps with
      | .error e => st.raise e
      | .ok (price, book) =>
          let out := tick_fn st.tick_state ⟨window st.candles i, book.position⟩
          (st.called i book out).settle parse fee_bps out.signal price

def last_close (candles : List Candle) : Option Value := candles.getLast?.bind (·.close)

def force_close (st : State τ) : State τ :=
  match st.book.position with
  | none => st
  | some position =>
      match (do
        let last_price ← candle_get parse (last_close st.candles)
        close_position position last_price fee_bps st.book.cash st.book.trades
          "force_close".toList) with
      | .error e => st.raise e
      | .ok (cash, trades) =>
          { st with
            book := { cash, position := none, trades }
            equity_curve := st.equity_curve.dropLast ++ [cash] }

def advance (st : State τ) (phase : Phase) : State τ :=
  if st.raised.isSome then st
  else
    match phase with
    | .bar i => bar parse tick_fn fee_bps st i
    | .force_close => force_close parse fee_bps st

def start (candles : List Candle) (initial_usdt : ℚ) (s : τ) : State τ where
  book := { cash := initial_usdt, position := none, trades := [] }
  equity_curve := [initial_usdt]
  candles
  tick_state := s
  signals := []
  raised := none

def bars (n : ℕ) : List Phase := (List.range' WARMUP (n - WARMUP)).map .bar

def phases (n : ℕ) : List Phase := if n ≤ WARMUP then [] else bars n ++ [.force_close]

def backtest (candles : List Candle) (initial_usdt : ℚ) (s : τ) : State τ :=
  (phases candles.length).foldl (advance parse tick_fn fee_bps) (start candles initial_usdt s)

def State.result (st : State τ) : Except PyError Result :=
  match st.raised with
  | some e => .error e
  | none => .ok
      { equity_curve := st.equity_curve
        trades := st.book.trades
        final_equity := st.equity_curve.getLastD 0 }

end ArticTrader.BacktestEngine
