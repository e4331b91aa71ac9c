import Mathlib.Data.Rat.Floor
import Mathlib.Logic.Function.Iterate
import ArticTrader.PythonText

/-!
The legacy runner `run`: it compiles a strategy under RestrictedPython, calls
its `compute` under an alarm and falls back on `simple_momentum`. The user's
code may catch what the alarm raises, change the price history, or not end.
-/

namespace ArticTrader.LegacyRunner

open ArticTrader.PythonText (Text)

def MAX_STR_DIGITS : ℕ := 4300

inductive FloatValue where
  | finite (q : ℚ)
  | inf
  | neg_inf
  | nan
  deriving DecidableEq, Repr

/-- A `float` comes with its text. -/
inductive Number where
  | int (z : ℤ)
  | float (value : FloatValue) (text : Text)
  deriving DecidableEq, Repr

inductive Object (ω : Type) where
  | number (x : Number)
  | str (s : Text)
  | tuple (items : List (Object ω))
  | other (o : ω)

/-- The classes that the handlers of `run` tell apart. -/
inductive ExnClass where
  | SandboxTimeout
  | SandboxViolation
  | SyntaxError
  | Exception
  | BaseException
  deriving DecidableEq, Repr

/-- An exception whose `str()` is a text or raises another one. -/
inductive Exn where
  | printable (exn_class : ExnClass) (type_name text : Text)
  | unprintable (exn_class : ExnClass) (type_name : Text) (raises : Exn)
  deriving DecidableEq, Repr

def Exn.exn_class : Exn → ExnClass
  | .printable exn_class _ _ => exn_class
  | .unprintable exn_class _ _ => exn_class

def Exn.type_name : Exn → Text
  | .printable _ type_name _ => type_name
  | .unprintable _ type_name _ => type_name

def Exn.str : Exn → Except Exn Text
  | .printable _ _ text => .ok text
  | .unprintable _ _ raises => .error raises

abbrev Signal := FloatValue × Text

structure RunResult where
  signal : Signal
  strategy_name : Text
  fallback : Bool
  error : Option Text
  deriving DecidableEq, Repr

inductive Progress (π ω : Type) where
  | running (p : π)
  | ended (p : π) (result : Except Exn (Object ω))

structure Args (ω : Type) where
  strat_name : Text
  strat_source : Option Text
  plan : Object ω
  price_history : List Number
  candles : Object ω
  timeout_ms : ℕ

/-- What `run` takes from the language: `κ` are the compiled modules, `π` the
points between two steps of the user's code, `ω` the objects that are neither
numbers, texts nor tuples. An exception that is thrown at a point is caught
there or ends the code. -/
structure Python (κ π ω : Type) where
  main_thread : Bool
  steps_in : ℕ → ℕ
  compile_restricted : Text → Except Exn κ
  exec : κ → π
  step : π → Progress π ω
  throw : π → Exn → Progress π ω
  locs_compute : π → Option (Object ω)
  globs_compute : π → Option (Object ω)
  truthy : Object ω → Bool
  callable : Object ω → Bool
  call : π → Object ω → Args ω → π
  price_history : π → List (Object ω)
  gt : Object ω → Object ω → Except Exn Bool
  lt : Object ω → Object ω → Except Exn Bool
  text : Object ω → Except Exn Text
  type_name : Object ω → Text
  repr_str : Text → Text
  float_of_int : ℤ → Option ℚ

def exception (type_name text : String) : Exn :=
  .printable .Exception type_name.toList text.toList

def FloatValue.lt : FloatValue → FloatValue → Bool
  | .finite a, .finite b => decide (a < b)
  | .finite _, .inf => true
  | .neg_inf, .finite _ => true
  | .neg_inf, .inf => true
  | _, _ => false

def Number.value : Number → FloatValue
  | .int z => .finite z
  | .float value _ => value

def Number.digits : Number → List Char
  | .int z => Nat.toDigits 10 z.natAbs
  | .float _ _ => []

def Number.str (x : Number) : Except Exn Text :=
  match x with
  | .int z =>
      if x.digits.length ≤ MAX_STR_DIGITS then
        .ok ((if z < 0 then ['-'] else []) ++ x.digits)
      else
        .error (exception "ValueError"
          ("Exceeds the limit (4300 digits) for integer string conversion; " ++
            "use sys.set_int_max_str_digits() to increase the limit"))
  | .float _ text => .ok text

variable {κ π ω : Type} (py : Python κ π ω)

def less (a b : Object ω) : Except Exn Bool :=
  match a, b with
  | .number x, .number y => .ok (x.value.lt y.value)
  | _, _ => py.lt a b

def greater (a b : Object ω) : Except Exn Bool :=
  match a, b with
  | .number x, .number y => .ok (y.value.lt x.value)
  | _, _ => py.gt a b

def str : Object ω → Except Exn Text
  | .number x => x.str
  | a => py.text a

def momentum_text (direction : Text) (prev last : Object ω) : Except Exn Text := do
  let prev_text ← str py prev
  let last_text ← str py last
  return "momentum ".toList ++ direction ++ " (".toList ++ prev_text ++ "->".toList ++ last_text ++
    ")".toList

def momentum (prev last : Object ω) : Except Exn Signal := do
  if ← greater py last prev then
    return (.finite 1, ← momentum_text py "up".toList prev last)
  else if ← less py last prev then
    return (.finite (-1), ← momentum_text py "down".toList prev last)
  else return (.finite 0, "flat".toList)

def simple_momentum (price_history : List (Object ω)) : Except Exn Signal :=
  match price_history.reverse with
  | last :: prev :: _ => momentum py prev last
  | _ => .ok (.finite 0, "insufficient history".toList)

def BUILTINS (name : Text) : Option (List (Object ω) → Except Exn Signal) :=
  if name = "simple_momentum".toList then some (simple_momentum py) else none

def fallback (price_history : List (Object ω)) (error : Text) : Except Exn RunResult := do
  let signal ← simple_momentum py price_history
  return {
    signal
    strategy_name := "simple_momentum".toList
    fallback := true
    error := some error }

/-- The price history as it is when the `with` block has been left, and what
left it: the object that `compute` has returned or an exception. -/
abbrev Exit (ω : Type) := List (Object ω) × Except Exn (Object ω)

/-- The `with` block of `run`; `alarm` counts the steps until the alarm goes
off, which it does once. -/
inductive Block (π ω : Type) where
  | executing (p : π) (alarm : Option ℕ)
  | computing (p : π) (alarm : Option ℕ)
  | left (exit : Exit ω)

def Args.given (args : Args ω) : List (Object ω) := args.price_history.map .number

/-- `round(ms / 1000)` takes the even neighbour where both are as near. -/
def round_seconds (ms : ℕ) : ℕ :=
  let s := ms / 1000
  if 500 < ms % 1000 ∨ (ms % 1000 = 500 ∧ s % 2 = 1) then s + 1 else s

def seconds (ms : ℕ) : ℕ := max 1 (round_seconds ms)

def timeout_exn (ms : ℕ) : Exn :=
  .printable .SandboxTimeout "SandboxTimeout".toList
    ("strategy exceeded ".toList ++ Nat.toDigits 10 ms ++ "ms".toList)

def violation (text : Text) : Exn :=
  .printable .SandboxViolation "SandboxViolation".toList text

def missing_compute : Exn :=
  violation "strategy missing callable `compute(plan, price_history, candles)`".toList

def off_main_thread : Exn :=
  exception "ValueError" "signal only works in main thread of the main interpreter"

def too_large : Exn := exception "OverflowError" "int too large to convert to float"

/-- One step of the user's code, or the alarm if its time has come. -/
def user_step (ms : ℕ) (p : π) : Option ℕ → Progress π ω × Option ℕ
  | some 0 => (py.throw p (timeout_exn ms), none)
  | some (n + 1) => (py.step p, some n)
  | none => (py.step p, none)

/-- `locs.get("compute") or globs.get("compute")`, if it can be called -/
def compute (p : π) : Option (Object ω) :=
  let found := ((py.locs_compute p).filter py.truthy).or (py.globs_compute p)
  found.filter py.callable

def executed (args : Args ω) (alarm : Option ℕ) (p : π) : Except Exn (Object ω) → Block π ω
  | .error exc => .left (args.given, .error exc)
  | .ok _ =>
      match compute py p with
      | none => .left (args.given, .error missing_compute)
      | some f => .computing (py.call p f args) alarm

def step_block (args : Args ω) : Block π ω → Block π ω
  | .executing p alarm =>
      match user_step py args.timeout_ms p alarm with
      | (.running p', alarm') => .executing p' alarm'
      | (.ended p' result, alarm') => executed py args alarm' p' result
  | .computing p alarm =>
      match user_step py args.timeout_ms p alarm with
      | (.running p', alarm') => .computing p' alarm'
      | (.ended p' result, _) => .left (py.price_history p', result)
  | .left exit => .left exit

def enter_block (args : Args ω) (code : κ) : Block π ω :=
  if py.main_thread then
    .executing (py.exec code) (some (py.steps_in (seconds args.timeout_ms)))
  else .left (args.given, .error off_main_thread)

def to_float : Number → Option FloatValue
  | .float value _ => some value
  | .int z => (py.float_of_int z).map .finite

def checked_shape : Object ω → Option (Number × Text)
  | .tuple [.number score, .str reason] => some (score, reason)
  | _ => none

def handle (price_history : List (Object ω)) (exc : Exn) : Except Exn RunResult :=
  match exc.exn_class with
  | .SandboxTimeout => do fallback py price_history (← exc.str)
  | .SandboxViolation => do fallback py price_history ("violation: ".toList ++ (← exc.str))
  | .BaseException => .error exc
  | _ => do
      fallback py price_history
        ("error: ".toList ++ exc.type_name ++ ": ".toList ++ (← exc.str))

def leave_block (args : Args ω) : Exit ω → Except Exn RunResult
  | (price_history, .error exc) => handle py price_history exc
  | (price_history, .ok sig) =>
      match checked_shape sig with
      | none =>
          handle py price_history
            (violation ("strategy returned bad shape: ".toList ++ py.type_name sig))
      | some (score, reason) =>
          match to_float py score with
          | none => handle py price_history too_large
          | some value => .ok
              { signal := (value, reason)
                strategy_name := args.strat_name
                fallback := false
                error := none }

def run_builtin (args : Args ω) (builtin : List (Object ω) → Except Exn Signal) :
    Except Exn RunResult :=
  match builtin args.given with
  | .ok signal => .ok
      { signal, strategy_name := args.strat_name, fallback := false, error := none }
  | .error exc =>
      if exc.exn_class = .BaseException then .error exc
      else do fallback py args.given ("builtin raised: ".toList ++ (← exc.str))

/-- `run` on a source text; `none` where the user's code has not ended after
`fuel` steps. -/
def run_source (args : Args ω) (source : Text) (fuel : ℕ) : Option (Except Exn RunResult) :=
  match py.compile_restricted source with
  | .error exc => some (
      if exc.exn_class = .SyntaxError then do
        fallback py args.given ("compile: ".toList ++ (← exc.str))
      else .error exc)
  | .ok code =>
      match (step_block py args)^[fuel] (enter_block py args code) with
      | .left exit => some (leave_block py args exit)
      | _ => none

def run (args : Args ω) (fuel : ℕ) : Option (Except Exn RunResult) :=
  match args.strat_source, BUILTINS py args.strat_name with
  | none, some builtin => some (run_builtin py args builtin)
  | none, none | some [], _ => some (
      fallback py args.given ("no source for ".toList ++ py.repr_str args.strat_name))
  | some source, _ => run_source py args source fuel

end ArticTrader.LegacyRunner
