import ArticTrader.BacktestTampering

/-!
The books of a backtest whose strategy only gives signals: every position is one
that the engine has opened, so its fields are known and its arithmetic is exact.
-/

namespace ArticTrader.BacktestBook

open ArticTrader.PythonNumbers
open ArticTrader.PythonText (Text)
open ArticTrader.BacktestEngine
open ArticTrader.BacktestTampering

inductive Side where
  | long
  | short
  deriving DecidableEq, Repr

def Side.text : Side → Text
  | .long => "long".toList
  | .short => "short".toList

/-- A position as the engine opens it. -/
structure Holding where
  side : Side
  entry : ℚ
  size : ℚ
  stop_loss : Option ℚ
  take_profit : Option ℚ
  deriving DecidableEq, Repr

def level_value : Option ℚ → Value
  | none => .none
  | some q => .num q

def Holding.position (h : Holding) : Position where
  side := some (.str h.side.text)
  entry := some (.num h.entry)
  size_usdt := some (.num h.size)
  stop_loss := some (level_value h.stop_loss)
  take_profit := some (level_value h.take_profit)

theorem side_text_injective {side side' : Side} (h : side.text = side'.text) : side = side' := by
  cases side <;> cases side' <;> first | rfl | exact absurd h (by decide)

theorem level_value_injective {q q' : Option ℚ} (h : level_value q = level_value q') :
    q = q' := by
  cases q with
  | none =>
      cases q' with
      | none => rfl
      | some x => cases h
  | some x =>
      cases q' with
      | none => cases h
      | some y =>
          cases h
          rfl

theorem position_injective {h h' : Holding} (heq : h.position = h'.position) : h = h' := by
  obtain ⟨side, entry, size, stop, take⟩ := h
  obtain ⟨side', entry', size', stop', take'⟩ := h'
  simp only [Holding.position, Position.mk.injEq, Option.some.injEq, Value.str.injEq,
    Value.num.injEq] at heq
  obtain ⟨hside, rfl, rfl, hstop, htake⟩ := heq
  obtain rfl := side_text_injective hside
  obtain rfl := level_value_injective hstop
  obtain rfl := level_value_injective htake
  rfl

def Holding.gain (h : Holding) (price : ℚ) : ℚ :=
  match h.side with
  | .long => (price - h.entry) / h.entry
  | .short => (h.entry - price) / h.entry

def Holding.fee (h : Holding) (fee_bps : ℚ) : ℚ := h.size * fee_bps / 10000

def Holding.trade (h : Holding) (exit : ℚ) (reason : Text) : Trade where
  side := .str h.side.text
  entry := .num h.entry
  exit
  size_usdt := .num h.size
  pnl_usdt := h.size * h.gain exit
  reason

/-- The stop is looked at first. -/
def first_level (stop take : Option ℚ) : Option (ℚ × Text) :=
  match stop with
  | some price => some (price, "stop_loss".toList)
  | none => take.map fun price => (price, "take_profit".toList)

def Holding.hit (h : Holding) (high low : ℚ) : Option (ℚ × Text) :=
  match h.side with
  | .long => first_level (h.stop_loss.filter (low ≤ ·)) (h.take_profit.filter (· ≤ high))
  | .short => first_level (h.stop_loss.filter (· ≤ high)) (h.take_profit.filter (low ≤ ·))

/-- The books with the open position by its numbers. -/
structure Account where
  cash : ℚ
  holding : Option Holding
  trades : List Trade

def Account.book (a : Account) : Book where
  cash := a.cash
  position := a.holding.map Holding.position
  trades := a.trades

def Account.opened (a : Account) (h : Holding) (fee_bps : ℚ) : Account :=
  { a with cash := a.cash - (h.size + h.fee fee_bps), holding := some h }

def Account.closed (a : Account) (h : Holding) (fee_bps exit : ℚ) (reason : Text) : Account where
  cash := a.cash + h.size + h.size * h.gain exit - h.fee fee_bps
  holding := none
  trades := a.trades ++ [h.trade exit reason]

theorem book_of_none {a : Account} (h : a.holding = none) : a.book.position = none := by
  rw [Account.book, h]
  rfl

theorem book_of_some {a : Account} {h : Holding} (ha : a.holding = some h) :
    a.book.position = some h.position := by
  rw [Account.book, ha]
  rfl

@[simp] theorem book_cash (a : Account) : a.book.cash = a.cash := rfl

@[simp] theorem book_trades (a : Account) : a.book.trades = a.trades := rfl

theorem ok_bind {α β : Type} (x : α) (f : α → Except PyError β) :
    ((Except.ok x : Except PyError α) >>= f) = f x := rfl

theorem error_bind {α β : Type} (e : PyError) (f : α → Except PyError β) :
    ((Except.error e : Except PyError α) >>= f) = .error e := rfl

theorem short_ne_long : Value.str Side.short.text ≠ .str "long".toList := by decide

theorem pnl_frac_holding (h : Holding) (price : ℚ) :
    pnl_frac (.str h.side.text) (.num h.entry) price =
      if h.entry = 0 then .error .ZeroDivisionError else .ok (h.gain price) := by
  unfold pnl_frac Holding.gain
  cases h.side with
  | long => rfl
  | short =>
      simp only [short_ne_long, if_false]
      rfl

theorem close_position_holding (h : Holding) (exit fee_bps cash : ℚ) (trades : List Trade)
    (reason : Text) :
    close_position h.position exit fee_bps cash trades reason =
      if h.entry = 0 then .error .ZeroDivisionError
      else .ok (cash + h.size + h.size * h.gain exit - h.fee fee_bps,
        trades ++ [h.trade exit reason]) := by
  simp only [close_position, Holding.position, getitem, ok_bind, pnl_frac_holding]
  split_ifs with hzero
  · rfl
  · rfl

theorem mtm_holding (h : Holding) (cash price : ℚ) :
    mtm (some h.position) cash price =
      if h.entry = 0 then .error .ZeroDivisionError
      else .ok (cash + h.size * (1 + h.gain price)) := by
  simp only [mtm, Holding.position, getitem, ok_bind, pnl_frac_holding]
  split_ifs with hzero
  · rfl
  · rfl

theorem reached_level (level : Option ℚ) (reaches : ℚ → Bool) :
    reached (some (level_value level)) reaches = .ok (level.filter reaches) := by
  cases level with
  | none => rfl
  | some q =>
      simp only [level_value, reached, Option.getD_some, arith, ok_bind, Option.filter_some]
      rfl

theorem first_hit_levels (stop take : Option ℚ) :
    first_hit (.ok stop) (.ok take) = .ok (first_level stop take) := by
  cases stop with
  | some q => rfl
  | none =>
      cases take with
      | none => rfl
      | some q => rfl

theorem level_hit_holding (h : Holding) (high low : ℚ) :
    level_hit h.position high low = .ok (h.hit high low) := by
  simp only [level_hit, Holding.position, getitem, ok_bind, reached_level, first_hit_levels]
  unfold Holding.hit
  cases h.side with
  | long => rfl
  | short => simp only [short_ne_long, if_false]

/-- The levels of one bar, on the books. -/
inductive Checked (fee_bps high low : ℚ) (a : Account) : Account → Prop
  | kept (h : ∀ h, a.holding = some h → h.hit high low = none) : Checked fee_bps high low a a
  | closed {h : Holding} {exit : ℚ} {reason : Text} (holding : a.holding = some h)
      (entry : h.entry ≠ 0) (hit : h.hit high low = some (exit, reason)) :
      Checked fee_bps high low a (a.closed h fee_bps exit reason)

theorem check_levels_of_none {a : Account} (h : a.holding = none) (high low fee_bps : ℚ) :
    check_levels a.book high low fee_bps = .ok a.book := by
  simp only [check_levels, book_of_none h]

theorem check_levels_of_no_hit {a : Account} {h : Holding} (ha : a.holding = some h)
    {high low : ℚ} (hhit : h.hit high low = none) (fee_bps : ℚ) :
    check_levels a.book high low fee_bps = .ok a.book := by
  simp only [check_levels, book_of_some ha, level_hit_holding, hhit]

theorem check_levels_of_hit {a : Account} {h : Holding} (ha : a.holding = some h)
    {high low exit : ℚ} {reason : Text} (hhit : h.hit high low = some (exit, reason))
    (fee_bps : ℚ) :
    check_levels a.book high low fee_bps =
      if h.entry = 0 then .error .ZeroDivisionError
      else .ok (a.closed h fee_bps exit reason).book := by
  simp only [check_levels, book_of_some ha, level_hit_holding, hhit, close_position_holding]
  split_ifs with hzero
  · rfl
  · rfl

/-- `float(level) if level is not None else None` -/
def level (parse : Text → Option ℚ) (v : Option Value) : Except PyError (Option ℚ) :=
  match v.getD .none with
  | .none => .ok none
  | v => some <$> float parse v

theorem optional_float_eq (parse : Text → Option ℚ) (v : Option Value) :
    optional_float parse v = level_value <$> level parse v := by
  unfold optional_float level
  cases v.getD .none with
  | none => rfl
  | num q => rfl
  | other => rfl
  | str s =>
      simp only [float]
      cases parse s <;> rfl

def size_frac (parse : Text → Option ℚ) (signal : Signal) : ℚ :=
  clamp
    (match float parse (signal.size.getD (.num 1)) with
    | .ok q => q
    | .error _ => 1)

def wanted (signal : Signal) : Option Side :=
  let action := signal.action.getD (.str "HOLD".toList)
  if action = .str "OPEN_LONG".toList then some .long
  else if action = .str "OPEN_SHORT".toList then some .short
  else none

def closes (signal : Signal) : Prop :=
  signal.action.getD (.str "HOLD".toList) = .str "CLOSE".toList

instance (signal : Signal) : Decidable (closes signal) :=
  inferInstanceAs (Decidable (_ = _))

variable (parse : Text → Option ℚ)

theorem open_position_account {a : Account} {signal : Signal} {stop take : Option ℚ} (side : Side)
    (price fee_bps frac : ℚ) (hstop : level parse signal.stop_loss = .ok stop)
    (htake : level parse signal.take_profit = .ok take) :
    open_position parse a.book side.text signal price fee_bps frac =
      .ok (a.opened ⟨side, price, a.cash * frac, stop, take⟩ fee_bps).book := by
  unfold open_position
  simp only [optional_float_eq, hstop, htake]
  rfl

theorem open_position_of_error {a : Account} {signal : Signal} {e : PyError} (side : Side)
    (price fee_bps frac : ℚ) (h : level parse signal.stop_loss = .error e ∨
      level parse signal.take_profit = .error e) :
    ∃ e', open_position parse a.book side.text signal price fee_bps frac = .error e' := by
  unfold open_position
  simp only [optional_float_eq]
  cases hstop : level parse signal.stop_loss with
  | error e' => exact ⟨e', rfl⟩
  | ok stop =>
      rcases h with h | h
      · rw [hstop] at h
        cases h
      · rw [h]
        exact ⟨e, rfl⟩

/-- Whether the engine opens on a signal in these books. -/
def opening_side (a : Account) (signal : Signal) : Option Side :=
  if a.holding = none ∧ 0 < a.cash ∧ 0 < size_frac parse signal then wanted signal else none

theorem wanted_cases (signal : Signal) :
    (wanted signal = some .long ∧
      signal.action.getD (.str "HOLD".toList) = .str "OPEN_LONG".toList) ∨
    (wanted signal = some .short ∧
      signal.action.getD (.str "HOLD".toList) ≠ .str "OPEN_LONG".toList ∧
      signal.action.getD (.str "HOLD".toList) = .str "OPEN_SHORT".toList) ∨
    (wanted signal = none ∧
      signal.action.getD (.str "HOLD".toList) ≠ .str "OPEN_LONG".toList ∧
      signal.action.getD (.str "HOLD".toList) ≠ .str "OPEN_SHORT".toList) := by
  unfold wanted
  by_cases hlong : signal.action.getD (.str "HOLD".toList) = .str "OPEN_LONG".toList
  · exact .inl ⟨if_pos hlong, hlong⟩
  · by_cases hshort : signal.action.getD (.str "HOLD".toList) = .str "OPEN_SHORT".toList
    · exact .inr (.inl ⟨(if_neg hlong).trans (if_pos hshort), hlong, hshort⟩)
    · exact .inr (.inr ⟨(if_neg hlong).trans (if_neg hshort), hlong, hshort⟩)

theorem apply_action_flat (cash : ℚ) (trades : List Trade) (signal : Signal) (price fee_bps : ℚ) :
    apply_action parse ⟨cash, none, trades⟩ signal price fee_bps =
      if signal.action.getD (.str "HOLD".toList) = .str "OPEN_LONG".toList ∧ 0 < cash ∧
          0 < size_frac parse signal then
        open_position parse ⟨cash, none, trades⟩ "long".toList signal price fee_bps
          (size_frac parse signal)
      else if signal.action.getD (.str "HOLD".toList) = .str "OPEN_SHORT".toList ∧ 0 < cash ∧
          0 < size_frac parse signal then
        open_position parse ⟨cash, none, trades⟩ "short".toList signal price fee_bps
          (size_frac parse signal)
      else .ok ⟨cash, none, trades⟩ := rfl

theorem apply_action_of_none {a : Account} (ha : a.holding = none) (signal : Signal)
    (price fee_bps : ℚ) :
    apply_action parse a.book signal price fee_bps =
      match opening_side parse a signal with
      | none => .ok a.book
      | some side =>
          open_position parse a.book side.text signal price fee_bps
            (size_frac parse signal) := by
  have hbook : a.book = ⟨a.cash, none, a.trades⟩ := by rw [Account.book, ha]; rfl
  rw [hbook, apply_action_flat, opening_side]
  simp only [ha, true_and]
  by_cases hguard : 0 < a.cash ∧ 0 < size_frac parse signal
  · rw [if_pos hguard]
    rcases wanted_cases signal with ⟨hw, hlong⟩ | ⟨hw, hlong, hshort⟩ | ⟨hw, hlong, hshort⟩
    · rw [hw, if_pos ⟨hlong, hguard⟩]
      rfl
    · rw [hw, if_neg fun h => hlong h.1, if_pos ⟨hshort, hguard⟩]
      rfl
    · rw [hw, if_neg fun h => hlong h.1, if_neg fun h => hshort h.1]
  · rw [if_neg hguard, if_neg fun h => hguard h.2, if_neg fun h => hguard h.2]

theorem opening_side_some_iff {a : Account} {signal : Signal} {side : Side} :
    opening_side parse a signal = some side ↔
      (a.holding = none ∧ 0 < a.cash ∧ 0 < size_frac parse signal) ∧ wanted signal = some side :=
  Option.ite_none_right_eq_some

theorem holding_of_opening {a : Account} {signal : Signal} {side : Side}
    (h : opening_side parse a signal = some side) : a.holding = none :=
  ((opening_side_some_iff parse).mp h).1.1

theorem apply_action_of_opening {a : Account} {signal : Signal} {side : Side}
    (h : opening_side parse a signal = some side) (price fee_bps : ℚ) :
    apply_action parse a.book signal price fee_bps =
      open_position parse a.book side.text signal price fee_bps (size_frac parse signal) := by
  rw [apply_action_of_none parse (holding_of_opening parse h), h]

theorem apply_action_of_closing {a : Account} {h : Holding} {signal : Signal}
    (ha : a.holding = some h) (hclose : closes signal) (price fee_bps : ℚ) :
    apply_action parse a.book signal price fee_bps =
      if h.entry = 0 then .error .ZeroDivisionError
      else .ok (a.closed h fee_bps price "signal_close".toList).book := by
  unfold closes at hclose
  simp only [apply_action, book_of_some ha, hclose, if_true, close_position_holding]
  split_ifs with hzero
  · rfl
  · rfl

theorem apply_action_of_neither {a : Account} {signal : Signal}
    (hopen : opening_side parse a signal = none)
    (hclose : a.holding = none ∨ ¬ closes signal) (price fee_bps : ℚ) :
    apply_action parse a.book signal price fee_bps = .ok a.book := by
  cases ha : a.holding with
  | none => rw [apply_action_of_none parse ha, hopen]
  | some h =>
      have hnot : ¬ closes signal := by simpa [ha] using hclose
      unfold closes at hnot
      simp only [apply_action, book_of_some ha, hnot, if_false]

/-- The signal of one bar, on the books. -/
inductive Acted (signal : Signal) (price fee_bps : ℚ) (a : Account) : Account → Prop
  | kept (opening : opening_side parse a signal = none)
      (closing : a.holding = none ∨ ¬ closes signal) : Acted signal price fee_bps a a
  | opened {side : Side} {stop take : Option ℚ}
      (opening : opening_side parse a signal = some side)
      (stop_loss : level parse signal.stop_loss = .ok stop)
      (take_profit : level parse signal.take_profit = .ok take) :
      Acted signal price fee_bps a
        (a.opened ⟨side, price, a.cash * size_frac parse signal, stop, take⟩ fee_bps)
  | closed {h : Holding} (holding : a.holding = some h) (entry : h.entry ≠ 0)
      (closing : closes signal) :
      Acted signal price fee_bps a (a.closed h fee_bps price "signal_close".toList)

theorem Acted.trades_of_none {signal : Signal} {price fee_bps : ℚ} {a a' : Account}
    (h : Acted parse signal price fee_bps a a') (ha : a.holding = none) :
    a'.trades = a.trades := by
  cases h with
  | kept => rfl
  | opened => rfl
  | closed holding =>
      rw [ha] at holding
      cases holding

theorem apply_action_acted {a : Account} {signal : Signal} {price fee_bps : ℚ} {book : Book}
    (h : apply_action parse a.book signal price fee_bps = .ok book) :
    ∃ a', book = a'.book ∧ Acted parse signal price fee_bps a a' := by
  cases hopen : opening_side parse a signal with
  | some side =>
      rw [apply_action_of_opening parse hopen] at h
      cases hstop : level parse signal.stop_loss with
      | error e =>
          obtain ⟨e', he'⟩ := open_position_of_error parse (a := a) side price fee_bps
            (size_frac parse signal) (.inl hstop)
          rw [he'] at h
          cases h
      | ok stop =>
          cases htake : level parse signal.take_profit with
          | error e =>
              obtain ⟨e', he'⟩ := open_position_of_error parse (a := a) side price fee_bps
                (size_frac parse signal) (.inr htake)
              rw [he'] at h
              cases h
          | ok take =>
              rw [open_position_account parse side price fee_bps _ hstop htake] at h
              cases h
              exact ⟨_, rfl, .opened hopen hstop htake⟩
  | none =>
      cases ha : a.holding with
      | none =>
          rw [apply_action_of_neither parse hopen (.inl ha)] at h
          cases h
          exact ⟨a, rfl, .kept hopen (.inl ha)⟩
      | some h' =>
          by_cases hclose : closes signal
          · rw [apply_action_of_closing parse ha hclose] at h
            split_ifs at h with hzero
            cases h
            exact ⟨_, rfl, .closed ha hzero hclose⟩
          · rw [apply_action_of_neither parse hopen (.inr hclose)] at h
            cases h
            exact ⟨a, rfl, .kept hopen (.inr hclose)⟩

def Account.equity (a : Account) (price : ℚ) : ℚ :=
  match a.holding with
  | none => a.cash
  | some h => a.cash + h.size * (1 + h.gain price)

/-- No position has been opened at a price of zero. -/
def Account.Solid (a : Account) : Prop := ∀ h, a.holding = some h → h.entry ≠ 0

theorem mtm_account {a : Account} (h : a.Solid) (price : ℚ) :
    mtm a.book.position a.cash price = .ok (a.equity price) := by
  unfold Account.equity
  cases ha : a.holding with
  | none =>
      rw [book_of_none ha]
      rfl
  | some h' => rw [book_of_some ha, mtm_holding, if_neg (h h' ha)]

theorem solid_of_mtm {a : Account} {price equity : ℚ}
    (h : mtm a.book.position a.cash price = .ok equity) : a.Solid := by
  intro h' ha hzero
  rw [book_of_some ha, mtm_holding, if_pos hzero] at h
  cases h

theorem solid_closed (a : Account) (h : Holding) (fee_bps exit : ℚ) (reason : Text) :
    (a.closed h fee_bps exit reason).Solid := by
  intro h' hh'
  cases hh'

theorem Checked.solid {fee_bps high low : ℚ} {a a' : Account}
    (h : Checked fee_bps high low a a') (ha : a.Solid) : a'.Solid := by
  cases h with
  | kept => exact ha
  | closed => exact solid_closed a _ fee_bps _ _

theorem check_levels_of_solid {a : Account} (h : a.Solid) (high low fee_bps : ℚ) :
    ∃ a', check_levels a.book high low fee_bps = .ok a'.book ∧ Checked fee_bps high low a a' := by
  cases ha : a.holding with
  | none =>
      refine ⟨a, check_levels_of_none ha high low fee_bps, .kept ?_⟩
      intro h' hh'
      rw [ha] at hh'
      cases hh'
  | some h' =>
      cases hhit : h'.hit high low with
      | none =>
          refine ⟨a, check_levels_of_no_hit ha hhit fee_bps, .kept ?_⟩
          intro h'' hh''
          rw [ha] at hh''
          cases hh''
          exact hhit
      | some r =>
          refine ⟨_, ?_, .closed ha (h h' ha) hhit⟩
          rw [check_levels_of_hit ha hhit, if_neg (h h' ha)]

theorem after_tick_acted {fee_bps : ℚ} {a : Account} {signal : Option Signal} {price equity : ℚ}
    {book : Book}
    (h : after_tick parse a.book signal price fee_bps = .ok (book, equity)) :
    ∃ a', book = a'.book ∧ equity = a'.equity price ∧ a'.Solid ∧
      Acted parse (signal.getD tick_error) price fee_bps a a' := by
  unfold after_tick at h
  cases hact : apply_action parse a.book (signal.getD tick_error) price fee_bps with
  | error e =>
      rw [hact] at h
      cases h
  | ok b =>
      rw [hact, ok_bind] at h
      obtain ⟨a', rfl, hacted⟩ := apply_action_acted parse hact
      cases hmtm : mtm a'.book.position a'.book.cash price with
      | error e =>
          rw [hmtm] at h
          cases h
      | ok q =>
          rw [hmtm] at h
          cases h
          have hsolid := solid_of_mtm hmtm
          rw [book_cash, mtm_account hsolid] at hmtm
          cases hmtm
          exact ⟨a', rfl, rfl, hsolid, hacted⟩

theorem after_tick_of_action {a a' : Account} {signal : Signal} {price fee_bps : ℚ}
    (h : apply_action parse a.book signal price fee_bps = .ok a'.book) (ha' : a'.Solid) :
    after_tick parse a.book (some signal) price fee_bps = .ok (a'.book, a'.equity price) := by
  unfold after_tick
  rw [Option.getD_some, h, ok_bind, book_cash, mtm_account ha']
  rfl

theorem after_tick_of_opening {a : Account} {signal : Signal} {side : Side}
    {stop take : Option ℚ} (hopen : opening_side parse a signal = some side)
    (hstop : level parse signal.stop_loss = .ok stop)
    (htake : level parse signal.take_profit = .ok take) {price : ℚ} (hprice : price ≠ 0)
    (fee_bps : ℚ) :
    after_tick parse a.book (some signal) price fee_bps =
      .ok ((a.opened ⟨side, price, a.cash * size_frac parse signal, stop, take⟩ fee_bps).book,
        (a.opened ⟨side, price, a.cash * size_frac parse signal, stop, take⟩ fee_bps).equity
          price) := by
  apply after_tick_of_action
  · rw [apply_action_of_opening parse hopen, open_position_account parse side _ _ _ hstop htake]
  · intro h hh
    cases hh
    exact hprice

theorem after_tick_of_zero {a : Account} {signal : Signal} {side : Side}
    (hopen : opening_side parse a signal = some side) (fee_bps : ℚ) :
    ∃ e, after_tick parse a.book (some signal) 0 fee_bps = .error e := by
  cases hafter : after_tick parse a.book (some signal) 0 fee_bps with
  | error e => exact ⟨e, rfl⟩
  | ok r =>
      obtain ⟨a', -, -, hsolid, hacted⟩ := after_tick_acted parse hafter
      cases hacted with
      | kept hkept =>
          rw [Option.getD_some, hopen] at hkept
          cases hkept
      | opened => exact absurd rfl (hsolid _ rfl)
      | closed holding =>
          rw [holding_of_opening parse hopen] at holding
          cases holding

theorem after_tick_of_closing {a : Account} {h : Holding} {signal : Signal}
    (ha : a.holding = some h) (hsolid : a.Solid) (hclose : closes signal) (price fee_bps : ℚ) :
    after_tick parse a.book (some signal) price fee_bps =
      .ok ((a.closed h fee_bps price "signal_close".toList).book,
        (a.closed h fee_bps price "signal_close".toList).equity price) := by
  apply after_tick_of_action
  · rw [apply_action_of_closing parse ha hclose, if_neg (hsolid h ha)]
  · exact solid_closed a h fee_bps price _

theorem after_tick_of_neither {a : Account} {signal : Signal} (hsolid : a.Solid)
    (hopen : opening_side parse a signal = none)
    (hclose : a.holding = none ∨ ¬ closes signal) (price fee_bps : ℚ) :
    after_tick parse a.book (some signal) price fee_bps = .ok (a.book, a.equity price) :=
  after_tick_of_action parse (apply_action_of_neither parse hopen hclose price fee_bps) hsolid

variable {τ : Type}

theorem settle_cases (fee_bps : ℚ) {st : State τ} {a : Account} (hbook : st.book = a.book)
    (signal : Option Signal) (price : ℚ) :
    (∃ a', a'.Solid ∧ Acted parse (signal.getD tick_error) price fee_bps a a' ∧
      st.settle parse fee_bps signal price =
        { st with book := a'.book, equity_curve := st.equity_curve ++ [a'.equity price] }) ∨
    ∃ e, after_tick parse a.book signal price fee_bps = .error e ∧
      st.settle parse fee_bps signal price = st.raise e := by
  unfold State.settle
  rw [hbook]
  cases hafter : after_tick parse a.book signal price fee_bps with
  | error e => exact .inr ⟨e, rfl, rfl⟩
  | ok r =>
      obtain ⟨book, equity⟩ := r
      obtain ⟨a', rfl, rfl, hsolid, hacted⟩ := after_tick_acted parse hafter
      exact .inl ⟨a', hsolid, hacted, rfl⟩

theorem settle_of_ok {fee_bps : ℚ} {st : State τ} {book book' : Book} {signal : Option Signal}
    {price equity : ℚ} (hbook : st.book = book)
    (h : after_tick parse book signal price fee_bps = .ok (book', equity)) :
    st.settle parse fee_bps signal price =
      { st with book := book', equity_curve := st.equity_curve ++ [equity] } := by
  simp only [State.settle, hbook, h]

theorem settle_of_error {fee_bps : ℚ} {st : State τ} {book : Book} {signal : Option Signal}
    {price : ℚ} {e : PyError} (hbook : st.book = book)
    (h : after_tick parse book signal price fee_bps = .error e) :
    st.settle parse fee_bps signal price = st.raise e := by
  simp only [State.settle, hbook, h]

variable {tick_fn : TickFn τ}

theorem called_book (hpure : ReadOnly tick_fn) (st : State τ) (i : ℕ) (book : Book) (s : τ)
    (ctx : Ctx) : (st.called i book (tick_fn s ctx)).book = book := by
  have htamper : (tick_fn s ctx).tamper = id := funext (hpure.tamper s ctx)
  change { book with position := book.position.map (tick_fn s ctx).tamper } = book
  rw [htamper, Option.map_id_fun, id]

theorem called_candles (hpure : ReadOnly tick_fn) (st : State τ) (i : ℕ) (book : Book) (s : τ)
    (ctx : Ctx) : (st.called i book (tick_fn s ctx)).candles = st.candles := by
  have htouch : (tick_fn s ctx).touch = fun _ candle => candle := by
    funext j candle
    exact hpure.touch s ctx j candle
  change touched (tick_fn s ctx).touch i st.candles = st.candles
  rw [htouch, touched_copies]

/-- What the strategy says in a bar, with the books after the levels. -/
def answer (tick_fn : TickFn τ) (st : State τ) (i : ℕ) (a : Account) : TickOutcome τ :=
  tick_fn st.tick_state ⟨window st.candles i, a.book.position⟩

structure Reads (parse : Text → Option ℚ) (candle : Candle) (high low price : ℚ) : Prop where
  high : candle_get parse candle.high = .ok high
  low : candle_get parse candle.low = .ok low
  close : candle_get parse candle.close = .ok price

theorem Reads.unique {parse : Text → Option ℚ} {candle : Candle}
    {high low price high' low' price' : ℚ} (h : Reads parse candle high low price)
    (h' : Reads parse candle high' low' price') :
    high' = high ∧ low' = low ∧ price' = price := by
  refine ⟨?_, ?_, ?_⟩
  · exact Except.ok.inj (h'.high.symm.trans h.high)
  · exact Except.ok.inj (h'.low.symm.trans h.low)
  · exact Except.ok.inj (h'.close.symm.trans h.close)

variable (tick_fn) (fee_bps : ℚ)

/-- One bar over a candle that can be read. -/
theorem bar_of_reads {st : State τ} {a : Account} {i : ℕ} {candle : Candle} {high low price : ℚ}
    (hbook : st.book = a.book) (hsolid : a.Solid) (hi : st.candles[i]? = some candle)
    (hreads : Reads parse candle high low price) :
    ∃ a', Checked fee_bps high low a a' ∧
      before_tick parse candle st.book fee_bps = .ok (price, a'.book) ∧
      bar parse tick_fn fee_bps st i =
        (st.called i a'.book (answer tick_fn st i a')).settle parse fee_bps
          (answer tick_fn st i a').signal price := by
  obtain ⟨a', hlevels, hchecked⟩ := check_levels_of_solid hsolid high low fee_bps
  have hbefore : before_tick parse candle st.book fee_bps = .ok (price, a'.book) := by
    simp only [before_tick, hreads.high, hreads.low, hreads.close, hbook, hlevels, ok_bind]
    rfl
  exact ⟨a', hchecked, hbefore, bar_of_ok parse tick_fn fee_bps hi hbefore⟩

theorem before_tick_of_unread {candle : Candle}
    (h : ¬ ∃ high low price, Reads parse candle high low price) :
    ∃ e, ∀ book, before_tick parse candle book fee_bps = .error e := by
  unfold before_tick
  cases hhigh : candle_get parse candle.high with
  | error e => exact ⟨e, fun book => rfl⟩
  | ok high =>
      cases hlow : candle_get parse candle.low with
      | error e => exact ⟨e, fun book => rfl⟩
      | ok low =>
          cases hprice : candle_get parse candle.close with
          | error e => exact ⟨e, fun book => rfl⟩
          | ok price => exact absurd ⟨high, low, price, hhigh, hlow, hprice⟩ h

/-- Where the books are after such a bar. -/
theorem bar_book (hpure : ReadOnly tick_fn) {st : State τ} {a : Account} {i : ℕ}
    {candle : Candle} {high low price : ℚ} (hbook : st.book = a.book) (hsolid : a.Solid)
    (hi : st.candles[i]? = some candle) (hreads : Reads parse candle high low price) :
    ∃ a', Checked fee_bps high low a a' ∧
      ((∃ signal a'', a''.Solid ∧ Acted parse signal price fee_bps a' a'' ∧
          (bar parse tick_fn fee_bps st i).book = a''.book) ∨
        (bar parse tick_fn fee_bps st i).book = a'.book ∧
          (bar parse tick_fn fee_bps st i).raised ≠ none) := by
  obtain ⟨a', hchecked, -, hbar⟩ := bar_of_reads parse tick_fn fee_bps hbook hsolid hi hreads
  have hcalled : (st.called i a'.book (answer tick_fn st i a')).book = a'.book :=
    called_book hpure st i a'.book _ _
  refine ⟨a', hchecked, ?_⟩
  rw [hbar]
  rcases settle_cases parse fee_bps hcalled (answer tick_fn st i a').signal price with
    ⟨a'', hsolid', hacted, hsettle⟩ | ⟨e, -, hsettle⟩
  · refine .inl ⟨_, a'', hsolid', hacted, ?_⟩
    rw [hsettle]
  · refine .inr ⟨?_, ?_⟩
    · rw [hsettle]
      exact hcalled
    · rw [hsettle]
      exact Option.some_ne_none e

/-- A bar that does not raise has read its candle. -/
theorem bar_acted (hpure : ReadOnly tick_fn) {st : State τ} {a : Account} {i : ℕ}
    {candle : Candle} (hbook : st.book = a.book) (hsolid : a.Solid)
    (hi : st.candles[i]? = some candle)
    (hraised : (bar parse tick_fn fee_bps st i).raised = none) :
    ∃ high low price a' a'', Reads parse candle high low price ∧
      Checked fee_bps high low a a' ∧ a''.Solid ∧
      Acted parse ((answer tick_fn st i a').signal.getD tick_error) price fee_bps a' a'' ∧
      (bar parse tick_fn fee_bps st i).book = a''.book := by
  cases hbefore : before_tick parse candle st.book fee_bps with
  | error e =>
      rw [bar_of_error parse tick_fn fee_bps hi hbefore] at hraised
      cases hraised
  | ok r =>
      simp only [before_tick, bind_eq_ok] at hbefore
      obtain ⟨high, hhigh, low, hlow, price, hprice, book, -, -⟩ := hbefore
      have hreads : Reads parse candle high low price := ⟨hhigh, hlow, hprice⟩
      obtain ⟨a', hchecked, -, hbar⟩ := bar_of_reads parse tick_fn fee_bps hbook hsolid hi hreads
      have hcalled : (st.called i a'.book (answer tick_fn st i a')).book = a'.book :=
        called_book hpure st i a'.book _ _
      rw [hbar] at hraised ⊢
      rcases settle_cases parse fee_bps hcalled (answer tick_fn st i a').signal price with
        ⟨a'', hsolid', hacted, hsettle⟩ | ⟨e, -, hsettle⟩
      · refine ⟨high, low, price, a', a'', hreads, hchecked, hsolid', hacted, ?_⟩
        rw [hsettle]
      · rw [hsettle] at hraised
        cases hraised

theorem force_close_of_none {st : State τ} {a : Account} (hbook : st.book = a.book)
    (ha : a.holding = none) : force_close parse fee_bps st = st := by
  unfold force_close
  rw [hbook, book_of_none ha]

theorem force_close_of_some {st : State τ} {a : Account} {h : Holding} {price : ℚ}
    (hbook : st.book = a.book) (ha : a.holding = some h) (hentry : h.entry ≠ 0)
    (hlast : candle_get parse (last_close st.candles) = .ok price) :
    force_close parse fee_bps st =
      { st with
        book := (a.closed h fee_bps price "force_close".toList).book
        equity_curve := st.equity_curve.dropLast ++
          [(a.closed h fee_bps price "force_close".toList).cash] } := by
  unfold force_close
  simp only [hbook, book_of_some ha, hlast, ok_bind, close_position_holding, if_neg hentry]
  rfl

theorem force_close_of_unread {st : State τ} {a : Account} {h : Holding} {e : PyError}
    (hbook : st.book = a.book) (ha : a.holding = some h)
    (hlast : candle_get parse (last_close st.candles) = .error e) :
    force_close parse fee_bps st = st.raise e := by
  simp only [force_close, hbook, book_of_some ha, hlast, error_bind]

/-- Unless the run has stopped, its books are those of an account of `P`. -/
def Books (P : Account → Prop) (st : State τ) : Prop :=
  st.raised = none → ∃ a : Account, a.Solid ∧ st.book = a.book ∧ P a

section Books

variable {parse tick_fn fee_bps} {P : Account → Prop} {st : State τ}

theorem books_start {initial_usdt : ℚ} (h : P ⟨initial_usdt, none, []⟩) (candles : List Candle)
    (s : τ) : Books P (start candles initial_usdt s) := by
  intro _
  refine ⟨⟨initial_usdt, none, []⟩, ?_, rfl, h⟩
  intro holding hholding
  cases hholding

theorem books_bar (hpure : ReadOnly tick_fn) {i : ℕ} (h : Books P st) (hnone : st.raised = none)
    (hbar : ∀ {candle high low price a a' a''}, st.candles[i]? = some candle → st.book = a.book →
      P a → Reads parse candle high low price → Checked fee_bps high low a a' → a''.Solid →
      Acted parse ((answer tick_fn st i a').signal.getD tick_error) price fee_bps a' a'' → P a'') :
    Books P (bar parse tick_fn fee_bps st i) := by
  obtain ⟨a, hsolid, hbook, ha⟩ := h hnone
  intro hnone'
  cases hi : st.candles[i]? with
  | none =>
      rw [bar_of_no_candle parse tick_fn fee_bps hi]
      exact ⟨a, hsolid, hbook, ha⟩
  | some candle =>
      obtain ⟨high, low, price, a', a'', hreads, hchecked, hsolid', hacted, hbook'⟩ :=
        bar_acted parse tick_fn fee_bps hpure hbook hsolid hi hnone'
      exact ⟨a'', hsolid', hbook', hbar hi hbook ha hreads hchecked hsolid' hacted⟩

theorem books_force_close (h : Books P st) (hnone : st.raised = none)
    (hclosed : ∀ {a} (holding : Holding) (price : ℚ), P a →
      P (a.closed holding fee_bps price "force_close".toList)) :
    Books P (force_close parse fee_bps st) := by
  obtain ⟨a, hsolid, hbook, ha⟩ := h hnone
  cases hholding : a.holding with
  | none =>
      rw [force_close_of_none parse fee_bps hbook hholding]
      exact h
  | some holding =>
      cases hlast : candle_get parse (last_close st.candles) with
      | error e =>
          rw [force_close_of_unread parse fee_bps hbook hholding hlast]
          exact fun hraised => nomatch hraised
      | ok price =>
          rw [force_close_of_some parse fee_bps hbook hholding (hsolid _ hholding) hlast]
          exact fun _ => ⟨_, solid_closed a holding fee_bps price _, rfl, hclosed holding price ha⟩

/-- A phase keeps what its bar and a close at the end keep. -/
theorem books_advance {phase : Phase} (h : Books P st)
    (hbar : ∀ i, phase = .bar i → st.raised = none → Books P (bar parse tick_fn fee_bps st i))
    (hclosed : ∀ {a} (holding : Holding) (price : ℚ), P a →
      P (a.closed holding fee_bps price "force_close".toList)) :
    Books P (advance parse tick_fn fee_bps st phase) := by
  by_cases hraised : st.raised.isSome = true
  · rw [advance_of_raised parse tick_fn fee_bps hraised]
    exact h
  · have hnone : st.raised = none := by simpa using hraised
    rw [advance_of_not_raised parse tick_fn fee_bps hraised]
    cases phase with
    | bar i => exact hbar i rfl hnone
    | force_close => exact books_force_close h hnone hclosed

end Books

/-- Buys with a stop, and buys again when it is flat. -/
def stopped (stop_loss : ℚ) : TickFn Unit := fun _ ctx =>
  { state := ()
    touch := fun _ candle => candle
    tamper := fun position => position
    signal := some
      (if ctx.position = none then { opening with stop_loss := some (.num stop_loss) }
      else holding) }

theorem readOnly_stopped (stop_loss : ℚ) : ReadOnly (stopped stop_loss) :=
  ⟨fun _ _ _ _ => rfl, fun _ _ _ => rfl⟩

end ArticTrader.BacktestBook
