import ArticTrader.BacktestJournal
import ArticTrader.StrategyRunner

/-!
Backtests of a strategy through the runner, which rebuilds each signal from
action, size and reason, against backtests on the dicts the strategy returns.
-/

namespace ArticTrader.BacktestLevels

open ArticTrader.LabelledRuns
open ArticTrader.PythonNumbers
open ArticTrader.PythonText (Text)
open ArticTrader.BacktestEngine
open ArticTrader.BacktestTampering
open ArticTrader.BacktestBook
open ArticTrader.BacktestJournal
open ArticTrader.StrategyRunner

/-- A dict returned by `on_tick`; an entry is `none` where the key is missing. -/
structure Answer where
  action : Option Item
  size : Option Item
  reason : Option Item
  stop_loss : Option Value
  take_profit : Option Value

def Answer.reply (a : Answer) : Reply := .dict a.action a.size a.reason

/-- The dict as the engine reads it. -/
def Answer.signal (a : Answer) : Signal where
  action := a.action.map (·.value)
  size := a.size.map (·.value)
  stop_loss := a.stop_loss
  take_profit := a.take_profit

/-- The dict passes the validation of the runner. -/
def Answer.Valid (a : Answer) : Prop := ∃ result, check_reply a.reply = .ok result

def runner_signal (a : Answer) : Option Signal :=
  match check_reply a.reply with
  | .ok result => some result.signal
  | .error _ => none

/-- `runner.tick` on a strategy without effects -/
def runner_tick (on_tick : Ctx → Answer) : TickFn Unit := fun _ ctx =>
  { state := ()
    touch := fun _ candle => candle
    tamper := fun position => position
    signal := runner_signal (on_tick ctx) }

def own_tick (on_tick : Ctx → Answer) : TickFn Unit := fun _ ctx =>
  { state := ()
    touch := fun _ candle => candle
    tamper := fun position => position
    signal := some (on_tick ctx).signal }

def Answer.levelless (a : Answer) : Prop :=
  a.stop_loss.getD .none = .none ∧ a.take_profit.getD .none = .none

theorem readOnly_runner_tick (on_tick : Ctx → Answer) : ReadOnly (runner_tick on_tick) :=
  ⟨fun _ _ _ _ => rfl, fun _ _ _ => rfl⟩

theorem readOnly_own_tick (on_tick : Ctx → Answer) : ReadOnly (own_tick on_tick) :=
  ⟨fun _ _ _ _ => rfl, fun _ _ _ => rfl⟩

/-- What the validation lets through. -/
theorem Answer.Valid.fields {a : Answer} (h : a.Valid) :
    ∃ name size, a.action.map (·.value) = some (.str name) ∧
      (a.size.getD .zero).value = .num size ∧ 0 ≤ size ∧ size ≤ 1 ∧
      runner_signal a = some ⟨some (.str name), some (.num size), none, none⟩ := by
  obtain ⟨result, h⟩ := h
  have hsignal : runner_signal a = some result.signal := by rw [runner_signal, h]
  simp only [Answer.reply, check_reply, check_entries] at h
  split_ifs at h
  split at h
  · rename_i name haction
    split_ifs at h
    simp only [check_size] at h
    split at h
    · rename_i size hsize
      split_ifs at h with hbounds
      simp only [check_reason] at h
      split at h
      · cases h
        refine ⟨name, size, ?_, hsize, hbounds.1, hbounds.2, hsignal⟩
        cases hitem : a.action with
        | none =>
            rw [hitem] at haction
            cases haction
        | some item =>
            rw [hitem] at haction
            exact congrArg some haction
      · cases h
    · cases h
  · cases h

theorem clamp_of_mem {q : ℚ} (hzero : 0 ≤ q) (hone : q ≤ 1) : clamp q = q := by
  unfold clamp
  simp only
  grind

def bare_holding (h : Holding) : Holding := { h with stop_loss := none, take_profit := none }

/-- The books of a run that has never been told a level. -/
def bare (a : Account) : Account := { a with holding := a.holding.map bare_holding }

theorem bare_of_none {a : Account} (h : a.holding = none) : bare a = a := by
  obtain ⟨cash, holding, trades⟩ := a
  cases h
  rfl

theorem bare_of_some {a : Account} {h : Holding} (ha : a.holding = some h) :
    (bare a).holding = some (bare_holding h) := by
  rw [bare, ha]
  rfl

theorem solid_bare {a : Account} (ha : a.Solid) : (bare a).Solid := by
  intro h hh
  obtain ⟨h', hh', rfl⟩ := Option.map_eq_some_iff.mp hh
  exact ha h' hh'

theorem equity_bare (a : Account) (price : ℚ) : (bare a).equity price = a.equity price := by
  unfold Account.equity bare
  cases a.holding with
  | none => rfl
  | some h => rfl

theorem hit_bare_holding (h : Holding) (high low : ℚ) : (bare_holding h).hit high low = none := by
  obtain ⟨side, entry, size, stop, take⟩ := h
  cases side with
  | long => rfl
  | short => rfl

def SameAct (a a' : Answer) : Prop := runner_signal a = runner_signal a'

/-- The engine opens a position on this signal. -/
def Opens (parse : Text → Option ℚ) (book : Book) (signal : Signal) : Prop :=
  book.position = none ∧ 0 < book.cash ∧ 0 < size_frac parse signal ∧ wanted signal ≠ none

theorem opens_of_opening {parse : Text → Option ℚ} {a : Account} {signal : Signal} {side : Side}
    (h : opening_side parse a signal = some side) : Opens parse a.book signal := by
  obtain ⟨⟨hholding, hcash, hfrac⟩, h⟩ := (opening_side_some_iff parse).mp h
  refine ⟨book_of_none hholding, hcash, hfrac, ?_⟩
  rw [h]
  exact Option.some_ne_none side

theorem opening_of_opens {parse : Text → Option ℚ} {a : Account} {signal : Signal}
    (h : Opens parse a.book signal) : ∃ side, opening_side parse a signal = some side := by
  obtain ⟨hposition, hcash, hsize, hwanted⟩ := h
  obtain ⟨side, hside⟩ := Option.ne_none_iff_exists'.mp hwanted
  have ha : a.holding = none := Option.map_eq_none_iff.mp hposition
  exact ⟨side, by rw [opening_side, if_pos ⟨ha, hcash, hsize⟩, hside]⟩

variable {parse : Text → Option ℚ} {fee_bps : ℚ}

theorem wanted_congr {signal signal' : Signal} (h : signal.action = signal'.action) :
    wanted signal = wanted signal' := by
  unfold wanted
  rw [h]

theorem closes_congr {signal signal' : Signal} (h : signal.action = signal'.action) :
    closes signal ↔ closes signal' := by
  unfold closes
  rw [h]

theorem size_frac_of_num {signal : Signal} {q : ℚ} (h : signal.size = some (.num q))
    (hzero : 0 ≤ q) (hone : q ≤ 1) : size_frac parse signal = q := by
  unfold size_frac
  rw [h]
  exact clamp_of_mem hzero hone

theorem size_frac_of_given {a : Answer} {size : ℚ} (hgiven : a.size ≠ none)
    (hsize : (a.size.getD .zero).value = .num size) (hzero : 0 ≤ size) (hone : size ≤ 1) :
    size_frac parse a.signal = size := by
  obtain ⟨item, hitem⟩ := Option.ne_none_iff_exists'.mp hgiven
  rw [hitem] at hsize
  refine size_frac_of_num ?_ hzero hone
  rw [Answer.signal, hitem]
  exact congrArg some hsize

theorem opening_side_congr {a : Account} {signal signal' : Signal}
    (haction : signal.action = signal'.action)
    (hsize : size_frac parse signal = size_frac parse signal') :
    opening_side parse (bare a) signal' = opening_side parse a signal := by
  have hholding : (bare a).holding = none ↔ a.holding = none := Option.map_eq_none_iff
  unfold opening_side
  rw [hsize, wanted_congr haction]
  simp only [hholding]
  rfl

/-- One signal keeps the two runs together: it opens with the same size or not at
all, and its levels are numbers. -/
theorem after_tick_bare (fee_bps : ℚ) {a : Account} {ans ans' : Answer} {price : ℚ}
    (hvalid : ans.Valid)
    (hsame : SameAct ans ans') (ha : a.Solid)
    (hopen : Opens parse a.book ans.signal → ans.size ≠ none ∧
      (price ≠ 0 → (∃ stop, level parse ans.stop_loss = .ok stop) ∧
        ∃ take, level parse ans.take_profit = .ok take)) :
    (∃ a', a'.Solid ∧
      after_tick parse a.book (some ans.signal) price fee_bps = .ok (a'.book, a'.equity price) ∧
      after_tick parse (bare a).book (runner_signal ans') price fee_bps =
        .ok ((bare a').book, a'.equity price)) ∨
    ((∃ e, after_tick parse a.book (some ans.signal) price fee_bps = .error e) ∧
      ∃ e, after_tick parse (bare a).book (runner_signal ans') price fee_bps = .error e) := by
  obtain ⟨name, size, haction, hsize, hzero, hone, hsignal⟩ := hvalid.fields
  rw [← hsame, hsignal]
  have hfrac' : size_frac parse ⟨some (.str name), some (.num size), none, none⟩ = size :=
    size_frac_of_num rfl hzero hone
  cases hside : opening_side parse a ans.signal with
  | some side =>
      obtain ⟨hgiven, hlevels⟩ := hopen (opens_of_opening hside)
      have hfrac : size_frac parse ans.signal = size := size_frac_of_given hgiven hsize hzero hone
      have hside' := (opening_side_congr (a := a) haction (hfrac.trans hfrac'.symm)).trans hside
      by_cases hprice : price = 0
      · subst hprice
        exact .inr ⟨after_tick_of_zero parse hside fee_bps, after_tick_of_zero parse hside' fee_bps⟩
      · obtain ⟨⟨stop, hstop⟩, take, htake⟩ := hlevels hprice
        refine .inl ⟨_, ?_, after_tick_of_opening parse hside hstop htake hprice fee_bps, ?_⟩
        · intro h hh
          cases hh
          exact hprice
        · rw [after_tick_of_opening parse hside' rfl rfl hprice fee_bps, hfrac, hfrac',
            ← equity_bare]
          rfl
  | none =>
      have hside' : opening_side parse (bare a)
          ⟨some (.str name), some (.num size), none, none⟩ = none := by
        by_cases hgiven : ans.size = none
        · rw [hgiven] at hsize
          have hsize : size = 0 := by
            cases hsize
            rfl
          rw [opening_side, hfrac', hsize, if_neg]
          exact fun h => lt_irrefl 0 h.2.2
        · have hfrac : size_frac parse ans.signal = size :=
            size_frac_of_given hgiven hsize hzero hone
          exact (opening_side_congr (a := a) haction (hfrac.trans hfrac'.symm)).trans hside
      cases hholding : a.holding with
      | none =>
          refine .inl ⟨a, ha, after_tick_of_neither parse ha hside (.inl hholding) _ _, ?_⟩
          rw [bare_of_none hholding] at hside' ⊢
          exact after_tick_of_neither parse ha hside' (.inl hholding) _ _
      | some h =>
          have hholding' := bare_of_some hholding
          by_cases hclose : closes ans.signal
          · refine .inl ⟨_, solid_closed a h fee_bps price _,
              after_tick_of_closing parse hholding ha hclose price fee_bps, ?_⟩
            exact after_tick_of_closing parse hholding' (solid_bare ha)
              ((closes_congr haction).mp hclose) price fee_bps
          · refine .inl ⟨a, ha, after_tick_of_neither parse ha hside (.inr hclose) _ _, ?_⟩
            rw [← equity_bare]
            exact after_tick_of_neither parse (solid_bare ha) hside'
              (.inr fun h => hclose ((closes_congr haction).mpr h)) _ _

def hide_levels (position : Position) : Position :=
  { position with stop_loss := some .none, take_profit := some .none }

/-- What the strategy is shown in a bar in which no level is reached. -/
def seen (st : State Unit) (i : ℕ) : Ctx := ⟨window st.candles i, st.book.position⟩

/-- The same with the levels left out. -/
def seen_bare (st : State Unit) (i : ℕ) : Ctx :=
  ⟨window st.candles i, st.book.position.map hide_levels⟩

variable (parse) (on_tick : Ctx → Answer)

/-- In this bar no level is reached, the answer does not depend on the levels, and a dict
that opens a position gives its size and levels that are numbers. -/
def Unaffected (st : State Unit) : Phase → Prop
  | .bar i =>
      st.raised = none → ∀ candle high low price, st.candles[i]? = some candle →
        Reads parse candle high low price →
          (∀ position, st.book.position = some position →
            level_hit position high low = .ok none) ∧
          SameAct (on_tick (seen st i)) (on_tick (seen_bare st i)) ∧
          (Opens parse st.book (on_tick (seen st i)).signal →
            (on_tick (seen st i)).size ≠ none ∧
              (price ≠ 0 → (∃ stop, level parse (on_tick (seen st i)).stop_loss = .ok stop) ∧
                ∃ take, level parse (on_tick (seen st i)).take_profit = .ok take))
  | .force_close => True

/-- In this bar a dict that opens a position gives its size and no level. -/
def Plain (st : State Unit) : Phase → Prop
  | .bar i =>
      st.raised = none → ∀ candle high low price, st.candles[i]? = some candle →
        Reads parse candle high low price →
          Opens parse st.book (on_tick (seen st i)).signal →
            (on_tick (seen st i)).size ≠ none ∧
              (price ≠ 0 → (on_tick (seen st i)).levelless)
  | .force_close => True

/-- The run on the dicts and the run through the runner. -/
structure Hidden (st st' : State Unit) : Prop where
  raised : st'.raised.isSome = st.raised.isSome
  candles : st'.candles = st.candles
  equity_curve : st.raised = none → st'.equity_curve = st.equity_curve
  book : st.raised = none → ∃ a : Account, a.Solid ∧ st.book = a.book ∧ st'.book = (bare a).book

theorem bare_position (a : Account) :
    (bare a).book.position = a.book.position.map hide_levels := by
  unfold Account.book bare
  cases a.holding with
  | none => rfl
  | some h => rfl

theorem hidden_raise {st st' : State Unit} (hcandles : st'.candles = st.candles)
    (e e' : PyError) : Hidden (st.raise e) (st'.raise e') :=
  ⟨rfl, hcandles, fun h => (nomatch h), fun h => (nomatch h)⟩

theorem checked_of_no_hit {a a' : Account} {high low : ℚ} (h : Checked fee_bps high low a a')
    (hno : ∀ position, a.book.position = some position →
      level_hit position high low = .ok none) : a' = a := by
  cases h with
  | kept => rfl
  | closed holding _ hit =>
      have hlevel := hno _ (book_of_some holding)
      rw [level_hit_holding, hit] at hlevel
      cases hlevel

variable {on_tick} (fee_bps)

theorem hidden_bar (hvalid : ∀ ctx, (on_tick ctx).Valid) {st st' : State Unit}
    (h : Hidden st st') (hnone : st.raised = none) {i : ℕ}
    (hun : Unaffected parse on_tick st (.bar i)) :
    Hidden (bar parse (own_tick on_tick) fee_bps st i)
      (bar parse (runner_tick on_tick) fee_bps st' i) := by
  obtain ⟨a, hsolid, hbook, hbook'⟩ := h.book hnone
  cases hi : st.candles[i]? with
  | none =>
      have hi' : st'.candles[i]? = none := by rw [h.candles, hi]
      rw [bar_of_no_candle parse _ fee_bps hi, bar_of_no_candle parse _ fee_bps hi']
      exact h
  | some candle =>
      have hi' : st'.candles[i]? = some candle := by rw [h.candles, hi]
      by_cases hread : ∃ high low price, Reads parse candle high low price
      · obtain ⟨high, low, price, hreads⟩ := hread
        obtain ⟨hno, hsame, hopen⟩ := hun hnone candle high low price hi hreads
        obtain ⟨b, hchecked, -, hbar⟩ := bar_of_reads parse (own_tick on_tick) fee_bps hbook
          hsolid hi hreads
        obtain ⟨b', hchecked', -, hbar'⟩ := bar_of_reads parse (runner_tick on_tick) fee_bps hbook'
          (solid_bare hsolid) hi' hreads
        obtain rfl : b = a := by
          apply checked_of_no_hit hchecked
          rw [← hbook]
          exact hno
        obtain rfl : b' = bare b := by
          apply checked_of_no_hit hchecked'
          intro position hposition
          obtain ⟨h', hh', rfl⟩ := Option.map_eq_some_iff.mp hposition
          obtain ⟨h'', hh'', rfl⟩ := Option.map_eq_some_iff.mp hh'
          rw [level_hit_holding, hit_bare_holding]
        have hseen : (⟨window st.candles i, b.book.position⟩ : Ctx) = seen st i := by
          rw [seen, hbook]
        have hseen' : (⟨window st'.candles i, (bare b).book.position⟩ : Ctx) = seen_bare st i := by
          rw [seen_bare, h.candles, bare_position, hbook]
        have hcalled := called_book (readOnly_own_tick on_tick) st i b.book () (seen st i)
        have hcalled' := called_book (readOnly_runner_tick on_tick) st' i (bare b).book ()
          (seen_bare st i)
        have hcandles :
            (st'.called i (bare b).book (runner_tick on_tick () (seen_bare st i))).candles =
              (st.called i b.book (own_tick on_tick () (seen st i))).candles := by
          rw [called_candles (readOnly_runner_tick on_tick), called_candles
            (readOnly_own_tick on_tick), h.candles]
        rw [hbook] at hopen
        rw [hbar, hbar', answer, answer, hseen, hseen']
        change Hidden
          ((st.called i b.book (own_tick on_tick () (seen st i))).settle parse fee_bps
            (some (on_tick (seen st i)).signal) price)
          ((st'.called i (bare b).book (runner_tick on_tick () (seen_bare st i))).settle parse
            fee_bps (runner_signal (on_tick (seen_bare st i))) price)
        rcases after_tick_bare fee_bps (hvalid _) hsame hsolid hopen with
          ⟨a', hsolid', hafter, hafter'⟩ | ⟨⟨e, hafter⟩, e', hafter'⟩
        · rw [settle_of_ok parse hcalled hafter, settle_of_ok parse hcalled' hafter']
          refine ⟨h.raised, hcandles, ?_, fun _ => ⟨a', hsolid', rfl, rfl⟩⟩
          intro _
          change st'.equity_curve ++ _ = st.equity_curve ++ _
          rw [h.equity_curve hnone]
        · rw [settle_of_error parse hcalled hafter, settle_of_error parse hcalled' hafter']
          exact hidden_raise hcandles e e'
      · obtain ⟨e, he⟩ := before_tick_of_unread parse fee_bps hread
        rw [bar_of_error parse _ fee_bps hi (he _), bar_of_error parse _ fee_bps hi' (he _)]
        exact hidden_raise h.candles e e

theorem hidden_force_close {st st' : State Unit} (h : Hidden st st') (hnone : st.raised = none) :
    Hidden (force_close parse fee_bps st) (force_close parse fee_bps st') := by
  obtain ⟨a, hsolid, hbook, hbook'⟩ := h.book hnone
  cases ha : a.holding with
  | none =>
      have ha' : (bare a).holding = none := by rw [bare_of_none ha, ha]
      rw [force_close_of_none parse fee_bps hbook ha, force_close_of_none parse fee_bps hbook' ha']
      exact h
  | some holding =>
      have ha' := bare_of_some ha
      cases hlast : candle_get parse (last_close st.candles) with
      | error e =>
          have hlast' := hlast
          rw [← h.candles] at hlast'
          rw [force_close_of_unread parse fee_bps hbook ha hlast,
            force_close_of_unread parse fee_bps hbook' ha' hlast']
          exact hidden_raise h.candles e e
      | ok price =>
          have hlast' := hlast
          rw [← h.candles] at hlast'
          rw [force_close_of_some parse fee_bps hbook ha (hsolid _ ha) hlast,
            force_close_of_some parse fee_bps hbook' ha' (solid_bare hsolid _ ha') hlast',
            h.equity_curve hnone]
          exact ⟨h.raised, h.candles, fun _ => rfl,
            fun _ => ⟨_, solid_closed a holding fee_bps price _, rfl, rfl⟩⟩

theorem hidden_advance (hvalid : ∀ ctx, (on_tick ctx).Valid) {st st' : State Unit}
    (h : Hidden st st') {phase : Phase} (hun : Unaffected parse on_tick st phase) :
    Hidden (advance parse (own_tick on_tick) fee_bps st phase)
      (advance parse (runner_tick on_tick) fee_bps st' phase) := by
  by_cases hraised : st.raised.isSome = true
  · have hraised' : st'.raised.isSome = true := h.raised.trans hraised
    rw [advance_of_raised parse _ fee_bps hraised, advance_of_raised parse _ fee_bps hraised']
    exact h
  · have hraised' : ¬ st'.raised.isSome = true := by rw [h.raised]; exact hraised
    have hnone : st.raised = none := by simpa using hraised
    rw [advance_of_not_raised parse _ fee_bps hraised,
      advance_of_not_raised parse _ fee_bps hraised']
    cases phase with
    | bar i => exact hidden_bar parse fee_bps hvalid h hnone hun
    | force_close => exact hidden_force_close parse fee_bps h hnone

/-- The trades and the equity that the backtest returns, if it returns. -/
def outcome (st : State Unit) : Option Result := st.result.toOption

theorem outcome_of_raised {st : State Unit} (h : st.raised.isSome = true) : outcome st = none := by
  obtain ⟨e, he⟩ := Option.isSome_iff_exists.mp h
  rw [outcome, State.result, he]
  rfl

theorem outcome_of_not_raised {st : State Unit} (h : st.raised = none) :
    outcome st = some ⟨st.equity_curve, st.book.trades, st.equity_curve.getLastD 0⟩ := by
  rw [outcome, State.result, h]
  rfl

theorem Hidden.outcome_eq {st st' : State Unit} (h : Hidden st st') : outcome st' = outcome st := by
  by_cases hraised : st.raised.isSome = true
  · rw [outcome_of_raised hraised, outcome_of_raised (h.raised.trans hraised)]
  · have hnone : st.raised = none := by simpa using hraised
    have hnone' : st'.raised = none := by simpa [hnone] using h.raised
    obtain ⟨a, -, hbook, hbook'⟩ := h.book hnone
    rw [outcome_of_not_raised hnone, outcome_of_not_raised hnone', h.equity_curve hnone, hbook,
      hbook']
    rfl

theorem hidden_start (candles : List Candle) (initial_usdt : ℚ) :
    Hidden (start candles initial_usdt ()) (start candles initial_usdt ()) := by
  refine ⟨rfl, rfl, fun _ => rfl, fun _ => ⟨⟨initial_usdt, none, []⟩, ?_, rfl, rfl⟩⟩
  intro h hh
  cases hh

abbrev own_step (on_tick : Ctx → Answer) : State Unit → Phase → Option (State Unit) :=
  fun st phase => some (advance parse (own_tick on_tick) fee_bps st phase)

theorem hidden_run (hvalid : ∀ ctx, (on_tick ctx).Valid) {candles : List Candle}
    {initial_usdt : ℚ} {ps : List Phase}
    (hall : AllSteps (own_step parse fee_bps on_tick) (Unaffected parse on_tick)
      (start candles initial_usdt ()) ps) :
    Hidden
      (ps.foldl (advance parse (own_tick on_tick) fee_bps) (start candles initial_usdt ()))
      (ps.foldl (advance parse (runner_tick on_tick) fee_bps) (start candles initial_usdt ())) := by
  apply foldl_rel_of_allSteps (R := Hidden) ?_ hall (hidden_start candles initial_usdt)
  intro st st' phase h hun
  exact hidden_advance parse fee_bps hvalid h hun

theorem outcome_eq_of_unaffected (hvalid : ∀ ctx, (on_tick ctx).Valid) {candles : List Candle}
    {initial_usdt : ℚ}
    (hall : AllSteps (own_step parse fee_bps on_tick) (Unaffected parse on_tick)
      (start candles initial_usdt ()) (phases candles.length)) :
    outcome (backtest parse (runner_tick on_tick) fee_bps candles initial_usdt ()) =
      outcome (backtest parse (own_tick on_tick) fee_bps candles initial_usdt ()) :=
  (hidden_run parse fee_bps hvalid hall).outcome_eq

/-- No level has been given so far. -/
def Untold (st : State Unit) : Prop :=
  st.raised = none → ∃ a : Account, a.Solid ∧ st.book = a.book ∧ bare a = a

theorem level_of_levelless {v : Option Value} (h : v.getD .none = .none) :
    level parse v = .ok none := by
  unfold level
  rw [h]

theorem no_hit_of_bare {a : Account} (ha : bare a = a) {position : Position}
    (hposition : a.book.position = some position) (high low : ℚ) :
    level_hit position high low = .ok none := by
  rw [← ha] at hposition
  obtain ⟨h, hh, rfl⟩ := Option.map_eq_some_iff.mp hposition
  obtain ⟨h', -, rfl⟩ := Option.map_eq_some_iff.mp hh
  rw [level_hit_holding, hit_bare_holding]

theorem seen_bare_of_untold {st : State Unit} {a : Account} (hbook : st.book = a.book)
    (ha : bare a = a) (i : ℕ) : seen_bare st i = seen st i := by
  rw [seen_bare, seen, hbook, ← bare_position, ha]

theorem unaffected_of_plain {st : State Unit} {phase : Phase} (h : Untold st)
    (hplain : Plain parse on_tick st phase) : Unaffected parse on_tick st phase := by
  cases phase with
  | force_close => trivial
  | bar i =>
      intro hnone candle high low price hi hreads
      obtain ⟨a, -, hbook, ha⟩ := h hnone
      refine ⟨?_, ?_, ?_⟩
      · intro position hposition
        rw [hbook] at hposition
        exact no_hit_of_bare ha hposition high low
      · rw [SameAct, seen_bare_of_untold hbook ha]
      · intro hopens
        obtain ⟨hsize, hlevels⟩ := hplain hnone candle high low price hi hreads hopens
        refine ⟨hsize, ?_⟩
        intro hprice
        obtain ⟨hstop, htake⟩ := hlevels hprice
        exact ⟨⟨none, level_of_levelless parse hstop⟩, none, level_of_levelless parse htake⟩

theorem untold_bar {st : State Unit} (h : Untold st) (hnone : st.raised = none) {i : ℕ}
    (hplain : Plain parse on_tick st (.bar i)) :
    Untold (bar parse (own_tick on_tick) fee_bps st i) := by
  refine books_bar (readOnly_own_tick on_tick) h hnone ?_
  intro candle high low price a b c hi hbook ha hreads hchecked hsolid hacted
  obtain rfl : b = a := checked_of_no_hit hchecked fun position hposition =>
    no_hit_of_bare ha hposition high low
  have hsignal : (answer (own_tick on_tick) st i b).signal.getD tick_error =
      (on_tick (seen st i)).signal := by
    rw [seen, hbook]
    rfl
  rw [hsignal] at hacted
  cases hacted with
  | kept => exact ha
  | closed => rfl
  | opened opening hstop htake =>
      have hopens := opens_of_opening opening
      rw [← hbook] at hopens
      have hprice : price ≠ 0 := hsolid _ rfl
      obtain ⟨-, hlevels⟩ := hplain hnone candle high low price hi hreads hopens
      obtain ⟨hstop', htake'⟩ := hlevels hprice
      rw [Answer.signal, level_of_levelless parse hstop'] at hstop
      rw [Answer.signal, level_of_levelless parse htake'] at htake
      cases hstop
      cases htake
      rfl

theorem untold_advance {st : State Unit} {phase : Phase} (h : Untold st)
    (hplain : Plain parse on_tick st phase) :
    Untold (advance parse (own_tick on_tick) fee_bps st phase) := by
  refine books_advance h ?_ ?_
  · rintro i rfl hnone
    exact untold_bar parse fee_bps h hnone hplain
  · intro a holding price _
    rfl

theorem untold_start (candles : List Candle) (initial_usdt : ℚ) :
    Untold (start candles initial_usdt ()) :=
  books_start (P := fun a => bare a = a) rfl candles ()

theorem allSteps_unaffected_of_plain {candles : List Candle} {initial_usdt : ℚ} {ps : List Phase}
    (hall : AllSteps (own_step parse fee_bps on_tick) (Plain parse on_tick)
      (start candles initial_usdt ()) ps) :
    AllSteps (own_step parse fee_bps on_tick) (Unaffected parse on_tick)
      (start candles initial_usdt ()) ps := by
  refine hall.of_invariant (P := Untold) ?_ ?_ (untold_start candles initial_usdt)
  · intro st phase st' h hplain hstep
    cases hstep
    exact untold_advance parse fee_bps h hplain
  · intro st phase h hplain
    exact unaffected_of_plain parse h hplain

/-- No trade has been closed at a level. -/
def Unhit (trades : List Trade) : Prop :=
  ∀ trade ∈ trades, trade.reason ≠ "stop_loss".toList ∧ trade.reason ≠ "take_profit".toList

theorem unhit_append {trades : List Trade} (h : Unhit trades) (holding : Holding) (exit : ℚ)
    {reason : Text} (hreason : reason ≠ "stop_loss".toList ∧ reason ≠ "take_profit".toList) :
    Unhit (trades ++ [holding.trade exit reason]) := by
  intro t ht
  rcases List.mem_append.mp ht with hold | hnew
  · exact h t hold
  · rw [List.mem_singleton.mp hnew]
    exact hreason

/-- What the runner leaves of the books. -/
def Bare (st : State Unit) : Prop :=
  st.raised = none →
    ∃ a : Account, a.Solid ∧ st.book = a.book ∧ bare a = a ∧ Unhit a.trades

theorem bare_runner_bar (hvalid : ∀ ctx, (on_tick ctx).Valid) {st : State Unit} (h : Bare st)
    (hnone : st.raised = none) (i : ℕ) :
    Bare (bar parse (runner_tick on_tick) fee_bps st i) := by
  refine books_bar (readOnly_runner_tick on_tick) h hnone ?_
  rintro candle high low price a b c - - ⟨ha, hunhit⟩ - hchecked - hacted
  obtain rfl : b = a := checked_of_no_hit hchecked fun position hposition =>
    no_hit_of_bare ha hposition high low
  obtain ⟨name, size, -, -, -, -, hsignal⟩ :=
    (hvalid ⟨window st.candles i, b.book.position⟩).fields
  have hanswer : (answer (runner_tick on_tick) st i b).signal =
      some ⟨some (.str name), some (.num size), none, none⟩ := hsignal
  rw [hanswer] at hacted
  cases hacted with
  | kept => exact ⟨ha, hunhit⟩
  | closed => exact ⟨rfl, unhit_append hunhit _ price (by decide)⟩
  | opened opening hstop htake =>
      cases hstop
      cases htake
      exact ⟨rfl, hunhit⟩

theorem bare_runner_advance (hvalid : ∀ ctx, (on_tick ctx).Valid) {st : State Unit} (h : Bare st)
    (phase : Phase) : Bare (advance parse (runner_tick on_tick) fee_bps st phase) := by
  refine books_advance h ?_ ?_
  · intro i _ hnone
    exact bare_runner_bar parse fee_bps hvalid h hnone i
  · rintro a holding price ⟨-, hunhit⟩
    exact ⟨rfl, unhit_append hunhit holding price (by decide)⟩

/-- A backtest through the runner never closes a trade at a level. -/
theorem bare_runner_run (hvalid : ∀ ctx, (on_tick ctx).Valid) (candles : List Candle)
    (initial_usdt : ℚ) (ps : List Phase) :
    Bare (ps.foldl (advance parse (runner_tick on_tick) fee_bps)
      (start candles initial_usdt ())) := by
  have hstart : Bare (start candles initial_usdt ()) := by
    refine books_start ⟨rfl, ?_⟩ candles ()
    intro trade htrade
    cases htrade
  refine run_invariant (P := Bare) ?_ (run_total _ _ ps) hstart
  intro st phase st' h hstep
  cases hstep
  exact bare_runner_advance parse fee_bps hvalid h phase

/-- One bar over books without a level. -/
theorem advance_bar_of_bare {tick_fn : TickFn Unit} {st : State Unit} {a : Account} {i : ℕ}
    {candle : Candle} {high low price : ℚ} (hnone : st.raised = none) (hbook : st.book = a.book)
    (hsolid : a.Solid) (ha : bare a = a) (hi : st.candles[i]? = some candle)
    (hreads : Reads parse candle high low price) :
    advance parse tick_fn fee_bps st (.bar i) =
      (st.called i a.book (tick_fn () (seen st i))).settle parse fee_bps
        (tick_fn () (seen st i)).signal price := by
  obtain ⟨b, hchecked, -, hbar⟩ := bar_of_reads parse tick_fn fee_bps hbook hsolid hi hreads
  obtain rfl : b = a := checked_of_no_hit hchecked fun position hposition =>
    no_hit_of_bare ha hposition high low
  rw [advance_of_not_raised parse _ fee_bps (by simp [hnone])]
  change bar parse tick_fn fee_bps st i = _
  rw [hbar, answer, seen, hbook]

/-- At a price that is not zero the runner's signals do not raise. -/
theorem runner_bar_ok (hvalid : ∀ ctx, (on_tick ctx).Valid) {st : State Unit} {a : Account}
    {i : ℕ} {candle : Candle} {high low price : ℚ} (hnone : st.raised = none)
    (hbook : st.book = a.book) (hsolid : a.Solid) (ha : bare a = a)
    (hi : st.candles[i]? = some candle) (hreads : Reads parse candle high low price)
    (hprice : price ≠ 0 ∨ a.holding ≠ none) :
    ∃ b : Account, b.Solid ∧
      (advance parse (runner_tick on_tick) fee_bps st (.bar i)).raised = none ∧
      (advance parse (runner_tick on_tick) fee_bps st (.bar i)).book = b.book := by
  obtain ⟨name, size, -, -, -, -, hsignal⟩ := (hvalid (seen st i)).fields
  have hafter : ∃ b : Account, b.Solid ∧
      after_tick parse a.book (some ⟨some (.str name), some (.num size), none, none⟩) price
        fee_bps = .ok (b.book, b.equity price) := by
    cases hside : opening_side parse a ⟨some (.str name), some (.num size), none, none⟩ with
    | some side =>
        have hprice : price ≠ 0 := by
          rcases hprice with hprice | hholding
          · exact hprice
          · exact absurd (holding_of_opening parse hside) hholding
        refine ⟨_, ?_, after_tick_of_opening parse hside rfl rfl hprice fee_bps⟩
        intro h hh
        cases hh
        exact hprice
    | none =>
        cases hholding : a.holding with
        | none =>
            exact ⟨a, hsolid, after_tick_of_neither parse hsolid hside (.inl hholding) _ _⟩
        | some h =>
            by_cases hclose : closes ⟨some (.str name), some (.num size), none, none⟩
            · exact ⟨_, solid_closed a h fee_bps price _,
                after_tick_of_closing parse hholding hsolid hclose price fee_bps⟩
            · exact ⟨a, hsolid, after_tick_of_neither parse hsolid hside (.inr hclose) _ _⟩
  obtain ⟨b, hsolid', hafter⟩ := hafter
  have hcalled := called_book (readOnly_runner_tick on_tick) st i a.book () (seen st i)
  have hanswer : (runner_tick on_tick () (seen st i)).signal =
      some ⟨some (.str name), some (.num size), none, none⟩ := hsignal
  rw [advance_bar_of_bare parse fee_bps hnone hbook hsolid ha hi hreads, hanswer,
    settle_of_ok parse hcalled hafter]
  exact ⟨b, hsolid', hnone, rfl⟩

theorem force_close_ok (tick_fn : TickFn Unit) {st : State Unit} {a : Account} {price : ℚ}
    (hnone : st.raised = none) (hbook : st.book = a.book) (hsolid : a.Solid)
    (hlast : candle_get parse (last_close st.candles) = .ok price) :
    (advance parse tick_fn fee_bps st .force_close).raised = none ∧
      (advance parse tick_fn fee_bps st .force_close).book.trades.length =
        a.trades.length + if a.holding = none then 0 else 1 := by
  rw [advance_of_not_raised parse _ fee_bps (by simp [hnone])]
  change (force_close parse fee_bps st).raised = none ∧
    (force_close parse fee_bps st).book.trades.length = _
  cases ha : a.holding with
  | none =>
      rw [force_close_of_none parse fee_bps hbook ha, hbook]
      exact ⟨hnone, rfl⟩
  | some h =>
      rw [force_close_of_some parse fee_bps hbook ha (hsolid h ha) hlast]
      refine ⟨hnone, ?_⟩
      change (a.trades ++ [_]).length = _
      rw [List.length_append, List.length_singleton, if_neg (Option.some_ne_none h)]

/-- A run on the way into bar `i`, with the books `a`. -/
structure Stands (candles : List Candle) (ctx : Ctx) (i : ℕ) (a : Account) (st : State Unit) :
    Prop where
  raised : st.raised = none
  book : st.book = a.book
  candles : st.candles = candles
  seen : seen st i = ctx

/-- Up to the bar in which a level is given, the two runs are the same on all candles that
begin alike. -/
theorem stands_of_plain (hvalid : ∀ ctx, (on_tick ctx).Valid) {candles : List Candle}
    {initial_usdt : ℚ} {i : ℕ}
    (hall : AllSteps (own_step parse fee_bps on_tick) (Plain parse on_tick)
      (start candles initial_usdt ()) (bars i)) {m : State Unit}
    (hm : (bars i).foldl (advance parse (own_tick on_tick) fee_bps)
      (start candles initial_usdt ()) = m) (hnone : m.raised = none) :
    ∃ a : Account, a.Solid ∧ bare a = a ∧ m.book = a.book ∧
      ∀ candles', candles.take (i + 1) = candles'.take (i + 1) →
        Stands candles' (seen m i) i a ((bars i).foldl (advance parse (own_tick on_tick) fee_bps)
          (start candles' initial_usdt ())) ∧
        Stands candles' (seen m i) i a
          ((bars i).foldl (advance parse (runner_tick on_tick) fee_bps)
            (start candles' initial_usdt ())) := by
  have hhidden := hidden_run parse fee_bps hvalid (allSteps_unaffected_of_plain parse fee_bps hall)
  have huntold : Untold m := by
    subst hm
    refine run_invariant_of_allSteps (P := Untold) ?_ (run_total _ _ _) hall
      (untold_start candles initial_usdt)
    intro st phase st' h hplain hstep
    cases hstep
    exact untold_advance parse fee_bps h hplain
  rw [hm] at hhidden
  obtain ⟨a, hsolid, hbook, ha⟩ := huntold hnone
  have hbook' : ((bars i).foldl (advance parse (runner_tick on_tick) fee_bps)
      (start candles initial_usdt ())).book = a.book := by
    obtain ⟨b, -, hb, hb'⟩ := hhidden.book hnone
    have hposition : (bare b).book.position = (bare a).book.position := by
      rw [bare_position, bare_position, ← hb, ← hbook]
    have hcash : b.cash = a.cash := congrArg Book.cash (hb.symm.trans hbook)
    have htrades : b.trades = a.trades := congrArg Book.trades (hb.symm.trans hbook)
    rw [hb', ← ha]
    unfold Account.book at hposition ⊢
    rw [Book.mk.injEq]
    exact ⟨hcash, hposition, htrades⟩
  refine ⟨a, hsolid, ha, hbook, ?_⟩
  intro candles' htake
  constructor
  · have hpast := samePast_bars parse (own_tick on_tick) fee_bps htake initial_usdt ()
    rw [hm] at hpast
    refine ⟨hpast.raised.trans hnone, hpast.book.trans hbook,
      candles_foldl parse _ fee_bps (readOnly_own_tick on_tick) _ _, ?_⟩
    rw [seen, seen, hpast.window (Nat.lt_succ_self i), hpast.book]
  · have hpast := samePast_bars parse (runner_tick on_tick) fee_bps htake initial_usdt ()
    have hraised := hhidden.raised
    rw [hnone] at hraised
    refine ⟨hpast.raised.trans (by simpa using hraised), hpast.book.trans hbook',
      candles_foldl parse _ fee_bps (readOnly_runner_tick on_tick) _ _, ?_⟩
    rw [seen, seen, hpast.window (Nat.lt_succ_self i), hpast.book, hbook', hbook,
      hhidden.candles]

theorem raised_of_advance {tick_fn : TickFn Unit} {st : State Unit} {phase : Phase}
    (h : (advance parse tick_fn fee_bps st phase).raised = none) : st.raised = none := by
  by_contra hraised
  have hsome : st.raised.isSome = true := by
    rw [Option.isSome_iff_ne_none]
    exact hraised
  rw [advance_of_raised parse tick_fn fee_bps hsome] at h
  exact hraised h

theorem trades_eq_of_outcome {st st' : State Unit} (h : outcome st' = outcome st)
    (hnone : st'.raised = none) : st.raised = none ∧ st.book.trades = st'.book.trades := by
  rw [outcome_of_not_raised hnone] at h
  by_cases hraised : st.raised.isSome = true
  · rw [outcome_of_raised hraised] at h
    cases h
  · have hnone' : st.raised = none := by simpa using hraised
    rw [outcome_of_not_raised hnone', Option.some_inj, Result.mk.injEq] at h
    exact ⟨hnone', h.2.1.symm⟩

theorem last_close_take {candles : List Candle} {i : ℕ} {candle : Candle}
    (hi : candles[i]? = some candle) : last_close (candles.take (i + 1)) = candle.close := by
  obtain ⟨hlt, hget⟩ := List.getElem?_eq_some_iff.mp hi
  rw [last_close, List.take_add_one, List.getLast?_append, hi]
  rfl

theorem backtest_take {tick_fn : TickFn Unit} {candles : List Candle} {i : ℕ} (hi : WARMUP ≤ i)
    (hlength : candles.length = i + 1) (initial_usdt : ℚ) :
    backtest parse tick_fn fee_bps candles initial_usdt () =
      advance parse tick_fn fee_bps
        (advance parse tick_fn fee_bps
          ((bars i).foldl (advance parse tick_fn fee_bps) (start candles initial_usdt ()))
          (.bar i)) .force_close := by
  unfold backtest phases
  rw [hlength, if_neg (by omega), bars_succ hi, List.append_assoc, List.foldl_append]
  rfl

theorem bar_of_after_ok {tick_fn : TickFn Unit} (hpure : ReadOnly tick_fn) {candles : List Candle}
    {ctx : Ctx} {i : ℕ} {a b : Account} {st : State Unit} {candle : Candle}
    {high low price equity : ℚ} (h : Stands candles ctx i a st) (hsolid : a.Solid)
    (ha : bare a = a) (hi : candles[i]? = some candle) (hreads : Reads parse candle high low price)
    (hafter : after_tick parse a.book (tick_fn () ctx).signal price fee_bps =
      .ok (b.book, equity)) :
    (advance parse tick_fn fee_bps st (.bar i)).raised = none ∧
      (advance parse tick_fn fee_bps st (.bar i)).book = b.book := by
  have hcalled := called_book hpure st i a.book () ctx
  rw [advance_bar_of_bare parse fee_bps h.raised h.book hsolid ha (by rw [h.candles, hi]) hreads,
    h.seen, settle_of_ok parse hcalled hafter]
  exact ⟨h.raised, rfl⟩

theorem after_ok_of_bar {tick_fn : TickFn Unit} (hpure : ReadOnly tick_fn) {candles : List Candle}
    {ctx : Ctx} {i : ℕ} {a : Account} {st : State Unit} {candle : Candle}
    {high low price : ℚ} (h : Stands candles ctx i a st) (hsolid : a.Solid)
    (ha : bare a = a) (hi : candles[i]? = some candle) (hreads : Reads parse candle high low price)
    (hnone : (advance parse tick_fn fee_bps st (.bar i)).raised = none) :
    ∃ b : Account, b.Solid ∧
      Acted parse ((tick_fn () ctx).signal.getD tick_error) price fee_bps a b ∧
      (advance parse tick_fn fee_bps st (.bar i)).book = b.book := by
  have hcalled := called_book hpure st i a.book () ctx
  rw [advance_bar_of_bare parse fee_bps h.raised h.book hsolid ha (by rw [h.candles, hi]) hreads,
    h.seen] at hnone ⊢
  rcases settle_cases parse fee_bps hcalled (tick_fn () ctx).signal price with
    ⟨b, hsolid', hacted, hsettle⟩ | ⟨e, -, hsettle⟩
  · exact ⟨b, hsolid', hacted, by rw [hsettle]⟩
  · rw [hsettle] at hnone
    cases hnone

theorem opened_of_acted {signal : Signal} {price : ℚ} {a b : Account}
    (h : Acted parse signal price fee_bps a b) (hopens : Opens parse a.book signal) :
    b.trades = a.trades ∧ ∃ side stop take, level parse signal.stop_loss = .ok stop ∧
      level parse signal.take_profit = .ok take ∧
      b.holding = some ⟨side, price, a.cash * size_frac parse signal, stop, take⟩ := by
  obtain ⟨side, hside⟩ := opening_of_opens hopens
  cases h with
  | kept opening =>
      rw [hside] at opening
      cases opening
  | opened _ hstop htake => exact ⟨rfl, _, _, _, hstop, htake, rfl⟩
  | closed holding =>
      rw [holding_of_opening parse hside] at holding
      cases holding

/-- The dict gives the size, or the last bar tells the runs apart. -/
theorem size_given (hvalid : ∀ ctx, (on_tick ctx).Valid) {candles : List Candle} {i : ℕ}
    {a : Account} {st st' : State Unit} {ctx : Ctx} {candle : Candle} {high low price : ℚ}
    (h : Stands (candles.take (i + 1)) ctx i a st) (h' : Stands (candles.take (i + 1)) ctx i a st')
    (hsolid : a.Solid) (ha : bare a = a) (hi : candles[i]? = some candle)
    (hreads : Reads parse candle high low price)
    (hopens : Opens parse a.book (on_tick ctx).signal)
    (hagree : outcome (advance parse (runner_tick on_tick) fee_bps
        (advance parse (runner_tick on_tick) fee_bps st' (.bar i)) .force_close) =
      outcome (advance parse (own_tick on_tick) fee_bps
        (advance parse (own_tick on_tick) fee_bps st (.bar i)) .force_close)) :
    (on_tick ctx).size ≠ none := by
  intro hmissing
  obtain ⟨name, size, -, hsize, hzero, hone, hsignal⟩ := (hvalid ctx).fields
  have hholding : a.holding = none := Option.map_eq_none_iff.mp hopens.1
  have hi' : (candles.take (i + 1))[i]? = some candle := by
    rw [List.getElem?_take_of_lt (Nat.lt_succ_self i), hi]
  have hlast : candle_get parse (last_close (candles.take (i + 1))) = .ok price := by
    rw [last_close_take hi]
    exact hreads.close
  obtain rfl : size = 0 := by
    rw [hmissing] at hsize
    cases hsize
    rfl
  have hflat : opening_side parse a ⟨some (.str name), some (.num 0), none, none⟩ = none := by
    rw [opening_side, size_frac_of_num rfl hzero hone, if_neg]
    exact fun hguard => lt_irrefl 0 hguard.2.2
  have hrunner : (advance parse (runner_tick on_tick) fee_bps st' (.bar i)).raised = none ∧
      (advance parse (runner_tick on_tick) fee_bps st' (.bar i)).book = a.book := by
    apply bar_of_after_ok parse fee_bps (readOnly_runner_tick on_tick) h' hsolid ha hi' hreads
    change after_tick parse a.book (runner_signal (on_tick ctx)) price fee_bps = _
    rw [hsignal]
    exact after_tick_of_neither parse hsolid hflat (.inl hholding) price fee_bps
  have hrunner' := force_close_ok parse fee_bps (runner_tick on_tick) hrunner.1
    hrunner.2 hsolid (by rw [candles_advance parse _ fee_bps (readOnly_runner_tick on_tick),
      h'.candles, hlast])
  obtain ⟨hnone, htrades⟩ := trades_eq_of_outcome hagree hrunner'.1
  have hbar := raised_of_advance parse fee_bps hnone
  obtain ⟨b, hsolid', hacted, hbook⟩ := after_ok_of_bar parse fee_bps (readOnly_own_tick on_tick)
    h hsolid ha hi' hreads hbar
  obtain ⟨hkept, side, stop, take, -, -, hopened⟩ := opened_of_acted parse fee_bps hacted hopens
  have hown := force_close_ok parse fee_bps (own_tick on_tick) hbar hbook hsolid'
    (by rw [candles_advance parse _ fee_bps (readOnly_own_tick on_tick), h.candles, hlast])
  rw [hopened, if_neg (Option.some_ne_none _), hkept] at hown
  rw [hholding, if_pos rfl] at hrunner'
  have hlength := congrArg List.length htrades
  omega

/-- The dict gives levels that are numbers, or the last bar tells the runs apart. -/
theorem levels_read (hvalid : ∀ ctx, (on_tick ctx).Valid) {candles : List Candle} {i : ℕ}
    {a : Account} {st st' : State Unit} {ctx : Ctx} {candle : Candle} {high low price : ℚ}
    (h : Stands (candles.take (i + 1)) ctx i a st) (h' : Stands (candles.take (i + 1)) ctx i a st')
    (hsolid : a.Solid) (ha : bare a = a) (hi : candles[i]? = some candle)
    (hreads : Reads parse candle high low price) (hprice : price ≠ 0)
    (hopens : Opens parse a.book (on_tick ctx).signal)
    (hagree : outcome (advance parse (runner_tick on_tick) fee_bps
        (advance parse (runner_tick on_tick) fee_bps st' (.bar i)) .force_close) =
      outcome (advance parse (own_tick on_tick) fee_bps
        (advance parse (own_tick on_tick) fee_bps st (.bar i)) .force_close)) :
    ∃ stop take, level parse (on_tick ctx).stop_loss = .ok stop ∧
      level parse (on_tick ctx).take_profit = .ok take := by
  have hi' : (candles.take (i + 1))[i]? = some candle := by
    rw [List.getElem?_take_of_lt (Nat.lt_succ_self i), hi]
  obtain ⟨b, hsolid', hraised, hbook⟩ := runner_bar_ok parse fee_bps hvalid h'.raised h'.book
    hsolid ha (by rw [h'.candles, hi']) hreads (.inl hprice)
  have hrunner := force_close_ok parse fee_bps (runner_tick on_tick) hraised hbook hsolid'
    (by rw [candles_advance parse _ fee_bps (readOnly_runner_tick on_tick), h'.candles,
      last_close_take hi, hreads.close])
  obtain ⟨hnone, -⟩ := trades_eq_of_outcome hagree hrunner.1
  obtain ⟨c, -, hacted, -⟩ := after_ok_of_bar parse fee_bps (readOnly_own_tick on_tick) h hsolid
    ha hi' hreads (raised_of_advance parse fee_bps hnone)
  obtain ⟨-, side, stop, take, hstop, htake, -⟩ := opened_of_acted parse fee_bps hacted hopens
  exact ⟨stop, take, hstop, htake⟩

def level_candle (q : ℚ) : Candle where
  timestamp := none
  open_ := some (.num q)
  high := some (.num q)
  low := some (.num q)
  close := some (.num q)
  volume := none

theorem reads_level_candle (q : ℚ) : Reads parse (level_candle q) q q q := ⟨rfl, rfl, rfl⟩

/-- A candle that stands at a level triggers it. -/
theorem exists_hit {stop take : Option ℚ} (h : stop ≠ none ∨ take ≠ none) :
    ∃ q reason, (reason = "stop_loss".toList ∨ reason = "take_profit".toList) ∧
      ∀ side entry size, (Holding.mk side entry size stop take).hit q q = some (q, reason) := by
  have hfilter : ∀ (x : ℚ) (p : ℚ → Bool), p x = true → (some x).filter p = some x := by
    intro x p hp
    rw [Option.filter_some, hp, if_pos rfl]
  cases stop with
  | some q =>
      refine ⟨q, "stop_loss".toList, .inl rfl, ?_⟩
      intro side entry size
      cases side with
      | long =>
          change first_level ((some q).filter (q ≤ ·)) _ = _
          rw [hfilter q _ (decide_eq_true le_rfl)]
          rfl
      | short =>
          change first_level ((some q).filter (· ≤ q)) _ = _
          rw [hfilter q _ (decide_eq_true le_rfl)]
          rfl
  | none =>
      obtain ⟨q, rfl⟩ := Option.ne_none_iff_exists'.mp (h.resolve_left (fun hne => hne rfl))
      refine ⟨q, "take_profit".toList, .inr rfl, ?_⟩
      intro side entry size
      cases side with
      | long =>
          change first_level none ((some q).filter (· ≤ q)) = _
          rw [hfilter q _ (decide_eq_true le_rfl)]
          rfl
      | short =>
          change first_level none ((some q).filter (q ≤ ·)) = _
          rw [hfilter q _ (decide_eq_true le_rfl)]
          rfl

theorem trade_of_hit {tick_fn : TickFn Unit} (hpure : ReadOnly tick_fn) {st : State Unit}
    {a : Account} {h : Holding} {i : ℕ} {candle : Candle} {high low price exit : ℚ} {reason : Text}
    (hnone : st.raised = none) (hbook : st.book = a.book) (hsolid : a.Solid)
    (ha : a.holding = some h) (hi : st.candles[i]? = some candle)
    (hreads : Reads parse candle high low price) (hhit : h.hit high low = some (exit, reason)) :
    h.trade exit reason ∈ (advance parse tick_fn fee_bps st (.bar i)).book.trades := by
  obtain ⟨b, hchecked, hafter⟩ := bar_book parse tick_fn fee_bps hpure hbook hsolid hi hreads
  rw [advance_of_not_raised parse _ fee_bps (by simp [hnone])]
  change h.trade exit reason ∈ (bar parse tick_fn fee_bps st i).book.trades
  cases hchecked with
  | kept hno =>
      rw [hno h ha] at hhit
      cases hhit
  | closed holding _ hit =>
      rw [ha] at holding
      cases holding
      rw [hit] at hhit
      cases hhit
      rcases hafter with ⟨signal, c, -, hacted, hbar⟩ | ⟨hbar, -⟩
      · rw [hbar, book_trades, hacted.trades_of_none parse rfl]
        exact List.mem_append_right _ (List.mem_singleton_self _)
      · rw [hbar]
        exact List.mem_append_right _ (List.mem_singleton_self _)

theorem backtest_take_succ {tick_fn : TickFn Unit} {candles : List Candle} {i : ℕ}
    (hi : WARMUP ≤ i) (hlength : candles.length = i + 2) (initial_usdt : ℚ) :
    backtest parse tick_fn fee_bps candles initial_usdt () =
      advance parse tick_fn fee_bps
        (advance parse tick_fn fee_bps
          (advance parse tick_fn fee_bps
            ((bars i).foldl (advance parse tick_fn fee_bps) (start candles initial_usdt ()))
            (.bar i)) (.bar (i + 1))) .force_close := by
  unfold backtest phases
  rw [hlength, if_neg (by omega), bars_succ (by omega), bars_succ hi, List.append_assoc,
    List.append_assoc, List.foldl_append]
  rfl

/-- The dict gives no level, or a further candle at the level tells the runs apart. -/
theorem levels_absent (hvalid : ∀ ctx, (on_tick ctx).Valid) {candles : List Candle} {i : ℕ}
    (hlength : candles.length = i + 1) {a : Account} {ctx : Ctx} {candle : Candle}
    {high low price q : ℚ} {reason : Text} {stop take : Option ℚ}
    {st st' : State Unit} (h : Stands (candles ++ [level_candle q]) ctx i a st)
    (h' : Stands (candles ++ [level_candle q]) ctx i a st') (hsolid : a.Solid) (ha : bare a = a)
    (hi : candles[i]? = some candle) (hreads : Reads parse candle high low price)
    (hprice : price ≠ 0) (hopens : Opens parse a.book (on_tick ctx).signal)
    (hsize : (on_tick ctx).size ≠ none)
    (hstop : level parse (on_tick ctx).stop_loss = .ok stop)
    (htake : level parse (on_tick ctx).take_profit = .ok take)
    (hreason : reason = "stop_loss".toList ∨ reason = "take_profit".toList)
    (hhit : ∀ side entry size, (Holding.mk side entry size stop take).hit q q = some (q, reason))
    (hbare : Bare (advance parse (runner_tick on_tick) fee_bps
      (advance parse (runner_tick on_tick) fee_bps
        (advance parse (runner_tick on_tick) fee_bps st' (.bar i)) (.bar (i + 1))) .force_close))
    (hagree : outcome (advance parse (runner_tick on_tick) fee_bps
        (advance parse (runner_tick on_tick) fee_bps
          (advance parse (runner_tick on_tick) fee_bps st' (.bar i)) (.bar (i + 1))) .force_close) =
      outcome (advance parse (own_tick on_tick) fee_bps
        (advance parse (own_tick on_tick) fee_bps
          (advance parse (own_tick on_tick) fee_bps st (.bar i)) (.bar (i + 1))) .force_close)) :
    False := by
  have hi' : (candles ++ [level_candle q])[i]? = some candle := by
    rw [List.getElem?_append_left (by omega), hi]
  have hnext : (candles ++ [level_candle q])[i + 1]? = some (level_candle q) := by
    rw [← hlength, List.getElem?_concat_length]
  have hlast : candle_get parse (last_close (candles ++ [level_candle q])) = .ok q := by
    rw [last_close, List.getLast?_concat]
    rfl
  obtain ⟨side, hside⟩ := opening_of_opens hopens
  obtain ⟨name, size, haction, hsize', hzero, hone, hsignal⟩ := (hvalid ctx).fields
  have hfrac : size_frac parse (on_tick ctx).signal =
      size_frac parse ⟨some (.str name), some (.num size), none, none⟩ := by
    rw [size_frac_of_given hsize hsize' hzero hone, size_frac_of_num rfl hzero hone]
  have hside' : opening_side parse a ⟨some (.str name), some (.num size), none, none⟩ =
      some side := by
    rw [← ha, opening_side_congr haction hfrac, hside]
  have hown := bar_of_after_ok parse fee_bps (readOnly_own_tick on_tick) h hsolid ha hi' hreads
    (after_tick_of_opening parse hside hstop htake hprice fee_bps)
  have hrunner := bar_of_after_ok parse fee_bps (readOnly_runner_tick on_tick) h' hsolid ha hi'
    hreads (by
      change after_tick parse a.book (runner_signal (on_tick ctx)) price fee_bps = _
      rw [hsignal]
      exact after_tick_of_opening parse hside' rfl rfl hprice fee_bps)
  have hopened : ∀ size stop take,
      (a.opened (Holding.mk side price size stop take) fee_bps).Solid := by
    intro size stop take holding hh
    cases hh
    exact hprice
  obtain ⟨b, hsolid', hraised, hbook⟩ := runner_bar_ok parse fee_bps hvalid hrunner.1 hrunner.2
    (hopened _ _ _) rfl
    (by rw [candles_advance parse _ fee_bps (readOnly_runner_tick on_tick), h'.candles, hnext])
    (reads_level_candle parse q) (.inr (Option.some_ne_none _))
  have hfinal := force_close_ok parse fee_bps (runner_tick on_tick) hraised hbook hsolid'
    (by rw [candles_advance parse _ fee_bps (readOnly_runner_tick on_tick),
      candles_advance parse _ fee_bps (readOnly_runner_tick on_tick), h'.candles, hlast])
  obtain ⟨-, htrades⟩ := trades_eq_of_outcome hagree hfinal.1
  obtain ⟨c, -, hc, -, hunhit⟩ := hbare hfinal.1
  have hmem := trade_of_hit parse fee_bps (readOnly_own_tick on_tick) hown.1 hown.2
    (hopened _ _ _) rfl
    (by rw [candles_advance parse _ fee_bps (readOnly_own_tick on_tick), h.candles, hnext])
    (reads_level_candle parse q) (hhit _ _ _)
  have hnot := hunhit _ (by
    rw [← book_trades, ← hc, ← htrades, closed_entry]
    exact List.mem_append_left _ hmem)
  rcases hreason with rfl | rfl
  · exact hnot.1 rfl
  · exact hnot.2 rfl

theorem getD_of_level_none {v : Option Value} (h : level parse v = .ok none) :
    v.getD .none = .none := by
  unfold level at h
  cases hv : v.getD .none with
  | none => rfl
  | num q =>
      rw [hv] at h
      cases h
  | other =>
      rw [hv] at h
      cases h
  | str s =>
      rw [hv] at h
      simp only [float] at h
      cases hparse : parse s with
      | none =>
          rw [hparse] at h
          cases h
      | some q =>
          rw [hparse] at h
          cases h

/-- Where the two backtests agree on all candles, the next bar meets the condition. -/
theorem plain_of_agree (hvalid : ∀ ctx, (on_tick ctx).Valid) {initial_usdt : ℚ}
    (hagree : ∀ candles,
      outcome (backtest parse (runner_tick on_tick) fee_bps candles initial_usdt ()) =
        outcome (backtest parse (own_tick on_tick) fee_bps candles initial_usdt ()))
    {candles : List Candle} {i : ℕ} (hi : WARMUP ≤ i)
    (hall : AllSteps (own_step parse fee_bps on_tick) (Plain parse on_tick)
      (start candles initial_usdt ()) (bars i)) :
    Plain parse on_tick ((bars i).foldl (advance parse (own_tick on_tick) fee_bps)
      (start candles initial_usdt ())) (.bar i) := by
  generalize hm : (bars i).foldl (advance parse (own_tick on_tick) fee_bps)
    (start candles initial_usdt ()) = m
  intro hnone candle high low price hcandle hreads hopens
  obtain ⟨a, hsolid, ha, hbook, hstands⟩ := stands_of_plain parse fee_bps hvalid hall hm hnone
  have hcandle : candles[i]? = some candle := by
    rw [← hcandle, ← hm, candles_foldl parse _ fee_bps (readOnly_own_tick on_tick)]
    rfl
  have hlt := (List.getElem?_eq_some_iff.mp hcandle).1
  have hlength : (candles.take (i + 1)).length = i + 1 := by
    rw [List.length_take]
    omega
  rw [hbook] at hopens
  obtain ⟨hown, hrunner⟩ := hstands (candles.take (i + 1)) (by rw [List.take_take, Nat.min_self])
  have hlast := hagree (candles.take (i + 1))
  rw [backtest_take parse fee_bps hi hlength, backtest_take parse fee_bps hi hlength] at hlast
  have hsize := size_given parse fee_bps hvalid hown hrunner hsolid ha hcandle hreads hopens hlast
  refine ⟨hsize, ?_⟩
  intro hprice
  obtain ⟨stop, take, hstop, htake⟩ := levels_read parse fee_bps hvalid hown hrunner hsolid ha
    hcandle hreads hprice hopens hlast
  by_contra hlevels
  have hgiven : stop ≠ none ∨ take ≠ none := by
    by_contra hnone'
    rw [not_or, not_not, not_not] at hnone'
    obtain ⟨rfl, rfl⟩ := hnone'
    exact hlevels ⟨getD_of_level_none parse hstop, getD_of_level_none parse htake⟩
  obtain ⟨q, reason, hreason, hhit⟩ := exists_hit hgiven
  have hlength' : (candles.take (i + 1) ++ [level_candle q]).length = i + 2 := by
    rw [List.length_append, hlength, List.length_singleton]
  obtain ⟨hown', hrunner'⟩ := hstands (candles.take (i + 1) ++ [level_candle q]) (by
    rw [List.take_append_of_le_length hlength.ge, List.take_take, Nat.min_self])
  have hnext := hagree (candles.take (i + 1) ++ [level_candle q])
  have hbare := bare_runner_run parse fee_bps hvalid (candles.take (i + 1) ++ [level_candle q])
    initial_usdt (phases (candles.take (i + 1) ++ [level_candle q]).length)
  change Bare (backtest parse (runner_tick on_tick) fee_bps _ initial_usdt ()) at hbare
  rw [backtest_take_succ parse fee_bps hi hlength'] at hbare
  rw [backtest_take_succ parse fee_bps hi hlength',
    backtest_take_succ parse fee_bps hi hlength'] at hnext
  exact levels_absent parse fee_bps hvalid hlength hown' hrunner' hsolid ha
    (by rw [List.getElem?_take_of_lt (Nat.lt_succ_self i), hcandle]) hreads hprice hopens hsize
    hstop htake hreason hhit hbare hnext

theorem allSteps_plain_of_agree (hvalid : ∀ ctx, (on_tick ctx).Valid) {initial_usdt : ℚ}
    (hagree : ∀ candles,
      outcome (backtest parse (runner_tick on_tick) fee_bps candles initial_usdt ()) =
        outcome (backtest parse (own_tick on_tick) fee_bps candles initial_usdt ()))
    (candles : List Candle) {i : ℕ} (hi : WARMUP ≤ i) :
    AllSteps (own_step parse fee_bps on_tick) (Plain parse on_tick)
      (start candles initial_usdt ()) (bars i) := by
  induction i, hi using Nat.le_induction with
  | base => trivial
  | succ i hi ih =>
      rw [bars_succ hi, allSteps_append_iff]
      refine ⟨ih, ?_⟩
      intro m hm
      rw [run_total, Option.some_inj] at hm
      subst hm
      exact ⟨plain_of_agree parse fee_bps hvalid hagree hi ih, fun _ _ => trivial⟩

/-- A candle list on which no level is reached, no level is looked at and every opening
gives its size is backtested alike with and without the runner. All candle lists are
exactly if no opening gives a level or leaves its size out. -/
theorem levels_survive_iff (hvalid : ∀ ctx, (on_tick ctx).Valid) (initial_usdt : ℚ) :
    (∀ candles,
      AllSteps (own_step parse fee_bps on_tick) (Unaffected parse on_tick)
          (start candles initial_usdt ()) (phases candles.length) →
        outcome (backtest parse (runner_tick on_tick) fee_bps candles initial_usdt ()) =
          outcome (backtest parse (own_tick on_tick) fee_bps candles initial_usdt ())) ∧
      ((∀ candles,
          outcome (backtest parse (runner_tick on_tick) fee_bps candles initial_usdt ()) =
            outcome (backtest parse (own_tick on_tick) fee_bps candles initial_usdt ())) ↔
        ∀ candles, AllSteps (own_step parse fee_bps on_tick) (Plain parse on_tick)
          (start candles initial_usdt ()) (phases candles.length)) := by
  refine ⟨fun candles => outcome_eq_of_unaffected parse fee_bps hvalid, ?_, ?_⟩
  · intro hagree candles
    unfold phases
    split_ifs with hshort
    · trivial
    · rw [allSteps_append_iff]
      exact ⟨allSteps_plain_of_agree parse fee_bps hvalid hagree candles (by omega),
        fun _ _ => ⟨trivial, fun _ _ => trivial⟩⟩
  · intro hplain candles
    exact outcome_eq_of_unaffected parse fee_bps hvalid
      (allSteps_unaffected_of_plain parse fee_bps (hplain candles))

/-- Buys with all its cash, under a stop if it has one. -/
def buy (stop_loss : Option ℚ) : Ctx → Answer := fun _ =>
  { action := some ⟨.str "OPEN_LONG".toList, "str".toList, "'OPEN_LONG'".toList, true⟩
    size := some ⟨.num 1, "int".toList, "1".toList, true⟩
    reason := none
    stop_loss := stop_loss.map .num
    take_profit := none }

theorem valid_buy (stop_loss : Option ℚ) (ctx : Ctx) : (buy stop_loss ctx).Valid :=
  ⟨⟨"OPEN_LONG".toList, 1, []⟩, rfl⟩

theorem levels_survive_iff_buy :
    (∀ candles,
      AllSteps (own_step (fun _ => none) 10 (buy none)) (Unaffected (fun _ => none) (buy none))
          (start candles 1000 ()) (phases candles.length) →
        outcome (backtest (fun _ => none) (runner_tick (buy none)) 10 candles 1000 ()) =
          outcome (backtest (fun _ => none) (own_tick (buy none)) 10 candles 1000 ())) ∧
      ((∀ candles,
          outcome (backtest (fun _ => none) (runner_tick (buy none)) 10 candles 1000 ()) =
            outcome (backtest (fun _ => none) (own_tick (buy none)) 10 candles 1000 ())) ↔
        ∀ candles, AllSteps (own_step (fun _ => none) 10 (buy none))
          (Plain (fun _ => none) (buy none)) (start candles 1000 ()) (phases candles.length)) :=
  levels_survive_iff (fun _ => none) 10 (valid_buy none) 1000

/-- The last candle dips to 90, below the stop at 95. -/
theorem runner_drops_stop :
    ¬ ∀ (parse : Text → Option ℚ) (on_tick : Ctx → Answer) (fee_bps initial_usdt : ℚ)
      (candles : List Candle), (∀ ctx, (on_tick ctx).Valid) →
      outcome (backtest parse (runner_tick on_tick) fee_bps candles initial_usdt ()) =
        outcome (backtest parse (own_tick on_tick) fee_bps candles initial_usdt ()) := by
  intro h
  have heq := h (fun _ => none) (buy (some 95)) 10 1000
    (List.replicate 21 flat_candle ++ [{ flat_candle with low := some (.num 90) }])
    (valid_buy (some 95))
  exact absurd heq (by decide +kernel)

end ArticTrader.BacktestLevels
