import ArticTrader.BacktestEngine

/-!
What a strategy can change in a backtest besides giving signals: a run with the
strategy's own calls against a replay of its signals on copies.
-/

namespace ArticTrader.BacktestTampering

open ArticTrader.LabelledRuns
open ArticTrader.PythonNumbers
open ArticTrader.PythonText (Text)
open ArticTrader.BacktestEngine

/-- The strategy gets copies of everything and gives the listed signals. -/
def replay : TickFn (List (Option Signal)) := fun signals _ =>
  { state := signals.tail
    touch := fun _ candle => candle
    tamper := fun position => position
    signal := signals.head?.join }

variable {τ : Type} (parse : Text → Option ℚ) (tick_fn : TickFn τ) (fee_bps : ℚ)

/-- The call of the strategy in a bar leaves the open position as it was, and
the final close finds the last candle's close as the caller gave it. -/
def LeavesAlone (given : List Candle) (st : State τ) : Phase → Prop
  | .bar i =>
      ∀ candle price book position, st.candles[i]? = some candle →
        before_tick parse candle st.book fee_bps = .ok (price, book) →
        book.position = some position →
        (tick_fn st.tick_state ⟨window st.candles i, book.position⟩).tamper position = position
  | .force_close => st.book.position ≠ none → last_close st.candles = last_close given

/-- Two engines that agree on everything that is read again, the second with
the candles as the caller gave them. -/
structure Agree (given : List Candle) (i : ℕ) (st : State τ)
    (st' : State (List (Option Signal))) : Prop where
  book : st'.book = st.book
  equity_curve : st'.equity_curve = st.equity_curve
  raised : st'.raised = st.raised
  copies : st'.candles = given
  candles : ∀ j, i ≤ j → st.candles[j]? = given[j]?

theorem getElem?_touched (touch : ℕ → Candle → Candle) {i j : ℕ} (h : i < j)
    (candles : List Candle) : (touched touch i candles)[j]? = candles[j]? := by
  rw [touched, List.getElem?_mapIdx]
  cases candles[j]? with
  | none => rfl
  | some candle => simp [Nat.not_le.mpr h]

theorem touched_copies (i : ℕ) (candles : List Candle) :
    touched (fun _ candle => candle) i candles = candles := by
  rw [touched]
  apply List.ext_getElem?
  intro j
  rw [List.getElem?_mapIdx]
  cases candles[j]? <;> simp

theorem bar_of_no_candle {st : State τ} {i : ℕ} (h : st.candles[i]? = none) :
    bar parse tick_fn fee_bps st i = st := by
  simp only [bar, h]

theorem bar_of_error {st : State τ} {i : ℕ} {candle : Candle} {e : PyError}
    (h : st.candles[i]? = some candle)
    (hbefore : before_tick parse candle st.book fee_bps = .error e) :
    bar parse tick_fn fee_bps st i = st.raise e := by
  simp only [bar, h, hbefore]

theorem bar_of_ok {st : State τ} {i : ℕ} {candle : Candle} {price : ℚ} {book : Book}
    (h : st.candles[i]? = some candle)
    (hbefore : before_tick parse candle st.book fee_bps = .ok (price, book)) :
    bar parse tick_fn fee_bps st i =
      (st.called i book (tick_fn st.tick_state ⟨window st.candles i, book.position⟩)).settle
        parse fee_bps (tick_fn st.tick_state ⟨window st.candles i, book.position⟩).signal
        price := by
  simp only [bar, h, hbefore]

theorem signals_settle (st : State τ) (signal : Option Signal) (price : ℚ) :
    (st.settle parse fee_bps signal price).signals = st.signals := by
  unfold State.settle
  split <;> rfl

theorem signals_bar (st : State τ) (i : ℕ) :
    ∃ asked, (bar parse tick_fn fee_bps st i).signals = st.signals ++ asked := by
  cases h : st.candles[i]? with
  | none => exact ⟨[], by rw [bar_of_no_candle parse tick_fn fee_bps h, List.append_nil]⟩
  | some candle =>
      cases hbefore : before_tick parse candle st.book fee_bps with
      | error e =>
          exact ⟨[], by rw [bar_of_error parse tick_fn fee_bps h hbefore, List.append_nil]; rfl⟩
      | ok r =>
          rw [bar_of_ok parse tick_fn fee_bps h hbefore, signals_settle]
          exact ⟨_, rfl⟩

theorem signals_force_close (st : State τ) :
    (force_close parse fee_bps st).signals = st.signals := by
  unfold force_close
  split
  · rfl
  · split <;> rfl

theorem candles_force_close (st : State τ) :
    (force_close parse fee_bps st).candles = st.candles := by
  unfold force_close
  split
  · rfl
  · split <;> rfl

theorem signals_advance (st : State τ) (phase : Phase) :
    ∃ asked, (advance parse tick_fn fee_bps st phase).signals = st.signals ++ asked := by
  unfold advance
  split_ifs
  · exact ⟨[], (List.append_nil _).symm⟩
  · cases phase with
    | bar i => exact signals_bar parse tick_fn fee_bps st i
    | force_close =>
        refine ⟨[], ?_⟩
        rw [List.append_nil]
        exact signals_force_close parse fee_bps st

theorem signals_foldl (st : State τ) (ps : List Phase) :
    ∃ asked, (ps.foldl (advance parse tick_fn fee_bps) st).signals = st.signals ++ asked := by
  induction ps generalizing st with
  | nil => exact ⟨[], (List.append_nil _).symm⟩
  | cons p ps ih =>
      obtain ⟨first, hfirst⟩ := signals_advance parse tick_fn fee_bps st p
      obtain ⟨rest, hrest⟩ := ih (advance parse tick_fn fee_bps st p)
      exact ⟨first ++ rest, by rw [List.foldl_cons, hrest, hfirst, List.append_assoc]⟩

theorem candles_settle (st : State τ) (signal : Option Signal) (price : ℚ) :
    (st.settle parse fee_bps signal price).candles = st.candles := by
  unfold State.settle
  split <;> rfl

theorem agree_settle {given : List Candle} {i : ℕ} {st : State τ}
    {st' : State (List (Option Signal))} (h : Agree given i st st') (signal : Option Signal)
    (price : ℚ) :
    Agree given i (st.settle parse fee_bps signal price)
      (st'.settle parse fee_bps signal price) := by
  unfold State.settle
  rw [h.book]
  cases after_tick parse st.book signal price fee_bps with
  | error e => exact ⟨h.book, h.equity_curve, rfl, h.copies, h.candles⟩
  | ok r =>
      refine ⟨rfl, ?_, h.raised, h.copies, h.candles⟩
      change st'.equity_curve ++ _ = st.equity_curve ++ _
      rw [h.equity_curve]

theorem tick_state_settle (st : State τ) (signal : Option Signal) (price : ℚ) :
    (st.settle parse fee_bps signal price).tick_state = st.tick_state := by
  unfold State.settle
  split <;> rfl

theorem agree_called {given : List Candle} {i : ℕ} {st : State τ}
    {st' : State (List (Option Signal))} (h : Agree given i st st') {book : Book}
    {out : TickOutcome τ} (ctx : Ctx)
    (hposition : book.position.map out.tamper = book.position) :
    Agree given (i + 1) (st.called i book out)
      (st'.called i book (replay st'.tick_state ctx)) := by
  refine ⟨?_, h.equity_curve, h.raised, ?_, ?_⟩
  · change { book with position := book.position.map fun position => position } =
      { book with position := book.position.map out.tamper }
    rw [hposition, Option.map_id']
  · exact (touched_copies i st'.candles).trans h.copies
  · intro j hj
    exact (getElem?_touched out.touch hj st.candles).trans (h.candles j (Nat.le_of_succ_le hj))

theorem position_of_leavesAlone {given : List Candle} {st : State τ} {i : ℕ} {candle : Candle}
    {price : ℚ} {book : Book} (halone : LeavesAlone parse tick_fn fee_bps given st (.bar i))
    (hi : st.candles[i]? = some candle)
    (hbefore : before_tick parse candle st.book fee_bps = .ok (price, book)) :
    book.position.map (tick_fn st.tick_state ⟨window st.candles i, book.position⟩).tamper =
      book.position := by
  cases hp : book.position with
  | none => rfl
  | some position =>
      have hkept := halone candle price book position hi hbefore hp
      rw [hp] at hkept
      rw [Option.map_some, hkept]

/-- One bar keeps the two engines in agreement, and the replay uses up the
signals that the strategy gives in it. -/
theorem agree_bar {given : List Candle} {i : ℕ} {st : State τ}
    {st' : State (List (Option Signal))} (h : Agree given i st st')
    (halone : LeavesAlone parse tick_fn fee_bps given st (.bar i))
    {asked rest : List (Option Signal)}
    (hasked : (bar parse tick_fn fee_bps st i).signals = st.signals ++ asked)
    (hleft : st'.tick_state = asked ++ rest) :
    Agree given (i + 1) (bar parse tick_fn fee_bps st i) (bar parse replay fee_bps st' i) ∧
      (bar parse replay fee_bps st' i).tick_state = rest := by
  have hlater : ∀ j, i + 1 ≤ j → st.candles[j]? = given[j]? :=
    fun j hj => h.candles j (Nat.le_of_succ_le hj)
  have hcandle : st'.candles[i]? = st.candles[i]? := by rw [h.copies, h.candles i le_rfl]
  cases hi : st.candles[i]? with
  | none =>
      have hi' := hcandle.trans hi
      rw [bar_of_no_candle parse tick_fn fee_bps hi] at hasked ⊢
      rw [bar_of_no_candle parse replay fee_bps hi']
      obtain rfl : asked = [] := by simpa using hasked
      exact ⟨⟨h.book, h.equity_curve, h.raised, h.copies, hlater⟩, hleft⟩
  | some candle =>
      have hi' := hcandle.trans hi
      cases hbefore : before_tick parse candle st.book fee_bps with
      | error e =>
          have hbefore' := hbefore
          rw [← h.book] at hbefore'
          rw [bar_of_error parse tick_fn fee_bps hi hbefore] at hasked ⊢
          rw [bar_of_error parse replay fee_bps hi' hbefore']
          obtain rfl : asked = [] := by simpa [State.raise] using hasked
          exact ⟨⟨h.book, h.equity_curve, rfl, h.copies, hlater⟩, hleft⟩
      | ok r =>
          obtain ⟨price, book⟩ := r
          have hbefore' := hbefore
          rw [← h.book] at hbefore'
          rw [bar_of_ok parse tick_fn fee_bps hi hbefore] at hasked ⊢
          rw [bar_of_ok parse replay fee_bps hi' hbefore']
          rw [signals_settle] at hasked
          obtain rfl := List.append_cancel_left hasked
          have hcalled := agree_called h ⟨window st'.candles i, book.position⟩
            (position_of_leavesAlone parse tick_fn fee_bps halone hi hbefore)
          have hsignal : (replay st'.tick_state ⟨window st'.candles i, book.position⟩).signal =
              (tick_fn st.tick_state ⟨window st.candles i, book.position⟩).signal := by
            rw [hleft]
            rfl
          rw [tick_state_settle, hsignal]
          refine ⟨agree_settle parse fee_bps hcalled _ price, ?_⟩
          change st'.tick_state.tail = rest
          rw [hleft]
          rfl

theorem advance_of_raised {st : State τ} (h : st.raised.isSome = true) (phase : Phase) :
    advance parse tick_fn fee_bps st phase = st := by
  unfold advance
  exact if_pos h

theorem advance_of_not_raised {st : State τ} (h : ¬ st.raised.isSome = true) (phase : Phase) :
    advance parse tick_fn fee_bps st phase =
      match phase with
      | .bar i => bar parse tick_fn fee_bps st i
      | .force_close => force_close parse fee_bps st := by
  unfold advance
  exact if_neg h

theorem agree_advance {given : List Candle} {i : ℕ} {st : State τ}
    {st' : State (List (Option Signal))} (h : Agree given i st st')
    (halone : st.raised = none → LeavesAlone parse tick_fn fee_bps given st (.bar i))
    {asked rest : List (Option Signal)}
    (hasked : (advance parse tick_fn fee_bps st (.bar i)).signals = st.signals ++ asked)
    (hleft : st'.tick_state = asked ++ rest) :
    Agree given (i + 1) (advance parse tick_fn fee_bps st (.bar i))
        (advance parse replay fee_bps st' (.bar i)) ∧
      (advance parse replay fee_bps st' (.bar i)).tick_state = rest := by
  by_cases hraised : st.raised.isSome = true
  · have hraised' : st'.raised.isSome = true := by rw [h.raised, hraised]
    rw [advance_of_raised parse tick_fn fee_bps hraised] at hasked ⊢
    rw [advance_of_raised parse replay fee_bps hraised']
    obtain rfl : asked = [] := by simpa using hasked
    exact ⟨⟨h.book, h.equity_curve, h.raised, h.copies,
      fun j hj => h.candles j (Nat.le_of_succ_le hj)⟩, hleft⟩
  · have hraised' : ¬ st'.raised.isSome = true := by rw [h.raised]; exact hraised
    rw [advance_of_not_raised parse tick_fn fee_bps hraised] at hasked ⊢
    rw [advance_of_not_raised parse replay fee_bps hraised']
    exact agree_bar parse tick_fn fee_bps h (halone (by simpa using hraised)) hasked hleft

theorem agree_bars {given : List Candle} (k : ℕ) {i : ℕ} {st : State τ}
    {st' : State (List (Option Signal))} (h : Agree given i st st')
    (halone : AllSteps (fun st phase => some (advance parse tick_fn fee_bps st phase))
      (fun st phase => st.raised = none → LeavesAlone parse tick_fn fee_bps given st phase) st
      ((List.range' i k).map .bar))
    (asked : List (Option Signal))
    (hasked : (((List.range' i k).map .bar).foldl (advance parse tick_fn fee_bps) st).signals =
      st.signals ++ asked)
    (hleft : st'.tick_state = asked) :
    Agree given (i + k) (((List.range' i k).map .bar).foldl (advance parse tick_fn fee_bps) st)
      (((List.range' i k).map .bar).foldl (advance parse replay fee_bps) st') := by
  induction k generalizing i st st' asked with
  | zero => exact h
  | succ k ih =>
      rw [List.range'_succ, List.map_cons] at halone
      rw [List.range'_succ, List.map_cons, List.foldl_cons] at hasked
      rw [List.range'_succ, List.map_cons, List.foldl_cons, List.foldl_cons,
        ← Nat.succ_add_eq_add_succ]
      obtain ⟨first, hfirst⟩ := signals_advance parse tick_fn fee_bps st (.bar i)
      obtain ⟨rest, hrest⟩ := signals_foldl parse tick_fn fee_bps
        (advance parse tick_fn fee_bps st (.bar i)) ((List.range' (i + 1) k).map .bar)
      have hsplit : asked = first ++ rest := by
        rw [hrest, hfirst, List.append_assoc] at hasked
        exact (List.append_cancel_left hasked).symm
      obtain ⟨hagree, hstate⟩ := agree_advance parse tick_fn fee_bps h halone.1 hfirst
        (hleft.trans hsplit)
      exact ih hagree (halone.2 _ rfl) rest hrest hstate

theorem agree_force_close {given : List Candle} {i : ℕ} {st : State τ}
    {st' : State (List (Option Signal))} (h : Agree given i st st')
    (halone : LeavesAlone parse tick_fn fee_bps given st .force_close) :
    (force_close parse fee_bps st').result = (force_close parse fee_bps st).result := by
  unfold force_close
  rw [h.book]
  cases hp : st.book.position with
  | none => simp only [State.result, h.raised, h.equity_curve, h.book]
  | some position =>
      have hlast : last_close st'.candles = last_close st.candles := by
        rw [h.copies, halone (by simp [hp])]
      simp only [hlast]
      split
      · rfl
      · simp only [State.result, h.raised, h.equity_curve]

theorem agree_start (candles : List Candle) (initial_usdt : ℚ) (s : τ)
    (signals : List (Option Signal)) :
    Agree candles WARMUP (start candles initial_usdt s)
      (start candles initial_usdt signals) :=
  ⟨rfl, rfl, rfl, rfl, fun _ _ => rfl⟩

def LeftAlone (candles : List Candle) (initial_usdt : ℚ) (s : τ) : Prop :=
  AllSteps (fun st phase => some (advance parse tick_fn fee_bps st phase))
    (fun st phase => st.raised = none → LeavesAlone parse tick_fn fee_bps candles st phase)
    (start candles initial_usdt s) (phases candles.length)

/-- A strategy that leaves the engine's own data alone gets the result of a
replay of its signals. -/
theorem backtest_eq_replay {candles : List Candle} {initial_usdt : ℚ} {s : τ}
    (halone : LeftAlone parse tick_fn fee_bps candles initial_usdt s) :
    (backtest parse tick_fn fee_bps candles initial_usdt s).result =
      (backtest parse replay fee_bps candles initial_usdt
        (backtest parse tick_fn fee_bps candles initial_usdt s).signals).result := by
  unfold LeftAlone phases at halone
  unfold backtest phases
  split_ifs at halone ⊢ with hshort
  · rfl
  · obtain ⟨hbars, hlast⟩ := allSteps_append_iff.mp halone
    have hclose := (hlast _ (run_total _ _ _)).1
    unfold bars at hbars hclose ⊢
    simp only [List.foldl_append, List.foldl_cons, List.foldl_nil]
    generalize hst : ((List.range' WARMUP (candles.length - WARMUP)).map Phase.bar).foldl
      (advance parse tick_fn fee_bps) (start candles initial_usdt s) = st at hclose ⊢
    have hsignals : (advance parse tick_fn fee_bps st .force_close).signals = st.signals := by
      unfold advance
      split_ifs
      · rfl
      · exact signals_force_close parse fee_bps st
    have hagree := agree_bars parse tick_fn fee_bps (candles.length - WARMUP)
      (agree_start candles initial_usdt s st.signals) hbars st.signals
      (by rw [hst]; rfl) rfl
    rw [hst] at hagree
    rw [hsignals]
    by_cases hraised : st.raised.isSome = true
    · rw [advance_of_raised parse tick_fn fee_bps hraised,
        advance_of_raised parse replay fee_bps (by rw [hagree.raised, hraised])]
      simp only [State.result, hagree.raised, hagree.equity_curve, hagree.book]
    · rw [advance_of_not_raised parse tick_fn fee_bps hraised,
        advance_of_not_raised parse replay fee_bps (by rw [hagree.raised]; exact hraised)]
      exact (agree_force_close parse tick_fn fee_bps hagree
        (hclose (by simpa using hraised))).symm

structure ReadOnly : Prop where
  touch : ∀ s ctx j candle, (tick_fn s ctx).touch j candle = candle
  tamper : ∀ s ctx position, (tick_fn s ctx).tamper position = position

theorem candles_bar (hread : ReadOnly tick_fn) (st : State τ) (i : ℕ) :
    (bar parse tick_fn fee_bps st i).candles = st.candles := by
  cases h : st.candles[i]? with
  | none => rw [bar_of_no_candle parse tick_fn fee_bps h]
  | some candle =>
      cases hbefore : before_tick parse candle st.book fee_bps with
      | error e =>
          rw [bar_of_error parse tick_fn fee_bps h hbefore]
          rfl
      | ok r =>
          obtain ⟨price, book⟩ := r
          have htouch : (tick_fn st.tick_state ⟨window st.candles i, book.position⟩).touch =
              fun _ candle => candle := by
            funext j candle
            exact hread.touch _ _ j candle
          rw [bar_of_ok parse tick_fn fee_bps h hbefore, candles_settle]
          change touched _ i st.candles = st.candles
          rw [htouch, touched_copies]

theorem candles_advance (hread : ReadOnly tick_fn) (st : State τ) (phase : Phase) :
    (advance parse tick_fn fee_bps st phase).candles = st.candles := by
  unfold advance
  split_ifs
  · rfl
  · cases phase with
    | bar i => exact candles_bar parse tick_fn fee_bps hread st i
    | force_close => exact candles_force_close parse fee_bps st

theorem candles_foldl (hread : ReadOnly tick_fn) (st : State τ) (ps : List Phase) :
    (ps.foldl (advance parse tick_fn fee_bps) st).candles = st.candles := by
  induction ps generalizing st with
  | nil => rfl
  | cons phase ps ih =>
      rw [List.foldl_cons, ih, candles_advance parse tick_fn fee_bps hread]

theorem leftAlone_of_readOnly (hread : ReadOnly tick_fn) (candles : List Candle)
    (initial_usdt : ℚ) (s : τ) : LeftAlone parse tick_fn fee_bps candles initial_usdt s := by
  refine allSteps_of_invariant (P := fun st => st.candles = candles) ?_ ?_ rfl
  · intro st phase hst _
    cases phase with
    | bar i =>
        intro candle price book position _ _ _
        exact hread.tamper _ _ position
    | force_close =>
        intro _
        rw [hst]
  · intro st phase st' hst hstep
    cases hstep
    rw [candles_advance parse tick_fn fee_bps hread, hst]

def flat_candle : Candle where
  timestamp := none
  open_ := some (.num 100)
  high := some (.num 100)
  low := some (.num 100)
  close := some (.num 100)
  volume := some (.num 1)

def opening : Signal where
  action := some (.str "OPEN_LONG".toList)
  size := some (.num 1)
  stop_loss := none
  take_profit := none

def holding : Signal where
  action := some (.str "HOLD".toList)
  size := some (.num 0)
  stop_loss := none
  take_profit := none

def open_once (tamper : Position → Position) : TickFn Unit := fun _ ctx =>
  { state := ()
    touch := fun _ candle => candle
    tamper
    signal := some (if ctx.position = none then opening else holding) }

theorem backtest_eq_replay_open_once :
    (backtest (fun _ => none) (open_once id) 10 (List.replicate 22 flat_candle) 1000 ()).result =
      (backtest (fun _ => none) replay 10 (List.replicate 22 flat_candle) 1000
        (backtest (fun _ => none) (open_once id) 10 (List.replicate 22 flat_candle) 1000
          ()).signals).result :=
  backtest_eq_replay (fun _ => none) (open_once id) 10
    (leftAlone_of_readOnly (fun _ => none) (open_once id) 10 ⟨fun _ _ _ _ => rfl, fun _ _ _ => rfl⟩
      (List.replicate 22 flat_candle) 1000 ())

/-- On candles that never move, writing a lower entry price into the position
makes a profit out of nothing. -/
theorem tampering_changes_result :
    ¬ ∀ (parse : Text → Option ℚ) (tick_fn : TickFn Unit) (fee_bps : ℚ)
      (candles : List Candle) (initial_usdt : ℚ),
      (backtest parse tick_fn fee_bps candles initial_usdt ()).result =
        (backtest parse replay fee_bps candles initial_usdt
          (backtest parse tick_fn fee_bps candles initial_usdt ()).signals).result := by
  intro h
  have heq := h (fun _ => none)
    (open_once fun position => { position with entry := some (.num 50) }) 10
    (List.replicate 22 flat_candle) 1000
  exact absurd heq (by decide +kernel)

end ArticTrader.BacktestTampering
