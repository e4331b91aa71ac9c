import ArticTrader.BacktestBook

/-!
The journal of a backtest: for each bar what the strategy is asked, the trades
that are closed and the equity that is recorded, and the forced close at the end.
-/

namespace ArticTrader.BacktestJournal

open ArticTrader.LabelledRuns
open ArticTrader.PythonNumbers
open ArticTrader.PythonText (Text)
open ArticTrader.BacktestEngine
open ArticTrader.BacktestTampering
open ArticTrader.BacktestBook

structure Entry where
  phase : Phase
  /-- the `ctx` of the call of the strategy, where it comes to one -/
  asked : Option Ctx
  closed : List Trade
  marked : List ℚ

variable {τ : Type} (parse : Text → Option ℚ) (tick_fn : TickFn τ) (fee_bps : ℚ)

def asked (st : State τ) (i : ℕ) : Option Ctx :=
  if st.raised.isSome then none
  else
    match st.candles[i]? with
    | none => none
    | some candle =>
        match before_tick parse candle st.book fee_bps with
        | .error _ => none
        | .ok (_, book) => some ⟨window st.candles i, book.position⟩

def entry (st : State τ) (phase : Phase) : Entry where
  phase
  asked :=
    match phase with
    | .bar i => asked parse fee_bps st i
    | .force_close => none
  closed := (advance parse tick_fn fee_bps st phase).book.trades.drop st.book.trades.length
  marked := (advance parse tick_fn fee_bps st phase).equity_curve.drop st.equity_curve.length

def journal (st : State τ) (ps : List Phase) : List Entry :=
  record (advance parse tick_fn fee_bps) (entry parse tick_fn fee_bps) st ps

theorem trades_close_position {position : Position} {exit cash : ℚ} {trades : List Trade}
    {reason : Text} {r : ℚ × List Trade}
    (h : close_position position exit fee_bps cash trades reason = .ok r) :
    ∃ trade, r.2 = trades ++ [trade] := by
  unfold close_position at h
  simp only [bind_eq_ok] at h
  obtain ⟨entry, -, size_usdt, -, side, -, frac, -, size, -, h⟩ := h
  cases h
  exact ⟨_, rfl⟩

theorem trades_check_levels {book book' : Book} {high low : ℚ}
    (h : check_levels book high low fee_bps = .ok book') :
    ∃ closed, book'.trades = book.trades ++ closed := by
  unfold check_levels at h
  split at h
  · cases h
    exact ⟨[], (List.append_nil _).symm⟩
  · split at h
    · cases h
    · cases h
      exact ⟨[], (List.append_nil _).symm⟩
    · obtain ⟨closed, hclosed, h⟩ := bind_eq_ok.mp h
      cases h
      obtain ⟨trade, htrade⟩ := trades_close_position fee_bps hclosed
      exact ⟨[trade], htrade⟩

theorem trades_apply_action {book book' : Book} {signal : Signal} {price : ℚ}
    (h : apply_action parse book signal price fee_bps = .ok book') :
    ∃ closed, book'.trades = book.trades ++ closed := by
  have hopened : ∀ side frac, open_position parse book side signal price fee_bps frac = .ok book' →
      book'.trades = book.trades := by
    intro side frac hopen
    unfold open_position at hopen
    simp only [bind_eq_ok] at hopen
    obtain ⟨stop, -, take, -, hopen⟩ := hopen
    cases hopen
    rfl
  simp only [apply_action] at h
  split at h
  · split_ifs at h
    · exact ⟨[], by rw [hopened _ _ h, List.append_nil]⟩
    · exact ⟨[], by rw [hopened _ _ h, List.append_nil]⟩
    · cases h
      exact ⟨[], (List.append_nil _).symm⟩
  · split_ifs at h
    · obtain ⟨closed, hclosed, h⟩ := bind_eq_ok.mp h
      cases h
      obtain ⟨trade, htrade⟩ := trades_close_position fee_bps hclosed
      exact ⟨[trade], htrade⟩
    · cases h
      exact ⟨[], (List.append_nil _).symm⟩

theorem settle_appends (st : State τ) (signal : Option Signal) (price : ℚ) :
    (∃ closed, (st.settle parse fee_bps signal price).book.trades = st.book.trades ++ closed) ∧
      ∃ marked, (st.settle parse fee_bps signal price).equity_curve =
        st.equity_curve ++ marked := by
  unfold State.settle
  cases hafter : after_tick parse st.book signal price fee_bps with
  | error e => exact ⟨⟨[], (List.append_nil _).symm⟩, [], (List.append_nil _).symm⟩
  | ok r =>
      unfold after_tick at hafter
      simp only [bind_eq_ok] at hafter
      obtain ⟨book, hbook, equity, -, hr⟩ := hafter
      cases hr
      exact ⟨trades_apply_action parse fee_bps hbook, [equity], rfl⟩

theorem bar_appends (st : State τ) (i : ℕ) :
    (∃ closed, (bar parse tick_fn fee_bps st i).book.trades = st.book.trades ++ closed) ∧
      ∃ marked, (bar parse tick_fn fee_bps st i).equity_curve = st.equity_curve ++ marked := by
  cases hi : st.candles[i]? with
  | none =>
      rw [bar_of_no_candle parse tick_fn fee_bps hi]
      exact ⟨⟨[], (List.append_nil _).symm⟩, [], (List.append_nil _).symm⟩
  | some candle =>
      cases hbefore : before_tick parse candle st.book fee_bps with
      | error e =>
          rw [bar_of_error parse tick_fn fee_bps hi hbefore]
          exact ⟨⟨[], (List.append_nil _).symm⟩, [], (List.append_nil _).symm⟩
      | ok r =>
          obtain ⟨price, book⟩ := r
          rw [bar_of_ok parse tick_fn fee_bps hi hbefore]
          unfold before_tick at hbefore
          simp only [bind_eq_ok] at hbefore
          obtain ⟨high, -, low, -, price', -, book', hlevels, hr⟩ := hbefore
          cases hr
          obtain ⟨first, hfirst⟩ := trades_check_levels fee_bps hlevels
          obtain ⟨⟨later, hlater⟩, hmarked⟩ := settle_appends parse fee_bps
            (st.called i book (tick_fn st.tick_state ⟨window st.candles i, book.position⟩))
            (tick_fn st.tick_state ⟨window st.candles i, book.position⟩).signal price
          refine ⟨⟨first ++ later, ?_⟩, hmarked⟩
          rw [hlater, ← List.append_assoc, ← hfirst]
          rfl

theorem force_close_appends (st : State τ) :
    ∃ closed, (force_close parse fee_bps st).book.trades = st.book.trades ++ closed := by
  unfold force_close
  split
  · exact ⟨[], (List.append_nil _).symm⟩
  · split
    · exact ⟨[], (List.append_nil _).symm⟩
    · rename_i hclose
      obtain ⟨last_price, -, hclose⟩ := bind_eq_ok.mp hclose
      obtain ⟨trade, htrade⟩ := trades_close_position fee_bps hclose
      exact ⟨[trade], htrade⟩

theorem closed_entry (st : State τ) (phase : Phase) :
    (advance parse tick_fn fee_bps st phase).book.trades =
      st.book.trades ++ (entry parse tick_fn fee_bps st phase).closed := by
  have happends : ∃ closed, (advance parse tick_fn fee_bps st phase).book.trades =
      st.book.trades ++ closed := by
    unfold advance
    split_ifs
    · exact ⟨[], (List.append_nil _).symm⟩
    · cases phase with
      | bar i => exact (bar_appends parse tick_fn fee_bps st i).1
      | force_close => exact force_close_appends parse fee_bps st
  obtain ⟨closed, hclosed⟩ := happends
  simp only [entry, hclosed, List.drop_left]

theorem marked_entry (st : State τ) (i : ℕ) :
    (advance parse tick_fn fee_bps st (.bar i)).equity_curve =
      st.equity_curve ++ (entry parse tick_fn fee_bps st (.bar i)).marked := by
  have happends : ∃ marked, (advance parse tick_fn fee_bps st (.bar i)).equity_curve =
      st.equity_curve ++ marked := by
    unfold advance
    split_ifs
    · exact ⟨[], (List.append_nil _).symm⟩
    · exact (bar_appends parse tick_fn fee_bps st i).2
  obtain ⟨marked, hmarked⟩ := happends
  simp only [entry, hmarked, List.drop_left]

/-- The journal has every trade of the run. -/
theorem trades_journal (st : State τ) (ps : List Phase) :
    (ps.foldl (advance parse tick_fn fee_bps) st).book.trades =
      st.book.trades ++ (journal parse tick_fn fee_bps st ps).flatMap (·.closed) := by
  induction ps generalizing st with
  | nil => exact (List.append_nil _).symm
  | cons phase ps ih =>
      rw [List.foldl_cons, ih, closed_entry, List.append_assoc]
      rfl

/-- The journal has every equity point of the bars. -/
theorem equity_journal (st : State τ) (is : List ℕ) :
    ((is.map Phase.bar).foldl (advance parse tick_fn fee_bps) st).equity_curve =
      st.equity_curve ++
        (journal parse tick_fn fee_bps st (is.map Phase.bar)).flatMap (·.marked) := by
  induction is generalizing st with
  | nil => exact (List.append_nil _).symm
  | cons i is ih =>
      rw [List.map_cons, List.foldl_cons, ih, marked_entry, List.append_assoc]
      rfl

/-- Two engines with the same books that have the first `k` candles in common. -/
structure SamePast (k : ℕ) (st st' : State τ) : Prop where
  book : st'.book = st.book
  equity_curve : st'.equity_curve = st.equity_curve
  tick_state : st'.tick_state = st.tick_state
  raised : st'.raised = st.raised
  candles : st'.candles.take k = st.candles.take k

theorem take_touched (touch : ℕ → Candle → Candle) (i k : ℕ) (candles : List Candle) :
    (touched touch i candles).take k = touched touch i (candles.take k) := by
  apply List.ext_getElem?
  intro j
  rw [List.getElem?_take, touched, touched, List.getElem?_mapIdx, List.getElem?_mapIdx,
    List.getElem?_take]
  by_cases hj : j < k
  · rw [if_pos hj, if_pos hj]
  · rw [if_neg hj, if_neg hj]
    rfl

theorem SamePast.getElem? {k i : ℕ} {st st' : State τ} (h : SamePast k st st') (hi : i < k) :
    st'.candles[i]? = st.candles[i]? := by
  rw [← List.getElem?_take_of_lt hi, h.candles, List.getElem?_take_of_lt hi]

theorem SamePast.window {k i : ℕ} {st st' : State τ} (h : SamePast k st st') (hi : i < k) :
    window st'.candles i = window st.candles i := by
  have htake : ∀ candles : List Candle, candles.take (i + 1) = (candles.take k).take (i + 1) := by
    intro candles
    rw [List.take_take, Nat.min_eq_left (by omega)]
  rw [BacktestEngine.window, BacktestEngine.window, htake, h.candles, ← htake]

theorem samePast_settle {k : ℕ} {st st' : State τ} (h : SamePast k st st')
    (signal : Option Signal) (price : ℚ) :
    SamePast k (st.settle parse fee_bps signal price)
      (st'.settle parse fee_bps signal price) := by
  unfold State.settle
  rw [h.book]
  cases after_tick parse st.book signal price fee_bps with
  | error e => exact ⟨h.book, h.equity_curve, h.tick_state, rfl, h.candles⟩
  | ok r =>
      refine ⟨rfl, ?_, h.tick_state, h.raised, h.candles⟩
      change st'.equity_curve ++ _ = st.equity_curve ++ _
      rw [h.equity_curve]

theorem samePast_called {k : ℕ} {st st' : State τ} (h : SamePast k st st') (i : ℕ) (book : Book)
    (out : TickOutcome τ) : SamePast k (st.called i book out) (st'.called i book out) := by
  refine ⟨rfl, h.equity_curve, rfl, h.raised, ?_⟩
  change (touched out.touch i st'.candles).take k = (touched out.touch i st.candles).take k
  rw [take_touched, h.candles, ← take_touched]

theorem samePast_bar {k i : ℕ} (hi : i < k) {st st' : State τ} (h : SamePast k st st') :
    SamePast k (bar parse tick_fn fee_bps st i) (bar parse tick_fn fee_bps st' i) := by
  have hcandle := h.getElem? hi
  cases hst : st.candles[i]? with
  | none =>
      rw [bar_of_no_candle parse tick_fn fee_bps hst,
        bar_of_no_candle parse tick_fn fee_bps (hcandle.trans hst)]
      exact h
  | some candle =>
      cases hbefore : before_tick parse candle st.book fee_bps with
      | error e =>
          have hbefore' := hbefore
          rw [← h.book] at hbefore'
          rw [bar_of_error parse tick_fn fee_bps hst hbefore,
            bar_of_error parse tick_fn fee_bps (hcandle.trans hst) hbefore']
          exact ⟨h.book, h.equity_curve, h.tick_state, rfl, h.candles⟩
      | ok r =>
          obtain ⟨price, book⟩ := r
          have hbefore' := hbefore
          rw [← h.book] at hbefore'
          rw [bar_of_ok parse tick_fn fee_bps hst hbefore,
            bar_of_ok parse tick_fn fee_bps (hcandle.trans hst) hbefore', h.window hi,
            h.tick_state]
          exact samePast_settle parse fee_bps (samePast_called h i book _) _ price

theorem samePast_advance {k i : ℕ} (hi : i < k) {st st' : State τ} (h : SamePast k st st') :
    SamePast k (advance parse tick_fn fee_bps st (.bar i))
      (advance parse tick_fn fee_bps st' (.bar i)) := by
  by_cases hraised : st.raised.isSome = true
  · rw [advance_of_raised parse tick_fn fee_bps hraised,
      advance_of_raised parse tick_fn fee_bps (by rw [h.raised, hraised])]
    exact h
  · rw [advance_of_not_raised parse tick_fn fee_bps hraised,
      advance_of_not_raised parse tick_fn fee_bps (by rw [h.raised]; exact hraised)]
    exact samePast_bar parse tick_fn fee_bps hi h

theorem asked_eq {k i : ℕ} (hi : i < k) {st st' : State τ} (h : SamePast k st st') :
    asked parse fee_bps st i = asked parse fee_bps st' i := by
  unfold asked
  rw [h.raised, h.getElem? hi, h.book, h.window hi]

theorem entry_eq {k i : ℕ} (hi : i < k) {st st' : State τ} (h : SamePast k st st') :
    entry parse tick_fn fee_bps st (.bar i) = entry parse tick_fn fee_bps st' (.bar i) := by
  have hnext := samePast_advance parse tick_fn fee_bps hi h
  unfold entry
  rw [hnext.book, hnext.equity_curve, h.book, h.equity_curve]
  simp only [asked_eq parse fee_bps hi h]

theorem samePast_start {k : ℕ} {candles candles' : List Candle}
    (h : candles.take k = candles'.take k) (initial_usdt : ℚ) (s : τ) :
    SamePast k (start candles initial_usdt s) (start candles' initial_usdt s) :=
  ⟨rfl, rfl, rfl, rfl, h.symm⟩

theorem mem_bars {n : ℕ} {phase : Phase} (h : phase ∈ bars n) :
    ∃ i, phase = .bar i ∧ WARMUP ≤ i ∧ i < n := by
  obtain ⟨i, hi, rfl⟩ := List.mem_map.mp h
  have hrange := List.mem_range'_1.mp hi
  exact ⟨i, rfl, hrange.1, by omega⟩

theorem bars_succ {i : ℕ} (h : WARMUP ≤ i) : bars (i + 1) = bars i ++ [.bar i] := by
  obtain ⟨m, rfl⟩ := Nat.exists_eq_add_of_le h
  unfold bars
  rw [show WARMUP + m + 1 - WARMUP = m + 1 by omega, Nat.add_sub_cancel_left,
    List.range'_1_concat, List.map_append, List.map_singleton]

theorem take_bars (k n : ℕ) : (bars n).take (k - WARMUP) = bars (min k n) := by
  unfold bars
  rw [← List.map_take]
  rcases Nat.le_total n k with hle | hle
  · rw [List.take_range'_of_length_le (by omega), Nat.min_eq_right hle]
  · rw [List.take_range'_of_length_ge (by omega), Nat.min_eq_left hle]

theorem samePast_bars {i : ℕ} {candles candles' : List Candle}
    (h : candles.take (i + 1) = candles'.take (i + 1)) (initial_usdt : ℚ) (s : τ) :
    SamePast (i + 1)
      ((bars i).foldl (advance parse tick_fn fee_bps) (start candles initial_usdt s))
      ((bars i).foldl (advance parse tick_fn fee_bps) (start candles' initial_usdt s)) := by
  apply foldl_rel (R := SamePast (i + 1)) ?_ (samePast_start h initial_usdt s)
  intro st st' phase hphase hpast
  obtain ⟨j, rfl, -, hj⟩ := mem_bars hphase
  exact samePast_advance parse tick_fn fee_bps (by omega) hpast

/-- Backtests over candles that agree on the first `k` look the same in every bar
before `k`. -/
theorem no_look_ahead {k : ℕ} {candles candles' : List Candle}
    (h : candles.take k = candles'.take k) (initial_usdt : ℚ) (s : τ) :
    (journal parse tick_fn fee_bps (start candles initial_usdt s)
        (bars candles.length)).take (k - WARMUP) =
      (journal parse tick_fn fee_bps (start candles' initial_usdt s)
        (bars candles'.length)).take (k - WARMUP) := by
  have hlength : min k candles.length = min k candles'.length := by
    rw [← List.length_take, h, List.length_take]
  unfold journal
  rw [take_record, take_record, take_bars, take_bars, ← hlength]
  apply record_eq_of_rel (R := SamePast k)
  · intro st st' phase hphase hpast
    obtain ⟨i, rfl, -, hi⟩ := mem_bars hphase
    exact entry_eq parse tick_fn fee_bps (by omega) hpast
  · intro st st' phase hphase hpast
    obtain ⟨i, rfl, -, hi⟩ := mem_bars hphase
    exact samePast_advance parse tick_fn fee_bps (by omega) hpast
  · exact samePast_start h initial_usdt s

/-- A last candle that cannot be read does not matter to the bars before it. -/
theorem no_look_ahead_open_once :
    (journal (fun _ => none) (open_once id) 10
        (start (List.replicate 23 flat_candle ++ [flat_candle]) 1000 ())
        (bars (List.replicate 23 flat_candle ++ [flat_candle]).length)).take (22 - WARMUP) =
      (journal (fun _ => none) (open_once id) 10
        (start (List.replicate 23 flat_candle ++ [{ flat_candle with low := none }]) 1000 ())
        (bars (List.replicate 23 flat_candle ++
          [{ flat_candle with low := none }]).length)).take (22 - WARMUP) :=
  no_look_ahead (fun _ => none) (open_once id) 10 (by decide) 1000 ()

end ArticTrader.BacktestJournal
