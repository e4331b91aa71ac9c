import Mathlib.Tactic.NormNum
import ArticTrader.BacktestJournal

/-!
The prices at which a backtest closes its positions, against the candles in
which it closes them.
-/

namespace ArticTrader.BacktestFills

open ArticTrader.LabelledRuns
open ArticTrader.PythonNumbers
open ArticTrader.PythonText (Text)
open ArticTrader.BacktestEngine
open ArticTrader.BacktestTampering
open ArticTrader.BacktestBook
open ArticTrader.BacktestJournal

def WellFormed (parse : Text → Option ℚ) (candle : Candle) : Prop :=
  ∃ open_ high low price, candle_get parse candle.open_ = .ok open_ ∧
    Reads parse candle high low price ∧ low ≤ open_ ∧ open_ ≤ high ∧ low ≤ price ∧ price ≤ high

def closing_candle (candles : List Candle) : Phase → Option Candle
  | .bar i => candles[i]?
  | .force_close => candles.getLast?

/-- The trades of the entry are closed between the low and the high of its candle. -/
def Attainable (parse : Text → Option ℚ) (candles : List Candle) (entry : Entry) : Prop :=
  ∀ trade ∈ entry.closed, ∃ candle high low price,
    closing_candle candles entry.phase = some candle ∧ Reads parse candle high low price ∧
      low ≤ trade.exit ∧ trade.exit ≤ high

/-- The candle lies wholly beyond the level it triggers. -/
def Gapped (h : Holding) (high low : ℚ) : Prop :=
  match h.side with
  | .long =>
      (∃ stop, h.stop_loss = some stop ∧ high < stop) ∨
        (∀ stop, h.stop_loss = some stop → stop < low) ∧
          ∃ take, h.take_profit = some take ∧ take < low
  | .short =>
      (∃ stop, h.stop_loss = some stop ∧ stop < low) ∨
        (∀ stop, h.stop_loss = some stop → high < stop) ∧
          ∃ take, h.take_profit = some take ∧ high < take

theorem first_level_eq_none {stop take : Option ℚ} {p q : ℚ → Bool}
    (h : first_level (stop.filter p) (take.filter q) = none) :
    (∀ x, stop = some x → ¬ p x = true) ∧ ∀ x, take = some x → ¬ q x = true := by
  cases hstop : stop.filter p with
  | some price =>
      rw [hstop] at h
      cases h
  | none =>
      rw [hstop] at h
      exact ⟨Option.filter_eq_none_iff.mp hstop,
        Option.filter_eq_none_iff.mp (Option.map_eq_none_iff.mp h)⟩

theorem first_level_eq_some {stop take : Option ℚ} {p q : ℚ → Bool} {exit : ℚ} {reason : Text}
    (h : first_level (stop.filter p) (take.filter q) = some (exit, reason)) :
    stop = some exit ∧ p exit = true ∨
      (∀ x, stop = some x → ¬ p x = true) ∧ take = some exit ∧ q exit = true := by
  cases hstop : stop.filter p with
  | some price =>
      rw [hstop] at h
      cases h
      exact .inl (Option.filter_eq_some_iff.mp hstop)
  | none =>
      rw [hstop] at h
      obtain ⟨price, hprice, heq⟩ := Option.map_eq_some_iff.mp h
      cases heq
      exact .inr ⟨Option.filter_eq_none_iff.mp hstop, Option.filter_eq_some_iff.mp hprice⟩

theorem not_gapped_of_no_hit {h : Holding} {high low : ℚ} (hle : low ≤ high)
    (hhit : h.hit high low = none) : ¬ Gapped h high low := by
  obtain ⟨side, entry, size, stop_loss, take_profit⟩ := h
  unfold Gapped
  cases side with
  | long =>
      obtain ⟨hstop, htake⟩ := first_level_eq_none hhit
      simp only [decide_eq_true_eq] at hstop htake
      rintro (⟨stop, hs, hgap⟩ | ⟨-, take, ht, hgap⟩)
      · exact hstop stop hs (hle.trans hgap.le)
      · exact htake take ht (hgap.le.trans hle)
  | short =>
      obtain ⟨hstop, htake⟩ := first_level_eq_none hhit
      simp only [decide_eq_true_eq] at hstop htake
      rintro (⟨stop, hs, hgap⟩ | ⟨-, take, ht, hgap⟩)
      · exact hstop stop hs (hgap.le.trans hle)
      · exact htake take ht (hle.trans hgap.le)

theorem within_iff_of_hit {h : Holding} {high low exit : ℚ} {reason : Text}
    (hhit : h.hit high low = some (exit, reason)) :
    low ≤ exit ∧ exit ≤ high ↔ ¬ Gapped h high low := by
  obtain ⟨side, entry, size, stop_loss, take_profit⟩ := h
  unfold Gapped
  cases side with
  | long =>
      rcases first_level_eq_some hhit with ⟨rfl, hlow⟩ | ⟨hstop, rfl, hhigh⟩
      · grind
      · grind
  | short =>
      rcases first_level_eq_some hhit with ⟨rfl, hhigh⟩ | ⟨hstop, rfl, hlow⟩
      · grind
      · grind

variable {τ : Type} (parse : Text → Option ℚ) (tick_fn : TickFn τ) (fee_bps : ℚ)

/-- No candle lies beyond the level of the open position that it triggers. -/
def NoGap (st : State τ) : Phase → Prop
  | .bar i =>
      st.raised = none → ∀ h candle high low price, st.book.position = some h.position →
        st.candles[i]? = some candle → Reads parse candle high low price → ¬ Gapped h high low
  | .force_close => True

/-- What a backtest of a strategy that only gives signals keeps between two phases. -/
structure Clean (candles : List Candle) (st : State τ) : Prop where
  candles : st.candles = candles
  book : st.raised = none → ∃ a : Account, st.book = a.book ∧ a.Solid

theorem closed_eq {st : State τ} {phase : Phase} {trades : List Trade}
    (h : (advance parse tick_fn fee_bps st phase).book.trades = st.book.trades ++ trades) :
    (entry parse tick_fn fee_bps st phase).closed = trades := by
  rw [closed_entry] at h
  exact List.append_cancel_left h

theorem attainable_of_same_trades {candles : List Candle} {st : State τ} {phase : Phase}
    (h : (advance parse tick_fn fee_bps st phase).book.trades = st.book.trades) :
    Attainable parse candles (entry parse tick_fn fee_bps st phase) := by
  have hclosed : (entry parse tick_fn fee_bps st phase).closed = [] := by
    apply closed_eq
    rw [h, List.append_nil]
  intro trade htrade
  rw [hclosed] at htrade
  cases htrade

variable {parse}

theorem attainable_iff_of_closed {candles : List Candle} {entry : Entry} {trade : Trade}
    {candle : Candle} {high low price : ℚ} (h : entry.closed = [trade])
    (hcandle : closing_candle candles entry.phase = some candle)
    (hreads : Reads parse candle high low price) :
    Attainable parse candles entry ↔ low ≤ trade.exit ∧ trade.exit ≤ high := by
  unfold Attainable
  rw [h, List.forall_mem_singleton]
  constructor
  · rintro ⟨candle', high', low', price', hcandle', hreads', hlow, hhigh⟩
    rw [hcandle] at hcandle'
    cases hcandle'
    obtain ⟨rfl, rfl, -⟩ := hreads.unique hreads'
    exact ⟨hlow, hhigh⟩
  · rintro ⟨hlow, hhigh⟩
    exact ⟨candle, high, low, price, hcandle, hreads, hlow, hhigh⟩

theorem noGap_of_no_hit {st : State τ} {a : Account} {i : ℕ} {candle : Candle}
    {high low price : ℚ} (hbook : st.book = a.book) (hi : st.candles[i]? = some candle)
    (hreads : Reads parse candle high low price) (hle : low ≤ high)
    (hno : ∀ h, a.holding = some h → h.hit high low = none) : NoGap parse st (.bar i) := by
  intro _ h candle' high' low' price' hposition hcandle hreads'
  rw [hi] at hcandle
  cases hcandle
  obtain ⟨rfl, rfl, -⟩ := hreads.unique hreads'
  cases ha : a.holding with
  | none =>
      rw [hbook, book_of_none ha] at hposition
      cases hposition
  | some h' =>
      rw [hbook, book_of_some ha, Option.some_inj] at hposition
      obtain rfl := position_injective hposition
      exact not_gapped_of_no_hit hle (hno h' ha)

theorem noGap_iff_of_holding {st : State τ} {a : Account} {h : Holding} {i : ℕ} {candle : Candle}
    {high low price : ℚ} (hraised : st.raised = none) (hbook : st.book = a.book)
    (ha : a.holding = some h) (hi : st.candles[i]? = some candle)
    (hreads : Reads parse candle high low price) :
    NoGap parse st (.bar i) ↔ ¬ Gapped h high low := by
  constructor
  · intro hgap
    exact hgap hraised h candle high low price (by rw [hbook, book_of_some ha]) hi hreads
  · intro hgap _ h' candle' high' low' price' hposition hcandle hreads'
    rw [hi] at hcandle
    cases hcandle
    obtain ⟨rfl, rfl, -⟩ := hreads.unique hreads'
    rw [hbook, book_of_some ha, Option.some_inj] at hposition
    obtain rfl := position_injective hposition
    exact hgap

variable {tick_fn}

/-- In one bar, fills are attainable exactly if no level is passed over. -/
theorem attainable_bar_iff (hpure : ReadOnly tick_fn) {candles : List Candle}
    (hformed : ∀ candle ∈ candles, WellFormed parse candle) {st : State τ}
    (hclean : Clean candles st) (i : ℕ) :
    Attainable parse candles (entry parse tick_fn fee_bps st (.bar i)) ↔
      NoGap parse st (.bar i) := by
  by_cases hraised : st.raised.isSome = true
  · refine iff_of_true (attainable_of_same_trades _ _ _ ?_) ?_
    · rw [advance_of_raised parse tick_fn fee_bps hraised]
    · intro hnone
      rw [hnone] at hraised
      cases hraised
  · have hadvance : advance parse tick_fn fee_bps st (.bar i) = bar parse tick_fn fee_bps st i :=
      advance_of_not_raised parse tick_fn fee_bps hraised (.bar i)
    cases hi : st.candles[i]? with
    | none =>
        refine iff_of_true (attainable_of_same_trades _ _ _ ?_) ?_
        · rw [hadvance, bar_of_no_candle parse tick_fn fee_bps hi]
        · intro _ h candle high low price _ hcandle
          rw [hi] at hcandle
          cases hcandle
    | some candle =>
        have hnone : st.raised = none := by simpa using hraised
        obtain ⟨a, hbook, hsolid⟩ := hclean.book hnone
        have hgiven : candles[i]? = some candle := by rw [← hclean.candles, hi]
        obtain ⟨open_, high, low, price, -, hreads, hlow, hhigh, hlow', hhigh'⟩ :=
          hformed candle (List.mem_of_getElem? hgiven)
        obtain ⟨a', hchecked, hafter⟩ := bar_book parse tick_fn fee_bps hpure hbook hsolid hi
          hreads
        cases hchecked with
        | kept hno =>
            refine iff_of_true ?_ (noGap_of_no_hit hbook hi hreads (hlow.trans hhigh) hno)
            rcases hafter with ⟨signal, a'', -, hacted, hbar⟩ | ⟨hbar, -⟩
            · cases hacted with
              | kept =>
                  apply attainable_of_same_trades
                  rw [hadvance, hbar, hbook]
              | opened =>
                  apply attainable_of_same_trades
                  rw [hadvance, hbar, hbook]
                  rfl
              | @closed h =>
                  have hclosed : (entry parse tick_fn fee_bps st (.bar i)).closed =
                      [h.trade price "signal_close".toList] := by
                    apply closed_eq
                    rw [hadvance, hbar, hbook]
                    rfl
                  exact (attainable_iff_of_closed hclosed hgiven hreads).mpr ⟨hlow', hhigh'⟩
            · apply attainable_of_same_trades
              rw [hadvance, hbar, hbook]
        | @closed h exit reason holding entry hit =>
            have hclosed : (BacktestJournal.entry parse tick_fn fee_bps st (.bar i)).closed =
                [h.trade exit reason] := by
              apply closed_eq
              rw [hadvance, hbook]
              rcases hafter with ⟨signal, a'', -, hacted, hbar⟩ | ⟨hbar, -⟩
              · rw [hbar, book_trades, hacted.trades_of_none parse rfl]
                rfl
              · rw [hbar]
                rfl
            rw [attainable_iff_of_closed hclosed hgiven hreads,
              noGap_iff_of_holding hnone hbook holding hi hreads]
            exact within_iff_of_hit hit

theorem attainable_force_close {candles : List Candle}
    (hformed : ∀ candle ∈ candles, WellFormed parse candle) {st : State τ}
    (hclean : Clean candles st) :
    Attainable parse candles (entry parse tick_fn fee_bps st .force_close) := by
  by_cases hraised : st.raised.isSome = true
  · apply attainable_of_same_trades
    rw [advance_of_raised parse tick_fn fee_bps hraised]
  · have hadvance : advance parse tick_fn fee_bps st .force_close =
        force_close parse fee_bps st :=
      advance_of_not_raised parse tick_fn fee_bps hraised .force_close
    obtain ⟨a, hbook, hsolid⟩ := hclean.book (by simpa using hraised)
    cases ha : a.holding with
    | none =>
        apply attainable_of_same_trades
        rw [hadvance, force_close_of_none parse fee_bps hbook ha]
    | some h =>
        cases hlast : candles.getLast? with
        | none =>
            apply attainable_of_same_trades
            have hcandle : last_close st.candles = none := by
              rw [hclean.candles, last_close, hlast]
              rfl
            rw [hadvance, force_close, hbook, book_of_some ha, hcandle]
            rw [← hbook]
            rfl
        | some candle =>
            obtain ⟨open_, high, low, price, -, hreads, -, -, hlow, hhigh⟩ :=
              hformed candle (List.mem_of_getLast? hlast)
            have hclose : candle_get parse (last_close st.candles) = .ok price := by
              rw [hclean.candles, last_close, hlast]
              exact hreads.close
            have hclosed : (entry parse tick_fn fee_bps st .force_close).closed =
                [h.trade price "force_close".toList] := by
              apply closed_eq
              rw [hadvance, force_close_of_some parse fee_bps hbook ha (hsolid h ha) hclose, hbook]
              rfl
            exact (attainable_iff_of_closed hclosed hlast hreads).mpr ⟨hlow, hhigh⟩

theorem clean_iff {candles : List Candle} {st : State τ} :
    Clean candles st ↔ st.candles = candles ∧ Books (fun _ => True) st := by
  constructor
  · rintro ⟨hcandles, hbook⟩
    refine ⟨hcandles, fun hnone => ?_⟩
    obtain ⟨a, hbook, hsolid⟩ := hbook hnone
    exact ⟨a, hsolid, hbook, trivial⟩
  · rintro ⟨hcandles, hbooks⟩
    refine ⟨hcandles, fun hnone => ?_⟩
    obtain ⟨a, hsolid, hbook, -⟩ := hbooks hnone
    exact ⟨a, hbook, hsolid⟩

theorem clean_advance (hpure : ReadOnly tick_fn) {candles : List Candle} {st : State τ}
    (hclean : Clean candles st) (phase : Phase) :
    Clean candles (advance parse tick_fn fee_bps st phase) := by
  obtain ⟨hcandles, hbooks⟩ := clean_iff.mp hclean
  refine clean_iff.mpr
    ⟨(candles_advance parse tick_fn fee_bps hpure st phase).trans hcandles, ?_⟩
  refine books_advance hbooks ?_ ?_
  · intro i _ hnone
    exact books_bar hpure hbooks hnone (by simp)
  · intro a holding price _
    trivial

theorem clean_start (candles : List Candle) (initial_usdt : ℚ) (s : τ) :
    Clean candles (start candles initial_usdt s) :=
  clean_iff.mpr ⟨rfl, books_start trivial candles s⟩

/-- The trades of a backtest are those of its journal, and they are closed at prices
inside their candles exactly if no candle lies beyond a level it triggers. -/
theorem fills_attainable_iff (hpure : ReadOnly tick_fn) {candles : List Candle}
    (hformed : ∀ candle ∈ candles, WellFormed parse candle) (initial_usdt : ℚ) (s : τ) :
    (backtest parse tick_fn fee_bps candles initial_usdt s).book.trades =
        (journal parse tick_fn fee_bps (start candles initial_usdt s)
          (phases candles.length)).flatMap (·.closed) ∧
      ((∀ entry ∈ journal parse tick_fn fee_bps (start candles initial_usdt s)
          (phases candles.length), Attainable parse candles entry) ↔
        AllSteps (fun st phase => some (advance parse tick_fn fee_bps st phase)) (NoGap parse)
          (start candles initial_usdt s) (phases candles.length)) := by
  constructor
  · unfold backtest
    rw [trades_journal]
    rfl
  · unfold journal
    rw [forall_mem_record_iff]
    refine allSteps_congr (P := Clean candles) ?_ ?_ (run_total _ _ _) (clean_start _ _ _)
    · intro st phase st' hclean hstep
      cases hstep
      exact clean_advance fee_bps hpure hclean phase
    · intro st phase st' hclean _
      cases phase with
      | bar i => exact attainable_bar_iff fee_bps hpure hformed hclean i
      | force_close => exact iff_of_true (attainable_force_close fee_bps hformed hclean) trivial

theorem wellFormed_flat_candle : WellFormed (fun _ => none) flat_candle :=
  ⟨100, 100, 100, 100, rfl, ⟨rfl, rfl, rfl⟩, by norm_num, by norm_num, by norm_num, by norm_num⟩

theorem fills_attainable_iff_stopped :
    (backtest (fun _ => none) (stopped 100) 10 (List.replicate 23 flat_candle) 1000
        ()).book.trades =
        (journal (fun _ => none) (stopped 100) 10
          (start (List.replicate 23 flat_candle) 1000 ())
          (phases (List.replicate 23 flat_candle).length)).flatMap (·.closed) ∧
      ((∀ entry ∈ journal (fun _ => none) (stopped 100) 10
          (start (List.replicate 23 flat_candle) 1000 ())
          (phases (List.replicate 23 flat_candle).length),
          Attainable (fun _ => none) (List.replicate 23 flat_candle) entry) ↔
        AllSteps (fun st phase => some (advance (fun _ => none) (stopped 100) 10 st phase))
          (NoGap (fun _ => none)) (start (List.replicate 23 flat_candle) 1000 ())
          (phases (List.replicate 23 flat_candle).length)) := by
  refine fills_attainable_iff 10 (readOnly_stopped 100) ?_ 1000 ()
  intro candle hcandle
  rw [List.eq_of_mem_replicate hcandle]
  exact wellFormed_flat_candle

/-- A long position opened at 100 with a stop at 1000 is closed at 1000 in a candle
that never leaves 100. -/
theorem fills_beyond_candle :
    ¬ ∀ (parse : Text → Option ℚ) (tick_fn : TickFn Unit) (fee_bps : ℚ) (candles : List Candle)
      (initial_usdt : ℚ), ReadOnly tick_fn →
      (∀ candle ∈ candles, WellFormed parse candle) →
      ∀ entry ∈ journal parse tick_fn fee_bps (start candles initial_usdt ())
        (phases candles.length), Attainable parse candles entry := by
  intro h
  have hformed : ∀ candle ∈ List.replicate 22 flat_candle,
      WellFormed (fun _ => none) candle := by
    intro candle hcandle
    rw [List.eq_of_mem_replicate hcandle]
    exact wellFormed_flat_candle
  have hall := h (fun _ => none) (stopped 1000) 10 (List.replicate 22 flat_candle) 1000
    (readOnly_stopped 1000) hformed
  have hstopped : (journal (fun _ => none) (stopped 1000) 10
      (start (List.replicate 22 flat_candle) 1000 ())
      (phases (List.replicate 22 flat_candle).length)).any
      (fun entry => entry.phase = .bar 21 && entry.closed.any (·.exit = 1000)) = true := by
    decide +kernel
  obtain ⟨entry, hentry, hphase⟩ := List.any_eq_true.mp hstopped
  simp only [Bool.and_eq_true, decide_eq_true_eq, List.any_eq_true] at hphase
  obtain ⟨hphase, trade, htrade, hexit⟩ := hphase
  obtain ⟨candle, high, low, price, hcandle, hreads, -, hhigh⟩ := hall entry hentry trade htrade
  rw [hphase] at hcandle
  obtain rfl : flat_candle = candle := Option.some.inj hcandle
  have hread : high = 100 := (Except.ok.inj hreads.high).symm
  rw [hexit, hread] at hhigh
  exact absurd hhigh (by norm_num)

end ArticTrader.BacktestFills
