import Mathlib.Tactic.FieldSimp
import Mathlib.Tactic.NormNum
import ArticTrader.BacktestAccounting
import ArticTrader.BacktestFills
import ArticTrader.BacktestLevels
import ArticTrader.BacktestMetrics

/-!
When a backtest stays solvent: the prices at which an open position is marked and
closed, against the fraction of the cash that it was opened with.
-/

namespace ArticTrader.BacktestSolvency

open ArticTrader.LabelledRuns
open ArticTrader.PythonNumbers
open ArticTrader.PythonText (Text)
open ArticTrader.BacktestEngine
open ArticTrader.BacktestTampering
open ArticTrader.BacktestBook
open ArticTrader.BacktestAccounting
open ArticTrader.BacktestFills
open ArticTrader.BacktestLevels
open ArticTrader.BacktestMetrics

/-- The fraction of the cash that the position was opened with, where `cash` is left. -/
def share (h : Holding) (cash fee_bps : ℚ) : ℚ := h.size / (cash + h.size + h.fee fee_bps)

/-- The position can be marked (`fees = 1`) or closed (`fees = 2`) at this price without
going through all the cash. -/
def Bears (h : Holding) (cash fee_bps fees price : ℚ) : Prop :=
  match h.side with
  | .long => 1 + fees * (fee_bps / 10000) - 1 / share h cash fee_bps ≤ price / h.entry
  | .short => price / h.entry ≤ 1 - fees * (fee_bps / 10000) + 1 / share h cash fee_bps

/-- One bar, in which the strategy answers to the books `a` with `answers a`. -/
def BearsBar (fee_bps high low price : ℚ) (answers : Account → Signal) (a : Account) : Prop :=
  ∀ h, a.holding = some h →
    match h.hit high low with
    | some (exit, _) => Bears h a.cash fee_bps 2 exit
    | none => Bears h a.cash fee_bps (if closes (answers a) then 2 else 1) price

variable {τ : Type}

def said (tick_fn : TickFn τ) (st : State τ) (i : ℕ) (a : Account) : Signal :=
  (answer tick_fn st i a).signal.getD tick_error

/-- The open position bears the price of the phase. -/
def Borne (parse : Text → Option ℚ) (tick_fn : TickFn τ) (fee_bps : ℚ) (st : State τ) :
    Phase → Prop
  | .bar i =>
      st.raised = none → ∀ (a : Account) candle high low price, st.book = a.book →
        st.candles[i]? = some candle → Reads parse candle high low price →
        BearsBar fee_bps high low price (said tick_fn st i) a
  | .force_close =>
      st.raised = none → ∀ (a : Account) h price, st.book = a.book → a.holding = some h →
        candle_get parse (last_close st.candles) = .ok price → Bears h a.cash fee_bps 2 price

theorem gain_long {h : Holding} (hentry : h.entry ≠ 0) (hside : h.side = .long) (price : ℚ) :
    h.gain price = price / h.entry - 1 := by
  rw [← div_self hentry, ← sub_div, Holding.gain, hside]

theorem gain_short {h : Holding} (hentry : h.entry ≠ 0) (hside : h.side = .short) (price : ℚ) :
    h.gain price = 1 - price / h.entry := by
  rw [← div_self hentry, ← sub_div, Holding.gain, hside]

/-- What is left of the cash after the position at this price and `fees` of its fees. -/
theorem bears_iff {h : Holding} (hentry : h.entry ≠ 0) (hsize : 0 < h.size)
    (cash fee_bps fees price : ℚ) :
    Bears h cash fee_bps fees price ↔
      0 ≤ cash + h.size * (1 + h.gain price) - (fees - 1) * h.fee fee_bps := by
  have hshare : 1 / share h cash fee_bps = cash / h.size + 1 + fee_bps / 10000 := by
    rw [share, one_div_div, add_div, add_div, div_self hsize.ne', Holding.fee]
    field_simp
  have hleft : cash + h.size * (1 + h.gain price) - (fees - 1) * h.fee fee_bps =
      h.size * (1 / share h cash fee_bps - fees * (fee_bps / 10000) + h.gain price) := by
    rw [hshare, Holding.fee]
    field_simp
    ring
  rw [hleft, mul_nonneg_iff_of_pos_left hsize]
  unfold Bears
  cases hside : h.side with
  | long =>
      rw [gain_long hentry hside]
      constructor
      · intro hle
        linarith
      · intro hle
        linarith
  | short =>
      rw [gain_short hentry hside]
      constructor
      · intro hle
        linarith
      · intro hle
        linarith

theorem mark_nonneg_iff {a : Account} {h : Holding} (ha : a.holding = some h)
    (hentry : h.entry ≠ 0) (hsize : 0 < h.size) (fee_bps price : ℚ) :
    0 ≤ a.equity price ↔ Bears h a.cash fee_bps 1 price := by
  rw [bears_iff hentry hsize, Account.equity, ha, sub_self, zero_mul, sub_zero]

theorem closed_nonneg_iff (a : Account) {h : Holding} (hentry : h.entry ≠ 0) (hsize : 0 < h.size)
    (fee_bps exit : ℚ) (reason : Text) :
    0 ≤ (a.closed h fee_bps exit reason).cash ↔ Bears h a.cash fee_bps 2 exit := by
  have hcash : (a.closed h fee_bps exit reason).cash =
      a.cash + h.size * (1 + h.gain exit) - (2 - 1) * h.fee fee_bps := by
    change a.cash + h.size + h.size * h.gain exit - h.fee fee_bps = _
    ring
  rw [bears_iff hentry hsize, hcash]

/-- A long position of a small enough part of the cash bears every price. -/
theorem bears_of_small {h : Holding} {cash fee_bps fees price : ℚ} (hside : h.side = .long)
    (hentry : 0 < h.entry) (hprice : 0 ≤ price) (hshare : 0 < share h cash fee_bps)
    (hsmall : share h cash fee_bps * (1 + fees * (fee_bps / 10000)) ≤ 1) :
    Bears h cash fee_bps fees price := by
  have hratio : 0 ≤ price / h.entry := div_nonneg hprice hentry.le
  have hle : 1 + fees * (fee_bps / 10000) ≤ 1 / share h cash fee_bps := by
    rw [le_div_iff₀ hshare, mul_comm]
    exact hsmall
  unfold Bears
  rw [hside]
  change 1 + fees * (fee_bps / 10000) - 1 / share h cash fee_bps ≤ price / h.entry
  linarith

theorem size_frac_le_one (parse : Text → Option ℚ) (signal : Signal) :
    size_frac parse signal ≤ 1 := by
  unfold size_frac clamp
  simp only
  grind

/-- The fee on an opening is no more than the cash. -/
theorem equity_opened_nonneg {parse : Text → Option ℚ} {fee_bps : ℚ} (hfee : fee_bps ≤ 10000)
    {a : Account} {signal : Signal} {side : Side} (hopen : opening_side parse a signal = some side)
    (price : ℚ) (stop take : Option ℚ) :
    0 ≤ (a.opened ⟨side, price, a.cash * size_frac parse signal, stop, take⟩ fee_bps).equity
      price := by
  obtain ⟨⟨-, hcash, hfrac⟩, -⟩ := (opening_side_some_iff parse).mp hopen
  have hgain : (⟨side, price, a.cash * size_frac parse signal, stop, take⟩ : Holding).gain price =
      0 := by
    unfold Holding.gain
    cases side with
    | long => exact (congrArg (· / price) (sub_self price)).trans (zero_div price)
    | short => exact (congrArg (· / price) (sub_self price)).trans (zero_div price)
  have hequity : (a.opened ⟨side, price, a.cash * size_frac parse signal, stop, take⟩
      fee_bps).equity price = a.cash * (1 - size_frac parse signal * (fee_bps / 10000)) := by
    change a.cash - (a.cash * size_frac parse signal +
      a.cash * size_frac parse signal * fee_bps / 10000) +
        a.cash * size_frac parse signal * (1 + Holding.gain _ price) = _
    rw [hgain]
    ring
  have hpaid : size_frac parse signal * (fee_bps / 10000) ≤ 1 :=
    calc
      size_frac parse signal * (fee_bps / 10000) ≤ size_frac parse signal * 1 := by
        apply mul_le_mul_of_nonneg_left _ hfrac.le
        linarith
      _ ≤ 1 := by
        rw [mul_one]
        exact size_frac_le_one parse signal
  rw [hequity]
  exact mul_nonneg hcash.le (sub_nonneg.mpr hpaid)

/-- The strategy holds a position of some size. -/
def Sized (a : Account) : Prop := ∀ h, a.holding = some h → 0 < h.size

theorem Sized.checked {fee_bps high low : ℚ} {a a' : Account} (ha : Sized a)
    (h : Checked fee_bps high low a a') : Sized a' := by
  cases h with
  | kept => exact ha
  | closed => exact nofun

theorem Sized.acted {parse : Text → Option ℚ} {signal : Signal} {price fee_bps : ℚ}
    {a a' : Account} (ha : Sized a) (h : Acted parse signal price fee_bps a a') : Sized a' := by
  cases h with
  | kept => exact ha
  | opened opening =>
      intro h' hh'
      cases hh'
      obtain ⟨⟨-, hcash, hfrac⟩, -⟩ := (opening_side_some_iff parse).mp opening
      exact mul_pos hcash hfrac
  | closed => exact nofun

variable {parse : Text → Option ℚ} {fee_bps high low price : ℚ} {answers : Account → Signal}

theorem bearsBar_of_none {a : Account} (ha : a.holding = none) :
    BearsBar fee_bps high low price answers a := by
  intro h hh
  rw [ha] at hh
  cases hh

theorem bearsBar_of_no_hit {a : Account} {h : Holding} (ha : a.holding = some h)
    (hhit : h.hit high low = none) :
    BearsBar fee_bps high low price answers a ↔
      Bears h a.cash fee_bps (if closes (answers a) then 2 else 1) price := by
  constructor
  · intro hbears
    have hbar := hbears h ha
    rwa [hhit] at hbar
  · intro hbears h' hh'
    rw [ha] at hh'
    cases hh'
    rwa [hhit]

theorem bearsBar_of_hit {a : Account} {h : Holding} (ha : a.holding = some h) {exit : ℚ}
    {reason : Text} (hhit : h.hit high low = some (exit, reason)) :
    BearsBar fee_bps high low price answers a ↔ Bears h a.cash fee_bps 2 exit := by
  constructor
  · intro hbears
    have hbar := hbears h ha
    rwa [hhit] at hbar
  · intro hbears h' hh'
    rw [ha] at hh'
    cases hh'
    rwa [hhit]

/-- The equity after a bar. -/
theorem equity_nonneg_iff (hfee : fee_bps ≤ 10000) {a a' a'' : Account} (hsolid : a.Solid)
    (hsized : Sized a) (hflat : a.holding = none → 0 ≤ a.cash)
    (hchecked : Checked fee_bps high low a a')
    (hacted : Acted parse (answers a') price fee_bps a' a'') :
    0 ≤ a''.equity price ↔ BearsBar fee_bps high low price answers a := by
  cases hchecked with
  | kept hno =>
      cases hacted with
      | kept _ closing =>
          cases ha : a.holding with
          | none =>
              refine iff_of_true ?_ (bearsBar_of_none ha)
              rw [Account.equity, ha]
              exact hflat ha
          | some h =>
              have hnot : ¬ closes (answers a) := by simpa [ha] using closing
              rw [bearsBar_of_no_hit ha (hno h ha), if_neg hnot]
              exact mark_nonneg_iff ha (hsolid h ha) (hsized h ha) fee_bps price
      | opened opening =>
          exact iff_of_true (equity_opened_nonneg hfee opening price _ _)
            (bearsBar_of_none (holding_of_opening parse opening))
      | @closed h holding entry closing =>
          rw [bearsBar_of_no_hit holding (hno h holding), if_pos closing]
          exact closed_nonneg_iff a entry (hsized h holding) fee_bps price _
  | @closed h exit reason holding entry hit =>
      have hcash := closed_nonneg_iff a entry (hsized h holding) fee_bps exit reason
      rw [bearsBar_of_hit holding hit, ← hcash]
      cases hacted with
      | kept => exact Iff.rfl
      | opened opening =>
          obtain ⟨⟨-, hcash, -⟩, -⟩ := (opening_side_some_iff parse).mp opening
          exact iff_of_true (equity_opened_nonneg hfee opening price _ _) hcash.le
      | closed nothing => cases nothing

theorem opening_of_error {a : Account} (ha : a.Solid) {signal : Option Signal} {e : PyError}
    (h : after_tick parse a.book signal price fee_bps = .error e) :
    ∃ side, opening_side parse a (signal.getD tick_error) = some side := by
  change after_tick parse a.book (some (signal.getD tick_error)) price fee_bps = _ at h
  generalize signal.getD tick_error = given at h ⊢
  cases hopen : opening_side parse a given with
  | some side => exact ⟨side, rfl⟩
  | none =>
      cases hholding : a.holding with
      | none =>
          rw [after_tick_of_neither parse ha hopen (.inl hholding)] at h
          cases h
      | some holding =>
          by_cases hclose : closes given
          · rw [after_tick_of_closing parse hholding ha hclose] at h
            cases h
          · rw [after_tick_of_neither parse ha hopen (.inr hclose)] at h
            cases h

theorem book_injective {a a' : Account} (h : a.book = a'.book) : a = a' := by
  obtain ⟨cash, holding, trades⟩ := a
  obtain ⟨cash', holding', trades'⟩ := a'
  simp only [Account.book, Book.mk.injEq] at h
  obtain ⟨rfl, hposition, rfl⟩ := h
  have hinjective : Function.Injective Holding.position := fun _ _ => position_injective
  rw [Option.map_injective hinjective hposition]

/-- The engine before bar `i`, with the price that its last equity was marked at. -/
structure Tracks (parse : Text → Option ℚ) (candles : List Candle) (i : ℕ) (st : State τ)
    (a : Account) : Prop where
  raised : st.raised = none
  book : st.book = a.book
  solid : a.Solid
  sized : Sized a
  last : ∃ price, st.equity_curve.getLast? = some (a.equity price) ∧
    (a.holding ≠ none → candle_get parse (last_close (candles.take i)) = .ok price)
  candles : ∀ j, i ≤ j → st.candles[j]? = candles[j]?

theorem tracks_start (candles : List Candle) (initial_usdt : ℚ) (s : τ) (i : ℕ) :
    Tracks parse candles i (start candles initial_usdt s) ⟨initial_usdt, none, []⟩ where
  raised := rfl
  book := rfl
  solid := nofun
  sized := nofun
  last := ⟨0, rfl, fun h => absurd rfl h⟩
  candles := fun _ _ => rfl

variable {candles : List Candle} {i : ℕ} {st : State τ} {a : Account} {tick_fn : TickFn τ}

theorem Tracks.flat (hs : Tracks parse candles i st a) (hsolvent : Solvent st.equity_curve)
    (ha : a.holding = none) : 0 ≤ a.cash := by
  obtain ⟨price, hlast, -⟩ := hs.last
  rw [Account.equity, ha] at hlast
  exact hsolvent.points _ (List.mem_of_getLast? hlast)

theorem borne_bar_iff (hs : Tracks parse candles i st a) {candle : Candle}
    (hi : st.candles[i]? = some candle) (hreads : Reads parse candle high low price) :
    Borne parse tick_fn fee_bps st (.bar i) ↔
      BearsBar fee_bps high low price (said tick_fn st i) a := by
  constructor
  · intro hborne
    exact hborne hs.raised a candle high low price hs.book hi hreads
  · intro hbears _ a' candle' high' low' price' hbook hi' hreads'
    rw [hs.book] at hbook
    obtain rfl := book_injective hbook
    rw [hi] at hi'
    cases hi'
    obtain ⟨rfl, rfl, rfl⟩ := hreads.unique hreads'
    exact hbears

/-- One bar adds a point to the curve, unless an opening raises. -/
theorem bar_of_tracks (hs : Tracks parse candles i st a) {candle : Candle}
    (hgiven : candles[i]? = some candle) (hreads : Reads parse candle high low price)
    (halone : LeavesAlone parse tick_fn fee_bps candles st (.bar i)) :
    ∃ a', Checked fee_bps high low a a' ∧
      ((∃ a'', Acted parse (said tick_fn st i a') price fee_bps a' a'' ∧
          (bar parse tick_fn fee_bps st i).equity_curve =
            st.equity_curve ++ [a''.equity price] ∧
          Tracks parse candles (i + 1) (bar parse tick_fn fee_bps st i) a'') ∨
        (bar parse tick_fn fee_bps st i).raised ≠ none ∧
          (bar parse tick_fn fee_bps st i).equity_curve = st.equity_curve ∧
          ∃ side, opening_side parse a' (said tick_fn st i a') = some side) := by
  have hi : st.candles[i]? = some candle := (hs.candles i le_rfl).trans hgiven
  obtain ⟨a', hchecked, hbefore, hbar⟩ := bar_of_reads parse tick_fn fee_bps hs.book hs.solid hi
    hreads
  have hcalled : (st.called i a'.book (answer tick_fn st i a')).book = a'.book := by
    have hposition : a'.book.position.map (answer tick_fn st i a').tamper = a'.book.position :=
      position_of_leavesAlone parse tick_fn fee_bps halone hi hbefore
    change { a'.book with position := a'.book.position.map (answer tick_fn st i a').tamper } = _
    rw [hposition]
  refine ⟨a', hchecked, ?_⟩
  rw [hbar]
  rcases settle_cases parse fee_bps hcalled (answer tick_fn st i a').signal price with
    ⟨a'', hsolid, hacted, hsettle⟩ | ⟨e, he, hsettle⟩
  · refine .inl ⟨a'', hacted, ?_, ?_⟩
    · rw [hsettle]
      rfl
    · rw [hsettle]
      refine ⟨hs.raised, rfl, hsolid, (hs.sized.checked hchecked).acted hacted, ?_, ?_⟩
      · refine ⟨price, List.getLast?_concat, ?_⟩
        intro _
        rw [last_close_take hgiven]
        exact hreads.close
      · intro j hj
        exact (getElem?_touched _ hj st.candles).trans (hs.candles j (Nat.le_of_succ_le hj))
  · refine .inr ⟨?_, ?_, opening_of_error (hchecked.solid hs.solid) he⟩
    · rw [hsettle]
      exact Option.some_ne_none e
    · rw [hsettle]
      rfl

/-- A bar keeps the curve solvent exactly if the open position bears its price. -/
theorem solvent_bar_iff (hfee : fee_bps ≤ 10000) (hs : Tracks parse candles i st a)
    {candle : Candle} (hgiven : candles[i]? = some candle)
    (hreads : Reads parse candle high low price)
    (halone : LeavesAlone parse tick_fn fee_bps candles st (.bar i)) :
    Solvent (bar parse tick_fn fee_bps st i).equity_curve ↔
      Solvent st.equity_curve ∧ Borne parse tick_fn fee_bps st (.bar i) := by
  have hi : st.candles[i]? = some candle := (hs.candles i le_rfl).trans hgiven
  rw [borne_bar_iff hs hi hreads]
  obtain ⟨a', hchecked, ⟨a'', hacted, hcurve, -⟩ | ⟨-, hcurve, side, hopen⟩⟩ :=
    bar_of_tracks hs hgiven hreads halone
  · rw [hcurve, solvent_concat_iff]
    refine and_congr_right fun hsolvent => ?_
    exact equity_nonneg_iff hfee hs.solid hs.sized (hs.flat hsolvent) hchecked hacted
  · rw [hcurve]
    refine (and_iff_left ?_).symm
    obtain ⟨⟨-, hleft, -⟩, -⟩ := (opening_side_some_iff parse).mp hopen
    cases hchecked with
    | kept => exact bearsBar_of_none (holding_of_opening parse hopen)
    | @closed h exit reason holding entry hit =>
        rw [bearsBar_of_hit holding hit,
          ← closed_nonneg_iff a entry (hs.sized h holding) fee_bps exit reason]
        exact hleft.le

/-- The forced close only takes a fee off the last point. -/
theorem solvent_force_close_iff (hfee : 0 ≤ fee_bps)
    (hs : Tracks parse candles candles.length st a)
    (halone : LeavesAlone parse tick_fn fee_bps candles st .force_close) :
    Solvent (force_close parse fee_bps st).equity_curve ↔
      Solvent st.equity_curve ∧ Borne parse tick_fn fee_bps st .force_close := by
  cases ha : a.holding with
  | none =>
      rw [force_close_of_none parse fee_bps hs.book ha]
      refine (and_iff_left ?_).symm
      intro _ a' h price hbook hholding
      rw [hs.book] at hbook
      obtain rfl := book_injective hbook
      rw [ha] at hholding
      cases hholding
  | some h =>
      obtain ⟨price, hlast, hclose⟩ := hs.last
      have hread : candle_get parse (last_close st.candles) = .ok price := by
        rw [halone (by simp [hs.book, book_of_some ha])]
        simpa [ha] using hclose
      have hborne : Borne parse tick_fn fee_bps st .force_close ↔
          Bears h a.cash fee_bps 2 price := by
        constructor
        · intro hborne
          exact hborne hs.raised a h price hs.book ha hread
        · intro hbears _ a' h' price' hbook hholding hread'
          rw [hs.book] at hbook
          obtain rfl := book_injective hbook
          rw [ha] at hholding
          cases hholding
          rw [hread] at hread'
          cases hread'
          exact hbears
      have hentry := hs.solid h ha
      have hsize := hs.sized h ha
      rw [force_close_of_some parse fee_bps hs.book ha hentry hread, hborne,
        ← closed_nonneg_iff a hentry hsize fee_bps price "force_close".toList, solvent_concat_iff]
      refine and_congr_left fun hcash => ?_
      have hmark : 0 ≤ a.equity price := by
        have hpaid : 0 ≤ h.fee fee_bps := by
          unfold Holding.fee
          positivity
        change 0 ≤ a.cash + h.size + h.size * h.gain price - h.fee fee_bps at hcash
        rw [Account.equity, ha]
        change 0 ≤ a.cash + h.size * (1 + h.gain price)
        linarith
      conv_rhs => rw [← List.dropLast_append_getLast? _ hlast]
      rw [solvent_concat_iff, and_iff_left hmark]

def Tracked (parse : Text → Option ℚ) (candles : List Candle) (i : ℕ) (st : State τ) : Prop :=
  st.raised = none → ∃ a, Tracks parse candles i st a

theorem borne_of_raised (hraised : st.raised ≠ none) (phase : Phase) :
    Borne parse tick_fn fee_bps st phase := by
  cases phase with
  | bar i => exact fun h => absurd h hraised
  | force_close => exact fun h => absurd h hraised

theorem solvent_advance_bar (hpriced : ∀ candle ∈ candles, Priced parse candle)
    (hfee : fee_bps ≤ 10000) (hi : i < candles.length) (hs : Tracked parse candles i st)
    (halone : st.raised = none → LeavesAlone parse tick_fn fee_bps candles st (.bar i)) :
    (Solvent (advance parse tick_fn fee_bps st (.bar i)).equity_curve ↔
        Solvent st.equity_curve ∧ Borne parse tick_fn fee_bps st (.bar i)) ∧
      Tracked parse candles (i + 1) (advance parse tick_fn fee_bps st (.bar i)) := by
  by_cases hraised : st.raised.isSome = true
  · have hne : st.raised ≠ none := Option.isSome_iff_ne_none.mp hraised
    rw [advance_of_raised parse tick_fn fee_bps hraised]
    exact ⟨(and_iff_left (borne_of_raised hne _)).symm, fun hnone => absurd hnone hne⟩
  · have hnone : st.raised = none := by simpa using hraised
    obtain ⟨a, htracks⟩ := hs hnone
    obtain ⟨high, low, price, hreads, -, -, -⟩ := hpriced _ (List.getElem_mem hi)
    have hgiven : candles[i]? = some candles[i] := List.getElem?_eq_getElem hi
    rw [advance_of_not_raised parse tick_fn fee_bps hraised]
    refine ⟨solvent_bar_iff hfee htracks hgiven hreads (halone hnone), fun hnone' => ?_⟩
    obtain ⟨-, -, ⟨a'', -, -, hnext⟩ | ⟨hne, -, -⟩⟩ :=
      bar_of_tracks htracks hgiven hreads (halone hnone)
    · exact ⟨a'', hnext⟩
    · exact absurd hnone' hne

theorem solvent_advance_force_close (hfee : 0 ≤ fee_bps)
    (hs : Tracked parse candles candles.length st)
    (halone : st.raised = none → LeavesAlone parse tick_fn fee_bps candles st .force_close) :
    Solvent (advance parse tick_fn fee_bps st .force_close).equity_curve ↔
      Solvent st.equity_curve ∧ Borne parse tick_fn fee_bps st .force_close := by
  by_cases hraised : st.raised.isSome = true
  · rw [advance_of_raised parse tick_fn fee_bps hraised]
    exact (and_iff_left (borne_of_raised (Option.isSome_iff_ne_none.mp hraised) _)).symm
  · have hnone : st.raised = none := by simpa using hraised
    obtain ⟨a, htracks⟩ := hs hnone
    rw [advance_of_not_raised parse tick_fn fee_bps hraised]
    exact solvent_force_close_iff hfee htracks (halone hnone)

/-- The last `m` bars and the forced close. -/
theorem solvent_phases_iff (hpriced : ∀ candle ∈ candles, Priced parse candle)
    (hfee : 0 ≤ fee_bps ∧ fee_bps ≤ 10000) (m : ℕ) (hi : i + m = candles.length)
    (hs : Tracked parse candles i st)
    (halone : AllSteps (fun st phase => some (advance parse tick_fn fee_bps st phase))
      (fun st phase => st.raised = none → LeavesAlone parse tick_fn fee_bps candles st phase) st
      ((List.range' i m).map .bar ++ [.force_close])) :
    Solvent (((List.range' i m).map Phase.bar ++ [Phase.force_close]).foldl
        (advance parse tick_fn fee_bps) st).equity_curve ↔
      Solvent st.equity_curve ∧
        AllSteps (fun st phase => some (advance parse tick_fn fee_bps st phase))
          (Borne parse tick_fn fee_bps) st ((List.range' i m).map .bar ++ [.force_close]) := by
  induction m generalizing i st with
  | zero =>
      obtain rfl : i = candles.length := hi
      have hone : AllSteps (fun st phase => some (advance parse tick_fn fee_bps st phase))
          (Borne parse tick_fn fee_bps) st [.force_close] ↔
            Borne parse tick_fn fee_bps st .force_close := by
        simp [AllSteps]
      change _ ↔ Solvent st.equity_curve ∧ AllSteps _ _ st [Phase.force_close]
      rw [hone]
      exact solvent_advance_force_close hfee.1 hs halone.1
  | succ m ih =>
      rw [List.range'_succ, List.map_cons, List.cons_append] at halone ⊢
      obtain ⟨hbar, hnext⟩ := solvent_advance_bar hpriced hfee.2 (by omega) hs halone.1
      rw [List.foldl_cons, ih (by omega) hnext (halone.2 _ rfl), hbar, and_assoc]
      exact and_congr_right fun _ => (allSteps_cons_iff rfl).symm

/-- A backtest that is left alone stays solvent exactly if each open position bears every
price that it is marked or closed at. -/
theorem solvent_iff_borne (hpriced : ∀ candle ∈ candles, Priced parse candle)
    (hfee : 0 ≤ fee_bps ∧ fee_bps ≤ 10000) {initial_usdt : ℚ} {s : τ}
    (halone : LeftAlone parse tick_fn fee_bps candles initial_usdt s) :
    Solvent (backtest parse tick_fn fee_bps candles initial_usdt s).equity_curve ↔
      0 ≤ initial_usdt ∧
        AllSteps (fun st phase => some (advance parse tick_fn fee_bps st phase))
          (Borne parse tick_fn fee_bps) (start candles initial_usdt s)
          (phases candles.length) := by
  have hstart : Solvent (start candles initial_usdt s).equity_curve ↔ 0 ≤ initial_usdt :=
    solvent_singleton_iff initial_usdt
  unfold LeftAlone phases at halone
  unfold backtest phases
  split_ifs at halone ⊢ with hshort
  · rw [List.foldl_nil, hstart]
    exact (and_iff_left trivial).symm
  · rw [← hstart]
    exact solvent_phases_iff hpriced hfee (candles.length - WARMUP) (by omega)
      (fun _ => ⟨_, tracks_start candles initial_usdt s WARMUP⟩) halone

theorem solvent_iff_borne_stopped :
    Solvent (backtest (fun _ => none) (stopped 50) 10 (List.replicate 23 flat_candle) 1000
        ()).equity_curve ↔
      (0 : ℚ) ≤ 1000 ∧
        AllSteps (fun st phase => some (advance (fun _ => none) (stopped 50) 10 st phase))
          (Borne (fun _ => none) (stopped 50) 10) (start (List.replicate 23 flat_candle) 1000 ())
          (phases (List.replicate 23 flat_candle).length) := by
  refine solvent_iff_borne ?_ ⟨by norm_num, by norm_num⟩ ?_
  · intro candle hcandle
    rw [List.eq_of_mem_replicate hcandle]
    exact ⟨100, 100, 100, ⟨rfl, rfl, rfl⟩, by norm_num, by norm_num, by norm_num⟩
  · exact leftAlone_of_readOnly (fun _ => none) (stopped 50) 10 (readOnly_stopped 50)
      (List.replicate 23 flat_candle) 1000 ()

/-- Sells short with all its cash. -/
def sell : Ctx → Answer := fun _ =>
  { action := some ⟨.str "OPEN_SHORT".toList, "str".toList, "'OPEN_SHORT'".toList, true⟩
    size := some ⟨.num 1, "int".toList, "1".toList, true⟩
    reason := none
    stop_loss := none
    take_profit := none }

def tripled_candle : Candle where
  timestamp := none
  open_ := some (.num 100)
  high := some (.num 300)
  low := some (.num 100)
  close := some (.num 300)
  volume := some (.num 1)

/-- A short position at 100 loses more than all the cash when the price rises to 300. -/
theorem short_loses_twice_its_cash :
    ¬ ∀ (parse : Text → Option ℚ) (on_tick : Ctx → Answer) (fee_bps initial_usdt : ℚ)
      (candles : List Candle), (∀ ctx, (on_tick ctx).Valid) →
      (∀ candle ∈ candles, WellFormed parse candle ∧ Priced parse candle) →
      0 ≤ fee_bps ∧ fee_bps ≤ 10000 → 0 ≤ initial_usdt →
      Solvent (backtest parse (runner_tick on_tick) fee_bps candles initial_usdt
        ()).equity_curve := by
  intro h
  have hgood : ∀ candle ∈ List.replicate 21 flat_candle ++ [tripled_candle],
      WellFormed (fun _ => none) candle ∧ Priced (fun _ => none) candle := by
    intro candle hcandle
    rcases List.mem_append.mp hcandle with hflat | hlast
    · rw [List.eq_of_mem_replicate hflat]
      exact ⟨wellFormed_flat_candle,
        100, 100, 100, ⟨rfl, rfl, rfl⟩, by norm_num, by norm_num, by norm_num⟩
    · rw [List.mem_singleton.mp hlast]
      refine ⟨⟨100, 300, 100, 300, rfl, ⟨rfl, rfl, rfl⟩, ?_, ?_, ?_, ?_⟩,
        300, 100, 300, ⟨rfl, rfl, rfl⟩, ?_, ?_, ?_⟩
      all_goals norm_num
  have hsolvent := h (fun _ => none) sell 10 1000
    (List.replicate 21 flat_candle ++ [tripled_candle])
    (fun _ => ⟨⟨"OPEN_SHORT".toList, 1, []⟩, rfl⟩) hgood ⟨by norm_num, by norm_num⟩ (by norm_num)
  have hruined : 2 < max_drawdown (backtest (fun _ => none) (runner_tick sell) 10
      (List.replicate 21 flat_candle ++ [tripled_candle]) 1000 ()).equity_curve := by
    decide +kernel
  linarith [hsolvent.drawdown_le_one]

end ArticTrader.BacktestSolvency
