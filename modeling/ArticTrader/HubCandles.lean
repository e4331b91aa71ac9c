import Mathlib.Algebra.Order.Field.Rat
import Mathlib.Data.List.Nodup
import ArticTrader.LabelledRuns
import ArticTrader.PythonText

/-!
Candles by way of the hub's cache and straight from the data service. The bars
of the service have dates and numbers that both ways can read.
-/

namespace ArticTrader.HubCandles

open ArticTrader.LabelledRuns
open ArticTrader.PythonText (Text upper strip endswith)

structure Candle where
  timestamp : ℤ
  open_ : ℚ
  high : ℚ
  low : ℚ
  close : ℚ
  volume : ℚ
  deriving DecidableEq, Repr

def interval_map : List (Text × Text) :=
  [("1m".toList, "1min".toList), ("5m".toList, "5min".toList), ("15m".toList, "15min".toList),
    ("30m".toList, "30min".toList), ("45m".toList, "45min".toList), ("1h".toList, "1h".toList),
    ("2h".toList, "2h".toList), ("4h".toList, "4h".toList), ("8h".toList, "8h".toList),
    ("1d".toList, "1day".toList), ("1day".toList, "1day".toList), ("1w".toList, "1week".toList),
    ("1week".toList, "1week".toList), ("1month".toList, "1month".toList)]

def interval_of (timeframe : Text) : Text :=
  (interval_map.lookup timeframe).getD "15min".toList

/-- The service has a series of bars for a symbol and the name of an interval, newest
first, or reports an error, as it does for every name it does not know. -/
structure DataService where
  series : Text → Text → Option (List Candle)
  unknown : ∀ symbol interval, interval ∉ interval_map.map Prod.snd →
    series symbol interval = none
  newest_first : ∀ symbol interval bars, series symbol interval = some bars →
    bars.Pairwise fun candle older => older.timestamp < candle.timestamp

def DataService.time_series (service : DataService) (symbol interval : Text) (outputsize : ℕ) :
    Option (List Candle) :=
  if 1 ≤ outputsize ∧ outputsize ≤ 5000 then
    (service.series symbol interval).map fun bars => bars.take outputsize
  else none

/-- There is no answer if the request fails or the hub has no key. -/
def fetch_candles (service : DataService) (reached : Bool) (symbol interval : Text)
    (size : ℕ := 100) : Option (List Candle) :=
  if reached then service.time_series symbol interval size else none

/-- The rows of `market_cache` and the pairs that are refreshed. -/
structure Hub where
  rows : Text × Text → Option (List Candle)
  tracked : List (Text × Text)

structure Response where
  symbol : Text
  interval : Text
  candles : List Candle
  cached : Option Bool
  stale : Option Bool
  error : Option Text

def get_or_fetch (service : DataService) (hub : Hub) (fresh reached : Bool)
    (symbol interval : Text) : Response × Hub :=
  let hub := { hub with tracked := hub.tracked.insert (symbol, interval) }
  match hub.rows (symbol, interval), fresh, fetch_candles service reached symbol interval with
  | some candles, true, _ =>
      ({ symbol, interval, candles, cached := some true, stale := none, error := none }, hub)
  | some candles, false, none =>
      ({ symbol, interval, candles, cached := some true, stale := some true, error := none }, hub)
  | none, _, none =>
      ({ symbol, interval, candles := [], cached := none, stale := none,
         error := some "fetch failed".toList }, hub)
  | _, _, some candles =>
      ({ symbol, interval, candles, cached := some false, stale := none, error := none },
        { hub with rows := Function.update hub.rows (symbol, interval) (some candles) })

/-- One pair of `refresh_all_tracked`. -/
def refresh (service : DataService) (hub : Hub) (reached : Bool) (symbol interval : Text) : Hub :=
  match fetch_candles service reached symbol interval with
  | none => hub
  | some candles =>
      { hub with rows := Function.update hub.rows (symbol, interval) (some candles) }

inductive Event where
  | request (symbol interval : Text) (fresh reached : Bool)
  | refresh (symbol interval : Text) (reached : Bool)

def step (service : DataService) (hub : Hub) : Event → Option Hub
  | .request symbol interval fresh reached =>
      some (get_or_fetch service hub fresh reached symbol interval).2
  | .refresh symbol interval reached =>
      if (symbol, interval) ∈ hub.tracked then some (refresh service hub reached symbol interval)
      else none

def empty_hub : Hub where
  rows := fun _ => none
  tracked := []

def normalize_symbol (symbol : Text) : Text :=
  let s := upper (strip symbol)
  (s.reverse.takeWhile (· ≠ ':')).reverse

def QUOTES : List Text := ["USDT".toList, "USD".toList, "BUSD".toList, "USDC".toList]

def symbol_to_twelvedata_symbol (symbol : Text) : Text :=
  let symbol_upper := upper (normalize_symbol symbol)
  let base_symbol :=
    match QUOTES.find? (endswith symbol_upper) with
    | some suffix => symbol_upper.take (symbol_upper.length - suffix.length)
    | none => symbol_upper
  base_symbol ++ "/USD".toList

/-- `candles.sort(key=lambda x: x.timestamp)` -/
def sort_candles (candles : List Candle) : List Candle :=
  candles.mergeSort fun candle other => candle.timestamp ≤ other.timestamp

/-- `candles[-bar_count:] if len(candles) > bar_count else candles`; from the end, nothing
is dropped for a count of zero. -/
def last_bars (candles : List Candle) (bar_count : ℕ) : List Candle :=
  if bar_count < candles.length then
    if bar_count = 0 then candles else candles.drop (candles.length - bar_count)
  else candles

def nonempty (candles : List Candle) : Option (List Candle) :=
  if candles = [] then none else some candles

def fetch_candles_from_hub (service : DataService) (hub : Hub) (fresh reached : Bool)
    (symbol timeframe : Text) (bar_count : ℕ) : Option (List Candle) :=
  let td_symbol := symbol_to_twelvedata_symbol symbol
  let raw_candles := (get_or_fetch service hub fresh reached td_symbol timeframe).1.candles
  nonempty (last_bars (sort_candles raw_candles) bar_count)

def fetch_candles_directly (service : DataService) (symbol timeframe : Text) (bar_count : ℕ) :
    Option (List Candle) :=
  let td_symbol := symbol_to_twelvedata_symbol symbol
  match service.time_series td_symbol (interval_of timeframe) (min bar_count 5000) with
  | none => none
  | some values => nonempty (last_bars (sort_candles values) bar_count)

def get_ohlcv_candles (service : DataService) (hub : Hub) (fresh reached : Bool)
    (symbol timeframe : Text) (bar_count : ℕ) : Option (List Candle) :=
  match fetch_candles_from_hub service hub fresh reached symbol timeframe bar_count with
  | some result => some result
  | none => fetch_candles_directly service symbol timeframe bar_count

def TIMEFRAME_MINUTES : List (Text × ℕ) :=
  [("1m".toList, 1), ("5m".toList, 5), ("15m".toList, 15), ("30m".toList, 30), ("1h".toList, 60),
    ("4h".toList, 240), ("1d".toList, 1440)]

/-- `(bar_count, min_bars)`, without a strategy hint. -/
def choose_timeframe_and_lookback (primary_timeframe risk_profile : Text) : ℕ × ℕ :=
  let timeframe_minutes := (TIMEFRAME_MINUTES.lookup primary_timeframe).getD 15
  let base_bars := if timeframe_minutes ≤ 60 then 2000 else 1000
  let base_bars :=
    if risk_profile = "conservative".toList then base_bars * 3 / 2
    else if risk_profile = "aggressive".toList then base_bars * 4 / 5
    else base_bars
  (base_bars, 200)

/-- `get_full_analysis` falls back to the default strategy. -/
def insufficient (candles : Option (List Candle)) (min_bars : ℕ) : Bool :=
  match candles with
  | none => true
  | some candles => candles = [] || candles.length < min_bars

/-- Bars that come newest first are sorted by turning them around. -/
theorem sort_candles_eq {bars : List Candle}
    (h : bars.Pairwise fun candle older => older.timestamp < candle.timestamp) :
    sort_candles bars = bars.reverse := by
  have hreverse : bars.reverse.Pairwise fun candle other => candle.timestamp < other.timestamp :=
    List.pairwise_reverse.mpr h
  have hnodup : (bars.map (·.timestamp)).Nodup := by
    rw [List.nodup_iff_pairwise_ne, List.pairwise_map]
    exact h.imp fun hlt => hlt.ne'
  have hperm : (sort_candles bars).Perm bars.reverse :=
    (List.mergeSort_perm _ _).trans (List.reverse_perm _).symm
  have hle : bars.reverse.Pairwise fun candle other => candle.timestamp ≤ other.timestamp :=
    hreverse.imp fun hlt => hlt.le
  refine hperm.eq_of_pairwise ?_ ?_ hle
  · intro candle other hcandle hother hle hge
    rw [sort_candles, List.mem_mergeSort] at hcandle
    rw [List.mem_reverse] at hother
    exact List.inj_on_of_nodup_map hnodup hcandle hother (le_antisymm hle hge)
  · refine (List.pairwise_mergeSort ?_ ?_ bars).imp fun hle => of_decide_eq_true hle
    · intro candle other third hle hle'
      exact decide_eq_true ((of_decide_eq_true hle).trans (of_decide_eq_true hle'))
    · intro candle other
      rw [Bool.or_eq_true, decide_eq_true_eq, decide_eq_true_eq]
      exact le_total _ _

theorem last_bars_reverse (bars : List Candle) {bar_count : ℕ} (h : 1 ≤ bar_count) :
    last_bars bars.reverse bar_count = (bars.take bar_count).reverse := by
  unfold last_bars
  rw [List.length_reverse]
  split_ifs with hlt hzero
  · omega
  · rw [List.reverse_take]
  · rw [List.take_of_length_le (by omega)]

theorem last_bars_zero (bars : List Candle) : last_bars bars 0 = bars := by
  unfold last_bars
  rw [if_pos rfl, ite_self]

variable {service : DataService}

theorem time_series_in_range (symbol interval : Text) {outputsize : ℕ} (h : 1 ≤ outputsize)
    (hmax : outputsize ≤ 5000) :
    service.time_series symbol interval outputsize =
      (service.series symbol interval).map fun bars => bars.take outputsize := by
  rw [DataService.time_series, if_pos ⟨h, hmax⟩]

/-- The rows of the cache are answers of the service. -/
def Served (service : DataService) (hub : Hub) : Prop :=
  ∀ symbol interval candles, hub.rows (symbol, interval) = some candles →
    service.time_series symbol interval 100 = some candles

theorem fetch_candles_served {reached : Bool} {symbol interval : Text} {candles : List Candle}
    (h : fetch_candles service reached symbol interval = some candles) :
    service.time_series symbol interval 100 = some candles := by
  unfold fetch_candles at h
  split_ifs at h
  exact h

theorem Served.update {rows : Text × Text → Option (List Candle)}
    {tracked : List (Text × Text)} (h : Served service ⟨rows, tracked⟩) {symbol interval : Text}
    {candles : List Candle} (hcandles : service.time_series symbol interval 100 = some candles) :
    Served service ⟨Function.update rows (symbol, interval) (some candles), tracked⟩ := by
  intro symbol' interval' candles' hrow
  by_cases hkey : (symbol', interval') = (symbol, interval)
  · obtain ⟨rfl, rfl⟩ := Prod.mk.inj hkey
    simp only [Function.update_self, Option.some.injEq] at hrow
    rw [← hrow]
    exact hcandles
  · simp only [Function.update_of_ne hkey] at hrow
    exact h symbol' interval' candles' hrow

/-- A request answers with candles of the service or with none, and a hub that can fetch
answers with the service's where there are any. -/
theorem get_or_fetch_served {hub : Hub} (hs : Served service hub) (fresh reached : Bool)
    (symbol interval : Text) :
    Served service (get_or_fetch service hub fresh reached symbol interval).2 ∧
      ((get_or_fetch service hub fresh reached symbol interval).1.candles = [] ∨
        service.time_series symbol interval 100 =
          some (get_or_fetch service hub fresh reached symbol interval).1.candles) ∧
      ∀ candles, reached = true → service.time_series symbol interval 100 = some candles →
        (get_or_fetch service hub fresh reached symbol interval).1.candles = candles := by
  have hrow := hs symbol interval
  have hfetched := @fetch_candles_served service reached symbol interval
  have hreached : ∀ candles, reached = true →
      service.time_series symbol interval 100 = some candles →
        fetch_candles service reached symbol interval = some candles := by
    rintro candles rfl h
    exact h
  have hserved : ∀ tracked, Served service ⟨hub.rows, tracked⟩ := fun _ => hs
  unfold get_or_fetch
  dsimp only
  generalize hub.rows (symbol, interval) = row at hrow ⊢
  generalize fetch_candles service reached symbol interval = fetched at hfetched hreached ⊢
  cases fetched with
  | some candles =>
      have hanswer := hfetched rfl
      have honly : ∀ candles', reached = true →
          service.time_series symbol interval 100 = some candles' → candles = candles' :=
        fun candles' h h' => Option.some.inj (hreached candles' h h')
      cases row with
      | none => exact ⟨(hserved _).update hanswer, .inr hanswer, honly⟩
      | some cached =>
          cases fresh with
          | false => exact ⟨(hserved _).update hanswer, .inr hanswer, honly⟩
          | true =>
              have hcached := hrow cached rfl
              refine ⟨hserved _, .inr hcached, ?_⟩
              intro candles' _ h
              exact Option.some.inj (hcached.symm.trans h)
  | none =>
      cases row with
      | none =>
          refine ⟨hserved _, .inl rfl, ?_⟩
          intro candles h h'
          cases hreached candles h h'
      | some cached =>
          have hcached := hrow cached rfl
          have honly : ∀ candles', reached = true →
              service.time_series symbol interval 100 = some candles' → cached = candles' :=
            fun candles' _ h => Option.some.inj (hcached.symm.trans h)
          cases fresh with
          | false => exact ⟨hserved _, .inr hcached, honly⟩
          | true => exact ⟨hserved _, .inr hcached, honly⟩

theorem refresh_served {hub : Hub} (hs : Served service hub) (reached : Bool)
    (symbol interval : Text) : Served service (refresh service hub reached symbol interval) := by
  unfold refresh
  split
  · exact hs
  · rename_i candles hcandles
    exact Served.update hs (fetch_candles_served hcandles)

theorem step_served {hub hub' : Hub} {e : Event} (hs : Served service hub)
    (h : step service hub e = some hub') : Served service hub' := by
  cases e with
  | request symbol interval fresh reached =>
      cases h
      exact (get_or_fetch_served hs fresh reached symbol interval).1
  | refresh symbol interval reached =>
      simp only [step] at h
      split_ifs at h
      cases h
      exact refresh_served hs reached symbol interval

theorem nonempty_eq_some {candles result : List Candle} :
    nonempty candles = some result ↔ candles = result ∧ result ≠ [] := by
  unfold nonempty
  split_ifs with hempty
  · simp [hempty, eq_comm]
  · constructor
    · intro h
      cases h
      exact ⟨rfl, hempty⟩
    · rintro ⟨rfl, -⟩
      rfl

/-- The last bars of what the service returns, oldest first. -/
theorem last_bars_sorted {symbol interval : Text} {bars : List Candle}
    (h : service.series symbol interval = some bars) (outputsize : ℕ) {bar_count : ℕ}
    (hcount : 1 ≤ bar_count) :
    last_bars (sort_candles (bars.take outputsize)) bar_count =
      (bars.take (min bar_count outputsize)).reverse := by
  have hnewest := (service.newest_first symbol interval bars h).sublist
    (List.take_sublist outputsize bars)
  rw [sort_candles_eq hnewest, last_bars_reverse _ hcount, List.take_take]

theorem directly_of_positive {symbol timeframe : Text} {bar_count : ℕ} (hcount : 1 ≤ bar_count)
    {result : List Candle} (hresult : result ≠ []) :
    fetch_candles_directly service symbol timeframe bar_count = some result ↔
      ∃ bars, service.series (symbol_to_twelvedata_symbol symbol) (interval_of timeframe) =
        some bars ∧ (bars.take (min bar_count 5000)).reverse = result := by
  unfold fetch_candles_directly
  dsimp only
  rw [time_series_in_range _ _ (by omega) (by omega)]
  cases hseries : service.series (symbol_to_twelvedata_symbol symbol) (interval_of timeframe) with
  | none => simp
  | some bars =>
      simp only [Option.map_some, nonempty_eq_some, last_bars_sorted hseries _ hcount,
        Option.some.injEq, exists_eq_left', hresult, ne_eq, not_false_eq_true, and_true]
      rw [min_eq_right (by omega)]

theorem directly_of_zero (symbol timeframe : Text) :
    fetch_candles_directly service symbol timeframe 0 = none := by
  unfold fetch_candles_directly
  simp [DataService.time_series]

/-- Where the hub has bars under the name of the timeframe, it is the name the service is
asked for directly and a hundred bars are enough, or the bars under both names are the
same. -/
def Covered (service : DataService) (symbol timeframe : Text) (bar_count : ℕ) : Prop :=
  ∀ bars, service.series (symbol_to_twelvedata_symbol symbol) timeframe = some bars → bars ≠ [] →
    1 ≤ bar_count ∧
      (interval_of timeframe = timeframe ∧ (bar_count ≤ 100 ∨ bars.length ≤ 100) ∨
        interval_of timeframe ≠ timeframe ∧ ∃ direct,
          service.series (symbol_to_twelvedata_symbol symbol) (interval_of timeframe) =
            some direct ∧ bars.take (min bar_count 100) = direct.take (min bar_count 5000))

/-- The timeframes of the table that are written differently for the service are unknown to
it as they are. -/
theorem series_of_translated {timeframe : Text} (haccepted : timeframe ∈ interval_map.map Prod.fst)
    (h : interval_of timeframe ≠ timeframe) (symbol : Text) :
    service.series symbol timeframe = none := by
  apply service.unknown
  revert h
  revert timeframe
  decide

/-- For the timeframes of the table only the number of bars matters. -/
theorem covered_iff_of_accepted {timeframe : Text}
    (haccepted : timeframe ∈ interval_map.map Prod.fst) (symbol : Text) (bar_count : ℕ) :
    Covered service symbol timeframe bar_count ↔ ∀ bars,
      service.series (symbol_to_twelvedata_symbol symbol) timeframe = some bars → bars ≠ [] →
        1 ≤ bar_count ∧ (bar_count ≤ 100 ∨ bars.length ≤ 100) := by
  constructor
  · intro h bars hseries hne
    obtain ⟨hcount, ⟨-, hshort⟩ | ⟨hname, -⟩⟩ := h bars hseries hne
    · exact ⟨hcount, hshort⟩
    · rw [series_of_translated haccepted hname] at hseries
      cases hseries
  · intro h bars hseries hne
    obtain ⟨hcount, hshort⟩ := h bars hseries hne
    refine ⟨hcount, .inl ⟨?_, hshort⟩⟩
    by_contra hname
    rw [series_of_translated haccepted hname] at hseries
    cases hseries

theorem take_eq_take_of_short {bars : List Candle} {bar_count : ℕ} (limit : ℕ)
    (h : bar_count ≤ limit ∨ bars.length ≤ limit) :
    bars.take (min bar_count limit) = bars.take bar_count := by
  rw [List.take_eq_take_iff]
  omega

/-- The direct path returns the last bars of a timeframe where its limit is not reached. -/
theorem directly_all {symbol timeframe : Text} {bar_count : ℕ} {bars : List Candle}
    (hseries : service.series (symbol_to_twelvedata_symbol symbol) (interval_of timeframe) =
      some bars) (hcount : 1 ≤ bar_count) (hne : bars ≠ [])
    (hshort : bar_count ≤ 5000 ∨ bars.length ≤ 5000) :
    fetch_candles_directly service symbol timeframe bar_count =
      some (bars.take bar_count).reverse := by
  rw [directly_of_positive hcount]
  · exact ⟨bars, hseries, by rw [take_eq_take_of_short 5000 hshort]⟩
  · simp only [ne_eq, List.reverse_eq_nil_iff, List.take_eq_nil_iff, hne, or_false]
    omega

/-- What the hub answers is made of the newest hundred bars. -/
theorem from_hub_cases {hub : Hub} (hs : Served service hub) {fresh reached : Bool}
    {symbol timeframe : Text} {bar_count : ℕ} {result : List Candle}
    (h : fetch_candles_from_hub service hub fresh reached symbol timeframe bar_count =
      some result) :
    ∃ bars, service.series (symbol_to_twelvedata_symbol symbol) timeframe = some bars ∧
      bars ≠ [] ∧ result ≠ [] ∧
        (1 ≤ bar_count → result = (bars.take (min bar_count 100)).reverse) := by
  obtain ⟨-, hcandles, -⟩ :=
    get_or_fetch_served hs fresh reached (symbol_to_twelvedata_symbol symbol) timeframe
  unfold fetch_candles_from_hub at h
  dsimp only at h
  obtain ⟨hresult, hne⟩ := nonempty_eq_some.mp h
  rcases hcandles with hempty | hanswer
  · rw [hempty] at hresult
    refine absurd ?_ hne
    rw [← hresult]
    simp [sort_candles, last_bars]
  · rw [time_series_in_range _ _ (by omega) (by omega), Option.map_eq_some_iff] at hanswer
    obtain ⟨bars, hseries, htake⟩ := hanswer
    rw [← htake] at hresult
    refine ⟨bars, hseries, ?_, hne, ?_⟩
    · rintro rfl
      refine hne ?_
      rw [← hresult]
      simp [sort_candles, last_bars]
    · intro hcount
      rw [← hresult, last_bars_sorted hseries 100 hcount]

theorem choose_cases {primary_timeframe risk_profile : Text} {bar_count min_bars : ℕ}
    (h : choose_timeframe_and_lookback primary_timeframe risk_profile = (bar_count, min_bars)) :
    1 ≤ bar_count ∧ min_bars = 200 := by
  unfold choose_timeframe_and_lookback at h
  generalize (TIMEFRAME_MINUTES.lookup primary_timeframe).getD 15 = timeframe_minutes at h
  dsimp only at h
  obtain ⟨hcount, hmin⟩ := Prod.mk.inj h
  refine ⟨?_, hmin.symm⟩
  split_ifs at hcount
  · omega
  · omega
  · omega
  · omega
  · omega
  · omega

/-- The planner never has enough bars from the hub, whatever the timeframe and the risk. -/
theorem hub_answer_insufficient {hub : Hub} (hs : Served service hub) {fresh reached : Bool}
    {symbol timeframe risk_profile : Text} {bar_count min_bars : ℕ} {result : List Candle}
    (hchoose : choose_timeframe_and_lookback timeframe risk_profile = (bar_count, min_bars))
    (h : fetch_candles_from_hub service hub fresh reached symbol timeframe bar_count =
      some result) : insufficient (some result) min_bars = true := by
  obtain ⟨hcount, rfl⟩ := choose_cases hchoose
  obtain ⟨bars, -, -, -, htake⟩ := from_hub_cases hs h
  have hlength : result.length < 200 := by
    rw [htake hcount, List.length_reverse, List.length_take]
    omega
  simp [insufficient, hlength]

theorem from_hub_of_reached {hub : Hub} (hs : Served service hub) (fresh : Bool)
    {symbol timeframe : Text} (bar_count : ℕ) {bars : List Candle}
    (hseries : service.series (symbol_to_twelvedata_symbol symbol) timeframe = some bars)
    (hne : bars ≠ []) :
    (fetch_candles_from_hub service hub fresh true symbol timeframe bar_count).isSome := by
  obtain ⟨-, -, hanswer⟩ :=
    get_or_fetch_served hs fresh true (symbol_to_twelvedata_symbol symbol) timeframe
  have htake : service.time_series (symbol_to_twelvedata_symbol symbol) timeframe 100 =
      some (bars.take 100) := by
    rw [time_series_in_range _ _ (by omega) (by omega), hseries, Option.map_some]
  unfold fetch_candles_from_hub
  dsimp only
  rw [hanswer _ rfl htake, nonempty]
  rcases Nat.eq_zero_or_pos bar_count with rfl | hcount
  · rw [last_bars_zero, sort_candles_eq ((service.newest_first _ _ _ hseries).sublist
      (List.take_sublist 100 bars)), if_neg (by simp [hne])]
    rfl
  · rw [last_bars_sorted hseries 100 hcount, if_neg (by simp [hne]; omega)]
    rfl

/-- Whenever a reachable hub answers, the candles are those of the direct path, the last
ones there are up to the count: this holds exactly where the hub's bars cover the
request. -/
theorem hub_agrees_iff {es : List Event} {hub : Hub}
    (hrun : run (step service) empty_hub es = some hub) (symbol timeframe : Text)
    (bar_count : ℕ) :
    (∀ fresh reached,
      (fetch_candles_from_hub service hub fresh reached symbol timeframe bar_count).isSome →
      get_ohlcv_candles service hub fresh reached symbol timeframe bar_count =
        fetch_candles_directly service symbol timeframe bar_count ∧
      ∃ bars, service.series (symbol_to_twelvedata_symbol symbol) (interval_of timeframe) =
          some bars ∧
        get_ohlcv_candles service hub fresh reached symbol timeframe bar_count =
          some (bars.take bar_count).reverse) ↔
    Covered service symbol timeframe bar_count := by
  have hs : Served service hub := by
    refine run_invariant (fun _ _ _ => step_served) hrun ?_
    intro symbol interval candles h
    cases h
  have hget : ∀ fresh reached result,
      fetch_candles_from_hub service hub fresh reached symbol timeframe bar_count = some result →
      get_ohlcv_candles service hub fresh reached symbol timeframe bar_count = some result := by
    intro fresh reached result h
    rw [get_ohlcv_candles, h]
  constructor
  · intro hagrees bars hseries hne
    have hsome := from_hub_of_reached hs false bar_count hseries hne
    obtain ⟨hdirect, -⟩ := hagrees false true hsome
    obtain ⟨result, hresult⟩ := Option.isSome_iff_exists.mp hsome
    rw [hget _ _ _ hresult] at hdirect
    have hcount : 1 ≤ bar_count := by
      by_contra hzero
      obtain rfl : bar_count = 0 := by omega
      rw [directly_of_zero] at hdirect
      cases hdirect
    refine ⟨hcount, ?_⟩
    obtain ⟨bars', hseries', -, hresult_ne, htake⟩ := from_hub_cases hs hresult
    obtain rfl : bars' = bars := Option.some.inj (hseries'.symm.trans hseries)
    obtain ⟨direct, hseries_direct, hreverse⟩ :=
      (directly_of_positive hcount hresult_ne).mp hdirect.symm
    have hsame : bars'.take (min bar_count 100) = direct.take (min bar_count 5000) :=
      List.reverse_injective ((htake hcount).symm.trans hreverse.symm)
    by_cases hname : interval_of timeframe = timeframe
    · rw [hname, hseries, Option.some.injEq] at hseries_direct
      subst hseries_direct
      rw [List.take_eq_take_iff] at hsame
      exact .inl ⟨hname, by omega⟩
    · exact .inr ⟨hname, direct, hseries_direct, hsame⟩
  · intro hcovered fresh reached hsome
    obtain ⟨result, hresult⟩ := Option.isSome_iff_exists.mp hsome
    obtain ⟨bars, hseries, hne, -, htake⟩ := from_hub_cases hs hresult
    obtain ⟨hcount, hnames⟩ := hcovered bars hseries hne
    have hanswer := hget _ _ _ hresult
    rw [htake hcount] at hanswer
    rw [hanswer]
    rcases hnames with ⟨hname, hshort⟩ | ⟨-, direct, hdirect, hsame⟩
    · rw [← hname] at hseries
      rw [directly_all hseries hcount hne (by omega), take_eq_take_of_short 100 hshort]
      exact ⟨rfl, bars, hseries, rfl⟩
    · have hlength := congrArg List.length hsame
      have hpos : 0 < bars.length := List.length_pos_iff.mpr hne
      rw [List.length_take, List.length_take] at hlength
      have hshort : bar_count ≤ 5000 ∨ direct.length ≤ 5000 := by omega
      have hdirect_ne : direct ≠ [] := List.ne_nil_of_length_pos (by omega)
      rw [directly_all hdirect hcount hdirect_ne hshort, hsame, take_eq_take_of_short 5000 hshort]
      exact ⟨rfl, direct, hdirect, rfl⟩

def candle_at (hour : ℕ) : Candle where
  timestamp := hour
  open_ := 100
  high := 100
  low := 100
  close := 100
  volume := 0

/-- A service with so many hourly bars and no others. -/
def hourly (count : ℕ) : DataService where
  series := fun _ interval =>
    if interval = "1h".toList then some ((List.range count).reverse.map candle_at) else none
  unknown := by
    intro symbol interval h
    rw [if_neg]
    rintro rfl
    exact h (by decide)
  newest_first := by
    intro symbol interval bars h
    split_ifs at h
    cases h
    rw [List.pairwise_map, List.pairwise_reverse]
    exact List.pairwise_lt_range.imp fun hlt => by simpa [candle_at] using hlt

theorem hourly_series (count : ℕ) (symbol : Text) :
    (hourly count).series symbol "1h".toList =
      some ((List.range count).reverse.map candle_at) := by
  simp only [hourly, if_true]

def demo_requests : List Event := [.request "BTC/USD".toList "1h".toList false true]

theorem hub_agrees_hourly :
    ∃ hub, run (step (hourly 80)) empty_hub demo_requests = some hub ∧
      ((∀ fresh reached,
        (fetch_candles_from_hub (hourly 80) hub fresh reached "BTCUSDT".toList "1h".toList
          2000).isSome →
        get_ohlcv_candles (hourly 80) hub fresh reached "BTCUSDT".toList "1h".toList 2000 =
          fetch_candles_directly (hourly 80) "BTCUSDT".toList "1h".toList 2000 ∧
        ∃ bars, (hourly 80).series (symbol_to_twelvedata_symbol "BTCUSDT".toList)
            (interval_of "1h".toList) = some bars ∧
          get_ohlcv_candles (hourly 80) hub fresh reached "BTCUSDT".toList "1h".toList 2000 =
            some (bars.take 2000).reverse) ↔
      Covered (hourly 80) "BTCUSDT".toList "1h".toList 2000) := by
  obtain ⟨hub, hrun⟩ : ∃ hub, run (step (hourly 80)) empty_hub demo_requests = some hub :=
    ⟨_, rfl⟩
  exact ⟨hub, hrun, hub_agrees_iff hrun _ _ _⟩

/-- The hub answers a request for 2000 hourly bars with the newest hundred of 150. -/
theorem hub_answer_short :
    ¬ ∀ (service : DataService) (es : List Event) (hub : Hub) (symbol timeframe : Text)
      (bar_count : ℕ), run (step service) empty_hub es = some hub →
      timeframe ∈ interval_map.map Prod.fst → ∀ fresh reached,
        (fetch_candles_from_hub service hub fresh reached symbol timeframe bar_count).isSome →
        get_ohlcv_candles service hub fresh reached symbol timeframe bar_count =
          fetch_candles_directly service symbol timeframe bar_count := by
  intro h
  have hs : Served (hourly 150) empty_hub := by
    intro symbol interval candles hrow
    cases hrow
  have hname : interval_of "1h".toList = "1h".toList := by decide
  obtain ⟨bars, hseries, hlength⟩ : ∃ bars, (hourly 150).series
      (symbol_to_twelvedata_symbol "BTCUSDT".toList) "1h".toList = some bars ∧
      bars.length = 150 := ⟨_, hourly_series 150 _, by simp⟩
  have hne : bars ≠ [] := List.ne_nil_of_length_pos (by omega)
  have hsome := from_hub_of_reached hs false 2000 hseries hne
  have hdirect := h (hourly 150) [] empty_hub _ _ _ rfl (by decide) false true hsome
  obtain ⟨result, hresult⟩ := Option.isSome_iff_exists.mp hsome
  obtain ⟨bars', hseries', -, -, htake⟩ := from_hub_cases hs hresult
  obtain rfl : bars' = bars := Option.some.inj (hseries'.symm.trans hseries)
  rw [get_ohlcv_candles, hresult, directly_all (by rw [hname]; exact hseries) (by omega) hne
    (by omega), htake (by omega), Option.some.injEq] at hdirect
  have hlengths := congrArg List.length hdirect
  simp only [List.length_reverse, List.length_take, hlength] at hlengths
  omega

end ArticTrader.HubCandles
