import ArticTrader.BacktestDatasets
import ArticTrader.Markers

/-!
What the rows that no session commits amount to: every request fetches its own
window, so its dataset hash names the candles it used, and no row is ever found.
-/

namespace ArticTrader.DatasetHashes

open ArticTrader.BacktestDatasets
open ArticTrader.BacktestEngine (Candle)
open ArticTrader.Datetimes
open ArticTrader.LabelledRuns
open ArticTrader.Markers
open ArticTrader.PythonText (Text)

variable {env : Env}

theorem flush_committed {session session' : Session} {row : BacktestCandles}
    (h : session.flush row = some session') : session'.committed = session.committed := by
  obtain ⟨-, h⟩ := Option.ite_none_left_eq_some.mp h
  cases h
  rfl

theorem fetch_candles_committed (session : Session) (symbol granularity : Text)
    (period_start period_end cached_at : Datetime) :
    (fetch_candles env session symbol granularity period_start period_end cached_at).1.committed =
      session.committed := by
  unfold fetch_candles
  split
  · rfl
  · rfl
  · dsimp only
    split
    · rfl
    · rename_i hflush
      exact flush_committed hflush

theorem get_candles_committed (env : Env) (session : Session) (symbol : Text) (days : ℕ)
    (granularity : Text) (now cached_at : Datetime) :
    (get_candles env session symbol days granularity now cached_at).1.committed =
      session.committed := by
  unfold get_candles
  split
  · rfl
  · split
    · rfl
    · split
      · rfl
      · split
        · rfl
        · exact fetch_candles_committed _ _ _ _ _ _

theorem validate_and_backtest_committed (session : Session) (r : Request) :
    (validate_and_backtest env session r).1.committed = session.committed := by
  have hcandles := get_candles_committed env session r.body.symbol r.body.days.toNat
    r.body.granularity r.now r.cached_at
  unfold validate_and_backtest
  split
  · rfl
  · split
    · rfl
    · split
      · rename_i heq
        rwa [heq] at hcandles
      · rename_i heq
        rwa [heq] at hcandles

/-- No request leaves a row behind. -/
theorem serve_table (table : List BacktestCandles) (r : Request) :
    (serve env table r).1 = table :=
  validate_and_backtest_committed _ r

theorem answers_eq (requests : List Request) :
    answers env requests = requests.map fun r => (serve env [] r).2 := by
  unfold answers
  induction requests with
  | nil => rfl
  | cons r requests ih => rw [record, serve_table, ih, List.map_cons]

/-- The candles of a request, from the window that ends at the request. -/
structure Fetched (env : Env) (r : Request) (d : Dataset) : Prop where
  supported : r.body.granularity ∈ GRANULARITIES
  start : r.now.minus (DAY * r.body.days.toNat) = some d.period_start
  stop : d.period_end = r.now
  candles : ∃ raw, env.fetch r.body.symbol r.body.granularity d.period_start d.period_end =
    .ok raw ∧ d.candles = raw.map candle_to_dict
  fetched : d.fetched = true

theorem fetch_candles_ok {session : Session} {symbol granularity : Text}
    {period_start period_end cached_at : Datetime} {d : Dataset}
    (h : (fetch_candles env session symbol granularity period_start period_end cached_at).2 =
      .ok d) :
    d.period_start = period_start ∧ d.period_end = period_end ∧ d.fetched = true ∧
      ∃ raw, env.fetch symbol granularity period_start period_end = .ok raw ∧
        d.candles = raw.map candle_to_dict := by
  unfold fetch_candles at h
  split at h
  · cases h
  · cases h
  · rename_i raw hraw
    dsimp only at h
    split at h
    · cases h
    · cases h
      exact ⟨rfl, rfl, rfl, raw, hraw, rfl⟩

theorem get_candles_ok {symbol granularity : Text} {days : ℕ} {now cached_at : Datetime}
    {d : Dataset}
    (h : (get_candles env ⟨[], []⟩ symbol days granularity now cached_at).2 = .ok d) :
    granularity ∈ GRANULARITIES ∧ now.minus (DAY * days) = some d.period_start ∧
      d.period_end = now ∧ d.fetched = true ∧
      ∃ raw, env.fetch symbol granularity d.period_start d.period_end = .ok raw ∧
        d.candles = raw.map candle_to_dict := by
  unfold get_candles at h
  split at h
  next => cases h
  next hsupported =>
      split at h
      next => cases h
      next start hstart =>
          split at h
          next => cases h
          next b hb =>
              have hnone : Session.lookup ⟨[], []⟩ symbol granularity b = none := rfl
              simp only [hnone] at h
              obtain ⟨h1, h2, hfetched, raw, hraw, hcandles⟩ := fetch_candles_ok h
              subst h1 h2
              exact ⟨not_not.mp hsupported, hstart, rfl, hfetched, raw, hraw, hcandles⟩

/-- What can come of a request. -/
inductive Served (env : Env) (r : Request) (a : Answer) : Prop where
  | refused (hdataset : a.dataset = none) {e : Failure} (hout : a.out = .error e)
  | backtested {d : Dataset} (hdataset : a.dataset = some d) (hd : Fetched env r d)
      (hout : a.out = evaluate env r d)

theorem serve_served (env : Env) (r : Request) :
    (serve env [] r).2.request = r ∧ Served env r (serve env [] r).2 := by
  unfold serve validate_and_backtest
  dsimp only
  split
  next => exact ⟨rfl, .refused rfl rfl⟩
  next =>
      split
      next => exact ⟨rfl, .refused rfl rfl⟩
      next =>
          split
          next => exact ⟨rfl, .refused rfl rfl⟩
          next session d heq =>
              have hok := congrArg Prod.snd heq
              obtain ⟨hsupported, hstart, hstop, hfetched, hcandles⟩ := get_candles_ok hok
              exact ⟨rfl, .backtested rfl ⟨hsupported, hstart, hstop, hcandles, hfetched⟩ rfl⟩

theorem response_dataset_hash (body : ValidateAndBacktestBody) (period_start period_end : Datetime)
    (result : Result) :
    (response env body period_start period_end result).dataset_hash =
      dataset_hash env body.symbol period_start period_end body.granularity := rfl

theorem evaluate_ok {r : Request} {d : Dataset} {out : ValidateAndBacktestOut}
    (hd : Fetched env r d) (h : evaluate env r d = .ok out) :
    out.dataset_hash =
      dataset_hash env r.body.symbol d.period_start d.period_end r.body.granularity := by
  unfold evaluate at h
  cases hresult : r.backtest d.candles with
  | error e =>
      rw [hresult] at h
      cases h
  | ok result =>
      simp only [hresult, hd.start, Except.ok.injEq] at h
      rw [← h, response_dataset_hash, hd.stop]

/-- A text is parted by the last occurrence of a character in one way. -/
theorem parted_last {a a' b b' : Text} {c : Char} (h : a ++ c :: b = a' ++ c :: b')
    (hb : c ∉ b) (hb' : c ∉ b') : a = a' ∧ b = b' :=
  marker_last List.not_mem_nil (not_infix_of_notMem hb) (not_infix_of_notMem hb') h

theorem bar_notMem_isoformat (t : Datetime) : '|' ∉ t.isoformat := by
  intro h
  exact absurd (mem_isoformat h) (by decide)

theorem bar_notMem_granularity : ∀ g ∈ GRANULARITIES, '|' ∉ g := by
  decide

/-- A payload names its symbol, its window and its granularity, also where the
symbol has bars of its own. -/
theorem dataset_payload_injective {symbol symbol' granularity granularity' : Text}
    {a a' b b' : Datetime} (hg : granularity ∈ GRANULARITIES) (hg' : granularity' ∈ GRANULARITIES)
    (h : dataset_payload symbol a b granularity = dataset_payload symbol' a' b' granularity') :
    symbol = symbol' ∧ a = a' ∧ b = b' ∧ granularity = granularity' := by
  unfold dataset_payload at h
  simp only [List.append_assoc, List.cons_append] at h
  have hassoc : ∀ s x y g : Text, s ++ '|' :: (x ++ '|' :: (y ++ '|' :: g)) =
      ((s ++ '|' :: x) ++ '|' :: y) ++ '|' :: g := by
    intro s x y g
    simp only [List.append_assoc, List.cons_append]
  rw [hassoc, hassoc] at h
  obtain ⟨hfront, hgranularity⟩ :=
    parted_last h (bar_notMem_granularity _ hg) (bar_notMem_granularity _ hg')
  obtain ⟨hfront, hend⟩ :=
    parted_last hfront (bar_notMem_isoformat b) (bar_notMem_isoformat b')
  obtain ⟨hsymbol, hstart⟩ :=
    parted_last hfront (bar_notMem_isoformat a) (bar_notMem_isoformat a')
  exact ⟨hsymbol, isoformat_injective hstart, isoformat_injective hend, hgranularity⟩

/-- An answer with a dataset hash, and the candles it was computed on. -/
structure Hashed (a : Answer) (d : Dataset) (hash : Text) : Prop where
  dataset : a.dataset = some d
  out : ∃ out, a.out = .ok out ∧ out.dataset_hash = hash

theorem hashed_of_answers {requests : List Request} {a : Answer} {d : Dataset} {hash : Text}
    (ha : a ∈ answers env requests) (h : Hashed a d hash) :
    Fetched env a.request d ∧
      hash = dataset_hash env a.request.body.symbol d.period_start d.period_end
        a.request.body.granularity := by
  rw [answers_eq] at ha
  obtain ⟨r, -, rfl⟩ := List.mem_map.mp ha
  obtain ⟨hr, hserved⟩ := serve_served env r
  obtain ⟨hdataset, out, hout, rfl⟩ := h
  rw [hr]
  cases hserved with
  | refused hnone _ =>
      rw [hdataset] at hnone
      cases hnone
  | backtested hdataset' hd hout' =>
      obtain rfl := Option.some.inj (hdataset.symm.trans hdataset')
      exact ⟨hd, evaluate_ok hd (hout'.symm.trans hout)⟩

/-- Equal hashes stand for equal candles, and equal windows have equal hashes. -/
theorem dataset_hash_identifies (hsha : Function.Injective env.sha256_hex)
    (requests : List Request) {a a' : Answer} {d d' : Dataset} {hash hash' : Text}
    (ha : a ∈ answers env requests) (ha' : a' ∈ answers env requests) (h : Hashed a d hash)
    (h' : Hashed a' d' hash') :
    (hash = hash' → d.candles = d'.candles) ∧
      (a.request.body.symbol = a'.request.body.symbol →
        a.request.body.granularity = a'.request.body.granularity →
        (d.period_start, d.period_end) = (d'.period_start, d'.period_end) → hash = hash') := by
  obtain ⟨hd, rfl⟩ := hashed_of_answers ha h
  obtain ⟨hd', rfl⟩ := hashed_of_answers ha' h'
  constructor
  · intro heq
    obtain ⟨hsymbol, hstart, hend, hgranularity⟩ :=
      dataset_payload_injective hd.supported hd'.supported (hsha heq)
    obtain ⟨raw, hraw, hcandles⟩ := hd.candles
    obtain ⟨raw', hraw', hcandles'⟩ := hd'.candles
    rw [hsymbol, hstart, hend, hgranularity, hraw', Except.ok.injEq] at hraw
    rw [hcandles, hcandles', hraw]
  · intro hsymbol hgranularity hwindow
    obtain ⟨hstart, hend⟩ := Prod.mk.inj hwindow
    rw [hsymbol, hgranularity, hstart, hend]

def sample : Env where
  sha256_hex := id
  fetch := fun _ _ _ _ => .ok []

def july : Datetime := ⟨738000 * DAY, by decide⟩

def flat : Result where
  sharpe := 0
  max_drawdown := 0
  total_return := 0
  win_rate := 0
  n_trades := 0
  final_equity := 1000
  equity_curve := [1000]

def publication : Request where
  body :=
    { code := "pass".toList, name := "hold".toList, symbol := "BTC/USDT".toList
      days := DEFAULT_DAYS, granularity := DEFAULT_GRANULARITY }
  violation := none
  now := july
  cached_at := july
  backtest := fun _ => .ok flat

def revision : Request :=
  { publication with body := { publication.body with code := "break".toList } }

theorem hashed_of_isSome {a : Answer} (hdataset : a.dataset.isSome = true)
    (hout : a.out.toOption.isSome = true) : ∃ d hash, Hashed a d hash := by
  obtain ⟨d, hd⟩ := Option.isSome_iff_exists.mp hdataset
  cases ha : a.out with
  | error e =>
      rw [ha] at hout
      cases hout
  | ok out => exact ⟨d, out.dataset_hash, hd, out, ha, rfl⟩

theorem dataset_hash_identifies_revision :
    ∃ d d' hash hash', Hashed (serve sample [] publication).2 d hash ∧
      Hashed (serve sample [] revision).2 d' hash' ∧ (hash = hash' → d.candles = d'.candles) ∧
      ((d.period_start, d.period_end) = (d'.period_start, d'.period_end) → hash = hash') := by
  obtain ⟨d, hash, h⟩ := hashed_of_isSome (a := (serve sample [] publication).2)
    (by decide) (by decide)
  obtain ⟨d', hash', h'⟩ := hashed_of_isSome (a := (serve sample [] revision).2)
    (by decide) (by decide)
  have hmem : ∀ r ∈ [publication, revision],
      (serve sample [] r).2 ∈ answers sample [publication, revision] := by
    intro r hr
    rw [answers_eq]
    exact List.mem_map_of_mem hr
  have hboth := dataset_hash_identifies (fun _ _ heq => heq) [publication, revision]
    (hmem publication (by simp)) (hmem revision (by simp)) h h'
  exact ⟨d, d', hash, hash', h, h', hboth.1, hboth.2 rfl rfl⟩

/-- Two days that differ by no more than the tolerance of the lookup. -/
def near (t u : Datetime) : Bool :=
  t.micros ≤ u.micros + BOUND_TOLERANCE && u.micros ≤ t.micros + BOUND_TOLERANCE

def loads (r : Request) : Bool := r.body.errors = [] && r.violation.isNone

/-- The later request asks for candles that the earlier, which succeeded, has left:
those of the same symbol and granularity, of a window within the tolerance. -/
def Repeats (a b : Answer) : Prop :=
  (∃ out, a.out = .ok out) ∧ loads b.request = true ∧
    a.request.body.symbol = b.request.body.symbol ∧
    a.request.body.granularity = b.request.body.granularity ∧
    near a.request.now b.request.now = true ∧
    ∃ t u, a.request.now.minus (DAY * a.request.body.days.toNat) = some t ∧
      b.request.now.minus (DAY * b.request.body.days.toNat) = some u ∧ near t u = true

def FromCache (a : Answer) : Prop := ∃ d, a.dataset = some d ∧ d.fetched = false

theorem not_fromCache {requests : List Request} {a : Answer} (ha : a ∈ answers env requests) :
    ¬ FromCache a := by
  rw [answers_eq] at ha
  obtain ⟨r, -, rfl⟩ := List.mem_map.mp ha
  rintro ⟨d, hdataset, hcached⟩
  cases (serve_served env r).2 with
  | refused hnone _ =>
      rw [hdataset] at hnone
      cases hnone
  | backtested hdataset' hd _ =>
      obtain rfl := Option.some.inj (hdataset.symm.trans hdataset')
      rw [hd.fetched] at hcached
      cases hcached

/-- The cache serves every repeated request only where no request is repeated. -/
theorem cache_effective_iff (env : Env) (requests : List Request) :
    (answers env requests).Pairwise (fun a b => Repeats a b → FromCache b) ↔
      (answers env requests).Pairwise fun a b => ¬ Repeats a b := by
  apply List.Pairwise.iff_of_mem
  intro a b _ hb
  constructor
  · intro hserved hrepeats
    exact not_fromCache hb (hserved hrepeats)
  · intro hnot hrepeats
    exact absurd hrepeats hnot

/-- The code is revised and published again within the day. -/
theorem revision_not_from_cache :
    ∃ a b, answers sample [publication, revision] = [a, b] ∧ Repeats a b ∧ ¬ FromCache b := by
  refine ⟨(serve sample [] publication).2, (serve sample [] revision).2, answers_eq _, ?_, ?_⟩
  · obtain ⟨d, hash, -, out, hout, -⟩ :=
      hashed_of_isSome (a := (serve sample [] publication).2) (by decide)
        (by decide)
    refine ⟨⟨out, hout⟩, by decide, by decide, by decide, by decide, ?_⟩
    exact ⟨⟨737970 * DAY, by decide⟩, ⟨737970 * DAY, by decide⟩, by decide, by decide, by decide⟩
  · have ha : (serve sample [] revision).2 ∈ answers sample [publication, revision] := by
      rw [answers_eq]
      exact List.mem_map_of_mem (by simp)
    exact not_fromCache ha

end ArticTrader.DatasetHashes
