import Mathlib.Data.List.Lattice
import Mathlib.Tactic.Linarith
import ArticTrader.LabelledRuns
import ArticTrader.PythFeed

/-!
Prices on their way from the hub's polling loop to the listeners of the agents.
Messages reach a listener in the order in which they were sent, at any time.
-/

namespace ArticTrader.PriceFreshness

open ArticTrader.LabelledRuns
open ArticTrader.PythFeed
open ArticTrader.PythonText (Text upper)

/-- A broadcast of the whole cache, with its round and the time it was sent at. -/
structure Message where
  data : Prices
  round : ℕ
  sent_at : ℚ

/-- The entry whose price a listener holds, when it received it and in which round's
broadcast. -/
structure Stamp where
  entry : Entry
  price_time : ℚ
  round : ℕ
  deriving DecidableEq, Repr

structure PriceListener where
  symbol : Text
  connected : Bool
  inbox : List Message
  latest : Option Stamp

variable {ι : Type*}

/-- The polling loop with its subscribers, the listeners and the time. While a fetch is
under way `polling` has the symbols it asks for. -/
structure State (ι : Type*) where
  extra_symbols : List Text
  price_cache : Prices
  polling : Option (List Text)
  round : ℕ
  price_subscribers : ι → Bool
  listeners : ι → PriceListener
  clock : ℚ

inductive Event (ι : Type*) where
  | track_symbol (symbol : Text)
  | poll (symbols : List Text)
  | answer (parsed : Option (List ParsedItem))
  | connect (i : ι)
  | subscribe (i : ι)
  | unsubscribe (i : ι)
  | disconnect (i : ι) (clean : Bool)
  | receive (i : ι)
  | wait (seconds : ℚ)

def PriceListener.receive (l : PriceListener) (message : Message) (now : ℚ) : PriceListener :=
  match message.data.lookup l.symbol with
  | some entry => { l with latest := some { entry, price_time := now, round := message.round } }
  | none => l

def PriceListener.get_price (l : PriceListener) (symbol : Text) (max_age_seconds now : ℚ) :
    Option ℚ :=
  match l.latest with
  | some stamp =>
      if l.connected ∧ upper symbol = l.symbol ∧ now - stamp.price_time < max_age_seconds then
        some stamp.entry.price
      else none
  | none => none

/-- The broadcast of a round whose fetch returned something. -/
def State.broadcast (s : State ι) (prices : Prices) (i : ι) : PriceListener :=
  let l := s.listeners i
  if prices.keys ≠ [] ∧ s.price_subscribers i then
    { l with
      inbox := l.inbox ++ [{ data := prices ∪ s.price_cache, round := s.round, sent_at := s.clock }] }
  else l

def State.fetched (s : State ι) (prices : Prices) : State ι :=
  { s with
    polling := none
    price_cache := prices ∪ s.price_cache
    listeners := s.broadcast prices }

variable [DecidableEq ι]

def State.set (s : State ι) (i : ι) (l : PriceListener) : State ι :=
  { s with listeners := Function.update s.listeners i l }

/-- The order in which `list` turns the set of symbols into the batch is not
determined. -/
def step (s : State ι) : Event ι → Option (State ι)
  | .track_symbol symbol => some { s with extra_symbols := s.extra_symbols.insert (upper symbol) }
  | .poll symbols =>
      if s.polling = none ∧ symbols.Perm (s.extra_symbols ∪ s.price_cache.keys) then
        some { s with polling := some symbols, round := s.round + 1 }
      else none
  | .answer parsed =>
      s.polling.map fun symbols => s.fetched (fetch_prices_batch symbols parsed s.round s.clock)
  | .connect i => some (s.set i { s.listeners i with connected := true, inbox := [] })
  | .subscribe i =>
      some { s with price_subscribers := Function.update s.price_subscribers i true }
  | .unsubscribe i =>
      some { s with price_subscribers := Function.update s.price_subscribers i false }
  | .disconnect i clean =>
      let l := s.listeners i
      some (s.set i { l with connected := l.connected && clean, inbox := [] })
  | .receive i =>
      match (s.listeners i).inbox with
      | [] => none
      | message :: inbox =>
          some (s.set i (PriceListener.receive { s.listeners i with inbox } message s.clock))
  | .wait seconds => if 0 ≤ seconds then some { s with clock := s.clock + seconds } else none

def initial (symbols : ι → Text) : State ι where
  extra_symbols := []
  price_cache := ∅
  polling := none
  round := 0
  price_subscribers := fun _ => false
  listeners := fun i =>
    { symbol := upper (symbols i), connected := false, inbox := [], latest := none }
  clock := 0

/-- What the listeners hold was fetched in the round whose broadcast they received. -/
def StampsFresh (s : State ι) : Prop :=
  ∀ i stamp, (s.listeners i).latest = some stamp → stamp.entry.round = stamp.round

/-- In a round that is answered for some symbol, those of the subscribed listeners are
answered or not cached. -/
def Covers (s : State ι) : Event ι → Prop
  | .answer parsed =>
      ∀ symbols, s.polling = some symbols → (∃ symbol, Answered symbols parsed symbol) →
        ∀ i, s.price_subscribers i = true → (s.listeners i).symbol ∈ s.price_cache →
          Answered symbols parsed (s.listeners i).symbol
  | _ => True

/-- A message is received within `period` seconds. -/
def Prompt (period : ℚ) (s : State ι) : Event ι → Prop
  | .receive i => ∀ message ∈ (s.listeners i).inbox.head?, s.clock - message.sent_at ≤ period
  | _ => True

@[simp] theorem set_self (s : State ι) (i : ι) (l : PriceListener) :
    (s.set i l).listeners i = l := by
  simp [State.set]

/-- What holds of the listener that moves and of all the others holds of every one. -/
theorem forall_set {s : State ι} {i : ι} {l : PriceListener} {P : PriceListener → Prop}
    (hl : P l) (h : ∀ j, P (s.listeners j)) (j : ι) : P ((s.set i l).listeners j) := by
  by_cases hj : j = i
  · subst hj
    simpa using hl
  · simpa [State.set, hj] using h j

/-- The entries of the cache are of rounds that are over. -/
def CacheOld (s : State ι) : Prop :=
  ∀ symbol entry, s.price_cache.lookup symbol = some entry →
    entry.round ≤ s.round ∧ (s.polling ≠ none → entry.round < s.round)

omit [DecidableEq ι] in
theorem lookup_cache {s : State ι} {prices : Prices} {symbol : Text} {entry : Entry}
    (h : (prices ∪ s.price_cache).lookup symbol = some entry) :
    prices.lookup symbol = some entry ∨ symbol ∉ prices ∧ s.price_cache.lookup symbol = some entry :=
  AList.mem_lookup_union.mp h

theorem step_cacheOld {s s' : State ι} {e : Event ι} (hs : CacheOld s) (h : step s e = some s') :
    CacheOld s' := by
  cases e with
  | poll symbols =>
      simp only [step] at h
      split_ifs at h
      cases h
      intro symbol entry hentry
      have hle := (hs symbol entry hentry).1
      exact ⟨hle.trans (Nat.le_succ _), fun _ => Nat.lt_succ_of_le hle⟩
  | answer parsed =>
      simp only [step, Option.map_eq_some_iff] at h
      obtain ⟨symbols, hpolling, rfl⟩ := h
      intro symbol entry hentry
      refine ⟨?_, fun hnone => absurd rfl hnone⟩
      rcases lookup_cache hentry with hnew | ⟨-, hold⟩
      · exact (lookup_fetch hnew).1.le
      · exact (hs symbol entry hold).1
  | receive i =>
      simp only [step] at h
      split at h
      · cases h
      · cases h
        exact hs
  | wait seconds =>
      simp only [step] at h
      split_ifs at h
      cases h
      exact hs
  | _ =>
      cases h
      exact hs

/-- What a listener is sent for its symbol and what it holds is of the broadcast's round,
and not older than the message was when it was received. -/
structure Sent (period : Option ℚ) (l : PriceListener) : Prop where
  inbox : ∀ message ∈ l.inbox, ∀ entry, message.data.lookup l.symbol = some entry →
    entry.round = message.round ∧ entry.fetched_at = message.sent_at
  latest : ∀ stamp, l.latest = some stamp → stamp.entry.round = stamp.round ∧
    ∀ p ∈ period, stamp.price_time - stamp.entry.fetched_at ≤ p

theorem receive_sent {period : Option ℚ} {l : PriceListener} {message : Message}
    {inbox : List Message} {now : ℚ} (hl : Sent period l) (hinbox : l.inbox = message :: inbox)
    (hprompt : ∀ p ∈ period, now - message.sent_at ≤ p) :
    Sent period (PriceListener.receive { l with inbox } message now) := by
  have hrest : ∀ m ∈ inbox, ∀ entry, m.data.lookup l.symbol = some entry →
      entry.round = m.round ∧ entry.fetched_at = m.sent_at := by
    intro m hm
    exact hl.inbox m (by simp [hinbox, hm])
  unfold PriceListener.receive
  dsimp only
  split
  · rename_i entry hentry
    obtain ⟨hround, hsent⟩ := hl.inbox message (by simp [hinbox]) entry hentry
    refine ⟨hrest, ?_⟩
    intro stamp hstamp
    cases hstamp
    refine ⟨hround, ?_⟩
    intro p hp
    rw [hsent]
    exact hprompt p hp
  · exact ⟨hrest, hl.latest⟩

omit [DecidableEq ι] in
theorem broadcast_sent {period : Option ℚ} {s : State ι} (hs : ∀ i, Sent period (s.listeners i))
    {symbols : List Text} {parsed : Option (List ParsedItem)} (hpolling : s.polling = some symbols)
    (hcovers : Covers s (.answer parsed)) (i : ι) :
    Sent period (s.broadcast (fetch_prices_batch symbols parsed s.round s.clock) i) := by
  unfold State.broadcast
  dsimp only
  split_ifs with hsend
  · obtain ⟨hkeys, hsubscribed⟩ := hsend
    refine ⟨?_, (hs i).latest⟩
    intro message hmessage entry hentry
    rw [List.mem_append, List.mem_singleton] at hmessage
    rcases hmessage with hold | rfl
    · exact (hs i).inbox message hold entry hentry
    · rcases lookup_cache hentry with hnew | ⟨hmissing, hcached⟩
      · exact lookup_fetch hnew
      · obtain ⟨symbol, hsymbol⟩ := List.exists_mem_of_ne_nil _ hkeys
        rw [mem_fetch_iff] at hmissing
        refine absurd (hcovers symbols hpolling ⟨symbol, ?_⟩ i hsubscribed ?_) hmissing
        · exact (mem_fetch_iff ..).mp (AList.mem_keys.mpr hsymbol)
        · exact AList.lookup_isSome.mp (by rw [hcached]; rfl)
  · exact hs i

/-- Messages are prompt, where a period is given. -/
def PromptIn (period : Option ℚ) (s : State ι) (e : Event ι) : Prop :=
  ∀ p ∈ period, Prompt p s e

theorem step_sent {period : Option ℚ} {s s' : State ι} {e : Event ι}
    (hs : ∀ i, Sent period (s.listeners i)) (hallowed : Covers s e ∧ PromptIn period s e)
    (h : step s e = some s') (i : ι) : Sent period (s'.listeners i) := by
  obtain ⟨hcovers, hprompt⟩ := hallowed
  cases e with
  | answer parsed =>
      simp only [step, Option.map_eq_some_iff] at h
      obtain ⟨symbols, hpolling, rfl⟩ := h
      exact broadcast_sent hs hpolling hcovers i
  | connect j =>
      cases h
      refine forall_set ⟨?_, (hs j).latest⟩ hs i
      intro message hmessage
      cases hmessage
  | disconnect j clean =>
      cases h
      refine forall_set ⟨?_, (hs j).latest⟩ hs i
      intro message hmessage
      cases hmessage
  | receive j =>
      simp only [step] at h
      split at h
      · cases h
      · rename_i message inbox hinbox
        cases h
        refine forall_set (receive_sent (hs j) hinbox ?_) hs i
        intro p hp
        exact hprompt p hp message (by simp [hinbox])
  | poll symbols =>
      simp only [step] at h
      split_ifs at h
      cases h
      exact hs i
  | wait seconds =>
      simp only [step] at h
      split_ifs at h
      cases h
      exact hs i
  | _ =>
      cases h
      exact hs i

theorem receive_keeps (l : PriceListener) (message : Message) (now : ℚ) :
    (l.receive message now).symbol = l.symbol ∧ (l.receive message now).inbox = l.inbox := by
  unfold PriceListener.receive
  split
  · exact ⟨rfl, rfl⟩
  · exact ⟨rfl, rfl⟩

theorem receive_latest {l : PriceListener} {message : Message} {entry : Entry}
    (h : message.data.lookup l.symbol = some entry) (now : ℚ) :
    (l.receive message now).latest =
      some { entry, price_time := now, round := message.round } := by
  rw [PriceListener.receive, h]

theorem step_receive {s : State ι} {i : ι} {message : Message} {inbox : List Message}
    (h : (s.listeners i).inbox = message :: inbox) :
    step s (.receive i) = some
      (s.set i (PriceListener.receive { s.listeners i with inbox } message s.clock)) := by
  simp only [step, h]

/-- A listener that receives all it has been sent holds the price of the last message. -/
theorem receive_all (i : ι) (message : Message) {entry : Entry} (earlier : List Message)
    {s : State ι} (hinbox : (s.listeners i).inbox = earlier ++ [message])
    (hentry : message.data.lookup (s.listeners i).symbol = some entry) :
    ∃ t price_time, run step s (List.replicate (earlier.length + 1) (.receive i)) = some t ∧
      (t.listeners i).latest = some { entry, price_time, round := message.round } := by
  induction earlier generalizing s with
  | nil =>
      refine ⟨_, s.clock, run_cons_iff.mpr ⟨_, step_receive hinbox, rfl⟩, ?_⟩
      rw [set_self]
      exact receive_latest (l := { s.listeners i with inbox := [] }) hentry s.clock
  | cons first earlier ih =>
      have hstep := step_receive hinbox
      obtain ⟨hsymbol, hrest⟩ := receive_keeps
        { s.listeners i with inbox := earlier ++ [message] } first s.clock
      obtain ⟨t, price_time, hrun, hlatest⟩ := @ih (s.set i (PriceListener.receive
        { s.listeners i with inbox := earlier ++ [message] } first s.clock))
        (by rw [set_self, hrest]) (by rw [set_self, hsymbol]; exact hentry)
      exact ⟨t, price_time, run_cons_iff.mpr ⟨_, hstep, hrun⟩, hlatest⟩

/-- A symbol that a round leaves out is sent with the price of an earlier round. -/
theorem stale_of_not_covers {s s' : State ι} {e : Event ι} (hs : CacheOld s)
    (hnot : ¬ Covers s e) (h : step s e = some s') :
    ∃ i n t, run step s' (List.replicate n (.receive i)) = some t ∧ ¬ StampsFresh t := by
  cases e with
  | answer parsed =>
      simp only [Covers, not_forall, exists_prop] at hnot
      obtain ⟨symbols, hpolling, ⟨symbol, hanswered⟩, i, hsubscribed, hcached, hmissing⟩ := hnot
      simp only [step, hpolling, Option.map_some, Option.some.injEq] at h
      subst h
      generalize hprices : fetch_prices_batch symbols parsed s.round s.clock = prices
      have hkeys : prices.keys ≠ [] := by
        have hmem : symbol ∈ prices := hprices ▸ (mem_fetch_iff ..).mpr hanswered
        exact List.ne_nil_of_mem (AList.mem_keys.mp hmem)
      have hleft : (s.listeners i).symbol ∉ prices := by
        rw [← hprices, mem_fetch_iff]
        exact hmissing
      obtain ⟨entry, hentry⟩ := Option.isSome_iff_exists.mp (AList.lookup_isSome.mpr hcached)
      have hsent : (s.fetched prices).listeners i = { s.listeners i with
          inbox := (s.listeners i).inbox ++
            [{ data := prices ∪ s.price_cache, round := s.round, sent_at := s.clock }] } := by
        simp [State.fetched, State.broadcast, hkeys, hsubscribed]
      have hdata : (prices ∪ s.price_cache).lookup ((s.fetched prices).listeners i).symbol =
          some entry := by
        rw [hsent, ← hentry]
        exact AList.lookup_union_right hleft
      obtain ⟨t, price_time, hrun, hlatest⟩ := receive_all i
        ⟨prices ∪ s.price_cache, s.round, s.clock⟩ (s.listeners i).inbox (by rw [hsent]) hdata
      refine ⟨i, _, t, hrun, ?_⟩
      intro hfresh
      have hround : entry.round = s.round := hfresh i _ hlatest
      have hlt := (hs _ entry hentry).2 (by simp [hpolling])
      omega
  | _ => exact absurd trivial hnot

omit [DecidableEq ι] in
theorem initial_sent (symbols : ι → Text) (period : Option ℚ) (i : ι) :
    Sent period ((initial symbols).listeners i) := by
  refine ⟨?_, ?_⟩
  · intro message hmessage
    cases hmessage
  · intro stamp hstamp
    cases hstamp

omit [DecidableEq ι] in
theorem initial_cacheOld (symbols : ι → Text) : CacheOld (initial symbols) := by
  intro symbol entry hentry
  cases hentry

theorem fresh_of_covers {symbols : ι → Text} {before : List (Event ι)} {i : ι} {n : ℕ}
    {t : State ι} (hcovers : AllSteps step Covers (initial symbols) before)
    (hrun : run step (initial symbols) (before ++ List.replicate n (.receive i)) = some t) :
    StampsFresh t := by
  have hreceives : ∀ m : State ι, AllSteps step Covers m (List.replicate n (.receive i)) := by
    intro m
    refine (allSteps_of_forall_mem (Q := fun e => e = .receive i) ?_ m).mono ?_
    · intro e he
      exact List.eq_of_mem_replicate he
    · rintro m e rfl
      trivial
  have hall := allSteps_append_iff.mpr ⟨hcovers, fun m _ => hreceives m⟩
  have hsent := run_invariant_of_allSteps (P := fun s => ∀ i, Sent none (s.listeners i))
    (C := Covers) ?_ hrun hall (initial_sent symbols none)
  · intro j stamp hstamp
    exact ((hsent j).latest stamp hstamp).1
  · intro s e s' hs hcovers h i
    refine step_sent hs ⟨hcovers, ?_⟩ h i
    intro p hp
    cases hp

theorem get_price_eq_some {l : PriceListener} {symbol : Text} {max_age_seconds now price : ℚ}
    (h : l.get_price symbol max_age_seconds now = some price) :
    ∃ stamp, l.latest = some stamp ∧ stamp.entry.price = price ∧
      now - stamp.price_time < max_age_seconds := by
  unfold PriceListener.get_price at h
  split at h
  · rename_i stamp hstamp
    split_ifs at h with haccepted
    exact ⟨stamp, hstamp, Option.some.inj h, haccepted.2.2⟩
  · cases h

/-- Whenever the run is cut off and a listener receives what is on its way, all stamps are
fresh: this holds if and only if the rounds cover the listeners. With messages that are
received within a period, an accepted price is then no older than its age says, and the
period. -/
theorem prices_fresh_iff {symbols : ι → Text} {es : List (Event ι)} {s : State ι}
    (hrun : run step (initial symbols) es = some s) :
    ((∀ before later i n t, es = before ++ later →
        run step (initial symbols) (before ++ List.replicate n (.receive i)) = some t →
        StampsFresh t) ↔
      AllSteps step Covers (initial symbols) es) ∧
    ∀ period, AllSteps step Covers (initial symbols) es →
      AllSteps step (Prompt period) (initial symbols) es →
      ∀ i symbol max_age_seconds price,
        (s.listeners i).get_price symbol max_age_seconds s.clock = some price →
        ∃ stamp, (s.listeners i).latest = some stamp ∧ stamp.entry.price = price ∧
          s.clock - stamp.entry.fetched_at < max_age_seconds + period := by
  refine ⟨⟨?_, ?_⟩, ?_⟩
  · intro hfresh
    by_contra hnot
    obtain ⟨before, e, after, m, m', rfl, hbefore, hC, hstep, -⟩ := exists_violation hrun hnot
    have hold : CacheOld m :=
      run_invariant (fun _ _ _ => step_cacheOld) hbefore (initial_cacheOld symbols)
    obtain ⟨i, n, t, hreceived, hstale⟩ := stale_of_not_covers hold hC hstep
    refine hstale (hfresh (before ++ [e]) after i n t (by simp) ?_)
    exact run_append_iff.mpr
      ⟨m', run_append_iff.mpr ⟨m, hbefore, run_cons_iff.mpr ⟨m', hstep, rfl⟩⟩, hreceived⟩
  · rintro hcovers before later i n t rfl hreceived
    exact fresh_of_covers (allSteps_append_iff.mp hcovers).1 hreceived
  · intro period hcovers hprompt i symbol max_age_seconds price haccepted
    obtain ⟨stamp, hstamp, hprice, hage⟩ := get_price_eq_some haccepted
    have hsent := run_invariant_of_allSteps
      (P := fun s => ∀ i, Sent (some period) (s.listeners i))
      (C := fun s e => Covers s e ∧ Prompt period s e) ?_ hrun (hcovers.and hprompt)
      (initial_sent symbols (some period))
    · refine ⟨stamp, hstamp, hprice, ?_⟩
      have htransit := ((hsent i).latest stamp hstamp).2 period rfl
      linarith
    · rintro s e s' hs ⟨hcovers, hprompt⟩ h i
      refine step_sent hs ⟨hcovers, ?_⟩ h i
      intro p hp
      cases hp
      exact hprompt

def eth_item : ParsedItem where
  id := "ff61491a931112ddf1bd8147cd1b641375f79f5825126d665480874634fd0ace".toList
  price := 3000
  expo := 0

def btc_item : ParsedItem where
  id := "e62df6c8b4a85fe1a67db44dc12de5db330f7ac66b72dc658afedf0f4a415b43".toList
  price := 70000
  expo := 0

def tracked : List Text := ["ETHUSDT".toList, "BTCUSDT".toList]

/-- Two rounds for two symbols; the second one is answered with `parsed`. -/
def two_rounds (parsed : List ParsedItem) : List (Event Unit) :=
  [.track_symbol "BTCUSDT".toList, .track_symbol "ETHUSDT".toList, .connect (), .subscribe (),
    .poll tracked, .answer (some [eth_item, btc_item]), .receive (), .wait 2,
    .poll tracked, .answer (some parsed), .receive ()]

theorem prices_fresh_answered :
    ∃ s, run step (initial fun _ => "BTCUSDT".toList) (two_rounds [btc_item, eth_item]) = some s ∧
      (AllSteps step Covers (initial fun _ => "BTCUSDT".toList)
        (two_rounds [btc_item, eth_item]) → StampsFresh s) := by
  obtain ⟨s, hrun⟩ : ∃ s, run step (initial fun _ => "BTCUSDT".toList)
      (two_rounds [btc_item, eth_item]) = some s :=
    Option.isSome_iff_exists.mp (by decide +kernel)
  refine ⟨s, hrun, ?_⟩
  intro hcovers
  exact (prices_fresh_iff hrun).1.mpr hcovers _ [] () 0 s rfl (by simpa using hrun)

/-- A round that is answered for the other symbol alone is stamped with the old price. -/
theorem partial_round_stamped :
    ¬ ∀ (symbols : Unit → Text) (es : List (Event Unit)) (s : State Unit),
      run step (initial symbols) es = some s → StampsFresh s := by
  intro h
  have hend : (run step (initial fun _ => "BTCUSDT".toList) (two_rounds [eth_item])).map
      (fun s => (s.listeners ()).latest.map fun stamp => (stamp.entry.round, stamp.round)) =
      some (some (1, 2)) := by
    decide +kernel
  obtain ⟨s, hrun, hlatest⟩ := Option.map_eq_some_iff.mp hend
  obtain ⟨stamp, hstamp, hrounds⟩ := Option.map_eq_some_iff.mp hlatest
  have hfresh := h _ _ s hrun () stamp hstamp
  rw [(Prod.mk.inj hrounds).1, (Prod.mk.inj hrounds).2] at hfresh
  cases hfresh

end ArticTrader.PriceFreshness
