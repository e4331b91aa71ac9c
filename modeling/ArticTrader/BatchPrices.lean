import ArticTrader.PythFeed

/-!
Which of the symbols that were asked for together get a price out of one answer.
-/

namespace ArticTrader.BatchPrices

open ArticTrader.PythFeed
open ArticTrader.PythonText (Text)

variable {symbols : List Text} {items : List ParsedItem} {fid symbol : Text}

/-- What the answer says of a feed, where a later item replaces an earlier one. -/
def quote (items : List ParsedItem) (fid : Text) : Option ParsedItem :=
  (items.filter fun item => item.raw_id = fid).getLast?

def price (item : ParsedItem) : ℚ := item.price * 10 ^ item.expo

/-- Each symbol whose feed is in the answer has the price of its feed. -/
def Complete (symbols : List Text) (items : List ParsedItem) (prices : Prices) : Prop :=
  ∀ symbol ∈ symbols, ∀ fid, feed_id symbol = some fid → ∀ item, quote items fid = some item →
    ∃ entry, prices.lookup symbol = some entry ∧ entry.symbol = symbol ∧
      entry.price = price item

/-- No symbol has the price of a feed that is not its own. -/
def Truthful (symbols : List Text) (items : List ParsedItem) (prices : Prices) : Prop :=
  ∀ symbol entry, prices.lookup symbol = some entry → symbol ∈ symbols ∧
    entry.symbol = symbol ∧ ∃ fid item, feed_id symbol = some fid ∧ quote items fid = some item ∧
      entry.price = price item

/-- No two spellings of the batch share a feed that is in the answer. -/
def OneSpelling (symbols : List Text) (items : List ParsedItem) : Prop :=
  ∀ symbol ∈ symbols, ∀ other ∈ symbols, ∀ item ∈ items, feed_id symbol = some item.raw_id →
    feed_id other = some item.raw_id → symbol = other

theorem quote_concat (items : List ParsedItem) (item : ParsedItem) (fid : Text) :
    quote (items ++ [item]) fid = if item.raw_id = fid then some item else quote items fid := by
  unfold quote
  rw [List.filter_append]
  by_cases h : item.raw_id = fid
  · rw [List.filter_singleton, decide_eq_true h, if_pos h, cond_true, List.getLast?_concat]
  · rw [List.filter_singleton, decide_eq_false h, if_neg h, cond_false, List.append_nil]

theorem mem_of_quote {item : ParsedItem} (h : quote items fid = some item) :
    item ∈ items ∧ item.raw_id = fid := by
  obtain ⟨hmem, hid⟩ := List.mem_filter.mp (List.mem_of_getLast? h)
  exact ⟨hmem, of_decide_eq_true hid⟩

theorem exists_quote {item : ParsedItem} (h : item ∈ items) :
    ∃ quoted, quote items item.raw_id = some quoted := by
  have hmem : item ∈ items.filter fun other => other.raw_id = item.raw_id :=
    List.mem_filter.mpr ⟨h, decide_eq_true rfl⟩
  exact ⟨_, List.getLast?_eq_some_getLast (List.ne_nil_of_mem hmem)⟩

theorem feed_id_of_lookup (h : (feed_map symbols).lookup fid = some symbol) :
    symbol ∈ symbols ∧ feed_id symbol = some fid := by
  rw [lookup_feed_map] at h
  obtain ⟨hmem, hfeed⟩ := List.mem_filter.mp (List.mem_of_getLast? h)
  exact ⟨hmem, of_decide_eq_true hfeed⟩

theorem exists_lookup (hmem : symbol ∈ symbols) (hfeed : feed_id symbol = some fid) :
    ∃ other, (feed_map symbols).lookup fid = some other := by
  rw [lookup_feed_map]
  have hkept : symbol ∈ symbols.filter fun other => feed_id other = some fid :=
    List.mem_filter.mpr ⟨hmem, decide_eq_true hfeed⟩
  exact ⟨_, List.getLast?_eq_some_getLast (List.ne_nil_of_mem hkept)⟩

def entry_of (round : ℕ) (now : ℚ) (symbol : Text) (item : ParsedItem) : Entry where
  symbol := symbol
  price := price item
  fetched_at := now
  round := round

theorem lookup_read_item_of_ne {feeds : FeedMap} {round : ℕ} {now : ℚ} {prices : Prices}
    {item : ParsedItem} (h : feeds.lookup item.raw_id ≠ some symbol) :
    (read_item feeds round now prices item).lookup symbol = prices.lookup symbol := by
  unfold read_item
  cases hother : feeds.lookup item.raw_id with
  | none => rfl
  | some sym =>
      apply AList.lookup_insert_ne
      rintro rfl
      exact h hother

variable (symbols items) (round : ℕ) (now : ℚ)

theorem lookup_read_items (symbol : Text) (entry : Entry) :
    (items.foldl (read_item (feed_map symbols) round now) ∅).lookup symbol = some entry ↔
      ∃ fid item, (feed_map symbols).lookup fid = some symbol ∧ quote items fid = some item ∧
        entry = entry_of round now symbol item := by
  induction items using List.reverseRecOn with
  | nil =>
      constructor
      · intro h
        rw [List.foldl_nil, AList.lookup_empty] at h
        cases h
      · rintro ⟨fid, item, -, hquote, -⟩
        cases hquote
  | append_singleton items item ih =>
      rw [List.foldl_append, List.foldl_cons, List.foldl_nil]
      by_cases hread : (feed_map symbols).lookup item.raw_id = some symbol
      · unfold read_item
        rw [hread]
        dsimp only
        rw [AList.lookup_insert, Option.some.injEq]
        constructor
        · rintro rfl
          exact ⟨item.raw_id, item, hread, by rw [quote_concat, if_pos rfl], rfl⟩
        · rintro ⟨fid, last, hfid, hquote, rfl⟩
          have hsame : item.raw_id = fid := Option.some_injective _
            ((feed_id_of_lookup hread).2.symm.trans (feed_id_of_lookup hfid).2)
          rw [quote_concat, if_pos hsame, Option.some.injEq] at hquote
          rw [← hquote]
          rfl
      · have hquotes : ∀ fid, (feed_map symbols).lookup fid = some symbol →
            quote (items ++ [item]) fid = quote items fid := by
          intro fid hfid
          rw [quote_concat, if_neg]
          rintro rfl
          exact hread hfid
        rw [lookup_read_item_of_ne hread, ih]
        constructor
        · rintro ⟨fid, last, hfid, hquote, hentry⟩
          exact ⟨fid, last, hfid, (hquotes fid hfid).trans hquote, hentry⟩
        · rintro ⟨fid, last, hfid, hquote, hentry⟩
          exact ⟨fid, last, hfid, (hquotes fid hfid).symm.trans hquote, hentry⟩

/-- A symbol's price is the quote of the feed that it was the last of the batch to ask
for. -/
theorem lookup_fetch_iff (symbol : Text) (entry : Entry) :
    (fetch_prices_batch symbols (some items) round now).lookup symbol = some entry ↔
      ∃ fid item, (feed_map symbols).lookup fid = some symbol ∧ quote items fid = some item ∧
        entry = entry_of round now symbol item := by
  unfold fetch_prices_batch
  dsimp only
  split_ifs with hempty
  · constructor
    · intro h
      rw [AList.lookup_empty] at h
      cases h
    · rintro ⟨fid, item, hfid, -⟩
      rw [feed_map_empty hempty] at hfid
      cases hfid
  · exact lookup_read_items symbols items round now symbol entry

theorem truthful_fetch :
    Truthful symbols items (fetch_prices_batch symbols (some items) round now) := by
  intro symbol entry h
  obtain ⟨fid, item, hfid, hquote, rfl⟩ := (lookup_fetch_iff symbols items round now _ _).mp h
  obtain ⟨hmem, hfeed⟩ := feed_id_of_lookup hfid
  exact ⟨hmem, rfl, fid, item, hfeed, hquote, rfl⟩

theorem complete_fetch_iff :
    Complete symbols items (fetch_prices_batch symbols (some items) round now) ↔
      OneSpelling symbols items := by
  constructor
  · intro h symbol hsymbol other hother item hitem hfeed hfeed'
    obtain ⟨quoted, hquoted⟩ := exists_quote hitem
    have hlast : ∀ spelling ∈ symbols, feed_id spelling = some item.raw_id →
        (feed_map symbols).lookup item.raw_id = some spelling := by
      intro spelling hmem hid
      obtain ⟨entry, hentry, -⟩ := h spelling hmem item.raw_id hid quoted hquoted
      obtain ⟨fid, -, hfid, -⟩ := (lookup_fetch_iff symbols items round now _ _).mp hentry
      rw [Option.some_injective _ (hid.symm.trans (feed_id_of_lookup hfid).2)]
      exact hfid
    exact Option.some_injective _
      ((hlast symbol hsymbol hfeed).symm.trans (hlast other hother hfeed'))
  · intro h symbol hsymbol fid hfeed item hquote
    obtain ⟨hitem, rfl⟩ := mem_of_quote hquote
    obtain ⟨other, hother⟩ := exists_lookup hsymbol hfeed
    obtain ⟨hmem, hfeed'⟩ := feed_id_of_lookup hother
    obtain rfl := h symbol hsymbol other hmem item hitem hfeed hfeed'
    exact ⟨entry_of round now symbol item, (lookup_fetch_iff symbols items round now _ _).mpr
      ⟨item.raw_id, item, hother, hquote, rfl⟩, rfl, rfl⟩

/-- Each symbol gets the price of its own feed and of no other exactly where no two
spellings of the batch share a feed that is in the answer. -/
theorem batch_prices_iff (symbols : List Text) (items : List ParsedItem) (round : ℕ) (now : ℚ) :
    Complete symbols items (fetch_prices_batch symbols (some items) round now) ∧
        Truthful symbols items (fetch_prices_batch symbols (some items) round now) ↔
      OneSpelling symbols items := by
  rw [and_iff_left (truthful_fetch symbols items round now)]
  exact complete_fetch_iff symbols items round now

def btc_quote : ParsedItem where
  id := "e62df6c8b4a85fe1a67db44dc12de5db330f7ac66b72dc658afedf0f4a415b43".toList
  price := 7216000000000
  expo := -8

/-- The first of two spellings of one feed gets no price. -/
theorem first_spelling_dropped :
    ¬ Complete ["BTCUSDT".toList, "BTCUSD".toList] [btc_quote]
      (fetch_prices_batch ["BTCUSDT".toList, "BTCUSD".toList] (some [btc_quote]) 0 0) := by
  intro h
  have hfeed : feed_id "BTCUSDT".toList = some btc_quote.raw_id := by
    have hid : btc_quote.raw_id =
        "0xe62df6c8b4a85fe1a67db44dc12de5db330f7ac66b72dc658afedf0f4a415b43".toList :=
      String.toList_append.symm
    rw [hid]
    rfl
  have hbase : normalize_base "BTCUSD".toList = normalize_base "BTCUSDT".toList := by decide
  have hfeed' : feed_id "BTCUSD".toList = some btc_quote.raw_id :=
    (congrArg (PYTH_FEED_IDS.lookup ·) hbase).trans hfeed
  have hsame := (complete_fetch_iff _ _ _ _).mp h "BTCUSDT".toList (by decide)
    "BTCUSD".toList (by decide) btc_quote (List.mem_singleton_self _) hfeed hfeed'
  exact absurd hsame (by decide)

end ArticTrader.BatchPrices
