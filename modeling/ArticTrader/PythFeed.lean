import Mathlib.Algebra.Order.Field.Rat
import Mathlib.Data.List.AList
import Mathlib.Data.List.Induction
import ArticTrader.PythonText

/-!
The batch price fetch of the hub. A symbol is asked for under the feed of its
base currency, and an answer is read back through the map from feeds to symbols.
-/

namespace ArticTrader.PythFeed

open ArticTrader.PythonText (Text upper strip endswith)

def PYTH_FEED_IDS : List (Text × Text) :=
  [
    ("BTC".toList, "0xe62df6c8b4a85fe1a67db44dc12de5db330f7ac66b72dc658afedf0f4a415b43".toList),
    ("ETH".toList, "0xff61491a931112ddf1bd8147cd1b641375f79f5825126d665480874634fd0ace".toList),
    ("BNB".toList, "0x2f95862b045670cd22bee3114c39763a4a08beeb663b145d283c31d7d1101c4f".toList),
    ("SOL".toList, "0xef0d8b6fda2ceba41da15d4095d1da392a0d2f8ed0c6c7bc0f4cfac8c280b56d".toList),
    ("XRP".toList, "0xec5d399846a9209f3fe5881d70aae9268c94339ff9817e8d18ff19fa05eea1c8".toList),
    ("ADA".toList, "0x2a01deaec9e51a579277b34b122399984d0bbf57e2458a7e42fecd2829867a0d".toList),
    ("DOGE".toList, "0xdcef50dd0a4cd2dcc17e45df1676dcb336a11a61c69df7a0299b0150c672d25c".toList),
    ("AVAX".toList, "0x93da3352f9f1d105fdfe4971cfa80e9dd777bfc5d0f683ebb6e1294b92137bb7".toList),
    ("DOT".toList, "0xca3eed9b267293f6595901c734c7525ce8ef49adafe8284606ceb307afa2ca5b".toList),
    ("LINK".toList, "0x8ac0c70fff57e9aefdf5edf44b51d62c2d433653cbb2cf5cc06bb115af04d221".toList),
    ("UNI".toList, "0x78d185a741d07edb3412b09008b7c5cfb9bbbd7d568bf00ba737b456ba171501".toList),
    ("ATOM".toList, "0xb00b60f88b03a6a625a8d1c048c3f66653edf217439983d037e7222c4e612819".toList),
    ("LTC".toList, "0x6e3f3fa8253588df9326580180233eb791e03b443a3ba7a1d892e73874e19a54".toList),
    ("NEAR".toList, "0xc415de8d2eba7db216527dff4b60e8f3a5311c740dadb233e13e12547e226750".toList),
    ("APT".toList, "0x03ae4db29ed4ae33d323568895aa00337e658e348b37509f5372ae51f0af00d5".toList),
    ("ARB".toList, "0x3fa4252848f9f0a1480be62745a4629d9eb1322aebab8a791e344b3b9c1adcf5".toList),
    ("OP".toList, "0x385f64d993f7b77d8182ed5003d97c60aa3361f3cecfe711544d2d59165e9bdf".toList),
    ("SUI".toList, "0x23d7315113f5b1d3ba7a83604c44b94d79f4fd69af77f804fc7f920a6dc65744".toList),
    ("INJ".toList, "0x7a5bc1d2b56ad029048cd63964b3ad2776eadf812edc1a43a31406cb54bff592".toList),
    ("AAVE".toList, "0x2b9ab1e972a281585084148ba1389800799bd4be63b957507db1349314e47445".toList),
    ("FIL".toList, "0x150ac9b959aee0051e4091f0ef5216d941f590e1c5e7f91cf7635b5c11628c0e".toList),
    ("PEPE".toList, "0xd69731a2e74ac1ce884fc3890f7ee324b6deb66147055249568869ed700882e4".toList),
    ("POL".toList, "0xffd11c5a1cfd42f80afb2df4d9f264c15f956d68153335374ec10722edd70472".toList),
    ("BCH".toList, "0x3dd2b63686a450ec7290df3a1e0b583c0481f651351edfa7636f39aed55cf8a3".toList),
    ("ETC".toList, "0x7f5cc8d963fc5b3d2ae41fe5685ada89fd4f14b435f8050f28c7fd409f40c2d8".toList),
    ("XLM".toList, "0xb7a8eba68a997cd0210c2e1e4ee811ad2d174b3611c22d9ebf16f4cb7e9ba850".toList),
    ("HBAR".toList, "0x3728e591097635310e6341af53db8b7ee42da9b3a8d918f9463ce9cca886dfbd".toList)
  ]

def SYMBOL_ALIASES : List (Text × Text) := [("MATIC".toList, "POL".toList)]

def SUFFIXES : List Text :=
  ["USDT".toList, "USD".toList, "BUSD".toList, "USDC".toList, "PERP".toList]

def strip_suffix (s : Text) : Text :=
  match SUFFIXES.find? fun suffix => endswith s suffix && decide (suffix.length < s.length) with
  | some suffix => s.take (s.length - suffix.length)
  | none => s

def normalize_base (symbol : Text) : Text :=
  let s := upper (strip symbol)
  let s := (s.reverse.takeWhile (· ≠ ':')).reverse
  let s := strip_suffix (s.takeWhile (· ≠ '/'))
  (SYMBOL_ALIASES.lookup s).getD s

def feed_id (symbol : Text) : Option Text := PYTH_FEED_IDS.lookup (normalize_base symbol)

/-- An entry of the price cache, with the polling round that fetched it. -/
structure Entry where
  symbol : Text
  price : ℚ
  fetched_at : ℚ
  round : ℕ
  deriving DecidableEq, Repr

abbrev Prices := AList fun _ : Text => Entry

abbrev FeedMap := AList fun _ : Text => Text

structure ParsedItem where
  id : Text
  price : ℤ
  expo : ℤ
  deriving DecidableEq, Repr

def ParsedItem.raw_id (item : ParsedItem) : Text := "0x".toList ++ item.id

/-- A later symbol of the same feed takes the place of an earlier one. -/
def feed_map (symbols : List Text) : FeedMap :=
  symbols.foldl
    (fun feeds sym =>
      match feed_id sym with
      | some fid => feeds.insert fid sym
      | none => feeds)
    ∅

def read_item (feeds : FeedMap) (round : ℕ) (now : ℚ) (prices : Prices) (item : ParsedItem) :
    Prices :=
  match feeds.lookup item.raw_id with
  | some sym =>
      prices.insert sym
        { symbol := sym, price := item.price * 10 ^ item.expo, fetched_at := now, round }
  | none => prices

/-- There is no answer if the request or its evaluation raises. -/
def fetch_prices_batch (symbols : List Text) (parsed : Option (List ParsedItem)) (round : ℕ)
    (now : ℚ) : Prices :=
  let feeds := feed_map symbols
  if feeds.keys = [] then ∅
  else
    match parsed with
    | none => ∅
    | some items => items.foldl (read_item feeds round now) ∅

/-- The symbol's feed is answered, and no symbol behind it in the batch has the same. -/
def Answered (symbols : List Text) (parsed : Option (List ParsedItem)) (symbol : Text) : Prop :=
  ∃ items, parsed = some items ∧ ∃ item ∈ items, feed_id symbol = some item.raw_id ∧
    (symbols.filter fun other => feed_id other = feed_id symbol).getLast? = some symbol

theorem feed_map_append (symbols : List Text) (symbol : Text) :
    feed_map (symbols ++ [symbol]) =
      match feed_id symbol with
      | some fid => (feed_map symbols).insert fid symbol
      | none => feed_map symbols := by
  rw [feed_map, List.foldl_append]
  rfl

theorem lookup_feed_map (symbols : List Text) (fid : Text) :
    (feed_map symbols).lookup fid =
      (symbols.filter fun symbol => feed_id symbol = some fid).getLast? := by
  induction symbols using List.reverseRecOn with
  | nil => rfl
  | append_singleton symbols symbol ih =>
      rw [feed_map_append, List.filter_append]
      cases hfeed : feed_id symbol with
      | none => simp [hfeed, ih]
      | some other =>
          by_cases hsame : fid = other
          · subst hsame
            simp [hfeed]
          · simp [hfeed, ih, AList.lookup_insert_ne hsame, Ne.symm hsame]

theorem mem_foldl_iff (feeds : FeedMap) (round : ℕ) (now : ℚ) (items : List ParsedItem)
    (prices : Prices) (symbol : Text) :
    symbol ∈ items.foldl (read_item feeds round now) prices ↔
      symbol ∈ prices ∨ ∃ item ∈ items, feeds.lookup item.raw_id = some symbol := by
  induction items generalizing prices with
  | nil => simp
  | cons item items ih =>
      rw [List.foldl_cons, ih, read_item]
      cases hfeed : feeds.lookup item.raw_id with
      | none => simp [hfeed]
      | some sym => simp [hfeed, AList.mem_insert, eq_comm, or_assoc, or_left_comm]

theorem lookup_foldl {feeds : FeedMap} {round : ℕ} {now : ℚ} {items : List ParsedItem}
    {prices : Prices} {symbol : Text} {entry : Entry}
    (h : (items.foldl (read_item feeds round now) prices).lookup symbol = some entry) :
    prices.lookup symbol = some entry ∨ entry.round = round ∧ entry.fetched_at = now := by
  induction items generalizing prices with
  | nil => exact .inl h
  | cons item items ih =>
      rw [List.foldl_cons] at h
      rcases ih h with hread | hnew
      · rw [read_item] at hread
        cases hfeed : feeds.lookup item.raw_id with
        | none =>
            rw [hfeed] at hread
            exact .inl hread
        | some sym =>
            rw [hfeed] at hread
            by_cases hsame : symbol = sym
            · subst hsame
              rw [AList.lookup_insert, Option.some.injEq] at hread
              subst hread
              exact .inr ⟨rfl, rfl⟩
            · rw [AList.lookup_insert_ne hsame] at hread
              exact .inl hread
      · exact .inr hnew

theorem feed_map_empty {symbols : List Text} (h : (feed_map symbols).keys = []) (fid : Text) :
    (feed_map symbols).lookup fid = none := by
  rw [AList.lookup_eq_none, AList.mem_keys, h]
  exact List.not_mem_nil

/-- The batch returns a price for the symbols that are answered. -/
theorem mem_fetch_iff (symbols : List Text) (parsed : Option (List ParsedItem)) (round : ℕ)
    (now : ℚ) (symbol : Text) :
    symbol ∈ fetch_prices_batch symbols parsed round now ↔ Answered symbols parsed symbol := by
  have hread : ∀ item : ParsedItem, (feed_map symbols).lookup item.raw_id = some symbol ↔
      feed_id symbol = some item.raw_id ∧
        (symbols.filter fun other => feed_id other = feed_id symbol).getLast? = some symbol := by
    intro item
    rw [lookup_feed_map]
    constructor
    · intro hlast
      have hfeed : feed_id symbol = some item.raw_id := by
        simpa using (List.mem_filter.mp (List.mem_of_getLast? hlast)).2
      rw [hfeed]
      exact ⟨rfl, hlast⟩
    · rintro ⟨hfeed, hlast⟩
      rwa [hfeed] at hlast
  unfold fetch_prices_batch Answered
  dsimp only
  split_ifs with hempty
  · constructor
    · intro h
      exact absurd h (AList.notMem_empty symbol)
    · rintro ⟨items, -, item, -, hitem⟩
      rw [← hread, feed_map_empty hempty] at hitem
      cases hitem
  · cases parsed with
    | none =>
        constructor
        · intro h
          exact absurd h (AList.notMem_empty symbol)
        · rintro ⟨items, hnone, -⟩
          cases hnone
    | some items =>
        simp only [mem_foldl_iff, hread, Option.some.injEq, exists_eq_left']
        constructor
        · rintro (h | h)
          · exact absurd h (AList.notMem_empty symbol)
          · exact h
        · exact .inr

theorem lookup_fetch {symbols : List Text} {parsed : Option (List ParsedItem)} {round : ℕ} {now : ℚ}
    {symbol : Text} {entry : Entry}
    (h : (fetch_prices_batch symbols parsed round now).lookup symbol = some entry) :
    entry.round = round ∧ entry.fetched_at = now := by
  unfold fetch_prices_batch at h
  dsimp only at h
  split_ifs at h
  · rw [AList.lookup_empty] at h
    cases h
  · cases parsed with
    | none =>
        rw [AList.lookup_empty] at h
        cases h
    | some items =>
        rcases lookup_foldl h with hempty | hnew
        · rw [AList.lookup_empty] at hempty
          cases hempty
        · exact hnew

example : normalize_base "BINANCE:ETHUSDT".toList = "ETH".toList := by decide

end ArticTrader.PythFeed
