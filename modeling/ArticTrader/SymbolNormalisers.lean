import ArticTrader.HubCandles
import ArticTrader.Markers
import ArticTrader.PythFeed

/-!
The base ticker of a trading symbol, as the price feed, the candle service, the
token data and the cache keys each read it.
-/

namespace ArticTrader.SymbolNormalisers

open ArticTrader.HubCandles (QUOTES normalize_symbol symbol_to_twelvedata_symbol)
open ArticTrader.Markers
open ArticTrader.PythFeed (SUFFIXES SYMBOL_ALIASES normalize_base strip_suffix)
open ArticTrader.PythonText

def twelvedata_base (symbol : Text) : Text :=
  let td_symbol := symbol_to_twelvedata_symbol symbol
  td_symbol.take (td_symbol.length - "/USD".toList.length)

def cmc_normalize_symbol (symbol : Text) : Text :=
  let s := normalize_symbol symbol
  let s :=
    match SUFFIXES.find? fun suffix => endswith s ('-' :: suffix) || endswith s suffix with
    | some suffix => replace (replace s ('-' :: suffix) []) suffix []
    | none => s
  if s.isEmpty then symbol else s

def STRIP_WORDS : List Text :=
  ["USD".toList, "USDT".toList, "USDC".toList, "PERP".toList, "SWAP".toList]

/-- Whether the pattern of `_STRIP_RE`, a separator that may be left out and a word up to
the end, matches from the first character on. -/
def strip_match : Text → Bool
  | [] => false
  | c :: s => STRIP_WORDS.contains (c :: s) || ((c = '-' || c = '/') && STRIP_WORDS.contains s)

/-- `_STRIP_RE.sub("", s)` -/
def strip_re : Text → Text
  | [] => []
  | c :: s => if strip_match (c :: s) then [] else c :: strip_re s

def db_normalize_symbol (symbol : Text) : Text :=
  let s := upper (strip symbol)
  let key := strip_re s
  if key.isEmpty then s else key

def normalisers : List (Text → Text) :=
  [normalize_base, twelvedata_base, cmc_normalize_symbol, db_normalize_symbol]

inductive Spelling
  | plain
  | slashed
  | listed (exchange : Text)
  deriving DecidableEq, Repr

def Spelling.symbol (B Q : Text) : Spelling → Text
  | .plain => B ++ Q
  | .slashed => B ++ '/' :: Q
  | .listed exchange => exchange ++ ':' :: (B ++ Q)

structure Ticker (B : Text) : Prop where
  nonempty : B ≠ []
  alphanumeric : ∀ c ∈ B, c.isAlphanum = true
  unquoted : ∀ quote ∈ QUOTES, endswith B quote = false
  unaliased : ∀ alias_ ∈ SYMBOL_ALIASES, B ≠ alias_.1

structure Agree (B symbol : Text) : Prop where
  read : ∀ normalise ∈ normalisers, normalise symbol = B
  again : ∀ normalise ∈ normalisers, normalise (normalise symbol) = normalise symbol

/-- The quote is the first of the suffixes and ends the ticker only once, and the
ticker is spelt as the normalisers spell it. -/
structure Unambiguous (B Q : Text) : Prop where
  quote : Q ≠ "BUSD".toList
  uppercase : upper B = B
  once : ¬ Q <:+: B
  contract : ∀ word ∈ ["PERP".toList, "SWAP".toList], endswith B word = true → B = word

/-- Text in which there is nothing to trim, to raise or to take an exchange from. -/
structure Clean (s : Text) : Prop where
  spaceless : ∀ c ∈ s, ascii_space c = false
  unlisted : ':' ∉ s
  uppercase : upper s = s

def strip_quote (s : Text) : Text :=
  match QUOTES.find? (endswith s) with
  | some suffix => s.take (s.length - suffix.length)
  | none => s

/-- A text that ends in `q` can end in `e`. -/
def related (q e : Text) : Bool := endswith e q || endswith q e

/-- What the lists of suffixes have for a quote. -/
structure First (Q : Text) : Prop where
  quotes : QUOTES.find? (related Q) = some Q
  suffixes : SUFFIXES.find? (related Q) = some Q
  word : Q ∈ STRIP_WORDS
  letter : Q = 'U' :: Q.tail
  marker : 'U' ∉ Q.tail

variable {B Q s : Text}

theorem toUpper_of_not_lower {c : Char} (h : ¬ ('a'.val ≤ c.val ∧ c.val ≤ 'z'.val)) :
    c.toUpper = c := by
  unfold Char.toUpper
  rw [dif_neg h]

theorem toUpper_toUpper (c : Char) : c.toUpper.toUpper = c.toUpper := by
  by_cases h : 'a'.val ≤ c.val ∧ c.val ≤ 'z'.val
  · have hval : c.toUpper.val = c.val + ('A'.val - 'a'.val) := by
      unfold Char.toUpper
      rw [dif_pos h]
    have hupper : ¬ ('a'.val ≤ c.toUpper.val ∧ c.toUpper.val ≤ 'z'.val) := by
      rw [hval]
      simp only [UInt32.le_iff_toNat_le, UInt32.toNat_add] at h ⊢
      have ha : 'a'.val.toNat = 97 := rfl
      have hz : 'z'.val.toNat = 122 := rfl
      have hgap : ('A'.val - 'a'.val).toNat = 4294967264 := rfl
      omega
    exact toUpper_of_not_lower hupper
  · rw [toUpper_of_not_lower h, toUpper_of_not_lower h]

theorem upper_upper (s : Text) : upper (upper s) = upper s := by
  rw [upper, upper, List.map_map]
  apply List.map_congr_left
  intro c hc
  exact toUpper_toUpper c

theorem upper_append (s t : Text) : upper (s ++ t) = upper s ++ upper t := List.map_append

theorem upper_of_prefix {t : Text} (h : s <+: upper t) : upper s = s := by
  obtain ⟨rest, hrest⟩ := h
  have hupper := congrArg upper hrest
  rw [upper_upper, ← hrest, upper_append] at hupper
  exact (List.append_inj hupper (List.length_map ..)).1

theorem mem_strip {c : Char} (hc : ascii_space c = false) (h : c ∈ s) : c ∈ strip s := by
  have hkept : ∀ t : Text, c ∈ t → c ∈ t.dropWhile ascii_space := by
    intro t ht
    rw [← List.takeWhile_append_dropWhile (p := ascii_space) (l := t)] at ht
    rcases List.mem_append.mp ht with hspace | hrest
    · rw [List.mem_takeWhile_imp hspace] at hc
      cases hc
    · exact hrest
  rw [strip, List.rdropWhile, List.mem_reverse]
  exact hkept _ (List.mem_reverse.mpr (hkept s h))

theorem strip_eq (h : ∀ c ∈ s, ascii_space c = false) : strip s = s := by
  have hkept : ∀ t : Text, (∀ c ∈ t, ascii_space c = false) → t.dropWhile ascii_space = t := by
    intro t ht
    cases t with
    | nil => rfl
    | cons c t => rw [List.dropWhile_cons_of_neg (by rw [ht c List.mem_cons_self]; nofun)]
  rw [strip, hkept s h, List.rdropWhile, hkept, List.reverse_reverse]
  intro c hc
  exact h c (List.mem_reverse.mp hc)

theorem takeWhile_ne {c : Char} (h : c ∉ s) : s.takeWhile (· ≠ c) = s := by
  rw [List.takeWhile_eq_self_iff]
  intro d hd
  simpa using fun heq : d = c => h (heq ▸ hd)

theorem after_colon (h : ':' ∉ s) : (s.reverse.takeWhile (· ≠ ':')).reverse = s := by
  rw [takeWhile_ne (fun hc => h (List.mem_reverse.mp hc)), List.reverse_reverse]

theorem space_of_alphanumeric {c : Char} (h : c.isAlphanum = true) : ascii_space c = false := by
  by_contra hspace
  rw [Bool.not_eq_false, ascii_space, Bool.or_eq_true, decide_eq_true_eq, Bool.and_eq_true,
    decide_eq_true_eq, decide_eq_true_eq] at hspace
  rcases hspace with rfl | ⟨hlow, hhigh⟩
  · cases h
  · unfold Char.isAlphanum Char.isAlpha Char.isUpper Char.isLower Char.isDigit at h
    simp only [Bool.or_eq_true, decide_eq_true_eq, UInt32.le_iff_toNat_le, ge_iff_le,
      Bool.and_eq_true] at h
    have hval : c.val.toNat = c.toNat := rfl
    have hA : 'A'.val.toNat = 65 := rfl
    have ha : 'a'.val.toNat = 97 := rfl
    have h0 : '0'.val.toNat = 48 := rfl
    omega

theorem replace_from_skipped (old new s : Text) : replace_from old new s.length s = [] := by
  induction s with
  | nil => rfl
  | cons c s ih => exact ih

/-- A marker at the end does not overlap with what is replaced before it. -/
theorem replace_from_marker {c : Char} {p : Text} (hc : c ∉ p) (new : Text) {skip : ℕ} {x : Text}
    (h : skip ≤ x.length) :
    replace_from (c :: p) new skip (x ++ c :: p) = replace_from (c :: p) new skip x ++ new := by
  induction x generalizing skip with
  | nil =>
      obtain rfl : skip = 0 := Nat.le_zero.mp h
      rw [List.nil_append, replace_from, List.nil_append, replace_from,
        if_pos (startswith_iff.mpr ⟨[], (List.append_nil (c :: p)).symm⟩),
        List.length_cons, Nat.add_sub_cancel, replace_from_skipped, List.append_nil]
  | cons d x ih =>
      cases skip with
      | succ skip => exact ih (Nat.le_of_succ_le_succ h)
      | zero =>
          rw [List.cons_append, replace_from, replace_from]
          by_cases hhere : startswith (d :: x) (c :: p) = true
          · obtain ⟨rest, hrest⟩ := startswith_iff.mp hhere
            have hfits : (c :: p).length - 1 ≤ x.length := by
              have hlength := congrArg List.length hrest
              simp only [List.length_append, List.length_cons] at hlength ⊢
              omega
            rw [if_pos hhere, if_pos, ih hfits, List.append_assoc]
            rw [← List.cons_append, hrest, List.append_assoc]
            exact startswith_append _ _
          · rw [if_neg hhere, if_neg, ih (Nat.zero_le _)]
            · rfl
            · intro hstart
              obtain ⟨rest, hrest⟩ := startswith_iff.mp hstart
              have hparted : c :: p ++ rest = (d :: x) ++ (c :: p ++ []) := by
                rw [List.append_nil, ← hrest, List.cons_append]
              rcases marker_step hc hparted with ⟨hnil, -⟩ | ⟨z, hz, -⟩
              · cases hnil
              · exact hhere (startswith_iff.mpr ⟨z, hz⟩)

theorem endswith_append (s t : Text) : endswith (s ++ t) t = true :=
  endswith_iff.mpr (List.suffix_append s t)

theorem related_of_endswith {q e : Text} (hq : endswith s q = true) (he : endswith s e = true) :
    related q e = true := by
  rw [related, Bool.or_eq_true]
  rcases List.suffix_or_suffix_of_suffix (endswith_iff.mp hq) (endswith_iff.mp he) with h | h
  · exact .inl (endswith_iff.mpr h)
  · exact .inr (endswith_iff.mpr h)

theorem endswith_tail {c : Char} {t : Text} (h : endswith s (c :: t) = true) :
    endswith s t = true :=
  endswith_iff.mpr ((List.suffix_cons c t).trans (endswith_iff.mp h))

theorem find_first {l : List Text} {p r : Text → Bool} {q : Text}
    (hpr : ∀ e, p e = true → r e = true) (hq : p q = true) (h : l.find? r = some q) :
    l.find? p = some q := by
  induction l with
  | nil => cases h
  | cons e l ih =>
      rw [List.find?_cons] at h ⊢
      cases hr : r e with
      | true =>
          rw [hr] at h
          obtain rfl : e = q := Option.some.inj h
          rw [hq]
      | false =>
          rw [hr] at h
          have hp : p e = false := by
            by_contra htrue
            rw [Bool.not_eq_false] at htrue
            rw [hpr e htrue] at hr
            cases hr
          rw [hp]
          exact ih h

theorem first_quote : ∀ Q ∈ QUOTES, Q ≠ "BUSD".toList → First Q := by
  have htable : ∀ Q ∈ QUOTES, Q ≠ "BUSD".toList →
      QUOTES.find? (related Q) = some Q ∧ SUFFIXES.find? (related Q) = some Q ∧
        Q ∈ STRIP_WORDS ∧ Q = 'U' :: Q.tail ∧ 'U' ∉ Q.tail := by
    decide
  intro Q hQ hbusd
  obtain ⟨hquotes, hsuffixes, hword, hletter, hmarker⟩ := htable Q hQ hbusd
  exact ⟨hquotes, hsuffixes, hword, hletter, hmarker⟩

theorem take_append (s t : Text) : (s ++ t).take ((s ++ t).length - t.length) = s := by
  rw [List.length_append, Nat.add_sub_cancel, List.take_left]

theorem strip_quote_first {q t : Text} (hq : QUOTES.find? (related q) = some q)
    (hs : s = t ++ q) : strip_quote s = t := by
  have hend : endswith s q = true := hs ▸ endswith_append t q
  rw [strip_quote, find_first (r := related q) (fun _ => related_of_endswith hend) hend hq, hs]
  exact take_append t q

theorem strip_quote_none (h : ∀ quote ∈ QUOTES, endswith s quote = false) :
    strip_quote s = s := by
  rw [strip_quote, List.find?_eq_none.mpr]
  intro quote hquote
  rw [h quote hquote]
  nofun

theorem strip_quote_parted (s : Text) : ∃ e, s = strip_quote s ++ e ∧ (e = [] ∨ e ∈ QUOTES) := by
  rw [strip_quote]
  split
  next suffix hfind =>
      obtain ⟨t, rfl⟩ := endswith_iff.mp (List.find?_some hfind)
      rw [take_append]
      exact ⟨suffix, rfl, .inr (List.mem_of_find?_eq_some hfind)⟩
  next => exact ⟨[], (List.append_nil s).symm, .inl rfl⟩

theorem twelvedata_base_eq (symbol : Text) :
    twelvedata_base symbol = strip_quote (upper (normalize_symbol symbol)) := take_append _ _

theorem Clean.normalize (h : Clean s) : normalize_symbol s = s := by
  rw [normalize_symbol, strip_eq h.spaceless, h.uppercase]
  exact after_colon h.unlisted

theorem Clean.twelvedata (h : Clean s) : twelvedata_base s = strip_quote s := by
  rw [twelvedata_base_eq, h.normalize, h.uppercase]

theorem Clean.pyth (h : Clean s) (hslash : '/' ∉ s) :
    normalize_base s = (SYMBOL_ALIASES.lookup (strip_suffix s)).getD (strip_suffix s) := by
  unfold normalize_base
  simp only [strip_eq h.spaceless, h.uppercase, after_colon h.unlisted, takeWhile_ne hslash]

theorem Clean.db (h : Clean s) :
    db_normalize_symbol s = if (strip_re s).isEmpty then s else strip_re s := by
  rw [db_normalize_symbol, strip_eq h.spaceless, h.uppercase]

theorem strip_match_iff (h : ∀ c ∈ s, c.isAlphanum = true) :
    strip_match s = true ↔ s ∈ STRIP_WORDS := by
  cases s with
  | nil => decide
  | cons c s =>
      have hc := h c List.mem_cons_self
      have hsep : (decide (c = '-') || decide (c = '/')) = false := by
        rw [Bool.or_eq_false_iff, decide_eq_false_iff_not, decide_eq_false_iff_not]
        constructor
        · rintro rfl
          cases hc
        · rintro rfl
          cases hc
      rw [strip_match, hsep, Bool.false_and, Bool.or_false, List.contains_iff_mem]

theorem strip_re_word {x w : Text} (hw : w ∈ STRIP_WORDS) (h : ∀ c ∈ x, c.isAlphanum = true) :
    strip_re (x ++ w) = x := by
  have halone : ∀ w ∈ STRIP_WORDS, ∀ v ∈ STRIP_WORDS, endswith v w = true → v = w := by decide
  have halpha : ∀ w ∈ STRIP_WORDS, strip_re w = [] ∧ w.all Char.isAlphanum = true := by decide
  induction x with
  | nil => exact (halpha w hw).1
  | cons c x ih =>
      have htext : ∀ d ∈ c :: (x ++ w), d.isAlphanum = true := by
        intro d hd
        rcases List.mem_append.mp (List.cons_append ▸ hd) with hx | hd
        · exact h d hx
        · exact List.all_eq_true.mp (halpha w hw).2 d hd
      have hmatch : ¬ strip_match (c :: (x ++ w)) = true := by
        rw [strip_match_iff htext]
        intro hword
        have hsame := halone w hw _ hword (endswith_append (c :: x) w)
        have hlength := congrArg List.length hsame
        simp only [List.length_cons, List.length_append] at hlength
        omega
      rw [List.cons_append, strip_re, if_neg hmatch, ih fun d hd => h d (List.mem_cons_of_mem c hd)]

theorem strip_re_parted (s : Text) :
    ∃ e, s = strip_re s ++ e ∧ (e = [] ∨ strip_match e = true) := by
  induction s with
  | nil => exact ⟨[], rfl, .inl rfl⟩
  | cons c s ih =>
      rw [strip_re]
      split
      next hmatch => exact ⟨c :: s, rfl, .inr hmatch⟩
      next =>
          obtain ⟨e, heq, he⟩ := ih
          exact ⟨e, by rw [List.cons_append, ← heq], he⟩

theorem colon_notMem_of_match {e : Text} (h : strip_match e = true) : ':' ∉ e := by
  have hwords : ∀ w ∈ STRIP_WORDS, ':' ∉ w := by decide
  cases e with
  | nil => exact List.not_mem_nil
  | cons c e =>
      rw [strip_match, Bool.or_eq_true, Bool.and_eq_true, Bool.or_eq_true, decide_eq_true_eq,
        decide_eq_true_eq, List.contains_iff_mem, List.contains_iff_mem] at h
      rcases h with hword | ⟨rfl | rfl, hword⟩
      · exact hwords _ hword
      · exact List.not_mem_cons_of_ne_of_not_mem (by decide) (hwords e hword)
      · exact List.not_mem_cons_of_ne_of_not_mem (by decide) (hwords e hword)

theorem slash_notMem_quotes : ∀ quote ∈ QUOTES, '/' ∉ quote := by decide

namespace Ticker

theorem clean (h : Ticker B) (hupper : upper B = B) : Clean B where
  spaceless c hc := space_of_alphanumeric (h.alphanumeric c hc)
  unlisted hc := nomatch h.alphanumeric ':' hc
  uppercase := hupper

theorem slash_notMem (h : Ticker B) : '/' ∉ B := fun hc => nomatch h.alphanumeric '/' hc

theorem dash_notMem (h : Ticker B) : '-' ∉ B := fun hc => nomatch h.alphanumeric '-' hc

theorem colon_notMem (h : Ticker B) : ':' ∉ B := fun hc => nomatch h.alphanumeric ':' hc

theorem alias_lookup (h : Ticker B) : (SYMBOL_ALIASES.lookup B).getD B = B := by
  rw [List.lookup_eq_none_iff.mpr]
  · rfl
  · intro alias_ hmem
    rw [bne_iff_ne]
    exact h.unaliased alias_ hmem

end Ticker

theorem Clean.append {t : Text} (hs : Clean s) (ht : Clean t) : Clean (s ++ t) where
  spaceless c hc := (List.mem_append.mp hc).elim (hs.spaceless c) (ht.spaceless c)
  unlisted hc := (List.mem_append.mp hc).elim hs.unlisted ht.unlisted
  uppercase := by rw [upper_append, hs.uppercase, ht.uppercase]

theorem clean_slash : Clean ['/'] := ⟨by simp [ascii_space], by decide, rfl⟩

theorem clean_quote : ∀ Q ∈ QUOTES, Clean Q := by
  have htable : ∀ Q ∈ QUOTES, (Q.all fun c => c.isAlphanum) = true ∧ ':' ∉ Q ∧ upper Q = Q := by
    decide
  intro Q hQ
  obtain ⟨halpha, hcolon, hupper⟩ := htable Q hQ
  exact ⟨fun c hc => space_of_alphanumeric (List.all_eq_true.mp halpha c hc), hcolon, hupper⟩

theorem dash_notMem_quotes : ∀ quote ∈ QUOTES, '-' ∉ quote := by decide

theorem upper_of_twelvedata {symbol : Text} (h : twelvedata_base symbol = B) : upper B = B := by
  obtain ⟨e, heq, -⟩ := strip_quote_parted (upper (normalize_symbol symbol))
  rw [← twelvedata_base_eq, h] at heq
  exact upper_of_prefix ⟨e, heq.symm⟩

/-- Twelve Data is asked for the slash as a part of the ticker. -/
theorem twelvedata_slashed (h : Ticker B) (hQ : Q ∈ QUOTES) :
    twelvedata_base (B ++ '/' :: Q) ≠ B := by
  intro hbase
  have hclean : Clean (B ++ '/' :: Q) :=
    (h.clean (upper_of_twelvedata hbase)).append (clean_slash.append (clean_quote Q hQ))
  rw [hclean.twelvedata] at hbase
  obtain ⟨e, heq, he⟩ := strip_quote_parted (B ++ '/' :: Q)
  rw [hbase] at heq
  have hrest : '/' :: Q = e := List.append_cancel_left heq
  rcases he with rfl | he
  · cases hrest
  · exact slash_notMem_quotes e he (hrest ▸ List.mem_cons_self)

/-- The cache keys keep the exchange. -/
theorem colon_mem_db {symbol : Text} (h : ':' ∈ symbol) : ':' ∈ db_normalize_symbol symbol := by
  have hs : ':' ∈ upper (strip symbol) := List.mem_map.mpr ⟨':', mem_strip (by decide) h, rfl⟩
  rw [db_normalize_symbol]
  split
  next => exact hs
  next =>
      obtain ⟨e, heq, he⟩ := strip_re_parted (upper (strip symbol))
      rw [heq] at hs
      rcases List.mem_append.mp hs with hkey | hcut
      · exact hkey
      · rcases he with rfl | hmatch
        · cases hcut
        · exact absurd hcut (colon_notMem_of_match hmatch)

theorem twelvedata_busd (h : Clean B) : twelvedata_base (B ++ "BUSD".toList) = B ++ ['B'] := by
  rw [(h.append (clean_quote _ (by decide))).twelvedata]
  apply @strip_quote_first _ "USD".toList
  · decide
  · rw [List.append_assoc]
    rfl

theorem first_suffix {t : Text} (hQ : First Q) (hs : s = t ++ Q) {p : Text → Bool}
    (hp : ∀ e, p e = true → endswith s e = true) (hquote : p Q = true) :
    SUFFIXES.find? p = some Q := by
  apply find_first (fun e he => related_of_endswith (hs ▸ endswith_append t Q) (hp e he)) hquote
  exact hQ.suffixes

theorem cmc_plain (h : Ticker B) (hupper : upper B = B) (hQ : Q ∈ QUOTES)
    (hbusd : Q ≠ "BUSD".toList) :
    cmc_normalize_symbol (B ++ Q) =
      if (replace B Q []).isEmpty then B ++ Q else replace B Q [] := by
  have hfirst := first_quote Q hQ hbusd
  have hdash : '-' ∉ B ++ Q := fun hc =>
    (List.mem_append.mp hc).elim h.dash_notMem (dash_notMem_quotes Q hQ)
  have hfind : (SUFFIXES.find? fun suffix =>
      endswith (B ++ Q) ('-' :: suffix) || endswith (B ++ Q) suffix) = some Q := by
    apply first_suffix hfirst rfl
    · intro e he
      exact (Bool.or_eq_true_iff.mp he).elim endswith_tail id
    · rw [endswith_append, Bool.or_true]
  have hmarker : replace (B ++ Q) Q [] = replace B Q [] := by
    have hcut := replace_from_marker hfirst.marker [] (Nat.zero_le B.length)
    rwa [← hfirst.letter, List.append_nil] at hcut
  rw [cmc_normalize_symbol, ((h.clean hupper).append (clean_quote Q hQ)).normalize]
  simp only [hfind, replace_absent [] (not_infix_of_notMem hdash), hmarker]

theorem cmc_plain_iff (h : Ticker B) (hupper : upper B = B) (hQ : Q ∈ QUOTES)
    (hbusd : Q ≠ "BUSD".toList) : cmc_normalize_symbol (B ++ Q) = B ↔ ¬ Q <:+: B := by
  have hne : Q ≠ [] := by
    rw [(first_quote Q hQ hbusd).letter]
    exact List.cons_ne_nil _ _
  rw [cmc_plain h hupper hQ hbusd]
  constructor
  · intro hresult honce
    have hshort := length_replace_lt hne honce
    split_ifs at hresult
    · exact hne (List.append_right_eq_self.mp hresult)
    · rw [hresult] at hshort
      exact lt_irrefl _ hshort
  · intro honce
    rw [replace_absent [] honce, if_neg]
    rw [List.isEmpty_iff]
    exact h.nonempty

theorem pyth_plain (h : Ticker B) (hupper : upper B = B) (hQ : Q ∈ QUOTES)
    (hbusd : Q ≠ "BUSD".toList) : normalize_base (B ++ Q) = B := by
  have hslash : '/' ∉ B ++ Q := fun hc =>
    (List.mem_append.mp hc).elim h.slash_notMem (slash_notMem_quotes Q hQ)
  have hstrip : strip_suffix (B ++ Q) = B := by
    rw [strip_suffix, first_suffix (first_quote Q hQ hbusd) rfl]
    · exact take_append B Q
    · intro e he
      exact (Bool.and_eq_true_iff.mp he).1
    · rw [endswith_append, Bool.true_and, decide_eq_true_eq, List.length_append]
      exact Nat.lt_add_of_pos_left (List.length_pos_iff.mpr h.nonempty)
  rw [((h.clean hupper).append (clean_quote Q hQ)).pyth hslash, hstrip, h.alias_lookup]

theorem twelvedata_plain (h : Clean B) (hQ : Q ∈ QUOTES) (hbusd : Q ≠ "BUSD".toList) :
    twelvedata_base (B ++ Q) = B := by
  rw [(h.append (clean_quote Q hQ)).twelvedata]
  exact strip_quote_first (first_quote Q hQ hbusd).quotes rfl

theorem db_plain (h : Ticker B) (hupper : upper B = B) (hQ : Q ∈ QUOTES)
    (hbusd : Q ≠ "BUSD".toList) : db_normalize_symbol (B ++ Q) = B := by
  rw [((h.clean hupper).append (clean_quote Q hQ)).db,
    strip_re_word (first_quote Q hQ hbusd).word h.alphanumeric, if_neg]
  rw [List.isEmpty_iff]
  exact h.nonempty

theorem mem_strip_words : ∀ w ∈ STRIP_WORDS, w ∈ QUOTES ∨ w ∈ ["PERP".toList, "SWAP".toList] := by
  decide

/-- The cache keys keep a ticker that is no longer than the contract word it ends in. -/
theorem db_bare_iff (h : Ticker B) (hupper : upper B = B) :
    db_normalize_symbol B = B ↔
      ∀ word ∈ ["PERP".toList, "SWAP".toList], endswith B word = true → B = word := by
  have hwords : ∀ word ∈ ["PERP".toList, "SWAP".toList], word ∈ STRIP_WORDS ∧ word ≠ [] := by
    decide
  rw [(h.clean hupper).db]
  constructor
  · intro hkey word hword hend
    obtain ⟨hstripped, hne⟩ := hwords word hword
    obtain ⟨x, rfl⟩ := endswith_iff.mp hend
    rw [strip_re_word hstripped fun c hc => h.alphanumeric c (List.mem_append_left word hc)] at hkey
    split_ifs at hkey with hempty
    · rw [List.isEmpty_iff.mp hempty, List.nil_append]
    · exact absurd (List.self_eq_append_right.mp hkey) hne
  · intro hcontract
    obtain ⟨e, heq, he⟩ := strip_re_parted B
    rcases he with rfl | hmatch
    · rw [List.append_nil] at heq
      rw [← heq, ite_self]
    · have halpha : ∀ c ∈ e, c.isAlphanum = true := by
        intro c hc
        apply h.alphanumeric
        rw [heq]
        exact List.mem_append_right _ hc
      have hend : endswith B e = true := endswith_iff.mpr ⟨strip_re B, heq.symm⟩
      rcases mem_strip_words e ((strip_match_iff halpha).mp hmatch) with hquote | hword
      · rw [h.unquoted e hquote] at hend
        cases hend
      · have hsame := hcontract e hword hend
        have hnil : strip_re B = [] := by
          apply List.append_left_eq_self.mp
          rw [← heq, hsame]
        rw [hnil, List.isEmpty_nil, if_pos rfl]

theorem mem_suffixes : ∀ e ∈ SUFFIXES, e ∈ QUOTES ∨ e = "PERP".toList := by decide

theorem bare_suffix (h : Ticker B)
    (hcontract : ∀ word ∈ ["PERP".toList, "SWAP".toList], endswith B word = true → B = word)
    {e : Text} (he : e ∈ SUFFIXES) (hend : endswith B e = true) :
    B = "PERP".toList ∧ e = "PERP".toList := by
  rcases mem_suffixes e he with hquote | rfl
  · rw [h.unquoted e hquote] at hend
    cases hend
  · exact ⟨hcontract _ List.mem_cons_self hend, rfl⟩

theorem bare (h : Ticker B) (hupper : upper B = B)
    (hcontract : ∀ word ∈ ["PERP".toList, "SWAP".toList], endswith B word = true → B = word) :
    ∀ normalise ∈ normalisers, normalise B = B := by
  have hclean := h.clean hupper
  have hpyth : normalize_base B = B := by
    have hstrip : strip_suffix B = B := by
      rw [strip_suffix, List.find?_eq_none.mpr]
      intro e he hcut
      rw [Bool.and_eq_true, decide_eq_true_eq] at hcut
      obtain ⟨hB, rfl⟩ := bare_suffix h hcontract he hcut.1
      rw [hB] at hcut
      exact lt_irrefl _ hcut.2
    rw [hclean.pyth h.slash_notMem, hstrip, h.alias_lookup]
  have htwelvedata : twelvedata_base B = B := by
    rw [hclean.twelvedata, strip_quote_none h.unquoted]
  have hcmc : cmc_normalize_symbol B = B := by
    by_cases hB : B = "PERP".toList
    · rw [hB]
      decide
    · rw [cmc_normalize_symbol, hclean.normalize, List.find?_eq_none.mpr]
      · exact ite_self B
      · intro e he hcut
        have hend := (Bool.or_eq_true_iff.mp hcut).elim endswith_tail id
        exact hB (bare_suffix h hcontract he hend).1
  have hdb := (db_bare_iff h hupper).mpr hcontract
  intro normalise hmem
  simp only [normalisers, List.mem_cons, List.not_mem_nil, or_false] at hmem
  rcases hmem with rfl | rfl | rfl | rfl
  · exact hpyth
  · exact htwelvedata
  · exact hcmc
  · exact hdb

theorem mem_normalisers : normalize_base ∈ normalisers ∧ twelvedata_base ∈ normalisers ∧
    cmc_normalize_symbol ∈ normalisers ∧ db_normalize_symbol ∈ normalisers := by
  simp [normalisers]

/-- The normalisers agree on the plain spelling of a ticker that is not ambiguous. -/
theorem normalisers_agree_iff (h : Ticker B) (hQ : Q ∈ QUOTES) (spelling : Spelling) :
    Agree B (spelling.symbol B Q) ↔ spelling = .plain ∧ Unambiguous B Q := by
  obtain ⟨hpyth, htwelvedata, hcmc, hdb⟩ := mem_normalisers
  constructor
  · intro hagree
    have hupper := upper_of_twelvedata (hagree.read _ htwelvedata)
    cases spelling with
    | slashed => exact absurd (hagree.read _ htwelvedata) (twelvedata_slashed h hQ)
    | listed exchange =>
        have hcolon : ':' ∈ db_normalize_symbol (exchange ++ ':' :: (B ++ Q)) :=
          colon_mem_db (List.mem_append_right exchange List.mem_cons_self)
        have hread := hagree.read _ hdb
        rw [Spelling.symbol] at hread
        rw [hread] at hcolon
        exact absurd hcolon h.colon_notMem
    | plain =>
        rw [Spelling.symbol] at hagree
        have hbusd : Q ≠ "BUSD".toList := by
          rintro rfl
          have hread := hagree.read _ htwelvedata
          rw [twelvedata_busd (h.clean hupper)] at hread
          exact List.cons_ne_nil _ _ (List.append_right_eq_self.mp hread)
        have hagain := hagree.again _ hdb
        rw [hagree.read _ hdb] at hagain
        exact ⟨rfl, {
          quote := hbusd
          uppercase := hupper
          once := (cmc_plain_iff h hupper hQ hbusd).mp (hagree.read _ hcmc)
          contract := (db_bare_iff h hupper).mp hagain }⟩
  · rintro ⟨rfl, hB⟩
    have hread : ∀ normalise ∈ normalisers, normalise (B ++ Q) = B := by
      intro normalise hmem
      simp only [normalisers, List.mem_cons, List.not_mem_nil, or_false] at hmem
      rcases hmem with rfl | rfl | rfl | rfl
      · exact pyth_plain h hB.uppercase hQ hB.quote
      · exact twelvedata_plain (h.clean hB.uppercase) hQ hB.quote
      · exact (cmc_plain_iff h hB.uppercase hQ hB.quote).mpr hB.once
      · exact db_plain h hB.uppercase hQ hB.quote
    refine ⟨hread, ?_⟩
    intro normalise hmem
    rw [Spelling.symbol, hread normalise hmem]
    exact bare h hB.uppercase hB.contract normalise hmem

theorem eth : Ticker "ETH".toList :=
  ⟨by decide, by simp [Char.isAlphanum], by decide, by decide⟩

theorem eth_agrees :
    Agree "ETH".toList "ETHUSDT".toList ∧ Unambiguous "ETH".toList "USDT".toList := by
  have hclear : Unambiguous "ETH".toList "USDT".toList := ⟨by decide, rfl, by decide, by decide⟩
  exact ⟨(normalisers_agree_iff eth (Q := "USDT".toList) (by decide) .plain).mpr ⟨rfl, hclear⟩,
    hclear⟩

/-- A pair against BUSD is cut at the USD it ends in. -/
theorem ethbusd_is_ethb : Ticker "ETH".toList ∧ "BUSD".toList ∈ QUOTES ∧
    Spelling.plain.symbol "ETH".toList "BUSD".toList = "ETHBUSD".toList ∧
    normalisers.map (· "ETHBUSD".toList) = List.replicate 4 "ETHB".toList ∧
    ¬ Agree "ETH".toList "ETHBUSD".toList := by
  refine ⟨eth, by decide, rfl, by decide, ?_⟩
  intro hagree
  have hread := hagree.read _ mem_normalisers.2.2.2
  revert hread
  decide

end ArticTrader.SymbolNormalisers
