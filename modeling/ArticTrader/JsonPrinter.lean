import Mathlib.Tactic.IntervalCases
import ArticTrader.JsonGrammar

/-!
Printed JSON texts. A printer says which codes it leaves as they are and what blanks it
puts behind its marks. Whatever it says, its texts are read back, but for surrogates that
stand apart in a string and are read as a pair.
-/

namespace ArticTrader.JsonPrinter

open ArticTrader.JsonTexts
open ArticTrader.JsonGrammar

structure Printer where
  plain : ℕ → Bool
  item_gap : Chars
  key_gap : Chars
  plain_valid : ∀ code, plain code = true → 32 ≤ code ∧ code.isValidChar
  item_blank : Blank item_gap
  key_blank : Blank key_gap

def hex_char (n : ℕ) : Char := if n < 10 then Char.ofNat (n + 48) else Char.ofNat (n + 87)

/-- The escape of one UTF-16 unit. -/
def unit (code : ℕ) : Chars :=
  ['\\', 'u', hex_char (code / 4096), hex_char (code / 256 % 16), hex_char (code / 16 % 16),
    hex_char (code % 16)]

def short (code : ℕ) : Option Char :=
  ([(34, '"'), (92, '\\'), (8, 'b'), (12, 'f'), (10, 'n'), (13, 'r'), (9, 't')] :
    List (ℕ × Char)).lookup code

def high_surrogate (code : ℕ) : ℕ := 0xd800 + (code - 0x10000) / 1024

def low_surrogate (code : ℕ) : ℕ := 0xdc00 + (code - 0x10000) % 1024

namespace Printer

def code (p : Printer) (code : ℕ) : Chars :=
  match short code with
  | some c => ['\\', c]
  | none =>
      if p.plain code then [Char.ofNat code]
      else if code < 0x10000 then unit code
      else unit (high_surrogate code) ++ unit (low_surrogate code)

def body (p : Printer) (codes : List ℕ) : Chars := codes.flatMap p.code

mutual

def value (p : Printer) : Json → Chars
  | .null => "null".toList
  | .bool true => "true".toList
  | .bool false => "false".toList
  | .number text => text
  | .string codes => '"' :: (p.body codes ++ ['"'])
  | .array vs => '[' :: p.items vs
  | .object ms => '{' :: p.members ms

def items (p : Printer) : List Json → Chars
  | [] => [']']
  | v :: vs => p.value v ++ p.more_items vs

def more_items (p : Printer) : List Json → Chars
  | [] => [']']
  | v :: vs => ',' :: (p.item_gap ++ (p.value v ++ p.more_items vs))

def members (p : Printer) : List (List ℕ × Json) → Chars
  | [] => ['}']
  | (name, v) :: ms =>
      '"' :: (p.body name ++ '"' :: ':' :: (p.key_gap ++ (p.value v ++ p.more_members ms)))

def more_members (p : Printer) : List (List ℕ × Json) → Chars
  | [] => ['}']
  | (name, v) :: ms =>
      ',' :: (p.item_gap ++
        '"' :: (p.body name ++ '"' :: ':' :: (p.key_gap ++ (p.value v ++ p.more_members ms))))

end

end Printer

mutual

/-- What a printed value is read as. -/
def joined : Json → Json
  | .string codes => .string (join_surrogates codes)
  | .array vs => .array (joined_items vs)
  | .object ms => .object (joined_members ms)
  | .null => .null
  | .bool b => .bool b
  | .number text => .number text

def joined_items : List Json → List Json
  | [] => []
  | v :: vs => joined v :: joined_items vs

def joined_members : List (List ℕ × Json) → List (List ℕ × Json)
  | [] => []
  | (name, v) :: ms => (join_surrogates name, joined v) :: joined_members ms

end

structure Numeral (lenient : Bool) (text : Chars) : Prop where
  ne_nil : text ≠ []
  wordchars : ∀ c ∈ text, wordchar c = true
  scalar_eq : scalar lenient text = some (.number text)

/-- The codes of a string are below the end of Unicode. -/
def Codes (codes : List ℕ) : Prop := ∀ code ∈ codes, code < 0x110000

mutual

def Printable (lenient : Bool) : Json → Prop
  | .number text => Numeral lenient text
  | .string codes => Codes codes
  | .array vs => ItemsPrintable lenient vs
  | .object ms => MembersPrintable lenient ms
  | .null => True
  | .bool _ => True

def ItemsPrintable (lenient : Bool) : List Json → Prop
  | [] => True
  | v :: vs => Printable lenient v ∧ ItemsPrintable lenient vs

def MembersPrintable (lenient : Bool) : List (List ℕ × Json) → Prop
  | [] => True
  | (name, v) :: ms => Codes name ∧ Printable lenient v ∧ MembersPrintable lenient ms

end

theorem hexdigit_hex_char : ∀ n < 16, hexdigit (hex_char n) = some n := by decide

theorem hex_char_plain : ∀ n < 16, hex_char n ≠ '"' ∧ hex_char n ≠ '\\' := by decide

theorem units_plain {c : Char} (hslash : c ≠ '\\') (hle : 32 ≤ c.toNat) (t : Chars) :
    units (c :: t) = (units t).map (c.toNat :: ·) := by
  rw [units.eq_def]
  split
  · cases ‹_ = []›
  · exact absurd (List.cons.inj ‹_›).1 hslash
  · exact absurd (List.cons.inj ‹_›).1 hslash
  · cases ‹_ = _ :: _›
    exact if_neg (not_lt.mpr hle)

theorem units_unit {code : ℕ} (h : code < 0x10000) (t : Chars) :
    units (unit code ++ t) = (units t).map (code :: ·) := by
  have hcode : hex4 (hex_char (code / 4096)) (hex_char (code / 256 % 16))
      (hex_char (code / 16 % 16)) (hex_char (code % 16)) = some code := by
    unfold hex4
    rw [hexdigit_hex_char _ (by omega), hexdigit_hex_char _ (by omega),
      hexdigit_hex_char _ (by omega), hexdigit_hex_char _ (by omega)]
    simp only [Option.bind_eq_bind, Option.bind_some, Option.pure_def, Option.some.injEq]
    omega
  simp only [unit, List.cons_append, List.nil_append]
  rw [units, hcode]
  cases units t <;> rfl

theorem short_mem {code : ℕ} {c : Char} (h : short code = some c) :
    (code, c) ∈ [(34, '"'), (92, '\\'), (8, 'b'), (12, 'f'), (10, 'n'), (13, 'r'), (9, 't')] := by
  obtain ⟨before, after, heq, -⟩ := List.lookup_eq_some_iff.mp h
  rw [heq]
  exact List.mem_append_right _ List.mem_cons_self

theorem escape_short {code : ℕ} {c : Char} (h : short code = some c) :
    escape c = some code ∧ c ≠ 'u' ∧ 32 ≤ c.toNat ∧ c.toNat < 127 := by
  have hmem := short_mem h
  simp only [List.mem_cons, Prod.mk.injEq, List.not_mem_nil, or_false] at hmem
  rcases hmem with ⟨rfl, rfl⟩ | ⟨rfl, rfl⟩ | ⟨rfl, rfl⟩ | ⟨rfl, rfl⟩ | ⟨rfl, rfl⟩ | ⟨rfl, rfl⟩ |
    ⟨rfl, rfl⟩
  all_goals decide

theorem units_short {code : ℕ} {c : Char} (h : short code = some c) (t : Chars) :
    units ('\\' :: c :: t) = (units t).map (code :: ·) := by
  obtain ⟨hescape, hu, -⟩ := escape_short h
  rw [units.eq_def]
  split
  · cases ‹_ = []›
  · cases ‹_ = _ :: _›
    exact absurd rfl hu
  · cases ‹_ = _ :: _›
    rw [hescape]
    cases units t <;> rfl
  · cases ‹_ = _ :: _›
    rename_i hno
    exact absurd rfl (hno c t rfl)

/-- The units that the printed text of a code is read as. -/
def Printer.units (p : Printer) (code : ℕ) : List ℕ :=
  if p.plain code ∨ code < 0x10000 then [code] else [high_surrogate code, low_surrogate code]

section Strings

variable (p : Printer)

theorem toNat_plain {code : ℕ} (h : p.plain code = true) : (Char.ofNat code).toNat = code := by
  rw [Char.ofNat, dif_pos (p.plain_valid code h).2]
  rfl

theorem plain_unquoted {code : ℕ} (hplain : p.plain code = true) (hshort : short code = none) :
    Char.ofNat code ≠ '"' ∧ Char.ofNat code ≠ '\\' := by
  constructor
  all_goals
    intro heq
    have hcode := toNat_plain p hplain
    rw [heq] at hcode
    rw [← hcode] at hshort
    revert hshort
    decide

theorem units_code {code : ℕ} (h : code < 0x110000) (t : Chars) :
    units (p.code code ++ t) = (units t).map (p.units code ++ ·) := by
  unfold Printer.code Printer.units
  cases hshort : short code with
  | some c =>
      have hlt : code < 0x10000 := by
        have hmem := short_mem hshort
        simp only [List.mem_cons, Prod.mk.injEq, List.not_mem_nil, or_false] at hmem
        omega
      rw [if_pos (Or.inr hlt : p.plain code = true ∨ code < 0x10000)]
      exact units_short hshort t
  | none =>
      dsimp only
      by_cases hplain : p.plain code = true
      · rw [if_pos hplain, if_pos (.inl hplain)]
        have hne := (plain_unquoted p hplain hshort).2
        have hle := (p.plain_valid code hplain).1
        rw [← toNat_plain p hplain] at hle
        have hread := units_plain hne hle t
        rwa [toNat_plain p hplain] at hread
      · by_cases hlt : code < 0x10000
        · rw [if_neg hplain, if_pos hlt, if_pos (.inr hlt)]
          exact units_unit hlt t
        · rw [if_neg hplain, if_neg hlt, if_neg (not_or.mpr ⟨hplain, hlt⟩), List.append_assoc,
            units_unit (by unfold high_surrogate; omega),
            units_unit (by unfold low_surrogate; omega), Option.map_map]
          rfl

theorem units_body {codes : List ℕ} (h : Codes codes) :
    units (p.body codes) = some (codes.flatMap p.units) := by
  induction codes with
  | nil => rfl
  | cons code codes ih =>
      rw [Printer.body, List.flatMap_cons, units_code p (h code List.mem_cons_self)]
      have hcodes := ih fun c hc => h c (List.mem_cons_of_mem _ hc)
      rw [Printer.body] at hcodes
      rw [hcodes, List.flatMap_cons]
      rfl

/-- The two codes are read as one. -/
def IsPair (high low : ℕ) : Prop :=
  0xd800 ≤ high ∧ high ≤ 0xdbff ∧ 0xdc00 ≤ low ∧ low ≤ 0xdfff

theorem join_cons {code : ℕ} {codes : List ℕ} (h : ∀ low ∈ codes.head?, ¬ IsPair code low) :
    join_surrogates (code :: codes) = code :: join_surrogates codes := by
  cases codes with
  | nil => rfl
  | cons low codes =>
      rw [join_surrogates]
      exact if_neg (h low rfl)

theorem join_units {code : ℕ} (hle : 0x10000 ≤ code) (hlt : code < 0x110000) (codes : List ℕ) :
    join_surrogates (high_surrogate code :: low_surrogate code :: codes) =
      code :: join_surrogates codes := by
  have hcode : 0x10000 + (high_surrogate code - 0xd800) * 1024 + (low_surrogate code - 0xdc00) =
      code := by
    unfold high_surrogate low_surrogate
    omega
  rw [join_surrogates, if_pos (by unfold high_surrogate low_surrogate; omega), hcode]

theorem units_of_lt {code : ℕ} (h : code < 0x10000) : p.units code = [code] := if_pos (.inr h)

/-- The units of a code are the code, or those of a pair that it is read from. -/
theorem units_cases (code : ℕ) :
    p.units code = [code] ∨
      0x10000 ≤ code ∧ p.units code = [high_surrogate code, low_surrogate code] := by
  unfold Printer.units
  split_ifs with h
  · exact .inl rfl
  · exact .inr ⟨not_lt.mp (not_or.mp h).2, rfl⟩

theorem head_units_not_low {code high : ℕ} (hpair : ¬ IsPair high code) (codes : List ℕ)
    (hlt : code < 0x110000) : ∀ low ∈ (p.units code ++ codes).head?, ¬ IsPair high low := by
  intro low hlow
  rcases units_cases p code with heq | ⟨-, heq⟩
  · rw [heq] at hlow
    cases hlow
    exact hpair
  · rw [heq] at hlow
    cases hlow
    unfold IsPair high_surrogate
    omega

/-- Escaping a code as a pair does not change what is read. -/
theorem join_units_body {codes : List ℕ} (h : Codes codes) :
    join_surrogates (codes.flatMap p.units) = join_surrogates codes := by
  induction codes using join_surrogates.induct with
  | case1 high low codes hpair ih =>
      rw [List.flatMap_cons, List.flatMap_cons, units_of_lt p (by omega),
        units_of_lt p (by omega)]
      have htail := ih fun c hc => h c (List.mem_cons_of_mem _ (List.mem_cons_of_mem _ hc))
      simp only [List.cons_append, List.nil_append]
      rw [join_surrogates, join_surrogates, if_pos hpair, if_pos hpair, htail]
  | case2 high low codes hpair ih =>
      have htail := ih fun c hc => h c (List.mem_cons_of_mem _ hc)
      have hhigh := h high List.mem_cons_self
      have hlow := h low (List.mem_cons_of_mem _ List.mem_cons_self)
      rw [List.flatMap_cons, join_surrogates, if_neg hpair, ← htail]
      rcases units_cases p high with heq | ⟨hle, heq⟩
      · rw [heq]
        apply join_cons
        rw [List.flatMap_cons]
        exact head_units_not_low p hpair _ hlow
      · rw [heq]
        exact join_units hle hhigh _
  | case3 codes hcodes =>
      rcases codes with - | ⟨code, - | ⟨low, codes⟩⟩
      · rfl
      · rw [List.flatMap_singleton]
        rcases units_cases p code with heq | ⟨hle, heq⟩
        · rw [heq]
        · rw [heq, join_units hle (h code List.mem_cons_self)]
          rfl
      · exact (hcodes code low codes rfl).elim

theorem decode_body {codes : List ℕ} (h : Codes codes) :
    decode (p.body codes) = some (join_surrogates codes) := by
  rw [decode, units_body p h, Option.map_some, join_units_body p h]

theorem unquoted_cons {c : Char} {t : Chars} (hquote : c ≠ '"') (hslash : c ≠ '\\')
    (ht : Unquoted false t) : Unquoted false (c :: t) := by
  refine ⟨hquote, ?_⟩
  rwa [decide_eq_false hslash]

theorem unquoted_unit {code : ℕ} (hlt : code < 0x10000) {t : Chars} (ht : Unquoted false t) :
    Unquoted false (unit code ++ t) := by
  have hhex : ∀ n < 16, ∀ {r : Chars}, Unquoted false r → Unquoted false (hex_char n :: r) :=
    fun n hn r hr => unquoted_cons (hex_char_plain n hn).1 (hex_char_plain n hn).2 hr
  refine ⟨by decide, ?_⟩
  exact hhex _ (by omega) (hhex _ (by omega) (hhex _ (by omega) (hhex _ (by omega) ht)))

theorem unquoted_code {code : ℕ} (h : code < 0x110000) {t : Chars} (ht : Unquoted false t) :
    Unquoted false (p.code code ++ t) := by
  unfold Printer.code
  cases hshort : short code with
  | some c => exact ⟨by decide, ht⟩
  | none =>
      dsimp only
      by_cases hplain : p.plain code = true
      · rw [if_pos hplain]
        obtain ⟨hquote, hslash⟩ := plain_unquoted p hplain hshort
        exact unquoted_cons hquote hslash ht
      · rw [if_neg hplain]
        by_cases hlt : code < 0x10000
        · rw [if_pos hlt]
          exact unquoted_unit hlt ht
        · rw [if_neg hlt, List.append_assoc]
          exact unquoted_unit (by unfold high_surrogate; omega)
            (unquoted_unit (by unfold low_surrogate; omega) ht)

theorem unquoted_body {codes : List ℕ} (h : Codes codes) : Unquoted false (p.body codes) := by
  induction codes with
  | nil => rfl
  | cons code codes ih =>
      rw [Printer.body, List.flatMap_cons]
      exact unquoted_code p (h code List.mem_cons_self)
        (ih fun c hc => h c (List.mem_cons_of_mem _ hc))

end Strings

section Values

variable {lenient : Bool} (p : Printer)

theorem more_items_cons (v : Json) (vs : List Json) :
    p.more_items (v :: vs) = ',' :: (p.item_gap ++ p.items (v :: vs)) := by
  rw [Printer.more_items, Printer.items]

theorem more_members_cons (m : List ℕ × Json) (ms : List (List ℕ × Json)) :
    p.more_members (m :: ms) = ',' :: (p.item_gap ++ p.members (m :: ms)) := by
  rw [Printer.more_members, Printer.members]

theorem blank_nil : Blank [] := fun _ h => absurd h List.not_mem_nil

mutual

/-- What is printed is spelled. -/
theorem spells_value : ∀ {v : Json}, Printable lenient v →
    Spells lenient (.value (joined v)) (p.value v)
  | .null, _ => .scalar (by simp [Printer.value]) (List.all_eq_true.mp (by rw [Printer.value]; decide)) rfl
  | .bool true, _ => .scalar (by simp [Printer.value]) (List.all_eq_true.mp (by rw [Printer.value]; decide)) rfl
  | .bool false, _ => .scalar (by simp [Printer.value]) (List.all_eq_true.mp (by rw [Printer.value]; decide)) rfl
  | .number text, h => .scalar h.ne_nil h.wordchars h.scalar_eq
  | .string codes, h => .string (unquoted_body p h) (decode_body p h)
  | .array [], _ => .empty_array blank_nil
  | .array (v :: vs), h =>
      have hitems : Spells lenient _ (p.items (v :: vs)) := spells_items h (List.cons_ne_nil _ _)
      .array (w := []) blank_nil hitems
  | .object [], _ => .empty_object blank_nil
  | .object (m :: ms), h =>
      have hmembers : Spells lenient _ (p.members (m :: ms)) :=
        spells_members h (List.cons_ne_nil _ _)
      .object (w := []) blank_nil hmembers

theorem spells_items : ∀ {vs : List Json}, ItemsPrintable lenient vs → vs ≠ [] →
    Spells lenient (.items (joined_items vs)) (p.items vs)
  | [], _, hne => absurd rfl hne
  | [v], h, _ => .last_item blank_nil (spells_value h.1)
  | v :: v' :: vs, h, _ => by
      rw [Printer.items, more_items_cons]
      exact .item blank_nil p.item_blank (spells_value h.1)
        (spells_items h.2 (List.cons_ne_nil _ _))

theorem spells_members : ∀ {ms : List (List ℕ × Json)}, MembersPrintable lenient ms → ms ≠ [] →
    Spells lenient (.members (joined_members ms)) (p.members ms)
  | [], _, hne => absurd rfl hne
  | [(name, v)], h, _ =>
      .last_member (unquoted_body p h.1) (decode_body p h.1) blank_nil p.key_blank blank_nil
        (spells_value h.2.1)
  | (name, v) :: m :: ms, h, _ => by
      rw [Printer.members, more_members_cons]
      exact .member (unquoted_body p h.1) (decode_body p h.1) blank_nil p.key_blank blank_nil
        p.item_blank (spells_value h.2.1) (spells_members h.2.2 (List.cons_ne_nil _ _))

end

/-- What is printed is read back. -/
theorem loads_value {v : Json} (h : Printable lenient v) :
    loads lenient (p.value v) = some (joined v) :=
  loads_iff.mpr
    ⟨[], p.value v, [], (List.append_nil _).symm, blank_nil, spells_value p h, blank_nil⟩

/-- What holds of every character that a printer can write holds of its texts. -/
structure Printer.Admits (p : Printer) (Q : Char → Prop) : Prop where
  marks : ∀ c : Char, 32 ≤ c.toNat → c.toNat < 127 → Q c
  plain : ∀ code, p.plain code = true → Q (Char.ofNat code)
  item_gap : ∀ c ∈ p.item_gap, Q c
  key_gap : ∀ c ∈ p.key_gap, Q c

variable {p : Printer} {Q : Char → Prop}

theorem forall_unit (hQ : p.Admits Q) {code : ℕ} (h : code < 0x10000) : ∀ c ∈ unit code, Q c := by
  have hhex : ∀ n < 16, 32 ≤ (hex_char n).toNat ∧ (hex_char n).toNat < 127 := by decide
  have hchar : ∀ n < 16, Q (hex_char n) := fun n hn => hQ.marks _ (hhex n hn).1 (hhex n hn).2
  simp only [unit, List.forall_mem_cons, List.not_mem_nil, false_implies, implies_true, and_true]
  exact ⟨hQ.marks _ (by decide) (by decide), hQ.marks _ (by decide) (by decide),
    hchar _ (by omega), hchar _ (by omega), hchar _ (by omega), hchar _ (by omega)⟩

theorem forall_code (hQ : p.Admits Q) {code : ℕ} (h : code < 0x110000) :
    ∀ c ∈ p.code code, Q c := by
  unfold Printer.code
  cases hshort : short code with
  | some d =>
      obtain ⟨-, -, hle, hlt⟩ := escape_short hshort
      simp only [List.forall_mem_cons, List.not_mem_nil, false_implies, implies_true, and_true]
      exact ⟨hQ.marks _ (by decide) (by decide), hQ.marks d hle hlt⟩
  | none =>
      dsimp only
      by_cases hplain : p.plain code = true
      · rw [if_pos hplain, List.forall_mem_singleton]
        exact hQ.plain code hplain
      · rw [if_neg hplain]
        by_cases hlt : code < 0x10000
        · rw [if_pos hlt]
          exact forall_unit hQ hlt
        · rw [if_neg hlt, List.forall_mem_append]
          exact ⟨forall_unit hQ (by unfold high_surrogate; omega),
            forall_unit hQ (by unfold low_surrogate; omega)⟩

theorem forall_body (hQ : p.Admits Q) {codes : List ℕ} (h : Codes codes) :
    ∀ c ∈ p.body codes, Q c := by
  intro c hc
  obtain ⟨code, hcode, hmem⟩ := List.mem_flatMap.mp hc
  exact forall_code hQ (h code hcode) c hmem

theorem wordchar_range {c : Char} (h : wordchar c = true) : 32 ≤ c.toNat ∧ c.toNat < 127 := by
  simp only [wordchar, digit, Bool.or_eq_true, Bool.and_eq_true, decide_eq_true_eq] at h
  rcases h with ((((h | h) | h) | rfl) | rfl) | rfl
  · exact ⟨le_trans (by decide) h.1, lt_of_le_of_lt h.2 (by decide)⟩
  · exact ⟨le_trans (by decide) h.1, lt_of_le_of_lt h.2 (by decide)⟩
  · exact ⟨le_trans (by decide) h.1, lt_of_le_of_lt h.2 (by decide)⟩
  all_goals decide

theorem forall_word (hQ : p.Admits Q) {word : Chars} (h : ∀ c ∈ word, wordchar c = true) :
    ∀ c ∈ word, Q c := by
  intro c hc
  have hrange := wordchar_range (h c hc)
  exact hQ.marks c hrange.1 hrange.2

theorem forall_key (hQ : p.Admits Q) {name : List ℕ} (h : Codes name) {t : Chars}
    (ht : ∀ c ∈ t, Q c) : ∀ c ∈ '"' :: (p.body name ++ '"' :: ':' :: (p.key_gap ++ t)), Q c := by
  have hmark : ∀ d : Char, 32 ≤ d.toNat ∧ d.toNat < 127 → Q d := fun d hd => hQ.marks d hd.1 hd.2
  simp only [List.forall_mem_cons, List.forall_mem_append]
  exact ⟨hmark _ (by decide), forall_body hQ h, hmark _ (by decide), hmark _ (by decide),
    hQ.key_gap, ht⟩

mutual

theorem forall_value (hQ : p.Admits Q) : ∀ {v : Json}, Printable lenient v →
    ∀ c ∈ p.value v, Q c
  | .null, _ => forall_word hQ (List.all_eq_true.mp (by rw [Printer.value]; decide))
  | .bool true, _ => forall_word hQ (List.all_eq_true.mp (by rw [Printer.value]; decide))
  | .bool false, _ => forall_word hQ (List.all_eq_true.mp (by rw [Printer.value]; decide))
  | .number text, h => forall_word hQ h.wordchars
  | .string codes, h => by
      simp only [Printer.value, List.forall_mem_cons, List.forall_mem_append, List.not_mem_nil,
        false_implies, implies_true, and_true]
      exact ⟨hQ.marks _ (by decide) (by decide), forall_body hQ h,
        hQ.marks _ (by decide) (by decide)⟩
  | .array vs, h => by
      rw [Printer.value, List.forall_mem_cons]
      exact ⟨hQ.marks _ (by decide) (by decide), forall_items hQ h⟩
  | .object ms, h => by
      rw [Printer.value, List.forall_mem_cons]
      exact ⟨hQ.marks _ (by decide) (by decide), forall_members hQ h⟩

theorem forall_items (hQ : p.Admits Q) : ∀ {vs : List Json}, ItemsPrintable lenient vs →
    ∀ c ∈ p.items vs, Q c
  | [], _ => by
      rw [Printer.items, List.forall_mem_singleton]
      exact hQ.marks _ (by decide) (by decide)
  | v :: vs, h => by
      rw [Printer.items, List.forall_mem_append]
      exact ⟨forall_value hQ h.1, forall_more_items hQ h.2⟩

theorem forall_more_items (hQ : p.Admits Q) : ∀ {vs : List Json}, ItemsPrintable lenient vs →
    ∀ c ∈ p.more_items vs, Q c
  | [], _ => by
      rw [Printer.more_items, List.forall_mem_singleton]
      exact hQ.marks _ (by decide) (by decide)
  | v :: vs, h => by
      rw [Printer.more_items, List.forall_mem_cons, List.forall_mem_append, List.forall_mem_append]
      exact ⟨hQ.marks _ (by decide) (by decide), hQ.item_gap, forall_value hQ h.1,
        forall_more_items hQ h.2⟩

theorem forall_members (hQ : p.Admits Q) : ∀ {ms : List (List ℕ × Json)},
    MembersPrintable lenient ms → ∀ c ∈ p.members ms, Q c
  | [], _ => by
      rw [Printer.members, List.forall_mem_singleton]
      exact hQ.marks _ (by decide) (by decide)
  | (name, v) :: ms, h => by
      rw [Printer.members]
      apply forall_key hQ h.1
      rw [List.forall_mem_append]
      exact ⟨forall_value hQ h.2.1, forall_more_members hQ h.2.2⟩

theorem forall_more_members (hQ : p.Admits Q) : ∀ {ms : List (List ℕ × Json)},
    MembersPrintable lenient ms → ∀ c ∈ p.more_members ms, Q c
  | [], _ => by
      rw [Printer.more_members, List.forall_mem_singleton]
      exact hQ.marks _ (by decide) (by decide)
  | (name, v) :: ms, h => by
      rw [Printer.more_members, List.forall_mem_cons, List.forall_mem_append]
      refine ⟨hQ.marks _ (by decide) (by decide), hQ.item_gap, ?_⟩
      apply forall_key hQ h.1
      rw [List.forall_mem_append]
      exact ⟨forall_value hQ h.2.1, forall_more_members hQ h.2.2⟩

end

end Values

section Numerals

/-- `str(n)`. -/
def int_text (n : ℤ) : Chars :=
  if n < 0 then '-' :: Nat.toDigits 10 n.natAbs else Nat.toDigits 10 n.natAbs

theorem digit_of_mem {n : ℕ} {c : Char} (h : c ∈ Nat.toDigits 10 n) : digit c = true := by
  have hdigit := Nat.isDigit_of_mem_toDigits (by decide) (by decide) h
  simp only [Char.isDigit, Bool.and_eq_true, decide_eq_true_eq] at hdigit
  simp only [digit, Bool.and_eq_true, decide_eq_true_eq]
  exact hdigit

theorem wordchar_of_digit {c : Char} (h : digit c = true) : wordchar c = true := by
  simp [wordchar, h]

theorem head_toDigits {n : ℕ} (h : 0 < n) : (Nat.toDigits 10 n).head? ≠ some '0' := by
  induction n using Nat.strong_induction_on with
  | _ n ih =>
      by_cases hlt : n < 10
      · rw [Nat.toDigits_of_lt_base hlt]
        interval_cases n <;> decide
      · rw [Nat.toDigits_of_base_le (by decide) (not_lt.mp hlt), List.head?_append_of_ne_nil _
          Nat.toDigits_ne_nil]
        exact ih (n / 10) (by omega) (by omega)

theorem number_toDigits (n : ℕ) : number (Nat.toDigits 10 n) = true ∧
    number ('-' :: Nat.toDigits 10 n) = true := by
  obtain ⟨d, t, heq⟩ := List.exists_cons_of_ne_nil (Nat.toDigits_ne_nil (n := n) (b := 10))
  have hdigits : ∀ c ∈ d :: t, digit c = true := fun c hc => digit_of_mem (heq ▸ hc)
  have hd : d ≠ '-' := by
    rintro rfl
    exact absurd (hdigits _ List.mem_cons_self) (by decide)
  have hrest : t.dropWhile digit = [] :=
    List.dropWhile_eq_nil_iff.mpr fun c hc => hdigits c (List.mem_cons_of_mem _ hc)
  have hsign : number ('-' :: d :: t) = number (d :: t) := by
    unfold number
    rw [expect_cons_of_ne hd]
    rfl
  have hbody : number (d :: t) = true := by
    unfold number
    simp only [expect_cons_of_ne hd, Option.getD_none]
    by_cases hzero : d = '0'
    · rcases Nat.eq_zero_or_pos n with rfl | hpos
      · cases heq
        rfl
      · exact absurd (by rw [heq, hzero]; rfl) (head_toDigits hpos)
    · rw [expect_cons_of_ne hzero]
      simp only [digits, hdigits d List.mem_cons_self, if_true, hrest]
      rfl
  rw [heq]
  exact ⟨hbody, hsign.trans hbody⟩

theorem int_text_wordchar (n : ℤ) : ∀ c ∈ int_text n, wordchar c = true := by
  intro c hc
  unfold int_text at hc
  split_ifs at hc
  · rcases List.mem_cons.mp hc with rfl | hc
    · decide
    · exact wordchar_of_digit (digit_of_mem hc)
  · exact wordchar_of_digit (digit_of_mem hc)

theorem int_text_ne_nil (n : ℤ) : int_text n ≠ [] := by
  unfold int_text
  split_ifs
  · exact List.cons_ne_nil _ _
  · exact Nat.toDigits_ne_nil

theorem number_int_text (n : ℤ) : number (int_text n) = true := by
  unfold int_text
  split_ifs
  · exact (number_toDigits _).2
  · exact (number_toDigits _).1

theorem numeral_int_text (lenient : Bool) (n : ℤ) : Numeral lenient (int_text n) where
  ne_nil := int_text_ne_nil n
  wordchars := int_text_wordchar n
  scalar_eq := by
    have hnumber := number_int_text n
    have hword : ∀ word : Chars, number word = false → int_text n ≠ word := by
      rintro word hword rfl
      rw [hnumber] at hword
      cases hword
    rw [scalar, if_neg (hword _ (by decide)), if_neg (hword _ (by decide)),
      if_neg (hword _ (by decide)), if_pos hnumber]

theorem int_text_injective : Function.Injective int_text := by
  intro m n h
  have hread : ∀ k l : ℕ, Nat.toDigits 10 k = Nat.toDigits 10 l → k = l := by
    intro k l heq
    rw [← Nat.ofDigitChars_ten_toDigits (n := k), heq, Nat.ofDigitChars_ten_toDigits]
  have hsign : ∀ k l : ℕ, Nat.toDigits 10 k ≠ '-' :: Nat.toDigits 10 l := by
    intro k l heq
    have hmem : '-' ∈ Nat.toDigits 10 k := heq ▸ List.mem_cons_self
    exact absurd (digit_of_mem hmem) (by decide)
  unfold int_text at h
  split_ifs at h with hm hn hn
  · have := hread _ _ (List.cons.inj h).2
    omega
  · exact absurd h.symm (hsign _ _)
  · exact absurd h (hsign _ _)
  · have := hread _ _ h
    omega

end Numerals

theorem blank_space : Blank [' '] := List.forall_mem_singleton.mpr rfl

/-- Printable ASCII. -/
def ascii_plain (code : ℕ) : Bool := 32 ≤ code && code < 127

theorem ascii_plain_valid (code : ℕ) (h : ascii_plain code = true) :
    32 ≤ code ∧ code.isValidChar := by
  simp only [ascii_plain, Bool.and_eq_true, decide_eq_true_eq] at h
  exact ⟨h.1, .inl (by omega)⟩

/-- `json.dumps` with the separators of a compact text. -/
def dumps_compact : Printer :=
  ⟨ascii_plain, [], [], ascii_plain_valid, blank_nil, blank_nil⟩

/-- `json.dumps` with the separators that it has by default. -/
def dumps : Printer :=
  ⟨ascii_plain, [' '], [' '], ascii_plain_valid, blank_space, blank_space⟩

/-- All but control codes and surrogates. -/
def text_plain (code : ℕ) : Bool :=
  32 ≤ code && (code < 0xd800 || (0xdfff < code && code < 0x110000))

theorem text_plain_valid (code : ℕ) (h : text_plain code = true) :
    32 ≤ code ∧ code.isValidChar := by
  simp only [text_plain, Bool.and_eq_true, Bool.or_eq_true, decide_eq_true_eq] at h
  exact ⟨h.1, h.2⟩

/-- `JSON.stringify`. -/
def stringify : Printer :=
  ⟨text_plain, [], [], text_plain_valid, blank_nil, blank_nil⟩

/-- The codes of a text have no surrogates. -/
theorem join_code_points (t : Chars) : join_surrogates (code_points t) = code_points t := by
  induction t with
  | nil => rfl
  | cons c t ih =>
      rw [code_points, List.map_cons, join_cons, ← code_points, ih]
      intro low _ hpair
      rcases c.valid with hlt | ⟨hlt, -⟩
      · have hcode : c.toNat < 0xd800 := hlt
        exact absurd hpair.1 (not_le.mpr hcode)
      · have hcode : 0xdfff < c.toNat := hlt
        have := hpair.2.1
        omega

theorem codes_code_points (t : Chars) : Codes (code_points t) := by
  intro code hcode
  obtain ⟨c, -, rfl⟩ := List.mem_map.mp hcode
  rcases c.valid with hlt | ⟨-, hlt⟩
  · have hcode : c.toNat < 0xd800 := hlt
    omega
  · exact hlt

theorem code_points_injective : Function.Injective code_points :=
  List.map_injective_iff.mpr fun _ _ h => Char.toNat_inj.mp h

end ArticTrader.JsonPrinter
