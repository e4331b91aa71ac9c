import Mathlib.Data.List.Infix
import Mathlib.Tactic.Linarith
import ArticTrader.JsonTexts

/-!
The grammar of JSON texts, which the parser decides: what it reads is spelled, and what
is spelled it reads. The text of an object ends by itself, and has no place for the text
of the same object within it.
-/

namespace ArticTrader.JsonGrammar

open ArticTrader.JsonTexts

/-- A string's text: no quotation mark in it stands for itself, and none is escaped at
its end. The flag says that the first character is escaped. -/
def Unquoted : Bool → Chars → Prop
  | e, [] => e = false
  | true, _ :: b => Unquoted false b
  | false, c :: b => c ≠ '"' ∧ Unquoted (c = '\\') b

def Blank (w : Chars) : Prop := ∀ c ∈ w, whitespace c = true

/-- What a text can spell: a value, or what stands between a bracket and its match, with
the match. -/
inductive Node where
  | value (v : Json)
  | members (ms : List (List ℕ × Json))
  | items (vs : List Json)

/-- A member of an object from its first quotation mark on. -/
def member_text (body w₁ w₂ c w₃ tail : Chars) : Chars :=
  '"' :: (body ++ '"' :: (w₁ ++ ':' :: (w₂ ++ (c ++ (w₃ ++ tail)))))

inductive Spells (lenient : Bool) : Node → Chars → Prop where
  | scalar {word : Chars} {v : Json} (hne : word ≠ []) (hword : ∀ c ∈ word, wordchar c = true)
      (h : scalar lenient word = some v) : Spells lenient (.value v) word
  | string {body : Chars} {codes : List ℕ} (hbody : Unquoted false body)
      (h : decode body = some codes) :
      Spells lenient (.value (.string codes)) ('"' :: (body ++ ['"']))
  | empty_object {w : Chars} (hw : Blank w) :
      Spells lenient (.value (.object [])) ('{' :: (w ++ ['}']))
  | object {w c : Chars} {ms : List (List ℕ × Json)} (hw : Blank w)
      (h : Spells lenient (.members ms) c) : Spells lenient (.value (.object ms)) ('{' :: (w ++ c))
  | empty_array {w : Chars} (hw : Blank w) :
      Spells lenient (.value (.array [])) ('[' :: (w ++ [']']))
  | array {w c : Chars} {vs : List Json} (hw : Blank w) (h : Spells lenient (.items vs) c) :
      Spells lenient (.value (.array vs)) ('[' :: (w ++ c))
  | last_member {body w₁ w₂ c w₃ : Chars} {name : List ℕ} {v : Json}
      (hbody : Unquoted false body) (hname : decode body = some name) (hw₁ : Blank w₁)
      (hw₂ : Blank w₂) (hw₃ : Blank w₃) (h : Spells lenient (.value v) c) :
      Spells lenient (.members [(name, v)]) (member_text body w₁ w₂ c w₃ ['}'])
  | member {body w₁ w₂ c w₃ w₄ c' : Chars} {name : List ℕ} {v : Json}
      {ms : List (List ℕ × Json)} (hbody : Unquoted false body) (hname : decode body = some name)
      (hw₁ : Blank w₁) (hw₂ : Blank w₂) (hw₃ : Blank w₃) (hw₄ : Blank w₄)
      (h : Spells lenient (.value v) c) (h' : Spells lenient (.members ms) c') :
      Spells lenient (.members ((name, v) :: ms))
        (member_text body w₁ w₂ c w₃ (',' :: (w₄ ++ c')))
  | last_item {c w : Chars} {v : Json} (hw : Blank w) (h : Spells lenient (.value v) c) :
      Spells lenient (.items [v]) (c ++ (w ++ [']']))
  | item {c w w' c' : Chars} {v : Json} {vs : List Json} (hw : Blank w) (hw' : Blank w')
      (h : Spells lenient (.value v) c) (h' : Spells lenient (.items vs) c') :
      Spells lenient (.items (v :: vs)) (c ++ (w ++ ',' :: (w' ++ c')))

theorem scalar_lenient {word : Chars} {v : Json} (h : scalar false word = some v) :
    scalar true word = some v := by
  unfold scalar at h ⊢
  split_ifs at h ⊢
  all_goals simp_all

/-- A strict text is a lenient one. -/
theorem Spells.lenient {node : Node} {c : Chars} (h : Spells false node c) :
    Spells true node c := by
  induction h with
  | scalar hne hword h => exact .scalar hne hword (scalar_lenient h)
  | string hbody h => exact .string hbody h
  | empty_object hw => exact .empty_object hw
  | object hw _ ih => exact .object hw ih
  | empty_array hw => exact .empty_array hw
  | array hw _ ih => exact .array hw ih
  | last_member hbody hname hw₁ hw₂ hw₃ _ ih => exact .last_member hbody hname hw₁ hw₂ hw₃ ih
  | member hbody hname hw₁ hw₂ hw₃ hw₄ _ _ ih ih' =>
      exact .member hbody hname hw₁ hw₂ hw₃ hw₄ ih ih'
  | last_item hw _ ih => exact .last_item hw ih
  | item hw hw' _ _ ih ih' => exact .item hw hw' ih ih'

theorem expect_eq_some_iff {c : Char} {t r : Chars} : expect c t = some r ↔ t = c :: r := by
  rcases t with _ | ⟨d, t⟩
  · simp [expect]
  · by_cases h : d = c
    · simp [expect, h]
    · simp [expect, h]

@[simp] theorem expect_cons_self (c : Char) (t : Chars) : expect c (c :: t) = some t :=
  expect_eq_some_iff.mpr rfl

theorem expect_cons_of_ne {c d : Char} (h : d ≠ c) (t : Chars) : expect c (d :: t) = none :=
  if_neg h

theorem exists_skip (t : Chars) : ∃ w, Blank w ∧ t = w ++ skip t :=
  ⟨t.takeWhile whitespace, fun _ => List.mem_takeWhile_imp,
    (List.takeWhile_append_dropWhile (p := whitespace)).symm⟩

theorem skip_blank {w t : Chars} (hw : Blank w) (ht : ∀ d ∈ t.head?, whitespace d = false) :
    skip (w ++ t) = t := by
  unfold skip
  rw [List.dropWhile_append_of_pos hw]
  rcases t with _ | ⟨d, t⟩
  · rfl
  · exact List.dropWhile_cons_of_neg (by simp [ht d rfl])

theorem skip_blank_cons {w t : Chars} {d : Char} (hw : Blank w) (hd : whitespace d = false) :
    skip (w ++ d :: t) = d :: t :=
  skip_blank hw (by simpa using hd)

theorem map_cons_eq_some_iff {o : Option (Chars × Chars)} {c : Char} {b rest : Chars} :
    (o.map fun r => (c :: r.1, r.2)) = some (b, rest) ↔
      ∃ b', b = c :: b' ∧ o = some (b', rest) := by
  rw [Option.map_eq_some_iff]
  constructor
  · rintro ⟨⟨b', rest'⟩, ho, heq⟩
    obtain ⟨rfl, rfl⟩ := Prod.mk.inj heq
    exact ⟨b', rfl, ho⟩
  · rintro ⟨b', rfl, ho⟩
    exact ⟨(b', rest), ho, rfl⟩

theorem string_body_iff {e : Bool} {t b rest : Chars} :
    string_body e t = some (b, rest) ↔ t = b ++ '"' :: rest ∧ Unquoted e b := by
  induction t generalizing e b with
  | nil => simp [string_body]
  | cons c t ih =>
      rcases e
      · by_cases h : c = '"'
        · subst h
          constructor
          · intro hbody
            obtain ⟨rfl, rfl⟩ : [] = b ∧ t = rest := by simpa [string_body] using hbody
            exact ⟨rfl, rfl⟩
          · rintro ⟨htext, hb⟩
            rcases b with _ | ⟨d, b⟩
            · simp [string_body, (List.cons.inj htext).2]
            · exact absurd (List.cons.inj htext).1.symm hb.1
        · rw [string_body, if_neg h, map_cons_eq_some_iff]
          constructor
          · rintro ⟨b', rfl, hbody⟩
            obtain ⟨rfl, hb⟩ := ih.mp hbody
            exact ⟨rfl, h, hb⟩
          · rintro ⟨htext, hb⟩
            rcases b with _ | ⟨d, b⟩
            · exact absurd (List.cons.inj htext).1 h
            · obtain ⟨rfl, rfl⟩ := List.cons.inj htext
              exact ⟨b, rfl, ih.mpr ⟨rfl, hb.2⟩⟩
      · rw [string_body, map_cons_eq_some_iff]
        constructor
        · rintro ⟨b', rfl, hbody⟩
          obtain ⟨rfl, hb⟩ := ih.mp hbody
          exact ⟨rfl, hb⟩
        · rintro ⟨htext, hb⟩
          rcases b with _ | ⟨d, b⟩
          · exact absurd hb (by simp [Unquoted])
          · obtain ⟨rfl, rfl⟩ := List.cons.inj htext
            exact ⟨b, rfl, ih.mpr ⟨rfl, hb⟩⟩

theorem string_iff {t rest : Chars} {codes : List ℕ} :
    string t = some (codes, rest) ↔
      ∃ body, t = body ++ '"' :: rest ∧ Unquoted false body ∧ decode body = some codes := by
  simp only [string, Option.bind_eq_bind, Option.bind_eq_some_iff, Prod.exists, string_body_iff,
    Option.pure_def, Option.some.injEq, Prod.mk.injEq]
  constructor
  · rintro ⟨body, _, ⟨rfl, hbody⟩, _, hcodes, rfl, rfl⟩
    exact ⟨body, rfl, hbody, hcodes⟩
  · rintro ⟨body, rfl, hbody, hcodes⟩
    exact ⟨body, rest, ⟨rfl, hbody⟩, codes, hcodes, rfl, rfl⟩

section Soundness

variable {lenient : Bool} {n : ℕ}

/-- What a parser that is called with the fuel `n` reads, the grammar spells. -/
structure Sound (lenient : Bool) (n : ℕ) : Prop where
  value : ∀ t v rest, value lenient n t = some (v, rest) →
    ∃ c, t = c ++ rest ∧ Spells lenient (.value v) c
  members : ∀ t ms rest, members lenient n t = some (ms, rest) →
    ∃ c, t = c ++ rest ∧ Spells lenient (.members ms) c
  items : ∀ t vs rest, items lenient n t = some (vs, rest) →
    ∃ c, t = c ++ rest ∧ Spells lenient (.items vs) c

theorem scalar_nil (lenient : Bool) : scalar lenient [] = none := by
  rcases lenient <;> decide

theorem value_sound (h : Sound lenient n) {t rest : Chars} {v : Json}
    (hv : value lenient (n + 1) t = some (v, rest)) :
    ∃ c, t = c ++ rest ∧ Spells lenient (.value v) c := by
  rw [value] at hv
  split at hv
  next t' hquote =>
      obtain ⟨⟨codes, rest'⟩, hstring, heq⟩ := Option.map_eq_some_iff.mp hv
      obtain ⟨rfl, rfl⟩ := Prod.mk.inj heq
      obtain ⟨body, rfl, hbody, hcodes⟩ := string_iff.mp hstring
      rw [expect_eq_some_iff] at hquote
      exact ⟨'"' :: (body ++ ['"']), by simp [hquote], .string hbody hcodes⟩
  next =>
      split at hv
      next t' hbrace =>
          rw [expect_eq_some_iff] at hbrace
          subst hbrace
          obtain ⟨w, hw, ht⟩ := exists_skip t'
          split at hv
          next r hclose =>
              obtain ⟨rfl, rfl⟩ := Prod.mk.inj (Option.some.inj hv)
              rw [expect_eq_some_iff] at hclose
              rw [hclose] at ht
              exact ⟨'{' :: (w ++ ['}']), by simp [ht], .empty_object hw⟩
          next =>
              obtain ⟨⟨ms, rest'⟩, hms, heq⟩ := Option.map_eq_some_iff.mp hv
              obtain ⟨rfl, rfl⟩ := Prod.mk.inj heq
              obtain ⟨c, hc, hspells⟩ := h.members _ _ _ hms
              rw [hc] at ht
              exact ⟨'{' :: (w ++ c), by simp [ht], .object hw hspells⟩
      next =>
          split at hv
          next t' hbracket =>
              rw [expect_eq_some_iff] at hbracket
              subst hbracket
              obtain ⟨w, hw, ht⟩ := exists_skip t'
              split at hv
              next r hclose =>
                  obtain ⟨rfl, rfl⟩ := Prod.mk.inj (Option.some.inj hv)
                  rw [expect_eq_some_iff] at hclose
                  rw [hclose] at ht
                  exact ⟨'[' :: (w ++ [']']), by simp [ht], .empty_array hw⟩
              next =>
                  obtain ⟨⟨vs, rest'⟩, hvs, heq⟩ := Option.map_eq_some_iff.mp hv
                  obtain ⟨rfl, rfl⟩ := Prod.mk.inj heq
                  obtain ⟨c, hc, hspells⟩ := h.items _ _ _ hvs
                  rw [hc] at ht
                  exact ⟨'[' :: (w ++ c), by simp [ht], .array hw hspells⟩
          next =>
              obtain ⟨v', hscalar, heq⟩ := Option.map_eq_some_iff.mp hv
              obtain ⟨rfl, rfl⟩ := Prod.mk.inj heq
              refine ⟨t.takeWhile wordchar, List.takeWhile_append_dropWhile.symm,
                .scalar ?_ (fun _ => List.mem_takeWhile_imp) hscalar⟩
              intro hnil
              rw [hnil, scalar_nil] at hscalar
              cases hscalar

theorem members_sound (h : Sound lenient n) {t rest : Chars} {ms : List (List ℕ × Json)}
    (hms : members lenient (n + 1) t = some (ms, rest)) :
    ∃ c, t = c ++ rest ∧ Spells lenient (.members ms) c := by
  simp only [members, Option.bind_eq_bind, Option.bind_eq_some_iff, Prod.exists,
    expect_eq_some_iff, string_iff] at hms
  obtain ⟨_, rfl, name, t₁, ⟨body, rfl, hbody, hname⟩, t₂, hcolon, v, t₃, hv, htail⟩ := hms
  obtain ⟨w₁, hw₁, ht₁⟩ := exists_skip t₁
  obtain ⟨w₂, hw₂, ht₂⟩ := exists_skip t₂
  obtain ⟨w₃, hw₃, ht₃⟩ := exists_skip t₃
  obtain ⟨c, hc, hspells⟩ := h.value _ _ _ hv
  rw [hcolon] at ht₁
  rw [hc] at ht₂
  split at htail
  next t₄ hcomma =>
      obtain ⟨w₄, hw₄, ht₄⟩ := exists_skip t₄
      obtain ⟨⟨ms', rest'⟩, hms', heq⟩ := Option.map_eq_some_iff.mp htail
      obtain ⟨rfl, rfl⟩ := Prod.mk.inj heq
      obtain ⟨c', hc', hspells'⟩ := h.members _ _ _ hms'
      rw [expect_eq_some_iff] at hcomma
      rw [hcomma] at ht₃
      rw [hc'] at ht₄
      refine ⟨_, ?_, .member hbody hname hw₁ hw₂ hw₃ hw₄ hspells hspells'⟩
      simp [member_text, ht₁, ht₂, ht₃, ht₄]
  next =>
      obtain ⟨rest', hclose, heq⟩ := Option.map_eq_some_iff.mp htail
      obtain ⟨rfl, rfl⟩ := Prod.mk.inj heq
      rw [expect_eq_some_iff] at hclose
      rw [hclose] at ht₃
      refine ⟨_, ?_, .last_member hbody hname hw₁ hw₂ hw₃ hspells⟩
      simp [member_text, ht₁, ht₂, ht₃]

theorem items_sound (h : Sound lenient n) {t rest : Chars} {vs : List Json}
    (hvs : items lenient (n + 1) t = some (vs, rest)) :
    ∃ c, t = c ++ rest ∧ Spells lenient (.items vs) c := by
  simp only [items, Option.bind_eq_bind, Option.bind_eq_some_iff, Prod.exists] at hvs
  obtain ⟨v, t₁, hv, htail⟩ := hvs
  obtain ⟨c, rfl, hspells⟩ := h.value _ _ _ hv
  obtain ⟨w, hw, ht₁⟩ := exists_skip t₁
  split at htail
  next t₂ hcomma =>
      obtain ⟨w', hw', ht₂⟩ := exists_skip t₂
      obtain ⟨⟨vs', rest'⟩, hvs', heq⟩ := Option.map_eq_some_iff.mp htail
      obtain ⟨rfl, rfl⟩ := Prod.mk.inj heq
      obtain ⟨c', hc', hspells'⟩ := h.items _ _ _ hvs'
      rw [expect_eq_some_iff] at hcomma
      rw [hcomma] at ht₁
      rw [hc'] at ht₂
      refine ⟨_, ?_, .item hw hw' hspells hspells'⟩
      simp [ht₁, ht₂]
  next =>
      obtain ⟨rest', hclose, heq⟩ := Option.map_eq_some_iff.mp htail
      obtain ⟨rfl, rfl⟩ := Prod.mk.inj heq
      rw [expect_eq_some_iff] at hclose
      rw [hclose] at ht₁
      refine ⟨_, ?_, .last_item hw hspells⟩
      simp [ht₁]

theorem sound (lenient : Bool) (n : ℕ) : Sound lenient n := by
  induction n with
  | zero =>
      refine ⟨?_, ?_, ?_⟩
      · intro t v rest h
        rw [value] at h
        cases h
      · intro t ms rest h
        rw [members] at h
        cases h
      · intro t vs rest h
        rw [items] at h
        cases h
  | succ n ih =>
      exact ⟨fun _ _ _ => value_sound ih, fun _ _ _ => members_sound ih,
        fun _ _ _ => items_sound ih⟩

end Soundness

section Completeness

variable {lenient : Bool}

/-- What ends by itself, whatever follows it. -/
def closed : Json → Bool
  | .string _ => true
  | .array _ => true
  | .object _ => true
  | _ => false

def Delimited (rest : Chars) : Prop := ∀ d ∈ rest.head?, wordchar d = false

/-- The parser reads what is spelled, with fuel for its length. -/
def Reads (lenient : Bool) : Node → Chars → Prop
  | .value v, c => ∀ n rest, c.length ≤ n → (closed v = false → Delimited rest) →
      value lenient n (c ++ rest) = some (v, rest)
  | .members ms, c => ∀ n rest, c.length ≤ n → members lenient n (c ++ rest) = some (ms, rest)
  | .items vs, c => ∀ n rest, c.length ≤ n → items lenient n (c ++ rest) = some (vs, rest)

/-- The first letter of a value or of a part of one. -/
structure Starts (d : Char) : Prop where
  whitespace : whitespace d = false
  bracket : d ≠ ']'
  brace : d ≠ '}'

theorem marks_not_wordchar :
    ∀ d ∈ ['"', '{', '[', ']', '}', ':', ',', ' ', '\t', '\n', '\r'], wordchar d = false := by
  simp [wordchar, digit]

theorem ne_of_wordchar {c d : Char} (h : wordchar c = true)
    (hd : d ∈ ['"', '{', '[', ']', '}', ':', ',', ' ', '\t', '\n', '\r']) : c ≠ d := by
  rintro rfl
  rw [marks_not_wordchar c hd] at h
  cases h

theorem starts_of_wordchar {d : Char} (h : wordchar d = true) : Starts d := by
  refine ⟨?_, ne_of_wordchar h (by decide), ne_of_wordchar h (by decide)⟩
  have hspace := ne_of_wordchar (d := ' ') h (by decide)
  have htab := ne_of_wordchar (d := '\t') h (by decide)
  have hline := ne_of_wordchar (d := '\n') h (by decide)
  have hreturn := ne_of_wordchar (d := '\r') h (by decide)
  simp [JsonTexts.whitespace, hspace, htab, hline, hreturn]

theorem Spells.starts {node : Node} {c : Chars} (h : Spells lenient node c) :
    ∃ d c', c = d :: c' ∧ Starts d := by
  have hmarks : Starts '"' ∧ Starts '{' ∧ Starts '[' :=
    ⟨⟨rfl, by decide, by decide⟩, ⟨rfl, by decide, by decide⟩, ⟨rfl, by decide, by decide⟩⟩
  obtain ⟨hquote, hbrace, hbracket⟩ := hmarks
  induction h with
  | @scalar word v hne hword h =>
      obtain ⟨d, c', rfl⟩ := List.exists_cons_of_ne_nil hne
      exact ⟨d, c', rfl, starts_of_wordchar (hword d List.mem_cons_self)⟩
  | string => exact ⟨_, _, rfl, hquote⟩
  | empty_object => exact ⟨_, _, rfl, hbrace⟩
  | object => exact ⟨_, _, rfl, hbrace⟩
  | empty_array => exact ⟨_, _, rfl, hbracket⟩
  | array => exact ⟨_, _, rfl, hbracket⟩
  | last_member => exact ⟨_, _, rfl, hquote⟩
  | member => exact ⟨_, _, rfl, hquote⟩
  | last_item _ _ ih =>
      obtain ⟨d, c', rfl, hd⟩ := ih
      exact ⟨d, _, rfl, hd⟩
  | item _ _ _ _ ih =>
      obtain ⟨d, c', rfl, hd⟩ := ih
      exact ⟨d, _, rfl, hd⟩

theorem skip_spelled {node : Node} {w c : Chars} (hw : Blank w) (h : Spells lenient node c)
    (rest : Chars) : skip (w ++ (c ++ rest)) = c ++ rest := by
  obtain ⟨d, c', rfl, hd⟩ := h.starts
  exact skip_blank_cons hw hd.whitespace

theorem delimited_blank {w rest : Chars} (hw : Blank w) (h : Delimited rest) :
    Delimited (w ++ rest) := by
  rcases w with _ | ⟨d, w⟩
  · exact h
  · intro c hc
    obtain rfl : d = c := by simpa using hc
    by_contra hword
    have hspace := (starts_of_wordchar (by simpa using hword)).whitespace
    rw [hw d List.mem_cons_self] at hspace
    cases hspace

theorem delimited_cons {d : Char} (h : wordchar d = false) (rest : Chars) :
    Delimited (d :: rest) := by
  intro c hc
  obtain rfl : d = c := by simpa using hc
  exact h

theorem takeWhile_word {word rest : Chars} (hword : ∀ c ∈ word, wordchar c = true)
    (hrest : Delimited rest) :
    (word ++ rest).takeWhile wordchar = word ∧ (word ++ rest).dropWhile wordchar = rest := by
  rw [List.takeWhile_append_of_pos hword, List.dropWhile_append_of_pos hword]
  rcases rest with _ | ⟨d, rest⟩
  · simp
  · have hd : wordchar d = false := hrest d rfl
    simp [hd]

theorem closed_scalar {word : Chars} {v : Json} (h : scalar lenient word = some v) :
    closed v = false := by
  unfold scalar at h
  split_ifs at h <;> (cases h; rfl)

theorem reads_scalar {word : Chars} {v : Json} (hne : word ≠ [])
    (hword : ∀ c ∈ word, wordchar c = true) (h : scalar lenient word = some v) :
    Reads lenient (.value v) word := by
  intro n rest hn hrest
  have hopen := closed_scalar h
  obtain ⟨d, c', rfl⟩ := List.exists_cons_of_ne_nil hne
  obtain ⟨n, rfl⟩ : ∃ m, n = m + 1 := ⟨n - 1, by simp at hn; omega⟩
  have hd := hword d List.mem_cons_self
  have hquote := ne_of_wordchar (d := '"') hd (by decide)
  have hbrace := ne_of_wordchar (d := '{') hd (by decide)
  have hbracket := ne_of_wordchar (d := '[') hd (by decide)
  obtain ⟨htake, hdrop⟩ := takeWhile_word hword (hrest hopen)
  rw [List.cons_append] at htake hdrop ⊢
  simp only [value, expect_cons_of_ne hquote, expect_cons_of_ne hbrace,
    expect_cons_of_ne hbracket, htake, hdrop, h, Option.map_some]

theorem reads_string {body : Chars} {codes : List ℕ} (hbody : Unquoted false body)
    (h : decode body = some codes) :
    Reads lenient (.value (.string codes)) ('"' :: (body ++ ['"'])) := by
  intro n rest hn _
  obtain ⟨n, rfl⟩ : ∃ m, n = m + 1 := ⟨n - 1, by simp at hn; omega⟩
  have hstring : string (body ++ '"' :: rest) = some (codes, rest) :=
    string_iff.mpr ⟨body, rfl, hbody, h⟩
  simp [value, hstring]

theorem reads_empty_object {w : Chars} (hw : Blank w) :
    Reads lenient (.value (.object [])) ('{' :: (w ++ ['}'])) := by
  intro n rest hn _
  obtain ⟨n, rfl⟩ : ∃ m, n = m + 1 := ⟨n - 1, by simp at hn; omega⟩
  have hskip : skip (w ++ '}' :: rest) = '}' :: rest := skip_blank_cons hw rfl
  have hquote : expect '"' ('{' :: (w ++ '}' :: rest)) = none := expect_cons_of_ne (by decide) _
  simp [value, hquote, hskip]

theorem reads_object {w c : Chars} {ms : List (List ℕ × Json)} (hw : Blank w)
    (h : Spells lenient (.members ms) c) (ih : Reads lenient (.members ms) c) :
    Reads lenient (.value (.object ms)) ('{' :: (w ++ c)) := by
  intro n rest hn _
  obtain ⟨n, rfl⟩ : ∃ m, n = m + 1 := ⟨n - 1, by simp at hn; omega⟩
  have hread := ih n rest (by simp at hn; omega)
  have hquote : expect '"' ('{' :: (w ++ (c ++ rest))) = none := expect_cons_of_ne (by decide) _
  have hclose : expect '}' (c ++ rest) = none := by
    obtain ⟨d, c', rfl, hd⟩ := h.starts
    exact expect_cons_of_ne hd.brace _
  simp [value, hquote, skip_spelled hw h, hclose, hread]

theorem reads_empty_array {w : Chars} (hw : Blank w) :
    Reads lenient (.value (.array [])) ('[' :: (w ++ [']'])) := by
  intro n rest hn _
  obtain ⟨n, rfl⟩ : ∃ m, n = m + 1 := ⟨n - 1, by simp at hn; omega⟩
  have hskip : skip (w ++ ']' :: rest) = ']' :: rest := skip_blank_cons hw rfl
  have hquote : expect '"' ('[' :: (w ++ ']' :: rest)) = none := expect_cons_of_ne (by decide) _
  have hbrace : expect '{' ('[' :: (w ++ ']' :: rest)) = none := expect_cons_of_ne (by decide) _
  simp [value, hquote, hbrace, hskip]

theorem reads_array {w c : Chars} {vs : List Json} (hw : Blank w)
    (h : Spells lenient (.items vs) c) (ih : Reads lenient (.items vs) c) :
    Reads lenient (.value (.array vs)) ('[' :: (w ++ c)) := by
  intro n rest hn _
  obtain ⟨n, rfl⟩ : ∃ m, n = m + 1 := ⟨n - 1, by simp at hn; omega⟩
  have hread := ih n rest (by simp at hn; omega)
  have hquote : expect '"' ('[' :: (w ++ (c ++ rest))) = none := expect_cons_of_ne (by decide) _
  have hbrace : expect '{' ('[' :: (w ++ (c ++ rest))) = none := expect_cons_of_ne (by decide) _
  have hclose : expect ']' (c ++ rest) = none := by
    obtain ⟨d, c', rfl, hd⟩ := h.starts
    exact expect_cons_of_ne hd.bracket _
  simp [value, hquote, hbrace, skip_spelled hw h, hclose, hread]

/-- The parser reads a member up to the mark behind it. -/
theorem member_steps {body w₁ w₂ c w₃ : Chars} {name : List ℕ} {v : Json} {n : ℕ}
    (hbody : Unquoted false body) (hname : decode body = some name) (hw₁ : Blank w₁)
    (hw₂ : Blank w₂) (hw₃ : Blank w₃) (h : Spells lenient (.value v) c)
    (ih : Reads lenient (.value v) c) (hn : c.length ≤ n) {d : Char}
    (hspace : whitespace d = false) (hword : wordchar d = false) (t : Chars) :
    ∃ t₁ t₂, expect '"' (member_text body w₁ w₂ c w₃ (d :: t)) = some t₁ ∧
      string t₁ = some (name, t₂) ∧
      ∃ t₃ t₄, expect ':' (skip t₂) = some t₃ ∧ value lenient n (skip t₃) = some (v, t₄) ∧
        skip t₄ = d :: t := by
  have hcolon : skip (w₁ ++ ':' :: (w₂ ++ (c ++ (w₃ ++ d :: t)))) =
      ':' :: (w₂ ++ (c ++ (w₃ ++ d :: t))) := skip_blank_cons hw₁ rfl
  refine ⟨_, _, expect_cons_self _ _, string_iff.mpr ⟨body, rfl, hbody, hname⟩,
    w₂ ++ (c ++ (w₃ ++ d :: t)), w₃ ++ d :: t, ?_, ?_, skip_blank_cons hw₃ hspace⟩
  · rw [hcolon, expect_cons_self]
  · rw [skip_spelled hw₂ h]
    exact ih n _ hn fun _ => delimited_blank hw₃ (delimited_cons hword t)

theorem member_text_append (body w₁ w₂ c w₃ tail rest : Chars) :
    member_text body w₁ w₂ c w₃ tail ++ rest = member_text body w₁ w₂ c w₃ (tail ++ rest) := by
  simp [member_text]

theorem length_member_text (body w₁ w₂ c w₃ tail : Chars) :
    c.length + tail.length < (member_text body w₁ w₂ c w₃ tail).length := by
  simp only [member_text, List.length_cons, List.length_append]
  omega

theorem reads_last_member {body w₁ w₂ c w₃ : Chars} {name : List ℕ} {v : Json}
    (hbody : Unquoted false body) (hname : decode body = some name) (hw₁ : Blank w₁)
    (hw₂ : Blank w₂) (hw₃ : Blank w₃) (h : Spells lenient (.value v) c)
    (ih : Reads lenient (.value v) c) :
    Reads lenient (.members [(name, v)]) (member_text body w₁ w₂ c w₃ ['}']) := by
  intro n rest hn
  have hlength := length_member_text body w₁ w₂ c w₃ ['}']
  obtain ⟨n, rfl⟩ : ∃ m, n = m + 1 := ⟨n - 1, by omega⟩
  obtain ⟨t₁, t₂, hquote, hstring, t₃, t₄, hcolon, hvalue, hmark⟩ :=
    member_steps hbody hname hw₁ hw₂ hw₃ h ih (n := n) (d := '}') (by omega) rfl (by decide) rest
  have hcomma : expect ',' ('}' :: rest) = none := expect_cons_of_ne (by decide) rest
  rw [member_text_append, List.singleton_append]
  simp [members, hquote, hstring, hcolon, hvalue, hmark, hcomma]

theorem reads_member {body w₁ w₂ c w₃ w₄ c' : Chars} {name : List ℕ} {v : Json}
    {ms : List (List ℕ × Json)} (hbody : Unquoted false body) (hname : decode body = some name)
    (hw₁ : Blank w₁) (hw₂ : Blank w₂) (hw₃ : Blank w₃) (hw₄ : Blank w₄)
    (h : Spells lenient (.value v) c) (h' : Spells lenient (.members ms) c')
    (ih : Reads lenient (.value v) c) (ih' : Reads lenient (.members ms) c') :
    Reads lenient (.members ((name, v) :: ms))
      (member_text body w₁ w₂ c w₃ (',' :: (w₄ ++ c'))) := by
  intro n rest hn
  have hlength := length_member_text body w₁ w₂ c w₃ (',' :: (w₄ ++ c'))
  simp only [List.length_cons, List.length_append] at hlength
  obtain ⟨n, rfl⟩ : ∃ m, n = m + 1 := ⟨n - 1, by omega⟩
  obtain ⟨t₁, t₂, hquote, hstring, t₃, t₄, hcolon, hvalue, hmark⟩ :=
    member_steps hbody hname hw₁ hw₂ hw₃ h ih (n := n) (d := ',') (by omega) rfl (by decide)
      (w₄ ++ (c' ++ rest))
  have hread := ih' n rest (by omega)
  rw [member_text_append, List.cons_append, List.append_assoc]
  simp [members, hquote, hstring, hcolon, hvalue, hmark, skip_spelled hw₄ h', hread]

theorem reads_last_item {c w : Chars} {v : Json} (hw : Blank w)
    (ih : Reads lenient (.value v) c) : Reads lenient (.items [v]) (c ++ (w ++ [']'])) := by
  intro n rest hn
  simp only [List.length_append, List.length_singleton] at hn
  obtain ⟨n, rfl⟩ : ∃ m, n = m + 1 := ⟨n - 1, by omega⟩
  have hvalue : value lenient n (c ++ (w ++ ']' :: rest)) = some (v, w ++ ']' :: rest) :=
    ih n _ (by omega) fun _ => delimited_blank hw (delimited_cons (by decide) rest)
  have hmark : skip (w ++ ']' :: rest) = ']' :: rest := skip_blank_cons hw rfl
  have hcomma : expect ',' (']' :: rest) = none := expect_cons_of_ne (by decide) rest
  rw [List.append_assoc, List.append_assoc, List.singleton_append]
  simp [items, hvalue, hmark, hcomma]

theorem reads_item {c w w' c' : Chars} {v : Json} {vs : List Json} (hw : Blank w)
    (hw' : Blank w') (h' : Spells lenient (.items vs) c') (ih : Reads lenient (.value v) c)
    (ih' : Reads lenient (.items vs) c') :
    Reads lenient (.items (v :: vs)) (c ++ (w ++ ',' :: (w' ++ c'))) := by
  intro n rest hn
  simp only [List.length_append, List.length_cons] at hn
  obtain ⟨n, rfl⟩ : ∃ m, n = m + 1 := ⟨n - 1, by omega⟩
  have hvalue : value lenient n (c ++ (w ++ ',' :: (w' ++ (c' ++ rest)))) =
      some (v, w ++ ',' :: (w' ++ (c' ++ rest))) :=
    ih n _ (by omega) fun _ => delimited_blank hw (delimited_cons (by decide) _)
  have hmark : skip (w ++ ',' :: (w' ++ (c' ++ rest))) = ',' :: (w' ++ (c' ++ rest)) :=
    skip_blank_cons hw rfl
  have hread := ih' n rest (by omega)
  rw [List.append_assoc, List.append_assoc, List.cons_append, List.append_assoc]
  simp [items, hvalue, hmark, skip_spelled hw' h', hread]

theorem reads_of_spells {node : Node} {c : Chars} (h : Spells lenient node c) :
    Reads lenient node c := by
  induction h with
  | scalar hne hword h => exact reads_scalar hne hword h
  | string hbody h => exact reads_string hbody h
  | empty_object hw => exact reads_empty_object hw
  | object hw h ih => exact reads_object hw h ih
  | empty_array hw => exact reads_empty_array hw
  | array hw h ih => exact reads_array hw h ih
  | last_member hbody hname hw₁ hw₂ hw₃ h ih =>
      exact reads_last_member hbody hname hw₁ hw₂ hw₃ h ih
  | member hbody hname hw₁ hw₂ hw₃ hw₄ h h' ih ih' =>
      exact reads_member hbody hname hw₁ hw₂ hw₃ hw₄ h h' ih ih'
  | last_item hw h ih => exact reads_last_item hw ih
  | item hw hw' h h' ih ih' => exact reads_item hw hw' h' ih ih'

theorem blank_iff (t : Chars) : skip t = [] ↔ Blank t := by
  unfold skip Blank
  rw [List.dropWhile_eq_nil_iff]

/-- A whole text has the value that it spells between blanks. -/
theorem loads_iff {t : Chars} {v : Json} :
    loads lenient t = some v ↔
      ∃ w c w', t = w ++ (c ++ w') ∧ Blank w ∧ Spells lenient (.value v) c ∧ Blank w' := by
  constructor
  · intro h
    obtain ⟨w, hw, ht⟩ := exists_skip t
    unfold loads at h
    split at h
    next v' rest hvalue =>
        obtain ⟨c, hc, hspells⟩ := (sound lenient _).value _ _ _ hvalue
        rw [hc] at ht
        split_ifs at h with hrest
        cases h
        exact ⟨w, c, rest, ht, hw, hspells, (blank_iff rest).mp hrest⟩
    next => cases h
  · rintro ⟨w, c, w', rfl, hw, hspells, hw'⟩
    have hdelimited : Delimited w' := by
      have hempty : Delimited [] := by simp [Delimited]
      have hnil := delimited_blank hw' hempty
      rwa [List.append_nil] at hnil
    have hvalue := reads_of_spells hspells ((w ++ (c ++ w')).length + 1) w'
      (by simp only [List.length_append]; omega) fun _ => hdelimited
    rw [loads, skip_spelled hw hspells, hvalue]
    exact if_pos ((blank_iff w').mpr hw')

/-- The text of an object ends by itself: what it is followed by does not matter. -/
theorem object_text_unique {ms ms' : List (List ℕ × Json)} {c c' x x' : Chars}
    (h : Spells lenient (.value (.object ms)) c) (h' : Spells lenient (.value (.object ms')) c')
    (heq : c ++ x = c' ++ x') : c = c' ∧ ms = ms' := by
  have hread := reads_of_spells h (c.length + c'.length) x (by omega) (by simp [closed])
  have hread' := reads_of_spells h' (c.length + c'.length) x' (by omega) (by simp [closed])
  rw [heq, hread'] at hread
  obtain ⟨hv, rfl⟩ := Prod.mk.inj (Option.some.inj hread)
  exact ⟨List.append_cancel_right heq, (Json.object.inj hv).symm⟩

end Completeness

end ArticTrader.JsonGrammar
