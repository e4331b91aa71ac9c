import ArticTrader.JsonGrammar

/-!
The quotation marks of a JSON text. As many of them stand for themselves as its value has
strings, so that no text of an object lies within another text of the same object.
-/

namespace ArticTrader.JsonQuotes

open ArticTrader.JsonTexts ArticTrader.JsonGrammar

/-- The quotation marks that no backslash escapes. -/
def quotes : Bool → Chars → ℕ
  | _, [] => 0
  | true, _ :: t => quotes false t
  | false, c :: t => (if c = '"' then 1 else 0) + quotes (c = '\\') t

/-- Whether what follows the text is escaped. -/
def escaped : Bool → Chars → Bool
  | e, [] => e
  | true, _ :: t => escaped false t
  | false, c :: t => escaped (c = '\\') t

mutual

/-- The strings of a value, the names of its members among them. -/
def strings : Json → ℕ
  | .string _ => 1
  | .array vs => item_strings vs
  | .object ms => member_strings ms
  | _ => 0

def item_strings : List Json → ℕ
  | [] => 0
  | v :: vs => strings v + item_strings vs

def member_strings : List (List ℕ × Json) → ℕ
  | [] => 0
  | (_, v) :: ms => 1 + strings v + member_strings ms

end

def node_strings : Node → ℕ
  | .value v => strings v
  | .members ms => member_strings ms
  | .items vs => item_strings vs

theorem quotes_append (e : Bool) (s t : Chars) :
    quotes e (s ++ t) = quotes e s + quotes (escaped e s) t := by
  induction s generalizing e with
  | nil => simp [quotes, escaped]
  | cons c s ih =>
      rcases e
      · simp [quotes, escaped, ih, Nat.add_assoc]
      · simp [quotes, escaped, ih]

theorem escaped_append (e : Bool) (s t : Chars) :
    escaped e (s ++ t) = escaped (escaped e s) t := by
  induction s generalizing e with
  | nil => simp [escaped]
  | cons c s ih =>
      rcases e
      · simp [escaped, ih]
      · simp [escaped, ih]

/-- A piece of a text that has `k` strings and ends outside of them. -/
structure Quoted (c : Chars) (k : ℕ) : Prop where
  quotes : quotes false c = 2 * k
  escaped : escaped false c = false

theorem Quoted.append {c c' : Chars} {k k' : ℕ} (h : Quoted c k) (h' : Quoted c' k') :
    Quoted (c ++ c') (k + k') := by
  refine ⟨?_, ?_⟩
  · rw [quotes_append, h.escaped, h.quotes, h'.quotes, Nat.mul_add]
  · rw [escaped_append, h.escaped, h'.escaped]

theorem quoted_nil : Quoted [] 0 := ⟨rfl, rfl⟩

theorem Quoted.cons {d : Char} {c : Chars} {k : ℕ} (hquote : d ≠ '"') (hslash : d ≠ '\\')
    (h : Quoted c k) : Quoted (d :: c) k := by
  refine ⟨?_, ?_⟩
  · simp [JsonQuotes.quotes, hquote, hslash, h.quotes]
  · simp [JsonQuotes.escaped, hslash, h.escaped]

theorem Quoted.plain {w c : Chars} {k : ℕ} (hw : ∀ d ∈ w, d ≠ '"' ∧ d ≠ '\\')
    (h : Quoted c k) : Quoted (w ++ c) k := by
  induction w with
  | nil => exact h
  | cons d w ih =>
      obtain ⟨hquote, hslash⟩ := hw d List.mem_cons_self
      exact (ih fun d hd => hw d (List.mem_cons_of_mem _ hd)).cons hquote hslash

theorem blank_plain {w : Chars} (hw : Blank w) : ∀ d ∈ w, d ≠ '"' ∧ d ≠ '\\' := by
  intro d hd
  have hspace := hw d hd
  refine ⟨?_, ?_⟩
  · rintro rfl
    simp [whitespace] at hspace
  · rintro rfl
    simp [whitespace] at hspace

theorem wordchar_plain {d : Char} (h : wordchar d = true) : d ≠ '"' ∧ d ≠ '\\' := by
  refine ⟨ne_of_wordchar h (by decide), ?_⟩
  rintro rfl
  exact absurd h (by decide)

theorem quotes_unquoted {e : Bool} {body : Chars} (h : Unquoted e body) (t : Chars) :
    quotes e (body ++ t) = quotes false t ∧ escaped e (body ++ t) = escaped false t := by
  induction body generalizing e with
  | nil =>
      have he : e = false := by cases e <;> simp_all [Unquoted]
      simp [he]
  | cons c body ih =>
      rcases e
      · obtain ⟨hquote, hbody⟩ := h
        simpa [quotes, escaped, hquote] using ih hbody
      · simpa [quotes, escaped] using ih h

/-- A string is two quotation marks and what is between them. -/
theorem Quoted.string {body c : Chars} {k : ℕ} (hbody : Unquoted false body) (h : Quoted c k) :
    Quoted ('"' :: (body ++ '"' :: c)) (1 + k) := by
  obtain ⟨hquotes, hescaped⟩ := quotes_unquoted hbody ('"' :: c)
  refine ⟨?_, ?_⟩
  · simp [JsonQuotes.quotes, hquotes, h.quotes]
    omega
  · simp [JsonQuotes.escaped, hescaped, h.escaped]

theorem quoted_member_text {body w₁ w₂ c w₃ tail : Chars} {k k' : ℕ}
    (hbody : Unquoted false body) (hw₁ : Blank w₁) (hw₂ : Blank w₂) (hw₃ : Blank w₃)
    (h : Quoted c k) (h' : Quoted tail k') :
    Quoted (member_text body w₁ w₂ c w₃ tail) (1 + (k + k')) := by
  have hvalue : Quoted (w₂ ++ (c ++ (w₃ ++ tail))) (k + k') :=
    (h.append (h'.plain (blank_plain hw₃))).plain (blank_plain hw₂)
  exact ((hvalue.cons (d := ':') (by decide) (by decide)).plain (blank_plain hw₁)).string hbody

theorem strings_scalar {lenient : Bool} {word : Chars} {v : Json}
    (h : scalar lenient word = some v) : strings v = 0 := by
  unfold scalar at h
  split_ifs at h <;> (cases h; simp [strings])

/-- A text has the quotation marks of its value. -/
theorem quoted_of_spells {lenient : Bool} {node : Node} {c : Chars}
    (h : Spells lenient node c) : Quoted c (node_strings node) := by
  induction h with
  | @scalar word v hne hword h =>
      have hquoted := quoted_nil.plain fun d hd => wordchar_plain (hword d hd)
      simpa [node_strings, strings_scalar h] using hquoted
  | string hbody h => simpa [node_strings, strings] using quoted_nil.string hbody
  | empty_object hw =>
      have hclose := quoted_nil.cons (d := '}') (by decide) (by decide)
      simpa [node_strings, strings, member_strings] using
        (hclose.plain (blank_plain hw)).cons (d := '{') (by decide) (by decide)
  | object hw h ih =>
      simpa [node_strings, strings] using
        (ih.plain (blank_plain hw)).cons (d := '{') (by decide) (by decide)
  | empty_array hw =>
      have hclose := quoted_nil.cons (d := ']') (by decide) (by decide)
      simpa [node_strings, strings, item_strings] using
        (hclose.plain (blank_plain hw)).cons (d := '[') (by decide) (by decide)
  | array hw h ih =>
      simpa [node_strings, strings] using
        (ih.plain (blank_plain hw)).cons (d := '[') (by decide) (by decide)
  | last_member hbody hname hw₁ hw₂ hw₃ h ih =>
      have hclose := quoted_nil.cons (d := '}') (by decide) (by decide)
      simpa [node_strings, member_strings] using
        quoted_member_text hbody hw₁ hw₂ hw₃ ih hclose
  | member hbody hname hw₁ hw₂ hw₃ hw₄ h h' ih ih' =>
      have htail := (ih'.plain (blank_plain hw₄)).cons (d := ',') (by decide) (by decide)
      simpa [node_strings, member_strings, Nat.add_assoc] using
        quoted_member_text hbody hw₁ hw₂ hw₃ ih htail
  | last_item hw h ih =>
      have hclose := quoted_nil.cons (d := ']') (by decide) (by decide)
      simpa [node_strings, item_strings] using ih.append (hclose.plain (blank_plain hw))
  | item hw hw' h h' ih ih' =>
      have htail := (ih'.plain (blank_plain hw')).cons (d := ',') (by decide) (by decide)
      simpa [node_strings, item_strings] using ih.append (htail.plain (blank_plain hw))

section Objects

variable {lenient : Bool} {ms : List (List ℕ × Json)} {c k x z : Chars}

/-- The text of an object is a brace, blanks, and the other brace or a first member. -/
theorem object_text_cases (h : Spells lenient (.value (.object ms)) c) :
    ∃ w d t, c = '{' :: (w ++ d :: t) ∧ Blank w ∧ (d = '"' ∨ d = '}' ∧ t = []) := by
  rcases h with h | _ | hw | ⟨hw, h⟩
  · cases closed_scalar ‹_›
  · exact ⟨_, '}', [], rfl, hw, .inr ⟨rfl, rfl⟩⟩
  · rcases h
    · exact ⟨_, '"', _, rfl, hw, .inl rfl⟩
    · exact ⟨_, '"', _, rfl, hw, .inl rfl⟩

theorem spells_last {node : Node} (h : Spells lenient node c) :
    ∀ ms, node = .members ms → c.getLast? = some '}' := by
  induction h with
  | @last_member body w₁ w₂ c w₃ name v hbody hname hw₁ hw₂ hw₃ h ih =>
      intro ms _
      have happend :
          member_text body w₁ w₂ c w₃ ['}'] = member_text body w₁ w₂ c w₃ [] ++ ['}'] := by
        rw [member_text_append, List.nil_append]
      rw [happend, List.getLast?_concat]
  | @member body w₁ w₂ c w₃ w₄ c' name v ms' hbody hname hw₁ hw₂ hw₃ hw₄ h h' ih ih' =>
      intro ms _
      have hlast := ih' _ rfl
      have hne : c' ≠ [] := by
        rintro rfl
        simp at hlast
      have happend : member_text body w₁ w₂ c w₃ (',' :: (w₄ ++ c')) =
          member_text body w₁ w₂ c w₃ (',' :: w₄) ++ c' := by
        rw [member_text_append, List.cons_append]
      rw [happend, List.getLast?_append_of_ne_nil _ hne, hlast]
  | _ => simp

theorem object_text_last (h : Spells lenient (.value (.object ms)) c) :
    c.getLast? = some '}' := by
  rcases h with h | _ | @⟨w, hw⟩ | @⟨w, c, _, hw, h⟩
  · cases closed_scalar ‹_›
  · rw [← List.cons_append, List.getLast?_concat]
  · have hlast := spells_last h _ rfl
    have hne : c ≠ [] := by
      rintro rfl
      simp at hlast
    rw [← List.cons_append, List.getLast?_append_of_ne_nil _ hne, hlast]

/-- A brace that is not the first one stands behind a quotation mark. -/
theorem quotes_pos_of_brace (h : Spells lenient (.value (.object ms)) c)
    (hc : c = x ++ '{' :: z) (hx : x ≠ []) : 0 < quotes false x := by
  obtain ⟨w, d, t, rfl, hw, hd⟩ := object_text_cases h
  obtain ⟨a, x, rfl⟩ := List.exists_cons_of_ne_nil hx
  obtain ⟨rfl, htail⟩ := List.cons.inj hc
  have hbrace : '{' ∉ w := by
    intro hmem
    exact absurd (hw _ hmem) (by decide)
  rcases List.append_eq_append_iff.mp htail with ⟨r, rfl, hr⟩ | ⟨r, rfl, hr⟩
  · rcases r with _ | ⟨a, r⟩
    · obtain ⟨rfl, -⟩ := List.cons.inj hr
      simp at hd
    · obtain ⟨rfl, rfl⟩ := List.cons.inj hr
      rcases hd with rfl | ⟨-, hnil⟩
      · have hplain := quoted_nil.plain (blank_plain hw)
        rw [List.append_nil] at hplain
        simp [quotes, quotes_append, hplain.escaped]
      · simp at hnil
  · rcases r with _ | ⟨a, r⟩
    · obtain ⟨rfl, -⟩ := List.cons.inj hr
      simp at hd
    · obtain ⟨rfl, -⟩ := List.cons.inj hr
      simp at hbrace

/-- Within the text of an object there is no other text of the same object. -/
theorem object_text_within (h : Spells lenient (.value (.object ms)) c)
    (hk : Spells lenient (.value (.object ms)) k) (hc : c = x ++ (k ++ z)) : x = [] ∧ k = c := by
  obtain ⟨w, d, t, hk', -⟩ := object_text_cases hk
  have hx : x = [] := by
    by_contra hne
    rw [hk'] at hc
    have hpos := quotes_pos_of_brace h hc hne
    have hcount := (quoted_of_spells h).quotes
    have hcount' := (quoted_of_spells hk).quotes
    rw [← hk'] at hc
    have hstate : quotes (escaped false x) (k ++ z) = quotes false (k ++ z) := by
      rcases escaped false x
      · rfl
      · simp [hk', quotes]
    rw [hc, quotes_append, hstate, quotes_append] at hcount
    omega
  subst hx
  refine ⟨rfl, ?_⟩
  have heq : k ++ z = c ++ [] := by simpa using hc.symm
  exact (object_text_unique hk h heq).1

end Objects

end ArticTrader.JsonQuotes
