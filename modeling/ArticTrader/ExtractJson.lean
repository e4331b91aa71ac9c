import ArticTrader.HotReload
import ArticTrader.JsonQuotes
import ArticTrader.TextSplits

/-!
The object that an answer of the language model holds: the fences that it is taken out
of, the braces that are counted, and what the supervisor makes of it.
-/

namespace ArticTrader.ExtractJson

open ArticTrader.PythonText (Text startswith)
open ArticTrader.TextSplits
open ArticTrader.JsonTexts
open ArticTrader.JsonGrammar
open ArticTrader.JsonQuotes
open ArticTrader.TradingEngine
open ArticTrader.HotReload (Held)

def FENCE : Text := "```".toList

def JSON_FENCE : Text := "```json".toList

/-- The characters that `str.strip()` removes. -/
def isspace (c : Char) : Bool :=
  (9 ≤ c.toNat && c.toNat ≤ 13) || (28 ≤ c.toNat && c.toNat ≤ 32) ||
    (0x2000 ≤ c.toNat && c.toNat ≤ 0x200a) ||
    [0x85, 0xa0, 0x1680, 0x2028, 0x2029, 0x202f, 0x205f, 0x3000].contains c.toNat

def strip (t : Text) : Text := (t.dropWhile isspace).rdropWhile isspace

/-- The text up to the brace with which the depth is zero again. -/
def scan : ℕ → Text → Option Text
  | _, [] => none
  | depth, c :: t =>
      if c = '{' then (scan (depth + 1) t).map (c :: ·)
      else if c = '}' then
        if depth - 1 = 0 then some [c] else (scan (depth - 1) t).map (c :: ·)
      else (scan depth t).map (c :: ·)

/-- The text from its first brace to the one that closes it, as braces are counted. -/
def braces (t : Text) : Option Text := scan 0 (t.dropWhile (· ≠ '{'))

/-- `_extract_json` up to the search for the first brace. -/
def planner_text (text : Text) : Text :=
  match after JSON_FENCE text with
  | some rest => strip (before FENCE (before JSON_FENCE rest))
  | none =>
      match after FENCE text with
      | some rest => strip (before FENCE (before FENCE rest))
      | none => text

def extract_json (text : Text) : Text :=
  let text := planner_text text
  (braces text).getD text

/-- The loop over the markers in `supervisor_check`. -/
def supervisor_text (content : Text) : Text :=
  match [JSON_FENCE, FENCE].findSome? (after · content) with
  | some rest => strip (before FENCE rest)
  | none => content

def supervisor_extract (content : Text) : Text :=
  let content := supervisor_text content
  (braces content).getD content

/-- The letters of the actions are ASCII, and these are the characters that become such
letters in upper case. -/
def upper_code (c : ℕ) : List ℕ :=
  if 97 ≤ c ∧ c ≤ 122 then [c - 32]
  else if c = 0x17f then [83]
  else if c = 0xfb05 ∨ c = 0xfb06 then [83, 84]
  else [c]

/-- `data.get("action", "KEEP").upper()`; `none` where it is not a string. -/
def answered_action (ms : List (List ℕ × Json)) : Option (List ℕ) :=
  match (member "action".toList ms).getD (.string (code_points "KEEP".toList)) with
  | .string action => some (action.flatMap upper_code)
  | _ => none

def answered_reasoning (ms : List (List ℕ × Json)) : Json :=
  (member "reasoning".toList ms).getD (.string [])

section Supervisor

variable (str_field : Json → Option Text) (error : Text)

def supervisor_error : SupervisorResponse :=
  { action := .KEEP, reasoning := "Supervisor error: ".toList ++ error }

/-- `supervisor_check` from the model's answer on. The parameters are what the field
`reasoning: str` of the response makes of a value, and the text of an exception. -/
def supervisor_check (tp_sl_mode : Text) (content : Text) : SupervisorResponse :=
  match loads true (supervisor_extract content) with
  | some (.object ms) =>
      match answered_action ms with
      | some action =>
          let action : SupervisorAction :=
            if action = code_points "CLOSE".toList then .CLOSE
            else if action = code_points "ADJUST_TP_SL".toList ∧ tp_sl_mode = "dynamic".toList then
              .ADJUST_TP_SL
            else .KEEP
          match str_field (answered_reasoning ms) with
          | some reasoning => { action, reasoning }
          | none => supervisor_error error
      | none => supervisor_error error
  | _ => supervisor_error error

end Supervisor

/-- Text without braces or backticks. -/
def Surrounding : Type := { t : Text // '{' ∉ t ∧ '}' ∉ t ∧ '`' ∉ t }

/-- How an answer holds an object: as it stands, or in a fence with a name or without. -/
inductive Embedding where
  | bare (pre post : Surrounding)
  | json_fence (pre a b post : Surrounding)
  | plain_fence (pre a b post : Surrounding)

def Embedding.content (J : Text) : Embedding → Text
  | .bare pre post => pre.val ++ (J ++ post.val)
  | .json_fence pre a b post =>
      pre.val ++ (JSON_FENCE ++ (a.val ++ (J ++ (b.val ++ (FENCE ++ post.val)))))
  | .plain_fence pre a b post =>
      pre.val ++ (FENCE ++ (a.val ++ (J ++ (b.val ++ (FENCE ++ post.val)))))

def NAME : Text := "json".toList

/-- A plain fence is read as one with a name where `json` follows its first marker, and
its second marker is where `json` follows only that. -/
def Embedding.Marked : Embedding → Prop
  | .plain_fence _ a _ post => NAME <+: a.val ∨ ¬ NAME <+: post.val
  | _ => True

/-- Nothing but space is taken along with the object. -/
def Embedding.Alone : Embedding → Prop
  | .bare pre post => Blank pre.val ∧ Blank post.val
  | .json_fence _ a b _ => (∀ c ∈ a.val, isspace c = true) ∧ ∀ c ∈ b.val, isspace c = true
  | .plain_fence _ a b _ =>
      (∀ c ∈ if NAME <+: a.val then a.val.drop NAME.length else a.val, isspace c = true) ∧
        ∀ c ∈ b.val, isspace c = true

/-- Where both extractions find the object. -/
structure Extractable (e : Embedding) (J : Text) : Prop where
  no_fence : ¬ FENCE <:+: J
  marked : e.Marked
  nested : ∀ p, p <+: strip J → p ≠ [] → p ≠ strip J → p.count '}' < p.count '{'
  closed : J.count '{' = J.count '}' ∨ e.Alone

/-- The depth is still positive behind the text. -/
def Deep (depth : ℕ) (p : Text) : Prop := p.count '}' < depth + p.count '{'

theorem deep_open (depth : ℕ) (p : Text) : Deep depth ('{' :: p) ↔ Deep (depth + 1) p := by
  simp [Deep]
  omega

theorem deep_close (depth : ℕ) (p : Text) : Deep (depth + 1) ('}' :: p) ↔ Deep depth p := by
  simp [Deep]
  omega

theorem deep_plain {c : Char} (hopen : c ≠ '{') (hclose : c ≠ '}') (depth : ℕ) (p : Text) :
    Deep depth (c :: p) ↔ Deep depth p := by
  simp [Deep, hopen, hclose]

theorem deep_nil {depth : ℕ} (h : 0 < depth) : Deep depth [] := by
  simpa [Deep] using h

/-- What the scan finds begins the text, and its last brace is the first to close it. -/
structure Scanned (depth : ℕ) (t r : Text) : Prop where
  begins : r <+: t
  closed : r.count '}' = depth + r.count '{'
  deep : ∀ p, p <+: r → p ≠ r → Deep depth p

theorem Scanned.cons {depth d : ℕ} {c : Char} {t r : Text} (h : Scanned d t r)
    (hpos : 0 < depth) (hd : ∀ p, Deep depth (c :: p) ↔ Deep d p)
    (hclosed : (c :: r).count '}' = depth + (c :: r).count '{') :
    Scanned depth (c :: t) (c :: r) := by
  refine ⟨List.cons_prefix_cons.mpr ⟨rfl, h.begins⟩, hclosed, ?_⟩
  intro p hp hne
  rcases List.prefix_cons_iff.mp hp with rfl | ⟨p, rfl, hp'⟩
  · exact deep_nil hpos
  · exact (hd p).mpr (h.deep p hp' fun heq => hne (by rw [heq]))

theorem scan_some {depth : ℕ} {t r : Text} (hpos : 0 < depth) (h : scan depth t = some r) :
    Scanned depth t r := by
  induction t generalizing depth r with
  | nil => simp [scan] at h
  | cons c t ih =>
      rw [scan] at h
      split_ifs at h with hopen hclose hzero
      · obtain ⟨r', hr, rfl⟩ := Option.map_eq_some_iff.mp h
        subst hopen
        have hscan := ih (Nat.succ_pos depth) hr
        refine hscan.cons hpos (deep_open depth) ?_
        have hclosed := hscan.closed
        simp
        omega
      · obtain rfl := Option.some.inj h
        obtain rfl : depth = 1 := by omega
        subst hclose
        refine ⟨by simp, by simp, ?_⟩
        intro p hp hne
        rcases List.prefix_cons_iff.mp hp with rfl | ⟨p, rfl, hp⟩
        · exact deep_nil one_pos
        · exact absurd (by simpa using hp) hne
      · obtain ⟨r', hr, rfl⟩ := Option.map_eq_some_iff.mp h
        obtain ⟨depth, rfl⟩ : ∃ d, depth = d + 1 := ⟨depth - 1, by omega⟩
        subst hclose
        have hscan := ih (by omega) hr
        refine hscan.cons hpos (deep_close depth) ?_
        have hclosed := hscan.closed
        simp at hclosed ⊢
        omega
      · obtain ⟨r', hr, rfl⟩ := Option.map_eq_some_iff.mp h
        have hscan := ih hpos hr
        refine hscan.cons hpos (deep_plain hopen hclose depth) ?_
        simpa [hopen, hclose] using hscan.closed

theorem scan_none {depth : ℕ} {t : Text} (hpos : 0 < depth) (h : scan depth t = none) :
    ∀ p, p <+: t → Deep depth p := by
  induction t generalizing depth with
  | nil =>
      intro p hp
      rw [List.prefix_nil.mp hp]
      exact deep_nil hpos
  | cons c t ih =>
      intro p hp
      rcases List.prefix_cons_iff.mp hp with rfl | ⟨p, rfl, hp'⟩
      · exact deep_nil hpos
      · rw [scan] at h
        split_ifs at h with hopen hclose hzero
        · subst hopen
          exact (deep_open depth p).mpr (ih (Nat.succ_pos depth) (by simpa using h) p hp')
        · obtain ⟨depth, rfl⟩ : ∃ d, depth = d + 1 := ⟨depth - 1, by omega⟩
          subst hclose
          exact (deep_close depth p).mpr (ih (by omega) (by simpa using h) p hp')
        · exact (deep_plain hopen hclose depth p).mpr (ih hpos (by simpa using h) p hp')

/-- What follows decides nothing where a scan has ended, and where it holds no brace. -/
theorem scan_append {depth : ℕ} {t r : Text} (h : scan depth t = some r) (q : Text) :
    scan depth (t ++ q) = some r := by
  induction t generalizing depth r with
  | nil => simp [scan] at h
  | cons c t ih =>
      rw [scan] at h
      rw [List.cons_append, scan]
      split_ifs at h ⊢
      · obtain ⟨r', hr, rfl⟩ := Option.map_eq_some_iff.mp h
        rw [ih hr, Option.map_some]
      · exact h
      · obtain ⟨r', hr, rfl⟩ := Option.map_eq_some_iff.mp h
        rw [ih hr, Option.map_some]
      · obtain ⟨r', hr, rfl⟩ := Option.map_eq_some_iff.mp h
        rw [ih hr, Option.map_some]

theorem scan_plain {q : Text} (hopen : '{' ∉ q) (hclose : '}' ∉ q) (depth : ℕ) :
    scan depth q = none := by
  induction q with
  | nil => simp [scan]
  | cons c q ih =>
      simp only [List.mem_cons, not_or] at hopen hclose
      rw [scan, if_neg (Ne.symm hopen.1), if_neg (Ne.symm hclose.1), ih hopen.2 hclose.2,
        Option.map_none]

theorem scan_append_none {depth : ℕ} {t q : Text} (h : scan depth t = none) (hopen : '{' ∉ q)
    (hclose : '}' ∉ q) : scan depth (t ++ q) = none := by
  induction t generalizing depth with
  | nil => exact scan_plain hopen hclose depth
  | cons c t ih =>
      rw [scan] at h
      rw [List.cons_append, scan]
      split_ifs at h ⊢
      · rw [ih (by simpa using h), Option.map_none]
      · rw [ih (by simpa using h), Option.map_none]
      · rw [ih (by simpa using h), Option.map_none]

section Braces

variable {ms : List (List ℕ × Json)} {c p q : Text}

theorem dropWhile_brace {p x : Text} (hp : '{' ∉ p) :
    (p ++ '{' :: x).dropWhile (· ≠ '{') = '{' :: x := by
  have hall : ∀ d ∈ p, decide (d ≠ '{') = true := by
    intro d hd
    have hne : d ≠ '{' := fun heq => hp (heq ▸ hd)
    simpa using hne
  rw [List.dropWhile_append_of_pos hall, List.dropWhile_cons_of_neg (by simp)]

theorem first_brace {p w x y : Text} (hp : '{' ∉ p) (hw : '{' ∉ w)
    (heq : p ++ '{' :: x = w ++ '{' :: y) : p = w ∧ x = y := by
  have hdrop := congrArg (List.dropWhile (· ≠ '{')) heq
  rw [dropWhile_brace hp, dropWhile_brace hw] at hdrop
  rw [hdrop] at heq
  exact ⟨List.append_cancel_right heq, (List.cons.inj hdrop).2⟩

theorem not_mem_blank {d : Char} (hd : whitespace d = false) {w : Text} (hw : Blank w) :
    d ∉ w := by
  intro hmem
  rw [hw d hmem] at hd
  cases hd

theorem object_text_head (hc : Spells true (.value (.object ms)) c) : ∃ t, c = '{' :: t := by
  obtain ⟨w, d, t, rfl, -⟩ := object_text_cases hc
  exact ⟨_, rfl⟩

/-- A text that has an object's text behind no other brace has the object for its value
where blanks surround that. -/
theorem loads_around_iff (hc : Spells true (.value (.object ms)) c) (hp : '{' ∉ p) :
    loads true (p ++ (c ++ q)) = some (.object ms) ↔ Blank p ∧ Blank q := by
  rw [loads_iff]
  constructor
  · rintro ⟨w, k, w', heq, hw, hk, hw'⟩
    obtain ⟨t, rfl⟩ := object_text_head hc
    obtain ⟨t', rfl⟩ := object_text_head hk
    obtain ⟨rfl, htail⟩ := first_brace hp (not_mem_blank rfl hw) heq
    have hsame : ('{' :: t) ++ q = ('{' :: t') ++ w' := congrArg ('{' :: ·) htail
    obtain ⟨hc', -⟩ := object_text_unique hc hk hsame
    rw [hc'] at hsame
    exact ⟨hw, List.append_cancel_left hsame ▸ hw'⟩
  · rintro ⟨hp, hq⟩
    exact ⟨p, c, q, rfl, hp, hc, hq⟩

/-- The beginning of an object's text is not another text of the object. -/
theorem loads_begins_iff {r : Text} (hc : Spells true (.value (.object ms)) c) (hr : r <+: c)
    (hne : r ≠ []) : loads true r = some (.object ms) ↔ r = c := by
  constructor
  · intro h
    obtain ⟨w, k, w', rfl, hw, hk, -⟩ := loads_iff.mp h
    obtain ⟨s, hs⟩ := hr
    obtain ⟨t, ht⟩ := object_text_head hc
    obtain ⟨t', ht'⟩ := object_text_head hk
    have hfirst : [] ++ '{' :: t = w ++ '{' :: (t' ++ (w' ++ s)) := by
      rw [List.nil_append, ← ht, ← hs, ht']
      simp
    obtain ⟨rfl, -⟩ := first_brace (by simp) (not_mem_blank rfl hw) hfirst
    have hsame : k ++ (w' ++ s) = c ++ [] := by simpa using hs
    obtain ⟨rfl, -⟩ := object_text_unique hk hc hsame
    have hrest : w' ++ s = [] := List.append_cancel_left hsame
    rw [(List.append_eq_nil_iff.mp hrest).1]
    simp
  · rintro rfl
    exact loads_iff.mpr ⟨[], r, [], by simp, by simp [Blank], hc, by simp [Blank]⟩

theorem finish_iff (hc : Spells true (.value (.object ms)) c) (hp : '{' ∉ p)
    (hq : '{' ∉ q) (hq' : '}' ∉ q) :
    loads true ((braces (p ++ (c ++ q))).getD (p ++ (c ++ q))) = some (.object ms) ↔
      (∀ r, r <+: c → r ≠ [] → r ≠ c → r.count '}' < r.count '{') ∧
        (c.count '{' = c.count '}' ∨ Blank p ∧ Blank q) := by
  obtain ⟨t, rfl⟩ := object_text_head hc
  have hbraces : braces (p ++ ('{' :: t ++ q)) = (scan 1 (t ++ q)).map ('{' :: ·) := by
    rw [braces, List.cons_append, dropWhile_brace hp, scan, if_pos rfl]
  have hdeep (r : Text) : r.count '}' < ('{' :: r).count '{' ↔ Deep 1 r := by
    simp [Deep, Nat.add_comm]
  rw [hbraces]
  rcases hscan : scan 1 t with _ | r
  · have hnone := scan_none one_pos hscan
    rw [scan_append_none hscan hq hq', Option.map_none, Option.getD_none, loads_around_iff hc hp]
    have hopen : ('{' :: t).count '}' < ('{' :: t).count '{' := by
      simpa using (hdeep t).mpr (hnone t List.prefix_rfl)
    constructor
    · intro hblank
      refine ⟨?_, .inr hblank⟩
      intro r hr hne _
      rcases List.prefix_cons_iff.mp hr with rfl | ⟨r, rfl, hr'⟩
      · exact absurd rfl hne
      · simpa using (hdeep r).mpr (hnone r hr')
    · rintro ⟨-, heq | hblank⟩
      · omega
      · exact hblank
  · have hscanned := scan_some one_pos hscan
    have hbegins : '{' :: r <+: '{' :: t := List.cons_prefix_cons.mpr ⟨rfl, hscanned.begins⟩
    have hclosed : ('{' :: r).count '{' = ('{' :: r).count '}' := by
      have hcount := hscanned.closed
      simp
      omega
    rw [scan_append hscan, Option.map_some, Option.getD_some,
      loads_begins_iff hc hbegins (List.cons_ne_nil _ _)]
    constructor
    · intro heq
      rw [heq] at hclosed
      refine ⟨?_, .inl hclosed⟩
      obtain ⟨-, rfl⟩ := List.cons.inj heq
      intro s hs hne hproper
      rcases List.prefix_cons_iff.mp hs with rfl | ⟨s, rfl, hs'⟩
      · exact absurd rfl hne
      · simpa using (hdeep s).mpr (hscanned.deep s hs' fun h => hproper (by rw [h]))
    · rintro ⟨hnested, -⟩
      by_contra hproper
      have hlt := hnested _ hbegins (List.cons_ne_nil _ _) hproper
      omega

end Braces

section Strip

variable {a b c J : Text}

theorem isspace_of_whitespace {d : Char} (h : whitespace d = true) : isspace d = true := by
  simp only [whitespace, Bool.or_eq_true, decide_eq_true_eq] at h
  rcases h with ((rfl | rfl) | rfl) | rfl
  · rfl
  · rfl
  · rfl
  · rfl

theorem dropWhile_append_head {f : Char → Bool} {u x : Text} (hx : ∀ d ∈ x.head?, f d = false) :
    (u ++ x).dropWhile f = u.dropWhile f ++ x := by
  rw [List.dropWhile_append]
  split
  next hempty =>
      rw [List.isEmpty_iff.mp hempty, List.nil_append]
      rcases x with _ | ⟨d, x⟩
      · rfl
      · rw [List.dropWhile_cons_of_neg (by simp [hx d rfl])]
  next => rfl

theorem rdropWhile_append_last {f : Char → Bool} {x v : Text}
    (hx : ∀ d ∈ x.getLast?, f d = false) :
    (x ++ v).rdropWhile f = x ++ v.rdropWhile f := by
  have hhead : ∀ d ∈ x.reverse.head?, f d = false := by simpa using hx
  rw [List.rdropWhile, List.rdropWhile, List.reverse_append, dropWhile_append_head hhead,
    List.reverse_append, List.reverse_reverse]

theorem strip_within (t : Text) : strip t <:+: t :=
  (List.rdropWhile_prefix _ _).isInfix.trans (List.dropWhile_suffix _).isInfix

/-- A text that begins and ends with a character that is no space. -/
structure Tight (c : Text) : Prop where
  head : ∀ d ∈ c.head?, isspace d = false
  last : ∀ d ∈ c.getLast?, isspace d = false
  ne_nil : c ≠ []

theorem strip_around (h : Tight c) (u v : Text) :
    strip (u ++ (c ++ v)) = u.dropWhile isspace ++ (c ++ v.rdropWhile isspace) := by
  have hhead : ∀ d ∈ (c ++ v).head?, isspace d = false := by
    rw [List.head?_append_of_ne_nil c h.ne_nil]
    exact h.head
  have hlast : ∀ d ∈ (u.dropWhile isspace ++ c).getLast?, isspace d = false := by
    rw [List.getLast?_append_of_ne_nil _ h.ne_nil]
    exact h.last
  rw [strip, dropWhile_append_head hhead, ← List.append_assoc, rdropWhile_append_last hlast,
    List.append_assoc]

theorem strip_blanks {w w' : Text} (h : Tight c) (hw : Blank w) (hw' : Blank w') :
    strip (w ++ (c ++ w')) = c := by
  rw [strip_around h, List.dropWhile_eq_nil_iff.mpr fun d hd => isspace_of_whitespace (hw d hd),
    List.rdropWhile_eq_nil_iff.mpr fun d hd => isspace_of_whitespace (hw' d hd), List.nil_append,
    List.append_nil]

theorem blank_dropWhile_iff (u : Text) :
    Blank (u.dropWhile isspace) ↔ ∀ d ∈ u, isspace d = true := by
  rw [← List.dropWhile_eq_nil_iff]
  constructor
  · intro h
    rcases hu : u.dropWhile isspace with _ | ⟨d, t⟩
    · rfl
    · rw [hu] at h
      have hspace := isspace_of_whitespace (h d List.mem_cons_self)
      have hnot := List.head?_dropWhile_not isspace u
      rw [hu] at hnot
      simp [hspace] at hnot
  · intro h
    rw [h]
    exact fun d hd => absurd hd List.not_mem_nil

theorem blank_reverse (u : Text) : Blank u.reverse ↔ Blank u := by
  simp [Blank]

theorem blank_rdropWhile_iff (u : Text) :
    Blank (u.rdropWhile isspace) ↔ ∀ d ∈ u, isspace d = true := by
  rw [List.rdropWhile, blank_reverse, blank_dropWhile_iff]
  simp

end Strip

section Content

/-- A text that holds an object's between blanks. -/
structure Holds (ms : List (List ℕ × Json)) (J c w w' : Text) : Prop where
  text : J = w ++ (c ++ w')
  object : Spells true (.value (.object ms)) c
  before : Blank w
  after : Blank w'

variable {ms : List (List ℕ × Json)} {J c w w' : Text}

theorem exists_holds (h : loads false J = some (.object ms)) : ∃ c w w', Holds ms J c w w' := by
  obtain ⟨w, c, w', htext, hw, hc, hw'⟩ := loads_iff.mp h
  exact ⟨c, w, w', htext, hc.lenient, hw, hw'⟩

theorem Holds.tight (h : Holds ms J c w w') : Tight c := by
  obtain ⟨t, rfl⟩ := object_text_head h.object
  refine ⟨?_, ?_, List.cons_ne_nil _ _⟩
  · intro d hd
    obtain rfl : '{' = d := by simpa using hd
    rfl
  · intro d hd
    rw [object_text_last h.object] at hd
    obtain rfl : '}' = d := by simpa using hd
    rfl

theorem Holds.strip (h : Holds ms J c w w') : strip J = c := by
  rw [h.text, strip_blanks h.tight h.before h.after]

theorem Holds.count (h : Holds ms J c w w') :
    J.count '{' = c.count '{' ∧ J.count '}' = c.count '}' := by
  have hblank {u : Text} (hu : Blank u) : u.count '{' = 0 ∧ u.count '}' = 0 :=
    ⟨List.count_eq_zero.mpr (not_mem_blank rfl hu), List.count_eq_zero.mpr (not_mem_blank rfl hu)⟩
  obtain ⟨hopen, hclose⟩ := hblank h.before
  obtain ⟨hopen', hclose'⟩ := hblank h.after
  rw [h.text]
  simp [hopen, hclose, hopen', hclose']

theorem fence_ne_nil : FENCE ≠ [] := List.cons_ne_nil _ _

theorem json_fence_ne_nil : JSON_FENCE ≠ [] := List.cons_ne_nil _ _

theorem planner_text_narrow (t : Text) : planner_text t <:+: t ∧ ¬ FENCE <:+: planner_text t := by
  have hcut (rest u : Text) (hrest : rest <:+ t) (hu : u <+: rest) :
      strip (before FENCE u) <:+: t ∧ ¬ FENCE <:+: strip (before FENCE u) := by
    have hbefore : before FENCE u <:+: t :=
      (before_begins _ _).isInfix.trans (hu.isInfix.trans hrest.isInfix)
    exact ⟨(strip_within _).trans hbefore,
      fun h => not_infix_before fence_ne_nil u (h.trans (strip_within _))⟩
  unfold planner_text
  split
  next rest hjson => exact hcut rest _ (after_suffix hjson) (before_begins _ _)
  next =>
      split
      next rest hfence => exact hcut rest _ (after_suffix hfence) (before_begins _ _)
      next hfence => exact ⟨List.infix_rfl, not_infix_of_after fence_ne_nil hfence⟩

theorem supervisor_text_eq (t : Text) :
    supervisor_text t = (((after JSON_FENCE t).or (after FENCE t)).map
      fun rest => strip (before FENCE rest)).getD t := by
  unfold supervisor_text
  rcases hjson : after JSON_FENCE t with _ | rest
  · rcases hfence : after FENCE t with _ | rest
    · simp [hjson, hfence]
    · simp [hjson, hfence]
  · simp [hjson]

theorem supervisor_text_narrow (t : Text) :
    supervisor_text t <:+: t ∧ ¬ FENCE <:+: supervisor_text t := by
  rw [supervisor_text_eq]
  rcases hrest : (after JSON_FENCE t).or (after FENCE t) with _ | rest
  · have hfence : after FENCE t = none := (Option.or_eq_none_iff.mp hrest).2
    exact ⟨List.infix_rfl, not_infix_of_after fence_ne_nil hfence⟩
  · have hsuffix : rest <:+ t := by
      rcases Option.or_eq_some_iff.mp hrest with hjson | ⟨-, hfence⟩
      · exact after_suffix hjson
      · exact after_suffix hfence
    have hbefore : strip (before FENCE rest) <:+: before FENCE rest := strip_within _
    exact ⟨hbefore.trans ((before_begins _ _).isInfix.trans hsuffix.isInfix),
      fun h => not_infix_before fence_ne_nil rest (h.trans hbefore)⟩

/-- No marker begins in the text, whatever follows it. -/
structure Unfenced (u : Text) : Prop where
  plain : Clear FENCE u
  named : Clear JSON_FENCE u

theorem unfenced_of_not_mem {u : Text} (h : '`' ∉ u) : Unfenced u :=
  ⟨clear_of_not_mem h, clear_of_not_mem h⟩

theorem Surrounding.unfenced (u : Surrounding) : Unfenced u.val :=
  unfenced_of_not_mem u.property.2.2

/-- The first and the last character of an object's text belong to no marker. -/
theorem Holds.ends (h : Holds ms J c w w') :
    (∃ d t, J = d :: t ∧ d ∉ JSON_FENCE) ∧ ∃ d, J.getLast? = some d ∧ d ∉ JSON_FENCE := by
  have hspace {d : Char} (hd : whitespace d = true) : d ∉ JSON_FENCE := by
    intro hmem
    have hall : JSON_FENCE.all (fun x => !whitespace x) = true := by decide
    have hblack := List.all_eq_true.mp hall d hmem
    simp [hd] at hblack
  refine ⟨?_, ?_⟩
  · obtain ⟨t, ht⟩ := object_text_head h.object
    rcases w with _ | ⟨d, w⟩
    · exact ⟨'{', _, by rw [h.text, ht]; rfl, by decide⟩
    · exact ⟨d, _, h.text, hspace (h.before d List.mem_cons_self)⟩
  · rcases List.eq_nil_or_concat w' with rfl | ⟨v, d, rfl⟩
    · refine ⟨'}', ?_, by decide⟩
      rw [h.text, List.append_nil, List.getLast?_append_of_ne_nil _ h.tight.ne_nil]
      exact object_text_last h.object
    · refine ⟨d, ?_, hspace (h.after d (by simp))⟩
      rw [h.text, List.concat_eq_append, ← List.append_assoc, ← List.append_assoc,
        List.getLast?_concat]

theorem Holds.unfenced (h : Holds ms J c w w') (hJ : ¬ FENCE <:+: J) : Unfenced J := by
  obtain ⟨-, d, hlast, hd⟩ := h.ends
  have hpart : FENCE <+: JSON_FENCE := ⟨NAME, rfl⟩
  exact ⟨clear_of_last hJ hlast fun hmem => hd (hpart.subset hmem),
    clear_of_last (fun hjson => hJ (hpart.isInfix.trans hjson)) hlast hd⟩

theorem after_json_fence_named (u : Text) : after JSON_FENCE (FENCE ++ (NAME ++ u)) = some u :=
  after_marker json_fence_ne_nil u

theorem partition_json_fence_plain {u : Text} (hname : ¬ NAME <+: u)
    (hhead : ∀ t, u ≠ '`' :: t) :
    partition JSON_FENCE (FENCE ++ u) = (FENCE ++ before JSON_FENCE u, after JSON_FENCE u) := by
  have hfirst : ¬ startswith ('`' :: '`' :: '`' :: u) JSON_FENCE = true := by
    intro h
    have hbegins : FENCE ++ NAME <+: FENCE ++ u := List.isPrefixOf_iff_prefix.mp h
    exact hname ((List.prefix_append_right_inj FENCE).mp hbegins)
  have hlater {m : Text} : ¬ '`' :: m <+: u := by
    rintro ⟨t, ht⟩
    exact hhead _ ht.symm
  have hsecond : ¬ startswith ('`' :: '`' :: u) JSON_FENCE = true := by
    intro h
    have hbegins : '`' :: '`' :: '`' :: NAME <+: '`' :: '`' :: u := List.isPrefixOf_iff_prefix.mp h
    exact hlater (List.cons_prefix_cons.mp (List.cons_prefix_cons.mp hbegins).2).2
  have hthird : ¬ startswith ('`' :: u) JSON_FENCE = true := by
    intro h
    have hbegins : '`' :: '`' :: '`' :: NAME <+: '`' :: u := List.isPrefixOf_iff_prefix.mp h
    exact hlater (List.cons_prefix_cons.mp hbegins).2
  have hfence : FENCE ++ u = '`' :: '`' :: '`' :: u := rfl
  rw [hfence, partition, if_neg hfirst, partition, if_neg hsecond, partition, if_neg hthird]
  rfl

/-- What stands behind the closing marker of a fence. -/
theorem after_closing {post : Text} (h : '`' ∉ post) :
    after JSON_FENCE (FENCE ++ post) =
        (if NAME <+: post then some (post.drop NAME.length) else none) ∧
      before FENCE (before JSON_FENCE (FENCE ++ post)) = [] := by
  split_ifs with hname
  · obtain ⟨u, rfl⟩ := hname
    rw [List.drop_left]
    refine ⟨after_json_fence_named u, ?_⟩
    have hbefore : before JSON_FENCE (FENCE ++ (NAME ++ u)) = [] :=
      before_marker json_fence_ne_nil u
    rw [hbefore]
    rfl
  · have hhead (t : Text) : post ≠ '`' :: t := by
      rintro rfl
      simp at h
    have hclear := (unfenced_of_not_mem h).named
    have hparts := partition_json_fence_plain hname hhead
    refine ⟨?_, ?_⟩
    · rw [after, hparts, after_of_clear hclear]
    · rw [before.eq_def JSON_FENCE, hparts, before_of_clear hclear, before_marker fence_ne_nil]

/-- The text of a fence, with what follows the fence. -/
def fenced (a b post J : Text) : Text := a ++ (J ++ (b ++ (FENCE ++ post)))

theorem cut_fenced {a b post J : Text} (ha : Unfenced a) (hJ : Unfenced J) (hb : Unfenced b)
    (hpost : '`' ∉ post) :
    before FENCE (fenced a b post J) = a ++ (J ++ b) ∧
      before FENCE (before JSON_FENCE (fenced a b post J)) = a ++ (J ++ b) := by
  unfold fenced
  refine ⟨?_, ?_⟩
  · rw [before_clear ha.plain, before_clear hJ.plain, before_clear hb.plain,
      before_marker fence_ne_nil, List.append_nil]
  · rw [before_clear ha.named, before_clear hJ.named, before_clear hb.named,
      before_clear ha.plain, before_clear hJ.plain, before_clear hb.plain,
      (after_closing hpost).2, List.append_nil]

/-- What the answer is narrowed to. -/
def Embedding.inner (J : Text) : Embedding → Text
  | .bare pre post => pre.val ++ (J ++ post.val)
  | .json_fence _ a b _ => strip (a.val ++ (J ++ b.val))
  | .plain_fence _ a b post =>
      if NAME <+: a.val then strip (a.val.drop NAME.length ++ (J ++ b.val))
      else if NAME <+: post.val then strip (post.val.drop NAME.length)
      else strip (a.val ++ (J ++ b.val))

/-- A plain fence before a text that begins with its name is one with a name. -/
def Embedding.named (pre a b post : Surrounding) : Embedding :=
  .json_fence pre
    ⟨a.val.drop NAME.length, fun h => a.property.1 (List.mem_of_mem_drop h),
      fun h => a.property.2.1 (List.mem_of_mem_drop h),
      fun h => a.property.2.2 (List.mem_of_mem_drop h)⟩ b post

theorem content_named {a : Surrounding} (h : NAME <+: a.val) (pre b post : Surrounding)
    (J : Text) :
    (Embedding.plain_fence pre a b post).content J = (Embedding.named pre a b post).content J := by
  obtain ⟨u, hu⟩ := h
  simp only [Embedding.content, Embedding.named, ← hu, List.drop_left, List.append_assoc]
  rfl

theorem not_named_append {a : Text} {d : Char} (h : ¬ NAME <+: a) (hd : d ∉ NAME) (t : Text) :
    ¬ NAME <+: a ++ d :: t := by
  intro hname
  rcases List.prefix_or_prefix_of_prefix hname (List.prefix_append a (d :: t)) with ha | ⟨s, hs⟩
  · exact h ha
  · rw [← hs] at hname
    rcases s with _ | ⟨x, s⟩
    · exact h ⟨[], by simpa using hs.symm⟩
    · obtain ⟨rfl, -⟩ := List.cons_prefix_cons.mp ((List.prefix_append_right_inj a).mp hname)
      exact hd (by simp [← hs])

/-- Behind a plain fence that is not read as one with a name, the next marker with a name
is the closing one. -/
theorem after_plain {a b post : Surrounding} (h : Holds ms J c w w') (hJ : Unfenced J)
    (hname : ¬ NAME <+: a.val) :
    after JSON_FENCE (FENCE ++ fenced a.val b.val post.val J) =
      if NAME <+: post.val then some (post.val.drop NAME.length) else none := by
  obtain ⟨⟨d, t, htext, hd⟩, -⟩ := h.ends
  have hpart : NAME <:+ JSON_FENCE := ⟨FENCE, rfl⟩
  have hrest : fenced a.val b.val post.val J =
      a.val ++ d :: (t ++ (b.val ++ (FENCE ++ post.val))) := by
    rw [fenced, htext]
    rfl
  have hplain : ¬ NAME <+: fenced a.val b.val post.val J := by
    rw [hrest]
    exact not_named_append hname (fun hmem => hd (hpart.subset hmem)) _
  have hhead (u : Text) : fenced a.val b.val post.val J ≠ '`' :: u := by
    rw [hrest]
    intro heq
    rcases ha : a.val with _ | ⟨x, v⟩
    · rw [ha] at heq
      obtain ⟨rfl, -⟩ := List.cons.inj heq
      exact hd (by decide)
    · rw [ha] at heq
      obtain ⟨rfl, -⟩ := List.cons.inj heq
      exact a.property.2.2 (by simp [ha])
  rw [after, partition_json_fence_plain hplain hhead, fenced, after_clear a.unfenced.named,
    after_clear hJ.named, after_clear b.unfenced.named, (after_closing post.property.2.2).1]

theorem texts_of_json {t rest : Text} (h : after JSON_FENCE t = some rest) :
    planner_text t = strip (before FENCE (before JSON_FENCE rest)) ∧
      supervisor_text t = strip (before FENCE rest) := by
  rw [supervisor_text_eq, planner_text, h]
  exact ⟨rfl, rfl⟩

theorem texts_of_fence {t rest : Text} (hjson : after JSON_FENCE t = none)
    (h : after FENCE t = some rest) :
    planner_text t = strip (before FENCE (before FENCE rest)) ∧
      supervisor_text t = strip (before FENCE rest) := by
  rw [supervisor_text_eq, planner_text, hjson, h]
  exact ⟨rfl, rfl⟩

theorem texts_of_none {t : Text} (hjson : after JSON_FENCE t = none)
    (h : after FENCE t = none) : planner_text t = t ∧ supervisor_text t = t := by
  rw [supervisor_text_eq, planner_text, hjson, h]
  exact ⟨rfl, rfl⟩

theorem texts_json_fence (hJ : Unfenced J) (pre a b post : Surrounding) :
    planner_text ((Embedding.json_fence pre a b post).content J) = strip (a.val ++ (J ++ b.val)) ∧
      supervisor_text ((Embedding.json_fence pre a b post).content J) =
        strip (a.val ++ (J ++ b.val)) := by
  have hrest : after JSON_FENCE ((Embedding.json_fence pre a b post).content J) =
      some (fenced a.val b.val post.val J) := by
    rw [Embedding.content, after_clear pre.unfenced.named, after_marker json_fence_ne_nil]
    rfl
  obtain ⟨hcut, hcut'⟩ := cut_fenced a.unfenced hJ b.unfenced post.property.2.2
  obtain ⟨hplanner, hsupervisor⟩ := texts_of_json hrest
  rw [hplanner, hsupervisor, hcut, hcut']
  exact ⟨rfl, rfl⟩

theorem texts_plain_fence (h : Holds ms J c w w') (hJ : Unfenced J) {a : Surrounding}
    (hname : ¬ NAME <+: a.val) (pre b post : Surrounding) :
    planner_text ((Embedding.plain_fence pre a b post).content J) =
        (Embedding.plain_fence pre a b post).inner J ∧
      supervisor_text ((Embedding.plain_fence pre a b post).content J) =
        (Embedding.plain_fence pre a b post).inner J := by
  have hcontent : (Embedding.plain_fence pre a b post).content J =
      pre.val ++ (FENCE ++ fenced a.val b.val post.val J) := rfl
  have hafter : after JSON_FENCE ((Embedding.plain_fence pre a b post).content J) =
      if NAME <+: post.val then some (post.val.drop NAME.length) else none := by
    rw [hcontent, after_clear pre.unfenced.named, after_plain h hJ hname]
  rw [Embedding.inner, if_neg hname]
  by_cases hpost : NAME <+: post.val
  · rw [if_pos hpost] at hafter ⊢
    obtain ⟨hplanner, hsupervisor⟩ := texts_of_json hafter
    have hclear : Unfenced (post.val.drop NAME.length) :=
      unfenced_of_not_mem fun hmem => post.property.2.2 (List.mem_of_mem_drop hmem)
    rw [hplanner, hsupervisor, before_of_clear hclear.named, before_of_clear hclear.plain]
    exact ⟨rfl, rfl⟩
  · rw [if_neg hpost] at hafter ⊢
    have hrest : after FENCE ((Embedding.plain_fence pre a b post).content J) =
        some (fenced a.val b.val post.val J) := by
      rw [hcontent, after_clear pre.unfenced.plain, after_marker fence_ne_nil]
    obtain ⟨hplanner, hsupervisor⟩ := texts_of_fence hafter hrest
    have hwhole : before FENCE (a.val ++ (J ++ b.val)) = a.val ++ (J ++ b.val) := by
      rw [before_clear a.unfenced.plain, before_clear hJ.plain, before_of_clear b.unfenced.plain]
    rw [hplanner, hsupervisor,
      (cut_fenced a.unfenced hJ b.unfenced post.property.2.2).1, hwhole]
    exact ⟨rfl, rfl⟩

theorem texts_content (h : Holds ms J c w w') (hJ : Unfenced J) (e : Embedding) :
    planner_text (e.content J) = e.inner J ∧ supervisor_text (e.content J) = e.inner J := by
  rcases e with ⟨pre, post⟩ | ⟨pre, a, b, post⟩ | ⟨pre, a, b, post⟩
  · apply texts_of_none
    · rw [Embedding.content, after_clear pre.unfenced.named, after_clear hJ.named,
        after_of_clear post.unfenced.named]
    · rw [Embedding.content, after_clear pre.unfenced.plain, after_clear hJ.plain,
        after_of_clear post.unfenced.plain]
  · exact texts_json_fence hJ pre a b post
  · by_cases hname : NAME <+: a.val
    · rw [content_named hname, Embedding.inner, if_pos hname]
      exact texts_json_fence hJ pre _ b post
    · exact texts_plain_fence h hJ hname pre b post

theorem Holds.around (h : Holds ms J c w w') (u v : Text) :
    u ++ (J ++ v) = (u ++ w) ++ (c ++ (w' ++ v)) := by
  rw [h.text]
  simp

theorem Holds.around_iff (h : Holds ms J c w w') {u v p q : Text} (hu : '{' ∉ u) (hv : '{' ∉ v)
    (hv' : '}' ∉ v) (hp : p ⊆ u ++ w) (hq : q ⊆ w' ++ v) :
    loads true ((braces (p ++ (c ++ q))).getD (p ++ (c ++ q))) = some (.object ms) ↔
      (∀ r, r <+: c → r ≠ [] → r ≠ c → r.count '}' < r.count '{') ∧
        (c.count '{' = c.count '}' ∨ Blank p ∧ Blank q) :=
  finish_iff h.object
    (fun hmem => (List.mem_append.mp (hp hmem)).elim hu (not_mem_blank rfl h.before))
    (fun hmem => (List.mem_append.mp (hq hmem)).elim (not_mem_blank rfl h.after) hv)
    (fun hmem => (List.mem_append.mp (hq hmem)).elim (not_mem_blank rfl h.after) hv')

/-- What is narrowed to the object has it for its value unless a brace within its
strings closes it early, or leaves it open among other text. -/
theorem stripped_iff (h : Holds ms J c w w') {u v : Text} (hu : '{' ∉ u) (hv : '{' ∉ v)
    (hv' : '}' ∉ v) :
    loads true ((braces (strip (u ++ (J ++ v)))).getD (strip (u ++ (J ++ v)))) =
        some (.object ms) ↔
      (∀ r, r <+: c → r ≠ [] → r ≠ c → r.count '}' < r.count '{') ∧
        (c.count '{' = c.count '}' ∨
          (∀ d ∈ u, isspace d = true) ∧ ∀ d ∈ v, isspace d = true) := by
  have hiff := h.around_iff hu hv hv' (List.dropWhile_suffix isspace).subset
    (List.rdropWhile_prefix isspace _).subset
  have hw : ∀ d ∈ w, isspace d = true := fun d hd => isspace_of_whitespace (h.before d hd)
  have hw' : ∀ d ∈ w', isspace d = true := fun d hd => isspace_of_whitespace (h.after d hd)
  rw [h.around, strip_around h.tight, hiff, blank_dropWhile_iff, blank_rdropWhile_iff]
  simp only [List.mem_append, or_imp, forall_and]
  rw [and_iff_left hw, and_iff_right hw']

theorem bare_iff (h : Holds ms J c w w') {u v : Text} (hu : '{' ∉ u) (hv : '{' ∉ v)
    (hv' : '}' ∉ v) :
    loads true ((braces (u ++ (J ++ v))).getD (u ++ (J ++ v))) = some (.object ms) ↔
      (∀ r, r <+: c → r ≠ [] → r ≠ c → r.count '}' < r.count '{') ∧
        (c.count '{' = c.count '}' ∨ Blank u ∧ Blank v) := by
  have hleft : Blank (u ++ w) ↔ Blank u := by
    simp only [Blank, List.mem_append, or_imp, forall_and]
    exact and_iff_left h.before
  have hright : Blank (w' ++ v) ↔ Blank v := by
    simp only [Blank, List.mem_append, or_imp, forall_and]
    exact and_iff_right h.after
  rw [h.around, h.around_iff hu hv hv' (List.Subset.refl _) (List.Subset.refl _), hleft, hright]

theorem braceless_text {t : Text} (h : '{' ∉ t) :
    loads true ((braces t).getD t) ≠ some (.object ms) := by
  have hdrop : t.dropWhile (· ≠ '{') = [] := by
    rw [List.dropWhile_eq_nil_iff]
    intro d hd
    have hne : d ≠ '{' := fun heq => h (heq ▸ hd)
    simpa using hne
  have hnone : braces t = none := by
    rw [braces, hdrop, scan]
  rw [hnone, Option.getD_none]
  intro hloads
  obtain ⟨w, k, w', rfl, -, hk, -⟩ := loads_iff.mp hloads
  obtain ⟨u, rfl⟩ := object_text_head hk
  exact h (by simp)

theorem inner_iff (h : Holds ms J c w w') (e : Embedding) :
    loads true ((braces (e.inner J)).getD (e.inner J)) = some (.object ms) ↔
      e.Marked ∧ (∀ r, r <+: c → r ≠ [] → r ≠ c → r.count '}' < r.count '{') ∧
        (c.count '{' = c.count '}' ∨ e.Alone) := by
  rcases e with ⟨pre, post⟩ | ⟨pre, a, b, post⟩ | ⟨pre, a, b, post⟩
  · simpa [Embedding.inner, Embedding.Marked, Embedding.Alone] using
      bare_iff h pre.property.1 post.property.1 post.property.2.1
  · simpa [Embedding.inner, Embedding.Marked, Embedding.Alone] using
      stripped_iff h a.property.1 b.property.1 b.property.2.1
  · by_cases hname : NAME <+: a.val
    · have hdrop : '{' ∉ a.val.drop NAME.length := fun hmem =>
        a.property.1 (List.mem_of_mem_drop hmem)
      simpa [Embedding.inner, Embedding.Marked, Embedding.Alone, hname] using
        stripped_iff h hdrop b.property.1 b.property.2.1
    · by_cases hpost : NAME <+: post.val
      · have hdrop : '{' ∉ strip (post.val.drop NAME.length) := fun hmem =>
          post.property.1 (List.mem_of_mem_drop ((strip_within _).subset hmem))
        simpa [Embedding.inner, Embedding.Marked, hname, hpost] using braceless_text hdrop
      · simpa [Embedding.inner, Embedding.Marked, Embedding.Alone, hname, hpost] using
          stripped_iff h a.property.1 b.property.1 b.property.2.1

theorem braces_within {t r : Text} (h : braces t = some r) : r <:+: t := by
  have hsuffix : t.dropWhile (· ≠ '{') <:+ t := List.dropWhile_suffix _
  unfold braces at h
  rcases hdrop : t.dropWhile (· ≠ '{') with _ | ⟨d, u⟩
  · rw [hdrop] at h
    simp [scan] at h
  · have hd : d = '{' := by
      have hnot := List.head?_dropWhile_not (· ≠ '{') t
      rw [hdrop] at hnot
      simpa using hnot
    rw [hdrop] at h hsuffix
    rw [hd, scan, if_pos rfl] at h
    obtain ⟨r, hr, rfl⟩ := Option.map_eq_some_iff.mp h
    have hbegins : '{' :: r <+: d :: u :=
      List.cons_prefix_cons.mpr ⟨hd.symm, (scan_some one_pos hr).begins⟩
    exact hbegins.isInfix.trans hsuffix.isInfix

theorem finish_within (t : Text) : (braces t).getD t <:+: t := by
  rcases h : braces t with _ | r
  · exact List.infix_rfl
  · exact braces_within h

/-- An object's text in a text without other braces than another one's is within that. -/
theorem infix_between {k p q : Text} (hc : Spells true (.value (.object ms)) c)
    (hk : Spells true (.value (.object ms)) k) (hp : '{' ∉ p) (hq : '}' ∉ q)
    (h : k <:+: p ++ (c ++ q)) : k = c := by
  obtain ⟨s, t, hst⟩ := h
  obtain ⟨u, hu⟩ := object_text_head hk
  have hbehind : ∃ r, c ++ q = r ++ (k ++ t) := by
    rw [List.append_assoc] at hst
    rcases List.append_eq_append_iff.mp hst with ⟨r, rfl, hr⟩ | ⟨r, rfl, hr⟩
    · rcases r with _ | ⟨d, r⟩
      · exact ⟨[], by simpa using hr.symm⟩
      · rw [hu] at hr
        obtain ⟨rfl, -⟩ := List.cons.inj hr
        simp at hp
    · exact ⟨r, hr⟩
  obtain ⟨r, hr⟩ := hbehind
  rw [← List.append_assoc] at hr
  have hwithin : ∃ z, c = r ++ (k ++ z) := by
    rcases List.append_eq_append_iff.mp hr with ⟨v, hv, htail⟩ | ⟨v, hv, -⟩
    · rcases List.eq_nil_or_concat v with rfl | ⟨v, d, rfl⟩
      · exact ⟨[], by simpa using hv.symm⟩
      · have hlast : (r ++ k).getLast? = some '}' := by
          rw [List.getLast?_append_of_ne_nil _ (by simp [hu])]
          exact object_text_last hk
        rw [hv, List.concat_eq_append, ← List.append_assoc, List.getLast?_concat] at hlast
        obtain rfl := Option.some.inj hlast
        exact absurd (by simp [htail]) hq
    · exact ⟨v, by simpa using hv⟩
  obtain ⟨z, hz⟩ := hwithin
  exact (object_text_within hc hk hz).2

theorem content_around (h : Holds ms J c w w') (e : Embedding) :
    ∃ p q, e.content J = p ++ (c ++ q) ∧ '{' ∉ p ∧ '}' ∉ q := by
  have hopen : '{' ∉ w := not_mem_blank rfl h.before
  have hclose : '}' ∉ w' := not_mem_blank rfl h.after
  have hfence : '{' ∉ JSON_FENCE ∧ '{' ∉ FENCE ∧ '}' ∉ FENCE := by decide
  obtain ⟨hnamed, hfence, hfence'⟩ := hfence
  rcases e with ⟨pre, post⟩ | ⟨pre, a, b, post⟩ | ⟨pre, a, b, post⟩
  · refine ⟨pre.val ++ w, w' ++ post.val, by simp [Embedding.content, h.text], ?_, ?_⟩
    · simp [pre.property.1, hopen]
    · simp [post.property.2.1, hclose]
  · refine ⟨pre.val ++ (JSON_FENCE ++ (a.val ++ w)), w' ++ (b.val ++ (FENCE ++ post.val)),
      by simp [Embedding.content, h.text], ?_, ?_⟩
    · simp [pre.property.1, a.property.1, hnamed, hopen]
    · simp [b.property.2.1, post.property.2.1, hfence', hclose]
  · refine ⟨pre.val ++ (FENCE ++ (a.val ++ w)), w' ++ (b.val ++ (FENCE ++ post.val)),
      by simp [Embedding.content, h.text], ?_, ?_⟩
    · simp [pre.property.1, a.property.1, hfence, hopen]
    · simp [b.property.2.1, post.property.2.1, hfence', hclose]

/-- An object in which a fence stands is not found: no marker is left in what an answer
is narrowed to. -/
theorem no_fence_of_found (h : Holds ms J c w w') {e : Embedding} {t : Text}
    (hnarrow : t <:+: e.content J ∧ ¬ FENCE <:+: t)
    (hfound : loads true ((braces t).getD t) = some (.object ms)) : ¬ FENCE <:+: J := by
  obtain ⟨u, k, u', htext, -, hk, -⟩ := loads_iff.mp hfound
  have hkt : k <:+: t := by
    refine List.IsInfix.trans ⟨u, u', ?_⟩ (finish_within t)
    rw [List.append_assoc, htext]
  obtain ⟨p, q, hcontent, hp, hq⟩ := content_around h e
  have hkc : k = c := infix_between h.object hk hp hq (hcontent ▸ hkt.trans hnarrow.1)
  have hc : ¬ FENCE <:+: c := fun hfence => hnarrow.2 (hfence.trans (hkc ▸ hkt))
  have hclear : Clear FENCE c := clear_of_last hc (object_text_last h.object) (by decide)
  have hblank {v : Text} (hv : Blank v) : Clear FENCE v :=
    (unfenced_of_not_mem (not_mem_blank rfl hv)).plain
  apply not_infix_of_after fence_ne_nil
  rw [h.text, after_clear (hblank h.before), after_clear hclear, after_of_clear (hblank h.after)]

theorem extractable_iff (h : Holds ms J c w w') (e : Embedding) :
    Extractable e J ↔ ¬ FENCE <:+: J ∧
      loads true ((braces (e.inner J)).getD (e.inner J)) = some (.object ms) := by
  rw [inner_iff h]
  constructor
  · intro he
    have hnested := he.nested
    have hclosed := he.closed
    rw [h.strip] at hnested
    rw [h.count.1, h.count.2] at hclosed
    exact ⟨he.no_fence, he.marked, hnested, hclosed⟩
  · rintro ⟨hfence, hmarked, hnested, hclosed⟩
    rw [← h.strip] at hnested
    rw [← h.count.1, ← h.count.2] at hclosed
    exact ⟨hfence, hmarked, hnested, hclosed⟩

theorem found_iff (h : Holds ms J c w w') (e : Embedding) {text : Text → Text}
    (hnarrow : ∀ t, text t <:+: t ∧ ¬ FENCE <:+: text t)
    (htext : Unfenced J → text (e.content J) = e.inner J) :
    loads true ((braces (text (e.content J))).getD (text (e.content J))) = some (.object ms) ↔
      Extractable e J := by
  rw [extractable_iff h]
  constructor
  · intro hfound
    have hfence := no_fence_of_found h (hnarrow _) hfound
    rw [htext (h.unfenced hfence)] at hfound
    exact ⟨hfence, hfound⟩
  · rintro ⟨hfence, hfound⟩
    rwa [htext (h.unfenced hfence)]

theorem extract_json_iff (h : loads false J = some (.object ms)) (e : Embedding) :
    loads true (extract_json (e.content J)) = some (.object ms) ↔ Extractable e J := by
  obtain ⟨c, w, w', hJ⟩ := exists_holds h
  exact found_iff hJ e planner_text_narrow fun hclear => (texts_content hJ hclear e).1

theorem supervisor_extract_iff (h : loads false J = some (.object ms)) (e : Embedding) :
    loads true (supervisor_extract (e.content J)) = some (.object ms) ↔ Extractable e J := by
  obtain ⟨c, w, w', hJ⟩ := exists_holds h
  exact found_iff hJ e supervisor_text_narrow fun hclear => (texts_content hJ hclear e).2

end Content

section Closing

variable {ms : List (List ℕ × Json)} {engine : Engine} {entry size : ℚ} {leverage : ℤ}

def SaysClose (ms : List (List ℕ × Json)) : Prop :=
  answered_action ms = some (code_points "CLOSE".toList)

/-- What the engine does with an answer to its question. -/
def supervised (str_field : Json → Option Text) (error : Text) (engine : Engine) (price : ℚ)
    (content : Text) : Outcome :=
  apply_supervisor_response engine price
    (supervisor_check str_field error engine.tp_sl_mode content)

theorem side_of_close (held : Held engine.position entry size leverage) (price : ℚ)
    (reasoning : Text) :
    (apply_supervisor_response engine price ⟨.CLOSE, reasoning⟩).engine.position.side = .FLAT := by
  simp only [apply_supervisor_response, execute_action, execute_close, if_neg held.side,
    held.pnl price]
  rfl

theorem side_of_keep (held : Held engine.position entry size leverage) (price : ℚ)
    (reasoning : Text) :
    (apply_supervisor_response engine price ⟨.KEEP, reasoning⟩).engine.position.side ≠ .FLAT :=
  held.side

theorem closes_iff (str_field : Json → Option Text) (error : Text)
    (held : Held engine.position entry size leverage) (price : ℚ) {content : Text}
    (hfound : loads true (supervisor_extract content) = some (.object ms)) (hms : SaysClose ms) :
    (supervised str_field error engine price content).engine.position.side = .FLAT ↔
      (str_field (answered_reasoning ms)).isSome = true := by
  unfold SaysClose at hms
  unfold supervised supervisor_check
  rw [hfound]
  simp only [hms]
  rcases str_field (answered_reasoning ms) with _ | reasoning
  · simpa [supervisor_error] using side_of_keep held price ("Supervisor error: ".toList ++ error)
  · simpa using side_of_close held price reasoning

/-- Both extractions find the object, and with it an answer that closes the position,
where no fence and no brace in its strings misleads them; an answer closes only with a
reasoning that its field takes. -/
theorem extraction_faithful_iff (str_field : Json → Option Text) (error : Text) (e : Embedding)
    {J : Text} (hJ : loads false J = some (.object ms))
    (held : Held engine.position entry size leverage) (price : ℚ) :
    (loads true (extract_json (e.content J)) = some (.object ms) ∧
        loads true (supervisor_extract (e.content J)) = some (.object ms) ∧
        (SaysClose ms →
          (supervised str_field error engine price (e.content J)).engine.position.side = .FLAT)) ↔
      Extractable e J ∧
        (SaysClose ms → (str_field (answered_reasoning ms)).isSome = true) := by
  rw [extract_json_iff hJ, supervisor_extract_iff hJ]
  constructor
  · rintro ⟨he, -, hclose⟩
    have hfound := (supervisor_extract_iff hJ e).mpr he
    exact ⟨he, fun hms => (closes_iff str_field error held price hfound hms).mp (hclose hms)⟩
  · rintro ⟨he, hreason⟩
    have hfound := (supervisor_extract_iff hJ e).mpr he
    exact ⟨he, he, fun hms => (closes_iff str_field error held price hfound hms).mpr (hreason hms)⟩

/-- Whether a text is an object whose action closes. -/
def closing_text (J : Text) : Bool :=
  match loads false J with
  | some (.object ms) => answered_action ms = some (code_points "CLOSE".toList)
  | _ => false

theorem exists_closing {J : Text} (h : closing_text J = true) :
    ∃ ms, loads false J = some (.object ms) ∧ SaysClose ms := by
  unfold closing_text at h
  split at h
  next ms hJ =>
      have hms : answered_action ms = some (code_points "CLOSE".toList) := of_decide_eq_true h
      exact ⟨ms, hJ, hms⟩
  next => simp at h

def nothing : Surrounding := ⟨[], by simp⟩

def newline : Surrounding := ⟨['\n'], by simp⟩

def text_field : Json → Option Text
  | .string codes => some (codes.map Char.ofNat)
  | _ => none

def asking_engine : Engine :=
  { dynamic_engine with
    position := PaperExecutor.opened .LONG 100 (some 100) (some 5) none none none none
    tp_sl_mode := "fixed".toList }

theorem asking_engine_held : Held asking_engine.position 100 100 5 :=
  ⟨by decide, rfl, by norm_num, rfl, by norm_num, rfl⟩

def ANSWER : Text := "\x7b\"action\": \"CLOSE\", \"reasoning\": \"hit 61k\"\x7d".toList

/-- An answer with a brace in its reasoning. -/
def BRACE_ANSWER : Text := "\x7b\"action\": \"CLOSE\", \"reasoning\": \"hit \x7d 61k\"\x7d".toList

theorem extraction_faithful_iff_fence :
    ∃ ms, loads false ANSWER = some (.object ms) ∧ SaysClose ms ∧
      (let content := (Embedding.json_fence nothing newline newline nothing).content ANSWER
      (loads true (extract_json content) = some (.object ms) ∧
        loads true (supervisor_extract content) = some (.object ms) ∧
        (SaysClose ms →
          (supervised text_field [] asking_engine 110 content).engine.position.side = .FLAT)) ↔
      Extractable (.json_fence nothing newline newline nothing) ANSWER ∧
        (SaysClose ms → (text_field (answered_reasoning ms)).isSome = true)) := by
  obtain ⟨ms, hJ, hms⟩ := exists_closing (J := ANSWER) (by decide +kernel)
  exact ⟨ms, hJ, hms, extraction_faithful_iff text_field [] _ hJ asking_engine_held 110⟩

theorem brace_answer_kept :
    ∃ ms, loads false BRACE_ANSWER = some (.object ms) ∧ SaysClose ms ∧
      (let content := (Embedding.bare nothing nothing).content BRACE_ANSWER
      loads true (extract_json content) ≠ some (.object ms) ∧
        loads true (supervisor_extract content) ≠ some (.object ms) ∧
        (supervised text_field [] asking_engine 110 content).engine.position.side ≠ .FLAT) := by
  obtain ⟨ms, hJ, hms⟩ := exists_closing (J := BRACE_ANSWER) (by decide +kernel)
  have hplanner : (loads true (extract_json BRACE_ANSWER)).isNone = true := by decide +kernel
  have hsupervisor : (loads true (supervisor_extract BRACE_ANSWER)).isNone = true := by
    decide +kernel
  have hcontent : (Embedding.bare nothing nothing).content BRACE_ANSWER = BRACE_ANSWER := by
    simp [Embedding.content, nothing]
  rw [hcontent]
  refine ⟨ms, hJ, hms, ?_, ?_, by decide +kernel⟩
  · rw [Option.isNone_iff_eq_none.mp hplanner]
    simp
  · rw [Option.isNone_iff_eq_none.mp hsupervisor]
    simp

end Closing

end ArticTrader.ExtractJson
