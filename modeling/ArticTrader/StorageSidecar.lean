import Mathlib.Data.List.DropRight
import ArticTrader.JsonPrinter
import ArticTrader.JsonQuotes
import ArticTrader.PythonText

/-!
Documents in a storage network. The client hands a document to a sidecar process, which
answers with the last line of its output; what the network's library prints before that
is ignored.
-/

namespace ArticTrader.StorageSidecar

open ArticTrader.JsonPrinter
open ArticTrader.JsonTexts
open ArticTrader.PythonText (Text)

section Lines

/-- The characters at which `str.splitlines` ends a line. -/
def line_break (c : Char) : Bool :=
  [10, 11, 12, 13, 28, 29, 30, 0x85, 0x2028, 0x2029].contains c.toNat

/-- The characters that `str.strip` takes away. -/
def space (c : Char) : Bool :=
  [9, 10, 11, 12, 13, 28, 29, 30, 31, 32, 0x85, 0xa0, 0x1680, 0x2000, 0x2001, 0x2002, 0x2003,
    0x2004, 0x2005, 0x2006, 0x2007, 0x2008, 0x2009, 0x200a, 0x2028, 0x2029, 0x202f, 0x205f,
    0x3000].contains c.toNat

def strip (t : Text) : Text := (t.dropWhile space).rdropWhile space

def splitlines : Text → List Text
  | [] => []
  | '\r' :: '\n' :: t => [] :: splitlines t
  | c :: t =>
      if line_break c then [] :: splitlines t
      else
        match splitlines t with
        | [] => [[c]]
        | line :: lines => (c :: line) :: lines

end Lines

/-- A process that has ended; `stdout` is its output as text. -/
structure Process where
  returncode : ℤ
  stdout : Text

/-- A member of a dict, `None` where there is none. -/
def get (name : String) (result : List (List ℕ × Json)) : Json :=
  (member name.toList result).getD .null

/-- A number is true where it has a digit other than zero before its exponent. -/
def truthy : Json → Bool
  | .null => false
  | .bool b => b
  | .number text =>
      (text.takeWhile fun c => c ≠ 'e' && c ≠ 'E').any fun c =>
        ('1' ≤ c && c ≤ '9') || c = 'N' || c = 'I'
  | .string codes => codes ≠ []
  | .array vs => !vs.isEmpty
  | .object ms => !ms.isEmpty

/-- `none` for a process that could not be run to its end, whose exception the callers
take as they take `None`. -/
def _run_sidecar (proc : Option Process) : Option Json :=
  match proc with
  | none => none
  | some proc =>
      if proc.returncode ≠ 0 then none
      else
        match (splitlines (strip proc.stdout)).getLast? with
        | none => none
        | some line => loads true line

/-- The dict that a sidecar has answered with, if it says that all went well. -/
def checked (result : Option Json) : Option (List (List ℕ × Json)) :=
  match result with
  | some (.object result) => if truthy (get "ok" result) then some result else none
  | _ => none

def upload_json (ready : Bool) (sidecar : Text → Option Process) (data : Json) : Json × Json :=
  if ready = false then (.null, .null)
  else
    match checked (_run_sidecar (sidecar (dumps_compact.value data))) with
    | some result => (get "rootHash" result, get "txHash" result)
    | none => (.null, .null)

def download_json (ready : Bool) (sidecar : Text → Option Process) (root_hash : Text) : Json :=
  if root_hash = [] ∨ ready = false then .null
  else
    match checked (_run_sidecar (sidecar root_hash)) with
    | some result =>
        match (member "data".toList result).getD (.string []) with
        | .string codes =>
            if codes = [] then .null else (loads true (codes.map Char.ofNat)).getD .null
        | _ => .null
    | none => .null

section Sidecar

/-- The characters that `String.prototype.trim` takes away. -/
def js_space (c : Char) : Bool :=
  [9, 10, 11, 12, 13, 32, 0xa0, 0x1680, 0x2000, 0x2001, 0x2002, 0x2003, 0x2004, 0x2005, 0x2006,
    0x2007, 0x2008, 0x2009, 0x200a, 0x2028, 0x2029, 0x202f, 0x205f, 0x3000, 0xfeff].contains c.toNat

def trim (t : Text) : Text := (t.dropWhile js_space).rdropWhile js_space

/-- A text without blanks. -/
def Printing (t : Text) : Prop := ∀ c ∈ t, 32 < c.toNat ∧ c.toNat < 127

/-- What the network's library does for an upload: the lines it prints, and the hash of
its transaction or the message of its error. -/
structure Upload where
  printed : List Text
  outcome : Except Text (Option Text)
  hash_printing : ∀ tx_hash, outcome = .ok (some tx_hash) → Printing tx_hash

structure Download where
  printed : List Text
  outcome : Except Text Text

def field (name : Text) (v : Json) : List ℕ × Json := (code_points name, v)

def emit (members : List (List ℕ × Json)) : Text := stringify.value (.object members) ++ ['\n']

def output (printed : List Text) (line : Text) : Text := printed.flatMap (· ++ ['\n']) ++ line

def text_value (t : Text) : Json := .string (code_points t)

/-- The end of `main` after an error. -/
def exit_failed (printed : List Text) (error : Text) : Process where
  returncode := 1
  stdout := output printed
    (emit [field "ok".toList (.bool false), field "error".toList (text_value error)])

def upload_answer (rootHash : Text) (txHash : Option Text) : List (List ℕ × Json) :=
  [field "ok".toList (.bool true), field "rootHash".toList (text_value rootHash),
    field "txHash".toList ((txHash.map text_value).getD .null)]

def download_answer (text : Text) : List (List ℕ × Json) :=
  [field "ok".toList (.bool true), field "data".toList (text_value text)]

def doUpload (merkle_root : Text → Text) (jsonStr : Text) (u : Upload) : Process :=
  match u.outcome with
  | .error error => exit_failed u.printed error
  | .ok txHash =>
      { returncode := 0
        stdout := output u.printed (emit (upload_answer (merkle_root jsonStr) txHash)) }

def doDownload (d : Download) : Process :=
  match d.outcome with
  | .error error => exit_failed d.printed error
  | .ok text =>
      { returncode := 0
        stdout := output d.printed (emit (download_answer text)) }

/-- The network as one client meets it: a call whose process does not end has no answer. -/
structure Network where
  merkle_root : Text → Text
  upload : Text → Option Upload
  download : Text → Option Download
  root_ne_nil : ∀ text, merkle_root text ≠ []
  root_printing : ∀ text, Printing (merkle_root text)

def Network.uploads (net : Network) (arg : Text) : Option Process :=
  (net.upload arg).map (doUpload net.merkle_root arg)

def Network.downloads (net : Network) (arg : Text) : Option Process :=
  (net.download (trim arg)).map doDownload

end Sidecar

section LastLine

theorem splitlines_line {line : Text} (hne : line ≠ []) (h : ∀ c ∈ line, line_break c = false) :
    splitlines line = [line] := by
  induction line with
  | nil => exact absurd rfl hne
  | cons c line ih =>
      have hc := h c List.mem_cons_self
      rw [splitlines.eq_def]
      split
      · cases ‹_ = []›
      · cases ‹_ = _ :: _›
        exact absurd hc (by decide)
      · cases ‹_ = _ :: _›
        rw [if_neg (by rw [hc]; exact Bool.false_ne_true)]
        rcases line with - | ⟨d, line⟩
        · rfl
        · rw [ih (List.cons_ne_nil _ _) fun e he => h e (List.mem_cons_of_mem _ he)]

theorem splitlines_break {c : Char} (hbreak : line_break c = true) {t : Text}
    (h : c = '\r' → t.head? ≠ some '\n') : splitlines (c :: t) = [] :: splitlines t := by
  rw [splitlines.eq_def]
  split
  · cases ‹_ = []›
  · cases ‹_ = _ :: _›
    exact absurd rfl (h rfl)
  · cases ‹_ = _ :: _›
    exact if_pos hbreak

theorem splitlines_keep {c : Char} (hbreak : ¬ line_break c = true) (t : Text) :
    splitlines (c :: t) =
      match splitlines t with
      | [] => [[c]]
      | line :: lines => (c :: line) :: lines := by
  rw [splitlines.eq_def]
  split
  · cases ‹_ = []›
  · cases ‹_ = _ :: _›
    exact absurd rfl hbreak
  · cases ‹_ = _ :: _›
    exact if_neg hbreak

/-- What is written before a line break does not matter to the lines behind it. -/
theorem splitlines_append {line : Text} (hline : splitlines line = [line]) (t : Text) :
    ∃ first lines, splitlines (t ++ '\n' :: line) = first :: lines ++ [line] := by
  induction t using splitlines.induct with
  | case1 =>
      refine ⟨[], [], ?_⟩
      rw [List.nil_append, splitlines_break rfl (fun h => absurd h (by decide)), hline]
      rfl
  | case2 t ih =>
      obtain ⟨first, lines, heq⟩ := ih
      exact ⟨[], first :: lines, by rw [List.cons_append, List.cons_append, splitlines, heq]; rfl⟩
  | case3 c t hno hbreak ih =>
      by_cases hlast : c = '\r' ∧ t = []
      · obtain ⟨rfl, rfl⟩ := hlast
        exact ⟨[], [], by rw [List.cons_append, List.nil_append, splitlines, hline]; rfl⟩
      · obtain ⟨first, lines, heq⟩ := ih
        refine ⟨[], first :: lines, ?_⟩
        rw [List.cons_append, splitlines_break hbreak, heq]
        · rfl
        · rintro rfl hhead
          rcases t with - | ⟨d, t⟩
          · exact hlast ⟨rfl, rfl⟩
          · cases hhead
            exact hno t rfl rfl
  | case4 c t hno hbreak hrest ih =>
      obtain ⟨first, lines, heq⟩ := ih
      exact ⟨c :: first, lines, by rw [List.cons_append, splitlines_keep hbreak, heq]; rfl⟩
  | case5 c t hno hbreak first' lines' hrest ih =>
      obtain ⟨first, lines, heq⟩ := ih
      exact ⟨c :: first, lines, by rw [List.cons_append, splitlines_keep hbreak, heq]; rfl⟩

theorem printed_ends (printed : List Text) :
    (printed.flatMap (· ++ ['\n'])).dropWhile space = [] ∨
      ∃ t, (printed.flatMap (· ++ ['\n'])).dropWhile space = t ++ ['\n'] := by
  rcases List.eq_nil_or_concat ((printed.flatMap (· ++ ['\n'])).dropWhile space) with
    hnil | ⟨t, e, heq⟩
  · exact .inl hnil
  · right
    rw [List.concat_eq_append] at heq
    obtain ⟨x, hx⟩ := List.dropWhile_suffix space (l := printed.flatMap (· ++ ['\n']))
    rw [heq] at hx
    rcases List.eq_nil_or_concat printed with rfl | ⟨before, last, rfl⟩
    · simp at hx
    · rw [List.concat_eq_append, List.flatMap_append, List.flatMap_singleton, ← List.append_assoc,
        ← List.append_assoc] at hx
      exact ⟨t, by rw [heq, (List.append_singleton_inj.mp hx).2]⟩

theorem strip_output (printed : List Text) {line : Text} (hne : line ≠ [])
    (hhead : ∀ c ∈ line.head?, space c = false) (hlast : ∀ c ∈ line.getLast?, space c = false) :
    strip (output printed (line ++ ['\n'])) =
      (printed.flatMap (· ++ ['\n'])).dropWhile space ++ line := by
  have hright : ∀ t : Text, (t ++ (line ++ ['\n'])).rdropWhile space = t ++ line := by
    intro t
    rw [← List.append_assoc, List.rdropWhile_concat_pos space _ '\n' rfl,
      List.rdropWhile_eq_self_iff]
    intro hl
    have hget := hlast (line.getLast hne) (List.getLast?_eq_some_getLast hne)
    rw [List.getLast_append_of_ne_nil _ hne, hget]
    exact Bool.false_ne_true
  have hleft : (line ++ ['\n']).dropWhile space = line ++ ['\n'] := by
    rcases line with - | ⟨c, line⟩
    · exact absurd rfl hne
    · exact List.dropWhile_cons_of_neg (by rw [hhead c rfl]; exact Bool.false_ne_true)
  rw [strip, output, List.dropWhile_append]
  split_ifs with hempty
  · rw [hleft, List.isEmpty_iff.mp hempty]
    exact hright []
  · exact hright _

/-- The last line of an output, whatever has been printed before it. -/
theorem last_line (printed : List Text) {line : Text} (hne : line ≠ [])
    (hbreak : ∀ c ∈ line, line_break c = false) (hhead : ∀ c ∈ line.head?, space c = false)
    (hlast : ∀ c ∈ line.getLast?, space c = false) :
    (splitlines (strip (output printed (line ++ ['\n'])))).getLast? = some line := by
  have hline := splitlines_line hne hbreak
  rw [strip_output printed hne hhead hlast]
  rcases printed_ends printed with hnil | ⟨t, heq⟩
  · rw [hnil, List.nil_append, hline]
    rfl
  · obtain ⟨first, lines, hlines⟩ := splitlines_append hline t
    rw [heq, List.append_assoc, List.singleton_append, hlines, List.getLast?_concat]

end LastLine

section Emitted

def Plain (codes : List ℕ) : Prop := ∀ code ∈ codes, code < 127

instance (codes : List ℕ) : Decidable (Plain codes) :=
  inferInstanceAs (Decidable (∀ code ∈ codes, code < 127))

/-- What the sidecar answers with when all goes well: its strings are printable ASCII. -/
inductive Flat : Json → Prop where
  | null : Flat .null
  | bool (b : Bool) : Flat (.bool b)
  | string {codes : List ℕ} (h : Plain codes) : Flat (.string codes)

def FlatMembers (ms : List (List ℕ × Json)) : Prop := ∀ m ∈ ms, Plain m.1 ∧ Flat m.2

theorem stringify_body {codes : List ℕ} (h : Plain codes) :
    stringify.body codes = dumps_compact.body codes := by
  apply List.flatMap_congr
  intro code hcode
  have hlt := h code hcode
  have hplain : stringify.plain code = dumps_compact.plain code := by
    change text_plain code = ascii_plain code
    rw [text_plain, ascii_plain, decide_eq_true hlt, decide_eq_true (by omega : code < 0xd800)]
    rfl
  unfold Printer.code
  rw [hplain]

theorem stringify_flat {v : Json} (h : Flat v) : stringify.value v = dumps_compact.value v := by
  cases h with
  | null => rfl
  | bool b => cases b <;> rfl
  | string h => rw [Printer.value, Printer.value, stringify_body h]

theorem stringify_more_members {ms : List (List ℕ × Json)} (h : FlatMembers ms) :
    stringify.more_members ms = dumps_compact.more_members ms := by
  induction ms with
  | nil => rfl
  | cons m ms ih =>
      obtain ⟨name, v⟩ := m
      obtain ⟨hname, hv⟩ := h _ List.mem_cons_self
      rw [Printer.more_members, Printer.more_members, stringify_body hname, stringify_flat hv,
        ih fun m hm => h m (List.mem_cons_of_mem _ hm)]
      rfl

theorem stringify_object {ms : List (List ℕ × Json)} (h : FlatMembers ms) :
    stringify.value (.object ms) = dumps_compact.value (.object ms) := by
  rcases ms with - | ⟨m, ms⟩
  · rfl
  · have hcons := stringify_more_members h
    rw [more_members_cons, more_members_cons] at hcons
    rw [Printer.value, Printer.value]
    exact congrArg _ (List.cons.inj hcons).2

theorem flat_printable {v : Json} (h : Flat v) : Printable true v := by
  cases h with
  | null => trivial
  | bool b => trivial
  | string h => exact fun code hcode => (h code hcode).trans (by decide)

theorem flat_members_printable {ms : List (List ℕ × Json)} (h : FlatMembers ms) :
    MembersPrintable true ms := by
  induction ms with
  | nil => trivial
  | cons m ms ih =>
      obtain ⟨hname, hv⟩ := h m List.mem_cons_self
      exact ⟨fun code hcode => (hname code hcode).trans (by decide), flat_printable hv,
        ih fun m hm => h m (List.mem_cons_of_mem _ hm)⟩

theorem join_plain {codes : List ℕ} (h : Plain codes) : join_surrogates codes = codes := by
  induction codes with
  | nil => rfl
  | cons code codes ih =>
      rw [join_cons, ih fun c hc => h c (List.mem_cons_of_mem _ hc)]
      intro low _ hpair
      have hlt := h code List.mem_cons_self
      have hle := hpair.1
      omega

theorem joined_flat_members {ms : List (List ℕ × Json)} (h : FlatMembers ms) :
    joined_members ms = ms := by
  induction ms with
  | nil => rfl
  | cons m ms ih =>
      obtain ⟨name, v⟩ := m
      obtain ⟨hname, hv⟩ := h _ List.mem_cons_self
      have hjoined : joined v = v := by
        cases hv with
        | null => rfl
        | bool b => rfl
        | string hcodes => rw [joined, join_plain hcodes]
      rw [joined_members, join_plain hname, hjoined,
        ih fun m hm => h m (List.mem_cons_of_mem _ hm)]

theorem compact_admits : dumps_compact.Admits fun c => 32 ≤ c.toNat ∧ c.toNat < 127 where
  marks := fun _ hle hlt => ⟨hle, hlt⟩
  plain := by
    intro code hplain
    rw [toNat_plain dumps_compact hplain]
    change ascii_plain code = true at hplain
    simpa [ascii_plain] using hplain
  item_gap := fun _ hc => absurd hc List.not_mem_nil
  key_gap := fun _ hc => absurd hc List.not_mem_nil

theorem not_line_break {c : Char} (hle : 32 ≤ c.toNat) (hlt : c.toNat < 127) :
    line_break c = false := by
  simp only [line_break, List.contains_eq_mem, List.mem_cons, List.not_mem_nil, or_false,
    decide_eq_false_iff_not]
  omega

/-- What a sidecar emits at the end is what its caller reads, whatever is printed before. -/
theorem run_sidecar_output (printed : List Text) {members : List (List ℕ × Json)}
    (h : FlatMembers members) :
    _run_sidecar (some ⟨0, output printed (emit members)⟩) = some (.object members) := by
  have hprintable : Printable true (.object members) := flat_members_printable h
  have hspells := JsonPrinter.spells_value stringify hprintable
  have hchars := stringify_object h ▸ forall_value compact_admits hprintable
  have hne : stringify.value (.object members) ≠ [] := by
    rw [Printer.value]
    exact List.cons_ne_nil _ _
  have hlast := last_line printed hne
    (fun c hc => not_line_break (hchars c hc).1 (hchars c hc).2)
    (by rw [Printer.value]; intro c hc; cases hc; rfl)
    (by rw [JsonQuotes.object_text_last hspells]; intro c hc; cases hc; rfl)
  have hloads := loads_value stringify hprintable
  rw [joined, joined_flat_members h] at hloads
  rw [_run_sidecar, if_neg (not_not.mpr rfl), emit, hlast]
  exact hloads

theorem plain_code_points {t : Text} (h : ∀ c ∈ t, c.toNat < 127) : Plain (code_points t) := by
  intro code hcode
  obtain ⟨c, hc, rfl⟩ := List.mem_map.mp hcode
  exact h c hc

theorem flat_text {t : Text} (h : ∀ c ∈ t, c.toNat < 127) : Flat (text_value t) :=
  .string (plain_code_points h)

theorem Printing.flat {t : Text} (h : Printing t) : Flat (text_value t) :=
  flat_text fun c hc => (h c hc).2

theorem Printing.trim {t : Text} (h : Printing t) : trim t = t := by
  have hspace : ∀ c ∈ t, ¬ js_space c = true := by
    intro c hc
    have hrange := h c hc
    simp only [js_space, List.contains_eq_mem, List.mem_cons, List.not_mem_nil, or_false,
      decide_eq_true_eq]
    omega
  rcases t with - | ⟨c, t⟩
  · rfl
  · rw [StorageSidecar.trim, List.dropWhile_cons_of_neg (hspace c List.mem_cons_self),
      List.rdropWhile_eq_self_iff]
    exact fun hne => hspace _ (List.getLast_mem hne)

theorem run_sidecar_failed (printed : List Text) (error : Text) :
    _run_sidecar (some (exit_failed printed error)) = none := rfl

theorem text_of_code_points (t : Text) : (code_points t).map Char.ofNat = t := by
  rw [code_points, List.map_map]
  exact List.map_id'' (fun c => Char.ofNat_toNat c) t

end Emitted

section Client

variable {net : Network}

/-- The text that is uploaded for a document. -/
def payload (data : Json) : Text := dumps_compact.value data

theorem upload_answer_flat {root : Text} {txHash : Option Text} (hroot : Printing root)
    (hhash : ∀ tx_hash ∈ txHash, Printing tx_hash) : FlatMembers (upload_answer root txHash) := by
  have hflat : Flat ((txHash.map text_value).getD .null) := by
    cases txHash with
    | none => exact .null
    | some tx_hash => exact (hhash tx_hash rfl).flat
  simp only [upload_answer, field, FlatMembers, List.forall_mem_cons]
  exact ⟨⟨by decide, .bool true⟩, ⟨by decide, hroot.flat⟩, ⟨by decide, hflat⟩,
    fun _ h => absurd h List.not_mem_nil⟩

theorem checked_upload {arg : Text} {u : Upload} (h : net.upload arg = some u) :
    checked (_run_sidecar (net.uploads arg)) =
      u.outcome.toOption.map (upload_answer (net.merkle_root arg)) := by
  rw [Network.uploads, h, Option.map_some, doUpload]
  cases houtcome : u.outcome with
  | error error => rfl
  | ok txHash =>
      have hflat : FlatMembers (upload_answer (net.merkle_root arg) txHash) := by
        apply upload_answer_flat (net.root_printing arg)
        rintro tx_hash ⟨⟩
        exact u.hash_printing tx_hash houtcome
      dsimp only
      rw [run_sidecar_output u.printed hflat]
      rfl

theorem upload_json_ok {data : Json} {u : Upload} {txHash : Option Text}
    (h : net.upload (payload data) = some u) (hok : u.outcome = .ok txHash) :
    upload_json true net.uploads data =
      (text_value (net.merkle_root (payload data)), (txHash.map text_value).getD .null) := by
  have hchecked := checked_upload h
  rw [hok] at hchecked
  rw [upload_json, if_neg (by decide), ← payload, hchecked]
  rfl

/-- A root that an upload returns is that of the document's text. -/
theorem upload_json_root {ready : Bool} {data : Json}
    (h : (upload_json ready net.uploads data).1 ≠ .null) :
    (upload_json ready net.uploads data).1 = text_value (net.merkle_root (payload data)) := by
  cases ready with
  | false => exact absurd rfl h
  | true =>
      cases hupload : net.upload (payload data) with
      | none =>
          rw [upload_json, if_neg (by decide), ← payload, Network.uploads, hupload] at h
          exact absurd rfl h
      | some u =>
          cases houtcome : u.outcome with
          | error error =>
              have hchecked := checked_upload hupload
              rw [houtcome] at hchecked
              rw [upload_json, if_neg (by decide), ← payload, hchecked] at h
              exact absurd rfl h
          | ok txHash => rw [upload_json_ok hupload houtcome]

/-- The network gives the document out under the root. -/
def Network.delivers (net : Network) (root : Text) : Bool :=
  match net.download root with
  | some d => d.outcome.isOk
  | none => false

theorem download_json_eq {root : Text} {data : Json} (hne : root ≠ []) (hroot : Printing root)
    (hdata : Printable true data)
    (hproof : ∀ d text, net.download root = some d → d.outcome = .ok text → text = payload data) :
    download_json true net.downloads root = if net.delivers root then joined data else .null := by
  have hneg : ¬ (root = [] ∨ true = false) := by simp [hne]
  rw [download_json, if_neg hneg, Network.downloads, hroot.trim]
  cases hdownload : net.download root with
  | none =>
      have hdelivers : net.delivers root = false := by rw [Network.delivers, hdownload]
      rw [hdelivers]
      rfl
  | some d =>
      have hdelivers : net.delivers root = d.outcome.isOk := by rw [Network.delivers, hdownload]
      rw [hdelivers, Option.map_some]
      cases houtcome : d.outcome with
      | error error =>
          have hfailed : doDownload d = exit_failed d.printed error := by
            rw [doDownload, houtcome]
          rw [hfailed]
          rfl
      | ok text =>
          obtain rfl := hproof d text hdownload houtcome
          have hchars := forall_value compact_admits hdata
          have hflat : FlatMembers (download_answer (payload data)) := by
            simp only [download_answer, field, FlatMembers, List.forall_mem_cons]
            exact ⟨⟨by decide, .bool true⟩,
              ⟨by decide, flat_text fun c hc => (hchars c hc).2⟩,
                fun _ h => absurd h List.not_mem_nil⟩
          have hanswered : _run_sidecar (some (doDownload d)) =
              some (.object (download_answer (payload data))) := by
            rw [doDownload, houtcome]
            exact run_sidecar_output d.printed hflat
          have hread := loads_value dumps_compact hdata
          have hcodes : code_points (payload data) ≠ [] := by
            intro hnil
            rw [code_points, List.map_eq_nil_iff, payload] at hnil
            rw [hnil] at hread
            cases hread
          rw [hanswered]
          change (if code_points (payload data) = [] then Json.null
            else (loads true ((code_points (payload data)).map Char.ofNat)).getD .null) =
              joined data
          rw [if_neg hcodes, text_of_code_points, payload, hread]
          rfl

end Client

end ArticTrader.StorageSidecar
