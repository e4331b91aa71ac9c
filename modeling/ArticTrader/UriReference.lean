import ArticTrader.PythonText

/-!
Generic syntax of URI references. The component split is the one of the
regular expression in RFC 3986, appendix B:
`^(([^:/?#]+):)?(//([^/?#]*))?([^?#]*)(\?([^#]*))?(#(.*))?`. The authority is
split further into `[ userinfo "@" ] host [ ":" port ]` as in section 3.2, at
the first `@` and at the first colon outside a bracketed IP literal.
-/

namespace ArticTrader.UriReference

open ArticTrader.PythonText

def schemeChar (c : Char) : Bool := c ∉ [':', '/', '?', '#']

def authorityChar (c : Char) : Bool := c ∉ ['/', '?', '#']

theorem authorityChar_eq_false {c : Char} :
    authorityChar c = false ↔ c ∈ ['/', '?', '#'] := by
  rw [authorityChar, decide_eq_false_iff_not, not_not]

def pathChar (c : Char) : Bool := c ∉ ['?', '#']

/-- The five components of a reference. An absent component is `none`, an
empty one is `some []`. -/
structure Components where
  scheme : Option Text
  authority : Option Text
  path : Text
  query : Option Text
  fragment : Option Text
  deriving DecidableEq, Repr

def splitScheme (s : Text) : Option Text × Text :=
  match s.takeWhile schemeChar, s.dropWhile schemeChar with
  | c :: cs, ':' :: rest => (some (c :: cs), rest)
  | _, _ => (none, s)

def splitAuthority (s : Text) : Option Text × Text :=
  match s with
  | '/' :: '/' :: rest =>
      (some (rest.takeWhile authorityChar), rest.dropWhile authorityChar)
  | _ => (none, s)

def splitQuery (s : Text) : Option Text × Text :=
  match s with
  | '?' :: rest => (some (rest.takeWhile (· ≠ '#')), rest.dropWhile (· ≠ '#'))
  | _ => (none, s)

def splitFragment (s : Text) : Option Text :=
  match s with
  | '#' :: rest => some rest
  | _ => none

def split (s : Text) : Components :=
  let (scheme, s) := splitScheme s
  let (authority, s) := splitAuthority s
  let path := s.takeWhile pathChar
  let (query, s) := splitQuery (s.dropWhile pathChar)
  { scheme, authority, path, query, fragment := splitFragment s }

theorem takeWhile_append_boundary {α : Type*} {p : α → Bool} {w rest : List α}
    (hw : ∀ a ∈ w, p a = true) (hrest : ∀ a ∈ rest.head?, p a = false) :
    (w ++ rest).takeWhile p = w := by
  rw [List.takeWhile_append_of_pos hw]
  cases rest with
  | nil => simp
  | cons a rest =>
      have ha : p a = false := hrest a rfl
      simp [ha]

theorem dropWhile_append_boundary {α : Type*} {p : α → Bool} {w rest : List α}
    (hw : ∀ a ∈ w, p a = true) (hrest : ∀ a ∈ rest.head?, p a = false) :
    (w ++ rest).dropWhile p = rest := by
  rw [List.dropWhile_append_of_pos hw]
  cases rest with
  | nil => rfl
  | cons a rest =>
      have ha : p a = false := hrest a rfl
      simp [ha]

theorem splitScheme_append {scheme rest : Text} (hne : scheme ≠ [])
    (hscheme : ∀ c ∈ scheme, schemeChar c = true) :
    splitScheme (scheme ++ ':' :: rest) = (some scheme, rest) := by
  have hcolon : ∀ c ∈ (':' :: rest).head?, schemeChar c = false := by
    simp [schemeChar]
  rw [splitScheme, takeWhile_append_boundary hscheme hcolon,
    dropWhile_append_boundary hscheme hcolon]
  cases scheme with
  | nil => exact absurd rfl hne
  | cons c cs => rfl

theorem split_scheme_authority {scheme rest : Text} (hne : scheme ≠ [])
    (hscheme : ∀ c ∈ scheme, schemeChar c = true) :
    (split (scheme ++ "://".toList ++ rest)).scheme = some scheme ∧
      (split (scheme ++ "://".toList ++ rest)).authority =
        some (rest.takeWhile authorityChar) := by
  have hshape : scheme ++ "://".toList ++ rest =
      scheme ++ ':' :: '/' :: '/' :: rest := by simp
  rw [hshape, split, splitScheme_append hne hscheme]
  exact ⟨rfl, rfl⟩

def breakOn (a : Char) : Text → Text × Option Text
  | [] => ([], none)
  | c :: cs =>
      if c = a then ([], some cs)
      else (c :: (breakOn a cs).1, (breakOn a cs).2)

def delimited (a : Char) : Option Text → Text
  | some t => a :: t
  | none => []

theorem breakOn_text (a : Char) (s : Text) :
    (breakOn a s).1 ++ delimited a (breakOn a s).2 = s := by
  induction s with
  | nil => rfl
  | cons c cs ih =>
      rw [breakOn]
      split
      · rename_i h
        simp [delimited, h]
      · simpa using ih

theorem breakOn_delimited {a : Char} {w : Text} (hw : a ∉ w) (t : Option Text) :
    breakOn a (w ++ delimited a t) = (w, t) := by
  induction w with
  | nil => cases t <;> simp [breakOn, delimited]
  | cons c cs ih =>
      rw [List.mem_cons, not_or] at hw
      rw [List.cons_append, breakOn, if_neg (Ne.symm hw.1), ih hw.2]

theorem breakOn_of_not_mem {a : Char} {w : Text} (hw : a ∉ w) :
    breakOn a w = (w, none) := by
  simpa [delimited] using breakOn_delimited hw none

structure Authority where
  userinfo : Option Text
  host : Text
  port : Option Text
  deriving DecidableEq, Repr

def splitUserinfo (s : Text) : Option Text × Text :=
  match breakOn '@' s with
  | (u, some rest) => (some u, rest)
  | (_, none) => (none, s)

def ipLiteral (s : Text) : Text × Text :=
  match s with
  | '[' :: t =>
      match breakOn ']' t with
      | (inner, some rest) => ('[' :: (inner ++ [']']), rest)
      | (_, none) => (s, [])
  | _ => ([], s)

def splitPort (s : Text) : Text × Option Text :=
  ((ipLiteral s).1 ++ (breakOn ':' (ipLiteral s).2).1,
    (breakOn ':' (ipLiteral s).2).2)

def parseAuthority (s : Text) : Authority :=
  { userinfo := (splitUserinfo s).1
    host := (splitPort (splitUserinfo s).2).1
    port := (splitPort (splitUserinfo s).2).2 }

def Authority.text (a : Authority) : Text :=
  match a.userinfo with
  | some u => u ++ '@' :: (a.host ++ delimited ':' a.port)
  | none => a.host ++ delimited ':' a.port

theorem ipLiteral_text (s : Text) : (ipLiteral s).1 ++ (ipLiteral s).2 = s := by
  unfold ipLiteral
  split
  · rename_i t
    have htext := breakOn_text ']' t
    split
    · rename_i inner rest h
      simpa [h, delimited] using htext
    · simp
  · simp

theorem splitPort_text (s : Text) :
    (splitPort s).1 ++ delimited ':' (splitPort s).2 = s := by
  rw [splitPort, List.append_assoc, breakOn_text, ipLiteral_text]

theorem parseAuthority_text (s : Text) : (parseAuthority s).text = s := by
  have huser := breakOn_text '@' s
  simp only [Authority.text, parseAuthority, splitPort_text]
  rw [splitUserinfo]
  generalize breakOn '@' s = ur at huser
  rcases ur with ⟨u, _ | rest⟩
  · rfl
  · exact huser

theorem parseAuthority_injective : Function.Injective parseAuthority := by
  intro s t h
  rw [← parseAuthority_text s, ← parseAuthority_text t, h]

/-- A host without user information: a registered name or IPv4 address, or a
bracketed IP literal. -/
def HostText (host : Text) : Prop :=
  host ≠ [] ∧
    ((∀ c ∈ host, c ∉ [':', '@', '[', ']'] ∧ authorityChar c = true) ∨
      ∃ inner, host = '[' :: (inner ++ [']']) ∧
        ∀ c ∈ inner, c ∉ ['@', '[', ']'] ∧ authorityChar c = true)

def PortText (port : Text) : Prop := ∀ c ∈ port, c.isDigit = true

theorem HostText.at_not_mem {host : Text} (h : HostText host) : '@' ∉ host := by
  rcases h with ⟨-, h | ⟨inner, rfl, h⟩⟩
  · intro hmem
    simpa using (h '@' hmem).1
  · intro hmem
    have hinner : '@' ∈ inner := by simpa using hmem
    simpa using (h '@' hinner).1

theorem HostText.authority_chars {host : Text} (h : HostText host) :
    ∀ c ∈ host, authorityChar c = true := by
  rcases h with ⟨-, h | ⟨inner, rfl, h⟩⟩
  · exact fun c hc => (h c hc).2
  · intro c hc
    rcases List.mem_cons.mp hc with rfl | hc
    · decide
    · rcases List.mem_append.mp hc with hc | hc
      · exact (h c hc).2
      · have hbracket : c = ']' := by simpa using hc
        subst hbracket
        decide

theorem PortText.not_delimiter {port : Text} (h : PortText port) {c : Char}
    (hc : c ∈ port) : c ∉ ['/', '?', '#', '@'] := by
  have hdigit := h c hc
  intro hmem
  simp only [List.mem_cons, List.not_mem_nil, or_false] at hmem
  rcases hmem with rfl | rfl | rfl | rfl <;> exact absurd hdigit (by decide)

theorem delimited_port_not_mem {port : Option Text}
    (h : ∀ p ∈ port, PortText p) {c : Char} (hc : c ∈ delimited ':' port) :
    c ∉ ['/', '?', '#', '@'] := by
  cases port with
  | none => exact absurd hc List.not_mem_nil
  | some p =>
      rcases List.mem_cons.mp hc with rfl | hc
      · decide
      · exact (h p rfl).not_delimiter hc

theorem splitPort_host {host : Text} (h : HostText host) (port : Option Text) :
    splitPort (host ++ delimited ':' port) = (host, port) := by
  rcases h with ⟨hne, h | ⟨inner, rfl, h⟩⟩
  · have hcolon : ':' ∉ host := fun hmem => by simpa using (h ':' hmem).1
    have hlit : ipLiteral (host ++ delimited ':' port) =
        ([], host ++ delimited ':' port) := by
      cases host with
      | nil => exact absurd rfl hne
      | cons c cs =>
          have hc : c ≠ '[' := by
            rintro rfl
            simpa using (h '[' (by simp)).1
          simp only [List.cons_append, ipLiteral]
          split
          · rename_i heq
            exact absurd (List.cons.inj heq).1 hc
          · rfl
    simp only [splitPort, hlit, breakOn_delimited hcolon, List.nil_append]
  · have hclose : ']' ∉ inner := fun hmem => by simpa using (h ']' hmem).1
    have hbreak := breakOn_delimited hclose (some (delimited ':' port))
    have hlit : ipLiteral ('[' :: (inner ++ [']']) ++ delimited ':' port) =
        ('[' :: (inner ++ [']']), delimited ':' port) := by
      simp only [List.cons_append, List.append_assoc, List.nil_append, ipLiteral]
      rw [show inner ++ ']' :: delimited ':' port =
        inner ++ delimited ']' (some (delimited ':' port)) from rfl, hbreak]
    have hport := @breakOn_delimited ':' [] List.not_mem_nil port
    rw [List.nil_append] at hport
    simp only [splitPort, hlit, hport, List.append_nil]

theorem parseAuthority_host_port {host : Text} {port : Option Text}
    (hhost : HostText host) (hport : ∀ p ∈ port, PortText p) :
    parseAuthority (host ++ delimited ':' port) =
      { userinfo := none, host := host, port := port } := by
  have hat : '@' ∉ host ++ delimited ':' port := by
    intro hmem
    rcases List.mem_append.mp hmem with hmem | hmem
    · exact hhost.at_not_mem hmem
    · simpa using delimited_port_not_mem hport hmem
  have huser : splitUserinfo (host ++ delimited ':' port) =
      (none, host ++ delimited ':' port) := by
    rw [splitUserinfo, breakOn_of_not_mem hat]
  simp only [parseAuthority, huser, splitPort_host hhost]

structure Origin where
  scheme : Text
  host : Text
  port : Option Text
  scheme_ne : scheme ≠ []
  scheme_chars : ∀ c ∈ scheme, schemeChar c = true
  host_text : HostText host
  port_text : ∀ p ∈ port, PortText p

def Origin.authority (o : Origin) : Authority :=
  { userinfo := none, host := o.host, port := o.port }

def Origin.text (o : Origin) : Text :=
  o.scheme ++ "://".toList ++ (o.host ++ delimited ':' o.port)

theorem Origin.authority_chars (o : Origin) :
    ∀ c ∈ o.host ++ delimited ':' o.port, authorityChar c = true := by
  intro c hc
  rcases List.mem_append.mp hc with hc | hc
  · exact o.host_text.authority_chars c hc
  · have hdelim := delimited_port_not_mem o.port_text hc
    simp_all [authorityChar]

theorem Origin.getLast_ne_slash (o : Origin) : ∀ a ∈ o.text.getLast?, a ≠ '/' := by
  have hne : o.host ++ delimited ':' o.port ≠ [] := by simp [o.host_text.1]
  intro a ha
  rw [Origin.text, List.getLast?_append_of_ne_nil _ hne] at ha
  rintro rfl
  exact absurd (o.authority_chars '/' (List.mem_of_getLast? ha)) (by decide)

theorem Origin.split_append (o : Origin) (tail : Text) :
    (split (o.text ++ tail)).scheme = some o.scheme ∧
      (split (o.text ++ tail)).authority =
        some (o.host ++ delimited ':' o.port ++ tail.takeWhile authorityChar) := by
  have hsplit := @split_scheme_authority o.scheme
    (o.host ++ delimited ':' o.port ++ tail) o.scheme_ne o.scheme_chars
  rw [List.takeWhile_append_of_pos o.authority_chars] at hsplit
  simpa only [Origin.text, List.append_assoc] using hsplit

/-- Text behind an origin leaves its authority alone exactly when it is empty
or starts a path, a query or a fragment. -/
theorem Origin.authority_append_iff (o : Origin) (tail : Text) :
    (split (o.text ++ tail)).authority.map parseAuthority = some o.authority ↔
      ∀ c ∈ tail.head?, authorityChar c = false := by
  have hparse : parseAuthority (o.host ++ delimited ':' o.port) = o.authority :=
    parseAuthority_host_port o.host_text o.port_text
  rw [(o.split_append tail).2, Option.map_some, Option.some.injEq, ← hparse,
    parseAuthority_injective.eq_iff, List.append_right_eq_self]
  cases tail with
  | nil => simp
  | cons c cs => cases hc : authorityChar c <;> simp [hc]

end ArticTrader.UriReference
