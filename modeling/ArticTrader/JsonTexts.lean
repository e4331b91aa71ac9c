import Mathlib.Data.List.Basic
import Mathlib.Data.List.TakeWhile

/-!
JSON texts: a parser by recursive descent, and the grammar that it decides. Parsing is
also as lenient as Python's, which takes the names of the special numbers for values.
-/

namespace ArticTrader.JsonTexts

abbrev Chars := List Char

/-- A string is its code points, with an unpaired surrogate that is escaped as one of
them. The members of an object stand in their order, with every repeated name. -/
inductive Json where
  | null
  | bool (b : Bool)
  | number (text : Chars)
  | string (codes : List ℕ)
  | array (items : List Json)
  | object (members : List (List ℕ × Json))
  deriving Repr

def whitespace (c : Char) : Bool := c = ' ' || c = '\t' || c = '\n' || c = '\r'

def skip (t : Chars) : Chars := t.dropWhile whitespace

def expect (c : Char) : Chars → Option Chars
  | d :: t => if d = c then some t else none
  | [] => none

def digit (c : Char) : Bool := '0' ≤ c && c ≤ '9'

/-- The letters of which numbers and literal names are made. -/
def wordchar (c : Char) : Bool :=
  digit c || ('a' ≤ c && c ≤ 'z') || ('A' ≤ c && c ≤ 'Z') || c = '+' || c = '-' || c = '.'

def digits : Chars → Option Chars
  | d :: t => if digit d then some (t.dropWhile digit) else none
  | [] => none

def exponent : Chars → Bool
  | [] => true
  | e :: t =>
      (e = 'e' || e = 'E') &&
        digits (if t.head? = some '+' ∨ t.head? = some '-' then t.tail else t) == some []

def fraction (t : Chars) : Bool :=
  match expect '.' t with
  | some t =>
      match digits t with
      | some t => exponent t
      | none => false
  | none => exponent t

def number (t : Chars) : Bool :=
  let t := (expect '-' t).getD t
  match expect '0' t with
  | some t => fraction t
  | none =>
      match digits t with
      | some t => fraction t
      | none => false

def scalar (lenient : Bool) (word : Chars) : Option Json :=
  if word = "null".toList then some .null
  else if word = "true".toList then some (.bool true)
  else if word = "false".toList then some (.bool false)
  else if number word then some (.number word)
  else if lenient ∧ word ∈ ["NaN".toList, "Infinity".toList, "-Infinity".toList] then
    some (.number word)
  else none

/-- The text up to the quotation mark that ends a string, and what follows the mark. -/
def string_body : Bool → Chars → Option (Chars × Chars)
  | _, [] => none
  | true, c :: t => (string_body false t).map fun r => (c :: r.1, r.2)
  | false, c :: t =>
      if c = '"' then some ([], t)
      else (string_body (c = '\\') t).map fun r => (c :: r.1, r.2)

def hexdigit (c : Char) : Option ℕ :=
  if digit c then some (c.toNat - 48)
  else if 'a' ≤ c ∧ c ≤ 'f' then some (c.toNat - 87)
  else if 'A' ≤ c ∧ c ≤ 'F' then some (c.toNat - 55)
  else none

def hex4 (a b c d : Char) : Option ℕ := do
  let a ← hexdigit a
  let b ← hexdigit b
  let c ← hexdigit c
  let d ← hexdigit d
  return ((a * 16 + b) * 16 + c) * 16 + d

def escape (c : Char) : Option ℕ :=
  ([('"', 34), ('\\', 92), ('/', 47), ('b', 8), ('f', 12), ('n', 10), ('r', 13),
    ('t', 9)] : List (Char × ℕ)).lookup c

/-- The codes that a string's text stands for, pairs of surrogates still apart. -/
def units : Chars → Option (List ℕ)
  | [] => some []
  | '\\' :: 'u' :: a :: b :: c :: d :: t => do
      let code ← hex4 a b c d
      let codes ← units t
      return code :: codes
  | '\\' :: c :: t => do
      let code ← escape c
      let codes ← units t
      return code :: codes
  | c :: t => if c.toNat < 32 then none else (units t).map (c.toNat :: ·)

def join_surrogates : List ℕ → List ℕ
  | high :: low :: codes =>
      if 0xd800 ≤ high ∧ high ≤ 0xdbff ∧ 0xdc00 ≤ low ∧ low ≤ 0xdfff then
        (0x10000 + (high - 0xd800) * 1024 + (low - 0xdc00)) :: join_surrogates codes
      else high :: join_surrogates (low :: codes)
  | codes => codes

def decode (body : Chars) : Option (List ℕ) := (units body).map join_surrogates

/-- A string behind its first quotation mark. -/
def string (t : Chars) : Option (List ℕ × Chars) := do
  let (body, rest) ← string_body false t
  let codes ← decode body
  return (codes, rest)

mutual

/-- A value at the beginning of a text, and what follows it. A number or a name is the
longest run of its letters, since none of them may follow one. -/
def value (lenient : Bool) : ℕ → Chars → Option (Json × Chars)
  | 0, _ => none
  | n + 1, t =>
      match expect '"' t with
      | some t => (string t).map fun r => (.string r.1, r.2)
      | none =>
          match expect '{' t with
          | some t =>
              match expect '}' (skip t) with
              | some rest => some (.object [], rest)
              | none => (members lenient n (skip t)).map fun r => (.object r.1, r.2)
          | none =>
              match expect '[' t with
              | some t =>
                  match expect ']' (skip t) with
                  | some rest => some (.array [], rest)
                  | none => (items lenient n (skip t)).map fun r => (.array r.1, r.2)
              | none =>
                  (scalar lenient (t.takeWhile wordchar)).map fun v => (v, t.dropWhile wordchar)

def members (lenient : Bool) : ℕ → Chars → Option (List (List ℕ × Json) × Chars)
  | 0, _ => none
  | n + 1, t => do
      let t ← expect '"' t
      let (name, t) ← string t
      let t ← expect ':' (skip t)
      let (v, t) ← value lenient n (skip t)
      match expect ',' (skip t) with
      | some t => (members lenient n (skip t)).map fun r => ((name, v) :: r.1, r.2)
      | none => (expect '}' (skip t)).map fun rest => ([(name, v)], rest)

def items (lenient : Bool) : ℕ → Chars → Option (List Json × Chars)
  | 0, _ => none
  | n + 1, t => do
      let (v, t) ← value lenient n t
      match expect ',' (skip t) with
      | some t => (items lenient n (skip t)).map fun r => (v :: r.1, r.2)
      | none => (expect ']' (skip t)).map fun rest => ([v], rest)

end

/-- The value of a whole text. -/
def loads (lenient : Bool) (t : Chars) : Option Json :=
  match value lenient (t.length + 1) (skip t) with
  | some (v, rest) => if skip rest = [] then some v else none
  | none => none

def code_points (t : Chars) : List ℕ := t.map Char.toNat

/-- The member of an object that a name leads to: the last one of the name. -/
def member (name : Chars) (ms : List (List ℕ × Json)) : Option Json :=
  ms.reverse.lookup (code_points name)

end ArticTrader.JsonTexts
