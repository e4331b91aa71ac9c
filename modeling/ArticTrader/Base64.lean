import ArticTrader.PythonText

/-!
Base64 as Python writes and reads it. The reader skips whatever is not of the alphabet and
stops at the padding of a group.
-/

namespace ArticTrader.Base64

open ArticTrader.PythonText (Text)

def PAD : Char := '='

/-- The letter of six bits. -/
def letter (v : Nat) : Char :=
  if v < 26 then Char.ofNat (65 + v)
  else if v < 52 then Char.ofNat (71 + v)
  else if v < 62 then Char.ofNat (v - 4)
  else if v = 62 then '+'
  else '/'

def value (c : Char) : Option Nat :=
  if 65 ≤ c.toNat ∧ c.toNat ≤ 90 then some (c.toNat - 65)
  else if 97 ≤ c.toNat ∧ c.toNat ≤ 122 then some (c.toNat - 71)
  else if 48 ≤ c.toNat ∧ c.toNat ≤ 57 then some (c.toNat + 4)
  else if c = '+' then some 62
  else if c = '/' then some 63
  else none

/-- `base64.b64encode` -/
def b64encode : List UInt8 → Text
  | [] => []
  | [a] => [letter (a.toNat / 4), letter (a.toNat % 4 * 16), PAD, PAD]
  | [a, b] =>
      [letter (a.toNat / 4), letter (a.toNat % 4 * 16 + b.toNat / 16), letter (b.toNat % 16 * 4),
        PAD]
  | a :: b :: c :: bytes =>
      letter (a.toNat / 4) :: letter (a.toNat % 4 * 16 + b.toNat / 16) ::
        letter (b.toNat % 16 * 4 + c.toNat / 64) :: letter (c.toNat % 64) :: b64encode bytes

/-- Where the reader is within a group of four letters, the bits it holds, the padding it has
seen and the bytes it has read. -/
structure Reader where
  quad_pos : Nat
  leftchar : Nat
  pads : Nat
  bytes : List UInt8
  deriving DecidableEq, Repr

def Reader.take (r : Reader) (v : Nat) : Reader :=
  match r.quad_pos with
  | 0 => ⟨1, v, 0, r.bytes⟩
  | 1 => ⟨2, v % 16, 0, r.bytes ++ [UInt8.ofNat (r.leftchar * 4 + v / 16)]⟩
  | 2 => ⟨3, v % 4, 0, r.bytes ++ [UInt8.ofNat (r.leftchar * 16 + v / 4)]⟩
  | _ => ⟨0, 0, 0, r.bytes ++ [UInt8.ofNat (r.leftchar * 64 + v)]⟩

/-- `binascii.a2b_base64`, which is not strict. -/
def a2b_base64 (r : Reader) : Text → Option (List UInt8)
  | [] => if r.quad_pos = 0 then some r.bytes else none
  | c :: cs =>
      if c = PAD then
        if 2 ≤ r.quad_pos then
          if 4 ≤ r.quad_pos + (r.pads + 1) then some r.bytes
          else a2b_base64 { r with pads := r.pads + 1 } cs
        else a2b_base64 r cs
      else
        match value c with
        | none => a2b_base64 r cs
        | some v => a2b_base64 (r.take v) cs

/-- `base64.b64decode` of a `str`, which has to be ASCII. -/
def b64decode (s : Text) : Option (List UInt8) :=
  if s.all (fun c => c.toNat < 128) then a2b_base64 ⟨0, 0, 0, []⟩ s else none

theorem value_letter : ∀ v < 64, value (letter v) = some v := by decide

theorem letter_ne_pad : ∀ v < 64, letter v ≠ PAD := by decide

theorem letter_ascii : ∀ v < 64, (letter v).toNat < 128 := by decide

theorem a2b_letter (r : Reader) {v : Nat} (h : v < 64) (cs : Text) :
    a2b_base64 r (letter v :: cs) = a2b_base64 (r.take v) cs := by
  rw [a2b_base64, if_neg (letter_ne_pad v h), value_letter v h]

theorem a2b_nil {r : Reader} (h : r.quad_pos = 0) : a2b_base64 r [] = some r.bytes := if_pos h

theorem ofNat_toNat_add {a : UInt8} {n : Nat} (h : n = a.toNat) : UInt8.ofNat n = a := by
  rw [h, UInt8.ofNat_toNat]

/-- The first byte of a group. -/
theorem a2b_first (out : List UInt8) (a : UInt8) {v : Nat} (h : v < 16) (cs : Text) :
    a2b_base64 ⟨0, 0, 0, out⟩ (letter (a.toNat / 4) :: letter (a.toNat % 4 * 16 + v) :: cs) =
      a2b_base64 ⟨2, v, 0, out ++ [a]⟩ cs := by
  have ha := a.toNat_lt
  have hbits : (a.toNat % 4 * 16 + v) % 16 = v := by omega
  rw [a2b_letter _ (by omega), a2b_letter _ (by omega)]
  simp only [Reader.take]
  rw [ofNat_toNat_add (a := a) (by omega), hbits]

theorem a2b_second (out : List UInt8) (b : UInt8) {v : Nat} (h : v < 4) (cs : Text) :
    a2b_base64 ⟨2, b.toNat / 16, 0, out⟩ (letter (b.toNat % 16 * 4 + v) :: cs) =
      a2b_base64 ⟨3, v, 0, out ++ [b]⟩ cs := by
  have hb := b.toNat_lt
  have hbits : (b.toNat % 16 * 4 + v) % 4 = v := by omega
  rw [a2b_letter _ (by omega)]
  simp only [Reader.take]
  rw [ofNat_toNat_add (a := b) (by omega), hbits]

theorem a2b_third (out : List UInt8) (c : UInt8) (cs : Text) :
    a2b_base64 ⟨3, c.toNat / 64, 0, out⟩ (letter (c.toNat % 64) :: cs) =
      a2b_base64 ⟨0, 0, 0, out ++ [c]⟩ cs := by
  rw [a2b_letter _ (Nat.mod_lt _ (by decide))]
  simp only [Reader.take]
  rw [ofNat_toNat_add (a := c) (by omega)]

theorem a2b_encode (bytes out : List UInt8) :
    a2b_base64 ⟨0, 0, 0, out⟩ (b64encode bytes) = some (out ++ bytes) := by
  induction bytes using b64encode.induct generalizing out with
  | case1 =>
      rw [List.append_nil]
      rfl
  | case2 a =>
      have hfirst := a2b_first out a (v := 0) (by decide) [PAD, PAD]
      rw [Nat.add_zero] at hfirst
      rw [b64encode, hfirst]
      rfl
  | case3 a b =>
      have hb := b.toNat_lt
      rw [b64encode, a2b_first out a (show b.toNat / 16 < 16 by omega)]
      have hsecond := a2b_second (out ++ [a]) b (v := 0) (by decide) [PAD]
      rw [Nat.add_zero] at hsecond
      rw [hsecond, List.append_assoc]
      rfl
  | case4 a b c bytes ih =>
      have hb := b.toNat_lt
      have hc := c.toNat_lt
      rw [b64encode, a2b_first out a (by omega), a2b_second _ b (by omega), a2b_third, ih]
      simp only [List.append_assoc, List.cons_append, List.nil_append]

theorem b64encode_ascii (bytes : List UInt8) :
    (b64encode bytes).all (fun c => c.toNat < 128) = true := by
  have hletter : ∀ v < 64, decide ((letter v).toNat < 128) = true :=
    fun v hv => decide_eq_true (letter_ascii v hv)
  induction bytes using b64encode.induct with
  | case1 => rfl
  | case2 a =>
      have ha := a.toNat_lt
      simp only [b64encode, List.all_cons, List.all_nil, hletter _ (show a.toNat / 4 < 64 by omega),
        hletter _ (show a.toNat % 4 * 16 < 64 by omega)]
      decide
  | case3 a b =>
      have ha := a.toNat_lt
      have hb := b.toNat_lt
      simp only [b64encode, List.all_cons, List.all_nil, hletter _ (show a.toNat / 4 < 64 by omega),
        hletter _ (show a.toNat % 4 * 16 + b.toNat / 16 < 64 by omega),
        hletter _ (show b.toNat % 16 * 4 < 64 by omega)]
      decide
  | case4 a b c bytes ih =>
      have ha := a.toNat_lt
      have hb := b.toNat_lt
      have hc := c.toNat_lt
      simp only [b64encode, List.all_cons, ih, hletter _ (show a.toNat / 4 < 64 by omega),
        hletter _ (show a.toNat % 4 * 16 + b.toNat / 16 < 64 by omega),
        hletter _ (show b.toNat % 16 * 4 + c.toNat / 64 < 64 by omega),
        hletter _ (show c.toNat % 64 < 64 by omega)]
      decide

/-- What is written is read back. -/
theorem b64decode_b64encode (bytes : List UInt8) : b64decode (b64encode bytes) = some bytes := by
  rw [b64decode, if_pos (b64encode_ascii bytes)]
  exact a2b_encode bytes []

end ArticTrader.Base64
