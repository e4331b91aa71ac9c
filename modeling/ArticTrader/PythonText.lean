import Mathlib.Data.List.TakeWhile
import Mathlib.Data.List.DropRight

/-!
The string operations of Python that the modelled services use. A `str` is the
list of its code points.
-/

namespace ArticTrader.PythonText

abbrev Text := List Char

instance : LawfulBEq Text := inferInstance

instance : LawfulBEq (Text × Text) := inferInstance

def startswith (s p : Text) : Bool := p.isPrefixOf s

def endswith (s p : Text) : Bool := p.isSuffixOf s

def rstrip (s : Text) (c : Char) : Text := s.rdropWhile (· = c)

/-- `s.lower()` on ASCII text. -/
def lower (s : Text) : Text := s.map Char.toLower

/-- `s.upper()` on ASCII text. -/
def upper (s : Text) : Text := s.map Char.toUpper

/-- `s.replace(old, new)` from the `skip`-th character on, for an `old` that is not empty. -/
def replace_from (old new : Text) : ℕ → Text → Text
  | _, [] => []
  | skip + 1, _ :: s => replace_from old new skip s
  | 0, c :: s =>
      if startswith (c :: s) old then new ++ replace_from old new (old.length - 1) s
      else c :: replace_from old new 0 s

def replace (s old new : Text) : Text := replace_from old new 0 s

def hexdigit (c : Char) : Option ℕ :=
  if '0' ≤ c ∧ c ≤ '9' then some (c.toNat - '0'.toNat)
  else if 'a' ≤ c ∧ c ≤ 'f' then some (c.toNat - 'a'.toNat + 10)
  else if 'A' ≤ c ∧ c ≤ 'F' then some (c.toNat - 'A'.toNat + 10)
  else none

def ascii_space (c : Char) : Bool := c = ' ' || (9 ≤ c.toNat && c.toNat ≤ 13)

def strip (s : Text) : Text := (s.dropWhile ascii_space).rdropWhile ascii_space

/-- `bytes.fromhex(s)`; `none` stands for the `ValueError`. -/
def fromhex : Text → Option (List UInt8)
  | [] => some []
  | [c] => if ascii_space c then some [] else none
  | c :: d :: rest =>
      if ascii_space c then fromhex (d :: rest)
      else do
        let high ← hexdigit c
        let low ← hexdigit d
        let tail ← fromhex rest
        return UInt8.ofNat (high * 16 + low) :: tail

def truthy : Option Text → Bool
  | none => false
  | some s => !s.isEmpty

theorem startswith_iff {s p : Text} : startswith s p = true ↔ ∃ t, s = p ++ t := by
  rw [startswith, List.isPrefixOf_iff_prefix]
  constructor
  · rintro ⟨t, h⟩
    exact ⟨t, h.symm⟩
  · rintro ⟨t, h⟩
    exact ⟨t, h.symm⟩

theorem endswith_iff {s p : Text} : endswith s p = true ↔ p <:+ s :=
  List.isSuffixOf_iff_suffix

@[simp] theorem startswith_append (p t : Text) : startswith (p ++ t) p = true :=
  startswith_iff.mpr ⟨t, rfl⟩

theorem replace_from_absent {old s : Text} (new : Text) (h : ¬ old <:+: s) :
    replace_from old new 0 s = s := by
  induction s with
  | nil => rfl
  | cons c s ih =>
      have hhere : ¬ startswith (c :: s) old = true := by
        intro hstart
        exact h (List.isPrefixOf_iff_prefix.mp hstart).isInfix
      rw [replace_from, if_neg hhere, ih fun hs => h (List.infix_cons hs)]

theorem length_replace_from_le (old s : Text) (skip : ℕ) :
    (replace_from old [] skip s).length ≤ s.length := by
  induction s generalizing skip with
  | nil => exact le_refl 0
  | cons c s ih =>
      cases skip with
      | zero =>
          rw [replace_from]
          split
          · exact Nat.le_succ_of_le (ih _)
          · exact Nat.succ_le_succ (ih 0)
      | succ skip => exact Nat.le_succ_of_le (ih skip)

/-- Removing what occurs shortens a text. -/
theorem length_replace_from_lt {old s : Text} (hold : old ≠ []) (h : old <:+: s) :
    (replace_from old [] 0 s).length < s.length := by
  induction s with
  | nil => exact absurd (List.infix_nil.mp h) hold
  | cons c s ih =>
      rw [replace_from]
      split
      next => exact Nat.lt_succ_of_le (length_replace_from_le old s _)
      next hhere =>
          rcases List.infix_cons_iff.mp h with hstart | hs
          · exact absurd (List.isPrefixOf_iff_prefix.mpr hstart) hhere
          · exact Nat.succ_lt_succ (ih hs)

theorem replace_absent {old s : Text} (new : Text) (h : ¬ old <:+: s) : replace s old new = s :=
  replace_from_absent new h

theorem length_replace_lt {old s : Text} (hold : old ≠ []) (h : old <:+: s) :
    (replace s old []).length < s.length :=
  length_replace_from_lt hold h

/-- Stripping removes a run of the character that is not preceded by it. -/
theorem rstrip_append_replicate {s : Text} {c : Char} (n : Nat)
    (h : ∀ a ∈ s.getLast?, a ≠ c) : rstrip (s ++ List.replicate n c) c = s := by
  have hrun : ∀ a ∈ List.replicate n c, decide (a = c) = true := by
    intro a ha
    simpa using List.eq_of_mem_replicate ha
  rw [rstrip, List.rdropWhile, List.reverse_append, List.reverse_replicate,
    List.dropWhile_append_of_pos hrun]
  cases hrev : s.reverse with
  | nil =>
      have hs : s = [] := by simpa using hrev
      simp [hs]
  | cons a t =>
      have ha : a ≠ c := by
        apply h a
        rw [← List.head?_reverse, hrev]
        rfl
      rw [List.dropWhile_cons_of_neg (by simpa using ha), ← hrev, List.reverse_reverse]

end ArticTrader.PythonText
