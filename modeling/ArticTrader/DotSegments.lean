import Mathlib.Data.List.DropRight
import ArticTrader.PythonText

/-!
The `remove_dot_segments` routine of RFC 3986, section 5.2.4: an input buffer is
moved to an output buffer, one segment at a time. It leaves the last segment of
a path alone unless that is a dot segment.
-/

namespace ArticTrader.DotSegments

open ArticTrader.PythonText

def notSlash (c : Char) : Bool := c ≠ '/'

def removeLastSegment (output : Text) : Text := (output.rdropWhile notSlash).dropLast

/-- One round of the routine, by its rules A to E. -/
def dotStep (input output : Text) : Text × Text :=
  match input with
  | [] => ([], output)
  | '.' :: '.' :: '/' :: rest => (rest, output)
  | '.' :: '/' :: rest => (rest, output)
  | '/' :: '.' :: '/' :: rest => ('/' :: rest, output)
  | ['/', '.'] => (['/'], output)
  | '/' :: '.' :: '.' :: '/' :: rest => ('/' :: rest, removeLastSegment output)
  | ['/', '.', '.'] => (['/'], removeLastSegment output)
  | ['.'] => ([], output)
  | ['.', '.'] => ([], output)
  | c :: rest => (rest.dropWhile notSlash, output ++ c :: rest.takeWhile notSlash)

def dotLoop : ℕ → Text → Text → Text
  | 0, _, output => output
  | fuel + 1, input, output =>
      dotLoop fuel (dotStep input output).1 (dotStep input output).2

/-- Every round takes at least one character of the input. -/
def removeDotSegments (path : Text) : Text := dotLoop path.length path []

inductive DotMove : Text → Text → Text → Text → Prop where
  | done (output : Text) : DotMove [] output [] output
  | relative {dots rest output : Text} (hdots : dots = ['.'] ∨ dots = ['.', '.'])
      : DotMove (dots ++ '/' :: rest) output rest output
  | here (rest output : Text) : DotMove ('/' :: '.' :: '/' :: rest) output ('/' :: rest) output
  | here_last (output : Text) : DotMove ['/', '.'] output ['/'] output
  | up (rest output : Text) :
      DotMove ('/' :: '.' :: '.' :: '/' :: rest) output ('/' :: rest) (removeLastSegment output)
  | up_last (output : Text) : DotMove ['/', '.', '.'] output ['/'] (removeLastSegment output)
  | alone {dots output : Text} (hdots : dots = ['.'] ∨ dots = ['.', '.']) :
      DotMove dots output [] output
  | segment (c : Char) (rest output : Text) :
      DotMove (c :: rest) output (rest.dropWhile notSlash)
        (output ++ c :: rest.takeWhile notSlash)

theorem dotStep_move (input output : Text) :
    DotMove input output (dotStep input output).1 (dotStep input output).2 := by
  unfold dotStep
  split
  · exact .done output
  · exact .relative (.inr rfl)
  · exact .relative (.inl rfl)
  · exact .here _ output
  · exact .here_last output
  · exact .up _ output
  · exact .up_last output
  · exact .alone (.inl rfl)
  · exact .alone (.inr rfl)
  · exact .segment _ _ output

theorem dotStep_length_lt {input : Text} (output : Text) (h : input ≠ []) :
    (dotStep input output).1.length < input.length := by
  have hmove := dotStep_move input output
  generalize (dotStep input output).1 = input' at hmove
  generalize (dotStep input output).2 = output' at hmove
  cases hmove with
  | done => exact absurd rfl h
  | relative =>
      simp only [List.length_append, List.length_cons]
      omega
  | alone hdots => rcases hdots with rfl | rfl <;> simp
  | segment c rest =>
      have hle := (List.dropWhile_suffix notSlash (l := rest)).length_le
      simp only [List.length_cons]
      omega
  | _ => simp

@[simp] theorem dotLoop_nil (fuel : ℕ) (output : Text) : dotLoop fuel [] output = output := by
  induction fuel with
  | zero => rfl
  | succ fuel ih => exact ih

theorem slash_suffix_unique {v w s : Text} (hv : '/' ∉ v) (hw : '/' ∉ w)
    (hvs : '/' :: v <:+ s) (hws : '/' :: w <:+ s) : v = w := by
  have hinner : ∀ {a b : Text}, '/' ∉ b → '/' :: a <:+ '/' :: b → a = b := by
    intro a b hb h
    rcases List.suffix_cons_iff.mp h with heq | hsuffix
    · exact (List.cons.inj heq).2
    · exact absurd (hsuffix.subset (List.mem_cons_self ..)) hb
  rcases List.suffix_or_suffix_of_suffix hvs hws with h | h
  · exact hinner hw h
  · exact (hinner hv h).symm

theorem dropWhile_notSlash (s : Text) :
    (s.dropWhile notSlash = [] ∧ '/' ∉ s) ∨ ∃ rest, s.dropWhile notSlash = '/' :: rest := by
  induction s with
  | nil => exact .inl ⟨rfl, List.not_mem_nil⟩
  | cons c s ih =>
      by_cases hc : c = '/'
      · subst hc
        exact .inr ⟨s, rfl⟩
      · rw [List.dropWhile_cons_of_pos (by simpa [notSlash] using hc)]
        simpa [Ne.symm hc] using ih

/-- What the loop ends with is what its input ends with, if that is a slash and a
nonempty segment. The input is at the start of the path or at a slash. -/
theorem suffix_of_dotLoop {w : Text} (hw : '/' ∉ w) (hne : w ≠ []) {fuel : ℕ}
    {input output : Text} (hfuel : input.length ≤ fuel)
    (hstart : output = [] ∨ input = [] ∨ ∃ rest, input = '/' :: rest)
    (h : '/' :: w <:+ dotLoop fuel input output) :
    '/' :: w <:+ input ∨ input = [] ∧ '/' :: w <:+ output := by
  induction fuel generalizing input output with
  | zero => exact .inr ⟨List.eq_nil_of_length_eq_zero (by omega), h⟩
  | succ fuel ih =>
      by_cases hnil : input = []
      · subst hnil
        rw [dotLoop_nil] at h
        exact .inr ⟨rfl, h⟩
      have hlt := dotStep_length_lt output hnil
      have hmove := dotStep_move input output
      rw [dotLoop] at h
      generalize (dotStep input output).1 = input' at h hmove hlt
      generalize (dotStep input output).2 = output' at h hmove hlt
      have hlater := fun hstart' => ih (by omega) hstart' h
      have hslash : ¬ '/' :: w <:+ ['/'] := by
        intro hsuffix
        exact hne (slash_suffix_unique hw List.not_mem_nil hsuffix (List.suffix_refl _))
      have hempty (hrelative : ∀ rest, input ≠ '/' :: rest) : output = [] := by
        rcases hstart with h | h | ⟨rest, h⟩
        · exact h
        · exact absurd h hnil
        · exact absurd h (hrelative rest)
      have hrooted (rest : Text) (heq : input' = '/' :: rest) : '/' :: w <:+ input' := by
        rcases hlater (.inr (.inr ⟨rest, heq⟩)) with hsuffix | ⟨hnone, -⟩
        · exact hsuffix
        · rw [heq] at hnone
          cases hnone
      cases hmove with
      | done => exact absurd rfl hnil
      | @relative dots rest output hdots =>
          have houtput : output = [] := hempty fun rest' h => by
            rcases hdots with rfl | rfl <;> cases h
          rcases hlater (.inl houtput) with hsuffix | ⟨-, hsuffix⟩
          · exact .inl (hsuffix.trans ⟨dots ++ ['/'], by simp⟩)
          · simp [houtput] at hsuffix
      | here rest => exact .inl ((hrooted rest rfl).trans ⟨['/', '.'], rfl⟩)
      | here_last => exact absurd (hrooted [] rfl) hslash
      | up rest => exact .inl ((hrooted rest rfl).trans ⟨['/', '.', '.'], rfl⟩)
      | up_last => exact absurd (hrooted [] rfl) hslash
      | alone hdots =>
          have houtput : output = [] := hempty fun rest' h => by
            rcases hdots with rfl | rfl <;> cases h
          rcases hlater (.inr (.inl rfl)) with hsuffix | ⟨-, hsuffix⟩
          · simp at hsuffix
          · simp [houtput] at hsuffix
      | segment c rest =>
          rcases dropWhile_notSlash rest with ⟨hdrop, hrest⟩ | ⟨later, hdrop⟩
          · rcases hlater (.inr (.inl hdrop)) with hsuffix | ⟨-, hsuffix⟩
            · simp [hdrop] at hsuffix
            · have htake : rest.takeWhile notSlash = rest := by
                have hsplit := List.takeWhile_append_dropWhile (p := notSlash) (l := rest)
                rwa [hdrop, List.append_nil] at hsplit
              rw [htake] at hsuffix
              rcases hstart with rfl | hnone | ⟨rest', heq⟩
              · exact .inl hsuffix
              · cases hnone
              · obtain ⟨rfl, rfl⟩ := List.cons.inj heq
                have hwr := slash_suffix_unique hw hrest hsuffix (List.suffix_append ..)
                exact .inl (hwr ▸ List.suffix_refl _)
          · have hsuffix := hrooted later hdrop
            exact .inl ((hsuffix.trans (List.dropWhile_suffix _)).trans (List.suffix_cons ..))

/-- A last segment of the normalised path was the last segment of the path. -/
theorem suffix_of_removeDotSegments {w path : Text} (hw : '/' ∉ w) (hne : w ≠ [])
    (h : '/' :: w <:+ removeDotSegments path) : '/' :: w <:+ path := by
  rcases suffix_of_dotLoop hw hne le_rfl (.inl rfl) h with hsuffix | ⟨-, hsuffix⟩
  · exact hsuffix
  · simp at hsuffix

example : removeDotSegments "/a/b/c/./../../g".toList = "/a/g".toList := by decide

example : removeDotSegments "mid/content=5/../6".toList = "mid/6".toList := by decide

end ArticTrader.DotSegments
