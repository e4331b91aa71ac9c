import Mathlib.Data.List.Basic
import Mathlib.Data.List.Infix

/-!
Lists parted by a marker, a word whose first letter does not come again in it, so
that its places in a list do not overlap.
-/

namespace ArticTrader.Markers

variable {α : Type*} {c : α} {p x x' y y' : List α}

theorem marker_step (hc : c ∉ p) {a : List α} (h : c :: p ++ y = a ++ (c :: p ++ y')) :
    a = [] ∧ y = y' ∨ ∃ z, a = c :: p ++ z ∧ y = z ++ (c :: p ++ y') := by
  rcases List.append_eq_append_iff.mp h with ⟨z, rfl, hrest⟩ | ⟨z, hmarker, hrest⟩
  · exact .inr ⟨z, rfl, hrest⟩
  · cases a with
    | nil =>
        left
        rw [List.nil_append] at h
        exact ⟨rfl, List.append_cancel_left h⟩
    | cons d a =>
        right
        obtain ⟨rfl, htail⟩ := List.cons.inj (hmarker.trans List.cons_append)
        cases z with
        | nil =>
            rw [List.append_nil] at htail
            rw [List.nil_append] at hrest
            exact ⟨[], by rw [List.append_nil, htail], by rw [List.nil_append, hrest]⟩
        | cons e z =>
            obtain ⟨rfl, -⟩ := List.cons.inj hrest
            rw [htail] at hc
            exact absurd (List.mem_append_right a List.mem_cons_self) hc

/-- Two ways to part a list at a marker are one, or one of them parts it later. -/
theorem marker_cases (hc : c ∉ p) (h : x ++ (c :: p ++ y) = x' ++ (c :: p ++ y')) :
    x = x' ∧ y = y' ∨ (∃ z, x' = x ++ (c :: p ++ z) ∧ y = z ++ (c :: p ++ y')) ∨
      ∃ z, x = x' ++ (c :: p ++ z) ∧ y' = z ++ (c :: p ++ y) := by
  rcases List.append_eq_append_iff.mp h with ⟨a, rfl, hrest⟩ | ⟨a, rfl, hrest⟩
  · rcases marker_step hc hrest with ⟨rfl, rfl⟩ | ⟨z, rfl, rfl⟩
    · exact .inl ⟨(List.append_nil x).symm, rfl⟩
    · exact .inr (.inl ⟨z, rfl, rfl⟩)
  · rcases marker_step hc hrest with ⟨rfl, rfl⟩ | ⟨z, rfl, rfl⟩
    · exact .inl ⟨List.append_nil x', rfl⟩
    · exact .inr (.inr ⟨z, rfl, rfl⟩)

theorem infix_of_parted {z : List α} : p <:+: z ++ (p ++ y) := ⟨z, y, by simp⟩

theorem marker_last (hc : c ∉ p) (hy : ¬ c :: p <:+: y) (hy' : ¬ c :: p <:+: y')
    (h : x ++ (c :: p ++ y) = x' ++ (c :: p ++ y')) : x = x' ∧ y = y' := by
  rcases marker_cases hc h with heq | ⟨z, -, rfl⟩ | ⟨z, -, rfl⟩
  · exact heq
  · exact absurd infix_of_parted hy
  · exact absurd infix_of_parted hy'

theorem marker_first (hc : c ∉ p) (hx : ¬ c :: p <:+: x) (hx' : ¬ c :: p <:+: x')
    (h : x ++ (c :: p ++ y) = x' ++ (c :: p ++ y')) : x = x' ∧ y = y' := by
  rcases marker_cases hc h with heq | ⟨z, rfl, -⟩ | ⟨z, rfl, -⟩
  · exact heq
  · exact absurd infix_of_parted hx'
  · exact absurd infix_of_parted hx

/-- A list is parted in one way if the marker has no other place in it. -/
theorem parted_once_iff (hc : c ∉ p) :
    (∀ x' y', x' ++ (c :: p ++ y') = x ++ (c :: p ++ y) → x' = x ∧ y' = y) ↔
      ¬ c :: p <:+: x ∧ ¬ c :: p <:+: y := by
  constructor
  · intro h
    refine ⟨?_, ?_⟩
    · rintro ⟨z, t, rfl⟩
      have hsame := (h z (t ++ (c :: p ++ y)) (by simp)).1
      have hlength := congrArg List.length hsame
      simp only [List.length_append, List.length_cons] at hlength
      omega
    · rintro ⟨z, t, rfl⟩
      have hsame := (h (x ++ (c :: p ++ z)) t (by simp)).1
      have hlength := congrArg List.length hsame
      simp only [List.length_append, List.length_cons] at hlength
      omega
  · rintro ⟨hx, hy⟩ x' y' h
    rcases marker_cases hc h with heq | ⟨z, rfl, -⟩ | ⟨z, -, rfl⟩
    · exact heq
    · exact absurd infix_of_parted hx
    · exact absurd infix_of_parted hy

theorem not_infix_of_notMem (h : c ∉ y) : ¬ c :: p <:+: y :=
  fun hplace => h (hplace.subset List.mem_cons_self)

end ArticTrader.Markers
