import Mathlib.Data.List.Infix
import ArticTrader.PythonText

/-!
Texts split at the first occurrence of a marker.
-/

namespace ArticTrader.TextSplits

open ArticTrader.PythonText

/-- A text before the first occurrence of a marker, and behind it. -/
def partition (m : Text) : Text → Text × Option Text
  | [] => ([], none)
  | c :: t =>
      if startswith (c :: t) m then ([], some ((c :: t).drop m.length))
      else (c :: (partition m t).1, (partition m t).2)

/-- `t.split(m)[0]`. -/
def before (m t : Text) : Text := (partition m t).1

/-- `t.split(m, 1)[1]`, where the marker occurs. -/
def after (m t : Text) : Option Text := (partition m t).2

/-- No occurrence of the marker begins in the text, whatever follows it. -/
structure Clear (m u : Text) : Prop where
  inside : ¬ m <:+: u
  across : ∀ s, s <:+ u → s ≠ [] → ¬ s <+: m

theorem Clear.tail {m u : Text} {c : Char} (h : Clear m (c :: u)) : Clear m u :=
  ⟨fun hu => h.inside (List.infix_cons hu),
    fun s hs => h.across s (hs.trans (List.suffix_cons c u))⟩

theorem clear_of_not_mem {m p : Text} {x : Char} (h : x ∉ p) : Clear (x :: m) p := by
  refine ⟨?_, ?_⟩
  · intro hp
    exact h (hp.subset List.mem_cons_self)
  · intro s hs hne hbegins
    obtain ⟨d, s, rfl⟩ := List.exists_cons_of_ne_nil hne
    obtain ⟨rfl, -⟩ := List.cons_prefix_cons.mp hbegins
    exact h (hs.subset List.mem_cons_self)

theorem clear_of_last {m u : Text} {d : Char} (hu : ¬ m <:+: u) (hlast : u.getLast? = some d)
    (hd : d ∉ m) : Clear m u := by
  refine ⟨hu, ?_⟩
  rintro s ⟨r, rfl⟩ hne hbegins
  rw [List.getLast?_append_of_ne_nil r hne] at hlast
  exact hd (hbegins.subset (List.mem_of_mem_getLast? hlast))

theorem partition_clear {m u : Text} (h : Clear m u) (v : Text) :
    partition m (u ++ v) = (u ++ before m v, after m v) := by
  induction u with
  | nil => rfl
  | cons c u ih =>
      have hstart : ¬ startswith (c :: (u ++ v)) m = true := by
        intro hstart
        have hbegins : m <+: (c :: u) ++ v := List.isPrefixOf_iff_prefix.mp hstart
        rcases List.prefix_or_prefix_of_prefix hbegins (List.prefix_append (c :: u) v) with hm | hm
        · exact h.inside hm.isInfix
        · exact h.across _ List.suffix_rfl (List.cons_ne_nil c u) hm
      rw [List.cons_append, partition, if_neg hstart, ih h.tail]
      rfl

theorem before_clear {m u : Text} (h : Clear m u) (v : Text) : before m (u ++ v) = u ++ before m v :=
  congrArg Prod.fst (partition_clear h v)

theorem after_clear {m u : Text} (h : Clear m u) (v : Text) : after m (u ++ v) = after m v := by
  rw [after, partition_clear h]

theorem before_of_clear {m u : Text} (h : Clear m u) : before m u = u := by
  simpa [before, partition] using before_clear h []

theorem after_of_clear {m u : Text} (h : Clear m u) : after m u = none := by
  simpa [after, partition] using after_clear h []

theorem before_begins (m t : Text) : before m t <+: t := by
  induction t with
  | nil => exact List.prefix_rfl
  | cons c t ih =>
      unfold before partition
      split
      · exact List.nil_prefix
      · exact List.cons_prefix_cons.mpr ⟨rfl, ih⟩

theorem after_suffix {m t rest : Text} (h : after m t = some rest) : rest <:+ t := by
  induction t with
  | nil => simp [after, partition] at h
  | cons c t ih =>
      by_cases hstart : startswith (c :: t) m = true
      · obtain rfl : (c :: t).drop m.length = rest := by
          simpa [after, partition, hstart] using h
        exact List.drop_suffix _ _
      · have hrest : after m t = some rest := by
          simpa [after, partition, hstart] using h
        exact (ih hrest).trans (List.suffix_cons c t)

section Markers

variable {m : Text} (hm : m ≠ [])
include hm

theorem partition_marker (t : Text) : partition m (m ++ t) = ([], some t) := by
  obtain ⟨x, m, rfl⟩ := List.exists_cons_of_ne_nil hm
  rw [List.cons_append, partition, ← List.cons_append, if_pos (startswith_append _ t),
    List.drop_left]

theorem before_marker (t : Text) : before m (m ++ t) = [] := by
  rw [before, partition_marker hm]

theorem after_marker (t : Text) : after m (m ++ t) = some t := by
  rw [after, partition_marker hm]

theorem not_infix_before (t : Text) : ¬ m <:+: before m t := by
  induction t with
  | nil => simpa [before, partition] using hm
  | cons c t ih =>
      by_cases hstart : startswith (c :: t) m = true
      · simpa [before, partition, hstart] using hm
      · have hbefore : before m (c :: t) = c :: before m t := by
          simp [before, partition, hstart]
        rw [hbefore]
        intro hinfix
        rcases List.infix_cons_iff.mp hinfix with hbegins | hinfix
        · have htext : c :: before m t <+: c :: t :=
            List.cons_prefix_cons.mpr ⟨rfl, before_begins m t⟩
          exact hstart (List.isPrefixOf_iff_prefix.mpr (hbegins.trans htext))
        · exact ih hinfix

theorem not_infix_of_after {t : Text} (h : after m t = none) : ¬ m <:+: t := by
  have hbefore : before m t = t := by
    induction t with
    | nil => rfl
    | cons c t ih =>
        by_cases hstart : startswith (c :: t) m = true
        · simp [after, partition, hstart] at h
        · have htail : after m t = none := by
            simpa [after, partition, hstart] using h
          simpa [before, partition, hstart] using ih htail
  rw [← hbefore]
  exact not_infix_before hm t

end Markers

end ArticTrader.TextSplits
