import Mathlib.Data.Set.Basic
import Mathlib.Order.Bounds.Basic
import ArticTrader.BacktestMetrics

/-!
The drawdowns of an equity curve over all pairs of its points, and the largest of
them as the walk with a running peak finds it.
-/

namespace ArticTrader.Drawdowns

open ArticTrader.BacktestMetrics

/-- The falls from a positive point of the curve to one that is not before it, each as a
share of the point. -/
def drawdowns (e : List ℚ) : Set ℚ :=
  {d | ∃ (i j : ℕ) (a b : ℚ),
    i ≤ j ∧ e[i]? = some a ∧ e[j]? = some b ∧ 0 < a ∧ d = (a - b) / a}

variable {e : List ℚ} {s : ℚ × ℚ} {v d : ℚ}

theorem drawdowns_subset_append (e more : List ℚ) : drawdowns e ⊆ drawdowns (e ++ more) := by
  rintro d ⟨i, j, a, b, hij, ha, hb, hpos, rfl⟩
  have hi := (List.getElem?_eq_some_iff.mp ha).1
  have hj := (List.getElem?_eq_some_iff.mp hb).1
  rw [← List.getElem?_append_left hi] at ha
  rw [← List.getElem?_append_left hj] at hb
  exact ⟨i, j, a, b, hij, ha, hb, hpos, rfl⟩

theorem mem_drawdowns_concat :
    d ∈ drawdowns (e ++ [v]) ↔ d ∈ drawdowns e ∨ ∃ a ∈ e ++ [v], 0 < a ∧ d = (a - v) / a := by
  constructor
  · rintro ⟨i, j, a, b, hij, ha, hb, hpos, rfl⟩
    rcases Nat.lt_or_ge j e.length with hj | hj
    · left
      rw [List.getElem?_append_left hj] at hb
      rw [List.getElem?_append_left (hij.trans_lt hj)] at ha
      exact ⟨i, j, a, b, hij, ha, hb, hpos, rfl⟩
    · right
      rw [List.getElem?_append_right hj, List.getElem?_singleton] at hb
      split_ifs at hb
      cases hb
      exact ⟨a, List.mem_of_getElem? ha, hpos, rfl⟩
  · rintro (hold | ⟨a, ha, hpos, rfl⟩)
    · exact drawdowns_subset_append e [v] hold
    · obtain ⟨i, ha⟩ := List.mem_iff_getElem?.mp ha
      have hi : i ≤ e.length := by
        have hlt := (List.getElem?_eq_some_iff.mp ha).1
        rw [List.length_append, List.length_singleton] at hlt
        omega
      exact ⟨i, e.length, a, v, hi, ha, List.getElem?_concat_length, hpos, rfl⟩

/-- What the walk keeps of the points behind it. -/
structure Walked (e : List ℚ) (s : ℚ × ℚ) : Prop where
  peak : IsGreatest {x | x ∈ e} s.1
  drawdown : IsGreatest (drawdowns e) s.2
  peak_pos : 0 < s.1

/-- The fall to a point is the larger, the higher it starts. -/
theorem fall_le {a peak v : ℚ} (ha : 0 < a) (hle : a ≤ peak) (hv : 0 ≤ v) :
    (a - v) / a ≤ (peak - v) / peak := by
  have hpeak : 0 < peak := ha.trans_le hle
  have hshare : v / peak ≤ v / a := div_le_div_of_nonneg_left hv ha hle
  rw [sub_div, sub_div, div_self ha.ne', div_self hpeak.ne']
  exact sub_le_sub_left hshare 1

theorem walked_first {first : ℚ} (h : 0 < first) :
    Walked [first] (drawdown_step (first, 0) first) := by
  have hstep : drawdown_step (first, 0) first = (first, 0) := by
    simp [drawdown_step]
  rw [hstep]
  refine ⟨⟨List.mem_cons_self, fun x hx => (List.mem_singleton.mp hx).le⟩, ⟨?_, ?_⟩, h⟩
  · exact ⟨0, 0, first, first, le_rfl, rfl, rfl, h, by rw [sub_self, zero_div]⟩
  · rintro d ⟨i, j, a, b, -, ha, hb, -, rfl⟩
    rw [List.mem_singleton.mp (List.mem_of_getElem? ha),
      List.mem_singleton.mp (List.mem_of_getElem? hb), sub_self, zero_div]

theorem drawdown_step_of_pos (hs : 0 < s.1) (v : ℚ) :
    drawdown_step s v = (max s.1 v, max s.2 ((max s.1 v - v) / max s.1 v)) := by
  have hpeak : (if s.1 < v then v else s.1) = max s.1 v := by
    rw [max_def_lt]
  unfold drawdown_step
  rw [hpeak]
  dsimp only
  rw [if_pos (hs.trans_le (le_max_left s.1 v)), max_def_lt s.2]

theorem Walked.step (h : Walked e s) (hv : 0 ≤ v) : Walked (e ++ [v]) (drawdown_step s v) := by
  rw [drawdown_step_of_pos h.peak_pos]
  have hpos : 0 < max s.1 v := h.peak_pos.trans_le (le_max_left s.1 v)
  have hmem : max s.1 v ∈ e ++ [v] := by
    rcases max_choice s.1 v with hmax | hmax
    · rw [hmax]
      exact List.mem_append_left [v] h.peak.1
    · rw [hmax]
      exact List.mem_append_right e List.mem_cons_self
  have hpeak : ∀ x ∈ e ++ [v], x ≤ max s.1 v := by
    intro x hx
    rcases List.mem_append.mp hx with hold | hnew
    · exact (h.peak.2 hold).trans (le_max_left s.1 v)
    · exact (List.mem_singleton.mp hnew).le.trans (le_max_right s.1 v)
  refine ⟨⟨hmem, hpeak⟩, ⟨?_, ?_⟩, hpos⟩
  · rw [mem_drawdowns_concat]
    rcases max_choice s.2 ((max s.1 v - v) / max s.1 v) with hmax | hmax
    · rw [hmax]
      exact .inl h.drawdown.1
    · rw [hmax]
      exact .inr ⟨_, hmem, hpos, rfl⟩
  · intro d hd
    rcases mem_drawdowns_concat.mp hd with hold | ⟨a, ha, hapos, rfl⟩
    · exact (h.drawdown.2 hold).trans (le_max_left _ _)
    · exact (fall_le hapos (hpeak a ha) hv).trans (le_max_right _ _)

theorem Walked.foldl {more : List ℚ} (h : Walked e s) (hmore : ∀ v ∈ more, 0 ≤ v) :
    Walked (e ++ more) (more.foldl drawdown_step s) := by
  induction more generalizing e s with
  | nil =>
      rw [List.append_nil]
      exact h
  | cons v more ih =>
      obtain ⟨hv, hrest⟩ := List.forall_mem_cons.mp hmore
      rw [List.append_cons]
      exact ih (h.step hv) hrest

/-- A curve that the metric is about: it has points, none is negative and the first is
positive. -/
structure Curve (e : List ℚ) : Prop where
  ne_nil : e ≠ []
  nonneg : ∀ x ∈ e, 0 ≤ x
  first_pos : ∀ x ∈ e.head?, 0 < x

theorem isGreatest_max_drawdown (h : Curve e) : IsGreatest (drawdowns e) (max_drawdown e) := by
  cases e with
  | nil => exact absurd rfl h.ne_nil
  | cons first rest =>
      have hstart := walked_first (h.first_pos first rfl)
      exact (hstart.foldl fun v hv => h.nonneg v (List.mem_cons_of_mem first hv)).drawdown

theorem never_falls_iff (h : Curve e) :
    max_drawdown e = 0 ↔ e.Pairwise (· ≤ ·) := by
  have hmax := isGreatest_max_drawdown h
  have hzero := (max_drawdown_bounds h.nonneg).1
  rw [List.pairwise_iff_getElem]
  constructor
  · intro heq i j hi hj hij
    by_contra hfall
    have ha : 0 < e[i] := (h.nonneg _ (List.getElem_mem hj)).trans_lt (not_le.mp hfall)
    have hle : (e[i] - e[j]) / e[i] ≤ max_drawdown e :=
      hmax.2 ⟨i, j, e[i], e[j], hij.le, List.getElem?_eq_getElem hi, List.getElem?_eq_getElem hj,
        ha, rfl⟩
    have hpos : 0 < (e[i] - e[j]) / e[i] := div_pos (sub_pos.mpr (not_le.mp hfall)) ha
    rw [heq] at hle
    exact not_lt.mpr hle hpos
  · intro hrises
    obtain ⟨i, j, a, b, hij, ha, hb, hpos, heq⟩ := hmax.1
    obtain ⟨hi, rfl⟩ := List.getElem?_eq_some_iff.mp ha
    obtain ⟨hj, rfl⟩ := List.getElem?_eq_some_iff.mp hb
    have hle : e[i] ≤ e[j] := by
      rcases hij.eq_or_lt with rfl | hlt
      · exact le_rfl
      · exact hrises i j hi hj hlt
    rw [heq] at hzero ⊢
    exact le_antisymm (div_nonpos_of_nonpos_of_nonneg (sub_nonpos.mpr hle) hpos.le) hzero

theorem drawdowns_scale {c : ℚ} (hc : 0 < c) (e : List ℚ) :
    drawdowns (e.map (c * ·)) = drawdowns e := by
  ext d
  constructor
  · rintro ⟨i, j, a, b, hij, ha, hb, hpos, rfl⟩
    rw [List.getElem?_map] at ha hb
    obtain ⟨x, hx, rfl⟩ := Option.map_eq_some_iff.mp ha
    obtain ⟨y, hy, rfl⟩ := Option.map_eq_some_iff.mp hb
    refine ⟨i, j, x, y, hij, hx, hy, (mul_pos_iff_of_pos_left hc).mp hpos, ?_⟩
    rw [← mul_sub, mul_div_mul_left _ _ hc.ne']
  · rintro ⟨i, j, a, b, hij, ha, hb, hpos, rfl⟩
    refine ⟨i, j, c * a, c * b, hij, ?_, ?_, mul_pos hc hpos, ?_⟩
    · rw [List.getElem?_map, ha, Option.map_some]
    · rw [List.getElem?_map, hb, Option.map_some]
    · rw [← mul_sub, mul_div_mul_left _ _ hc.ne']

theorem Curve.scale {c : ℚ} (hc : 0 < c) (h : Curve e) : Curve (e.map (c * ·)) := by
  refine ⟨mt List.map_eq_nil_iff.mp h.ne_nil, ?_, ?_⟩
  · intro x hx
    obtain ⟨y, hy, rfl⟩ := List.mem_map.mp hx
    exact mul_nonneg hc.le (h.nonneg y hy)
  · intro x hx
    rw [List.head?_map] at hx
    obtain ⟨y, hy, rfl⟩ := Option.map_eq_some_iff.mp hx
    exact mul_pos hc (h.first_pos y hy)

theorem le_drawdown_step (s : ℚ × ℚ) (v : ℚ) : s.2 ≤ (drawdown_step s v).2 := by
  unfold drawdown_step
  generalize (if s.1 < v then v else s.1) = peak
  by_cases hpos : 0 < peak
  · dsimp only
    rw [if_pos hpos]
    exact max_def_lt s.2 _ ▸ le_max_left s.2 _
  · dsimp only
    rw [if_neg hpos]

theorem le_foldl_drawdown (s : ℚ × ℚ) (more : List ℚ) :
    s.2 ≤ (more.foldl drawdown_step s).2 := by
  induction more generalizing s with
  | nil => exact le_rfl
  | cons v more ih => exact (le_drawdown_step s v).trans (ih _)

theorem max_drawdown_le_append (hne : e ≠ []) (more : List ℚ) :
    max_drawdown e ≤ max_drawdown (e ++ more) := by
  cases e with
  | nil => exact absurd rfl hne
  | cons first rest =>
      rw [max_drawdown, List.cons_append, max_drawdown, ← List.cons_append, List.foldl_append]
      exact le_foldl_drawdown _ more

/-- The walk with a running peak finds the largest drawdown over all pairs of points. -/
theorem max_drawdown_spec {e : List ℚ} (h : Curve e) :
    IsGreatest (drawdowns e) (max_drawdown e) ∧
    (0 ≤ max_drawdown e ∧ max_drawdown e ≤ 1) ∧
    (max_drawdown e = 0 ↔ e.Pairwise (· ≤ ·)) ∧
    (∀ c, 0 < c → max_drawdown (e.map (c * ·)) = max_drawdown e) ∧
    ∀ more, max_drawdown e ≤ max_drawdown (e ++ more) := by
  refine ⟨isGreatest_max_drawdown h, max_drawdown_bounds h.nonneg, never_falls_iff h, ?_,
    max_drawdown_le_append h.ne_nil⟩
  intro c hc
  have hscaled := isGreatest_max_drawdown (h.scale hc)
  rw [drawdowns_scale hc] at hscaled
  exact hscaled.unique (isGreatest_max_drawdown h)

/-- A curve that touches zero and recovers. -/
theorem max_drawdown_of_ruin : max_drawdown [4, 2, 6, 0, 6] = 1 ∧
    IsGreatest (drawdowns [4, 2, 6, 0, 6]) (max_drawdown [4, 2, 6, 0, 6]) :=
  ⟨by decide +kernel, (max_drawdown_spec ⟨by decide, by decide, by decide⟩).1⟩

end ArticTrader.Drawdowns
