import Mathlib.Algebra.Order.Field.Rat
import Mathlib.Data.Rat.Lemmas
import Mathlib.Tactic.Linarith
import Mathlib.Tactic.Positivity

/-!
The metrics of an equity curve that need no square root: the returns from step to
step and the largest drawdown.
-/

namespace ArticTrader.BacktestMetrics

/-- The equities next to each other, as `_returns` walks over them. -/
def steps (equity_curve : List ℚ) : List (ℚ × ℚ) := equity_curve.zip equity_curve.tail

def step_return (prev v : ℚ) : ℚ := if prev = 0 then 0 else (v - prev) / prev

/-- `_returns` -/
def returns (equity_curve : List ℚ) : List ℚ :=
  (steps equity_curve).map fun step => step_return step.1 step.2

/-- The equities that `_returns` divides by. -/
def divisors (equity_curve : List ℚ) : List ℚ :=
  ((steps equity_curve).map (·.1)).filter (· ≠ 0)

/-- The peak so far, and the largest drawdown so far. -/
def drawdown_step (s : ℚ × ℚ) (v : ℚ) : ℚ × ℚ :=
  let peak := if s.1 < v then v else s.1
  if 0 < peak then
    let dd := (peak - v) / peak
    (peak, if s.2 < dd then dd else s.2)
  else (peak, s.2)

def max_drawdown : List ℚ → ℚ
  | [] => 0
  | first :: rest => ((first :: rest).foldl drawdown_step (first, 0)).2

/-- What the metrics take for granted. -/
structure Solvent (equity_curve : List ℚ) : Prop where
  points : ∀ e ∈ equity_curve, 0 ≤ e
  drawdown_nonneg : 0 ≤ max_drawdown equity_curve
  drawdown_le_one : max_drawdown equity_curve ≤ 1
  divisors : ∀ d ∈ divisors equity_curve, 0 < d

theorem mem_of_mem_divisors {equity_curve : List ℚ} {d : ℚ} (h : d ∈ divisors equity_curve) :
    d ∈ equity_curve ∧ d ≠ 0 := by
  obtain ⟨hmem, hne⟩ := List.mem_filter.mp h
  obtain ⟨⟨prev, v⟩, hstep, rfl⟩ := List.mem_map.mp hmem
  exact ⟨(List.of_mem_zip hstep).1, of_decide_eq_true hne⟩

theorem drawdown_step_bounds {s : ℚ × ℚ} {v : ℚ} (hv : 0 ≤ v) (hs : 0 ≤ s.2 ∧ s.2 ≤ 1) :
    0 ≤ (drawdown_step s v).2 ∧ (drawdown_step s v).2 ≤ 1 := by
  have hpeak : v ≤ if s.1 < v then v else s.1 := by
    split_ifs with h
    · exact le_rfl
    · exact not_lt.mp h
  unfold drawdown_step
  dsimp only
  generalize (if s.1 < v then v else s.1) = peak at hpeak ⊢
  by_cases hpos : 0 < peak
  · rw [if_pos hpos]
    have hzero : 0 ≤ (peak - v) / peak := div_nonneg (sub_nonneg.mpr hpeak) hpos.le
    have hone : (peak - v) / peak ≤ 1 := (div_le_one hpos).mpr (by linarith)
    dsimp only
    split
    · exact ⟨hzero, hone⟩
    · exact hs
  · rw [if_neg hpos]
    exact hs

theorem foldl_drawdown_bounds {equity_curve : List ℚ} (h : ∀ e ∈ equity_curve, 0 ≤ e)
    {s : ℚ × ℚ} (hs : 0 ≤ s.2 ∧ s.2 ≤ 1) :
    0 ≤ (equity_curve.foldl drawdown_step s).2 ∧ (equity_curve.foldl drawdown_step s).2 ≤ 1 := by
  induction equity_curve generalizing s with
  | nil => exact hs
  | cons v rest ih =>
      obtain ⟨hv, hrest⟩ := List.forall_mem_cons.mp h
      exact ih hrest (drawdown_step_bounds hv hs)

theorem max_drawdown_bounds {equity_curve : List ℚ} (h : ∀ e ∈ equity_curve, 0 ≤ e) :
    0 ≤ max_drawdown equity_curve ∧ max_drawdown equity_curve ≤ 1 := by
  cases equity_curve with
  | nil => exact ⟨le_rfl, zero_le_one⟩
  | cons first rest => exact foldl_drawdown_bounds h ⟨le_rfl, zero_le_one⟩

/-- The metrics are sound on a curve exactly where no point of it is negative. -/
theorem solvent_iff {equity_curve : List ℚ} :
    Solvent equity_curve ↔ ∀ e ∈ equity_curve, 0 ≤ e := by
  refine ⟨fun h => h.points, fun h => ?_⟩
  obtain ⟨hzero, hone⟩ := max_drawdown_bounds h
  refine ⟨h, hzero, hone, ?_⟩
  intro d hd
  obtain ⟨hmem, hne⟩ := mem_of_mem_divisors hd
  exact lt_of_le_of_ne (h d hmem) (Ne.symm hne)

theorem solvent_singleton_iff (e : ℚ) : Solvent [e] ↔ 0 ≤ e := by
  rw [solvent_iff, List.forall_mem_singleton]

theorem solvent_concat_iff {equity_curve : List ℚ} {e : ℚ} :
    Solvent (equity_curve ++ [e]) ↔ Solvent equity_curve ∧ 0 ≤ e := by
  rw [solvent_iff, solvent_iff, List.forall_mem_append, List.forall_mem_singleton]

/-- A solvent strategy never loses more than all of it in a step. -/
theorem neg_one_le_of_mem_returns {equity_curve : List ℚ} (h : Solvent equity_curve) {r : ℚ}
    (hr : r ∈ returns equity_curve) : -1 ≤ r := by
  obtain ⟨⟨prev, v⟩, hstep, rfl⟩ := List.mem_map.mp hr
  obtain ⟨hprev, hv⟩ := List.of_mem_zip hstep
  have hzero : 0 ≤ v := h.points v (List.mem_of_mem_tail hv)
  change -1 ≤ step_return prev v
  unfold step_return
  split_ifs with hne
  · exact neg_nonpos.mpr zero_le_one
  · have hpos : 0 < prev := lt_of_le_of_ne (h.points prev hprev) (Ne.symm hne)
    rw [le_div_iff₀ hpos]
    linarith

end ArticTrader.BacktestMetrics
