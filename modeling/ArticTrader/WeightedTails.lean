import Mathlib.Algebra.BigOperators.Ring.Finset
import Mathlib.Algebra.Order.Field.Basic
import Mathlib.Algebra.Order.Ring.Pow
import Mathlib.Algebra.Ring.GeomSum
import Mathlib.Tactic.FieldSimp
import Mathlib.Tactic.Linarith
import Mathlib.Tactic.Positivity
import Mathlib.Tactic.Ring
import ArticTrader.Numerals

/-!
Weighted sums of a sequence that does not increase. The heavier the heads of the
weights, the larger the sum. The weights of an exponential average that starts
from a plain one have lighter heads the longer its period is.
-/

namespace ArticTrader.WeightedTails

open ArticTrader.Numerals
open Finset

variable {K : Type*} [Field K] [LinearOrder K] [IsStrictOrderedRing K]

section Dominance

variable {u v x : ℕ → K} {n : ℕ}

theorem head_mul_le {w : ℕ → K} (hx : ∀ i, i + 1 < n → x (i + 1) ≤ x i)
    (hheads : ∀ i ≤ n, 0 ≤ ∑ j ∈ range i, w j) {i : ℕ} (hi : i < n) :
    (∑ j ∈ range (i + 1), w j) * x i ≤ ∑ j ∈ range (i + 1), w j * x j := by
  induction i with
  | zero => rw [sum_range_one, sum_range_one]
  | succ i ih =>
      have hstep := mul_le_mul_of_nonneg_left (hx i hi) (hheads (i + 1) hi.le)
      have hprevious := ih (Nat.lt_of_succ_lt hi)
      rw [sum_range_succ _ (i + 1), sum_range_succ _ (i + 1), add_mul]
      exact add_le_add_left (hstep.trans hprevious) _

theorem sum_mul_le_of_heads (hx : ∀ i, i + 1 < n → x (i + 1) ≤ x i)
    (hheads : ∀ i ≤ n, ∑ j ∈ range i, v j ≤ ∑ j ∈ range i, u j)
    (htotal : ∑ j ∈ range n, v j = ∑ j ∈ range n, u j) :
    ∑ j ∈ range n, v j * x j ≤ ∑ j ∈ range n, u j * x j := by
  cases n with
  | zero => exact le_rfl
  | succ n =>
      have hgap : ∀ i ≤ n + 1, 0 ≤ ∑ j ∈ range i, (u j - v j) := by
        intro i hi
        rw [sum_sub_distrib]
        exact sub_nonneg.mpr (hheads i hi)
      have hsum := head_mul_le hx hgap (Nat.lt_succ_self n)
      simp only [sub_mul, sum_sub_distrib, htotal, sub_self, zero_mul] at hsum
      exact sub_nonneg.mp hsum

end Dominance

section Exponential

/-- What an exponential average of the period `k` keeps of the average before. -/
def kept (K : Type*) [Field K] (k : ℕ) : K := 1 - 2 / (k + 1)

/-- The weight of the `j`-th last element in the exponential average of the period `k`. -/
def weight (K : Type*) [Field K] (k j : ℕ) : K :=
  if j < k then
    kept K k ^ (k - 1) / k + if j < k - 1 then 2 / (k + 1) * kept K k ^ j else 0
  else 0

theorem kept_eq (k : ℕ) : kept K k = (k - 1) / (k + 1) := by
  have hk : (k : K) + 1 ≠ 0 := Nat.cast_add_one_ne_zero k
  rw [kept]
  field_simp
  ring

theorem kept_nonneg {k : ℕ} (hk : 1 ≤ k) : 0 ≤ kept K k := by
  have hone : (1 : K) ≤ k := Nat.one_le_cast.mpr hk
  rw [kept_eq]
  exact div_nonneg (sub_nonneg.mpr hone) (by positivity)

theorem kept_le_one (k : ℕ) : kept K k ≤ 1 := by
  rw [kept]
  exact sub_le_self 1 (by positivity)

theorem kept_le_kept (k : ℕ) : kept K k ≤ kept K (k + 1) := by
  rw [kept, kept]
  apply sub_le_sub_left
  apply div_le_div_of_nonneg_left (by norm_num) (by positivity)
  rw [Nat.cast_succ]
  linarith

theorem weight_nonneg {k : ℕ} (hk : 1 ≤ k) (j : ℕ) : 0 ≤ weight K k j := by
  have hkept := kept_nonneg (K := K) hk
  rw [weight]
  split_ifs
  · positivity
  · positivity
  · exact le_rfl

theorem kept_pos (m : ℕ) : 0 < kept K (m + 2) := by
  rw [kept_eq]
  push_cast
  apply div_pos
  · have hm : (0 : K) ≤ m := Nat.cast_nonneg m
    linarith
  · positivity

/-- The part of the seed shrinks with the period. -/
theorem kept_pow_le {k : ℕ} (hk : 1 ≤ k) : kept K (k + 1) ^ k ≤ kept K k ^ (k - 1) := by
  rcases Nat.lt_or_ge k 2 with hone | htwo
  · obtain rfl : k = 1 := by omega
    rw [Nat.sub_self, pow_zero, pow_one]
    exact kept_le_one 2
  · obtain ⟨m, rfl⟩ : ∃ m, k = m + 2 := ⟨k - 2, by omega⟩
    have hnext : 0 < kept K (m + 2 + 1) := kept_pos (m + 1)
    have hratio : kept K (m + 2) / kept K (m + 2 + 1) = 1 + -(2 / ((m + 2) * (m + 3))) := by
      have hm : (0 : K) ≤ m := Nat.cast_nonneg m
      rw [kept_eq, kept_eq]
      push_cast
      have h1 : (m : K) + 2 + 1 ≠ 0 := by positivity
      have h2 : (m : K) + 2 + 1 + 1 ≠ 0 := by positivity
      have h3 : (m : K) + 2 + 1 - 1 ≠ 0 := by
        apply ne_of_gt
        linarith
      field_simp
      ring
    have hsmall : (2 : K) / ((m + 2) * (m + 3)) ≤ 1 := by
      rw [div_le_one (by positivity)]
      nlinarith [(Nat.cast_nonneg m : (0 : K) ≤ m)]
    have hbernoulli := one_add_mul_le_pow
      (show (-2 : K) ≤ -(2 / ((m + 2) * (m + 3))) by linarith) (m + 2)
    have hseed : 1 + ((m + 2 : ℕ) : K) * -(2 / ((m + 2) * (m + 3))) = kept K (m + 2) := by
      rw [kept]
      push_cast
      field_simp
      ring
    rw [hseed, ← hratio, div_pow, le_div_iff₀ (pow_pos hnext _), pow_succ' (kept K (m + 2)),
      mul_le_mul_iff_right₀ (kept_pos m)] at hbernoulli
    exact hbernoulli

omit [LinearOrder K] [IsStrictOrderedRing K] in
theorem sum_weight_head {k i : ℕ} (hi : i ≤ k - 1) :
    ∑ j ∈ range i, weight K k j = 1 - kept K k ^ i + i * (kept K k ^ (k - 1) / k) := by
  have hgain : (2 : K) / (k + 1) = 1 - kept K k := (sub_sub_cancel 1 _).symm
  have hterm : ∀ j ∈ range i, weight K k j =
      kept K k ^ (k - 1) / k + (1 - kept K k) * kept K k ^ j := by
    intro j hj
    rw [mem_range] at hj
    rw [weight, if_pos (by omega), if_pos (by omega), hgain]
  rw [sum_congr rfl hterm, sum_add_distrib, sum_const, card_range, nsmul_eq_mul, ← mul_sum,
    mul_neg_geom_sum, add_comm]

theorem sum_weight_all {k i : ℕ} (hk : 1 ≤ k) (hi : k ≤ i) : ∑ j ∈ range i, weight K k j = 1 := by
  induction i, hi using Nat.le_induction with
  | base =>
      obtain ⟨m, rfl⟩ : ∃ m, k = m + 1 := ⟨k - 1, by omega⟩
      have hm : ((m + 1 : ℕ) : K) ≠ 0 := Nat.cast_ne_zero.mpr (by omega)
      rw [sum_range_succ, sum_weight_head (by omega), weight, if_pos (by omega), if_neg (by omega),
        Nat.add_sub_cancel]
      push_cast at hm ⊢
      field_simp
      ring
  | succ i hki ih => rw [sum_range_succ, ih, weight, if_neg (by omega), add_zero]

theorem sum_weight_le_one {k : ℕ} (hk : 1 ≤ k) (i : ℕ) : ∑ j ∈ range i, weight K k j ≤ 1 := by
  calc
    _ ≤ ∑ j ∈ range (max i k), weight K k j :=
      sum_le_sum_of_subset_of_nonneg (range_subset_range.mpr (le_max_left i k))
        fun j _ _ => weight_nonneg hk j
    _ = 1 := sum_weight_all hk (le_max_right i k)

theorem heads_le {k : ℕ} (hk : 1 ≤ k) (i : ℕ) :
    ∑ j ∈ range i, weight K (k + 1) j ≤ ∑ j ∈ range i, weight K k j := by
  rcases Nat.lt_or_ge i k with hlt | hge
  · have hkept := kept_nonneg (K := K) hk
    have hpower : kept K k ^ i ≤ kept K (k + 1) ^ i :=
      pow_le_pow_left₀ hkept (kept_le_kept k) i
    have hseed : kept K (k + 1) ^ k / ((k + 1 : ℕ) : K) ≤ kept K k ^ (k - 1) / k := by
      apply div_le_div₀ (pow_nonneg hkept _) (kept_pow_le hk) (Nat.cast_pos.mpr hk)
      exact_mod_cast Nat.le_succ k
    have hseeds := mul_le_mul_of_nonneg_left hseed (Nat.cast_nonneg i : (0 : K) ≤ i)
    rw [sum_weight_head (by omega), sum_weight_head (by omega), Nat.add_sub_cancel]
    linarith
  · rw [sum_weight_all hk hge]
    exact sum_weight_le_one (by omega) i

theorem sum_weight_mul_le {x : ℕ → K} {n j k : ℕ} (hx : ∀ i, i + 1 < n → x (i + 1) ≤ x i)
    (hj : 1 ≤ j) (hjk : j ≤ k) (hk : k ≤ n) :
    ∑ i ∈ range n, weight K k i * x i ≤ ∑ i ∈ range n, weight K j i * x i := by
  induction k, hjk using Nat.le_induction with
  | base => exact le_rfl
  | succ k hjk ih =>
      have hstep : ∑ i ∈ range n, weight K (k + 1) i * x i ≤ ∑ i ∈ range n, weight K k i * x i := by
        apply sum_mul_le_of_heads hx
        · intro i hi
          exact heads_le (hj.trans hjk) i
        · rw [sum_weight_all (by omega) hk, sum_weight_all (by omega) (by omega)]
      exact hstep.trans (ih (by omega))

end Exponential

section Plain

/-- The weight of the `j`-th last element in the plain average of the last `k`. -/
def share (K : Type*) [Field K] (k j : ℕ) : K := if j < k then 1 / k else 0

omit [LinearOrder K] [IsStrictOrderedRing K] in
theorem sum_share (k i : ℕ) : ∑ j ∈ range i, share K k j = (min i k : ℕ) / k := by
  induction i with
  | zero => rw [sum_range_zero, Nat.zero_min, Nat.cast_zero, zero_div]
  | succ i ih =>
      rw [sum_range_succ, ih, share]
      split
      next hlt =>
          rw [min_eq_left hlt.le, min_eq_left hlt, Nat.cast_succ, add_div]
      next hge =>
          rw [min_eq_right (by omega), min_eq_right (by omega), add_zero]

theorem sum_share_mul_le {x : ℕ → K} {n j k : ℕ} (hx : ∀ i, i + 1 < n → x (i + 1) ≤ x i)
    (hj : 1 ≤ j) (hjk : j ≤ k) (hk : k ≤ n) :
    ∑ i ∈ range n, share K k i * x i ≤ ∑ i ∈ range n, share K j i * x i := by
  have hjpos : (0 : K) < j := Nat.cast_pos.mpr hj
  have hkpos : (0 : K) < k := Nat.cast_pos.mpr (hj.trans hjk)
  apply sum_mul_le_of_heads hx
  · intro i hi
    have hcross : min i k * j ≤ min i j * k := by
      rcases le_total i j with hij | hji
      · rw [min_eq_left hij, min_eq_left (hij.trans hjk)]
        exact Nat.mul_le_mul_left i hjk
      · rw [min_eq_right hji, Nat.mul_comm j k]
        exact Nat.mul_le_mul_right j (min_le_right i k)
    rw [sum_share, sum_share, div_le_div_iff₀ hkpos hjpos]
    exact_mod_cast hcross
  · rw [sum_share, sum_share, min_eq_right hk, min_eq_right (hjk.trans hk), div_self hkpos.ne',
      div_self hjpos.ne']

end Plain

end ArticTrader.WeightedTails
