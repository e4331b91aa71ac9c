import Mathlib.Data.List.Range
import ArticTrader.GasBump

/-!
The gas prices that one call tries, against the rule by which a node lets a transaction
replace a pending one of the same nonce.
-/

namespace ArticTrader.ReplacementPrices

open ArticTrader.GasBump
open ArticTrader.PythonNumbers (int_of_nonneg)
open ArticTrader.PythonText (Text)
open ArticTrader.SignificantDigits

/-- The prices of a call that makes at most `max_attempts`: each is higher than those
before it, and at least 110 percent of the one before it. -/
structure Acceptable (max_attempts : ℕ) (tried : List ℤ) : Prop where
  increasing : tried.Pairwise (· < ·)
  replaces : tried.IsChain fun g g' => 11 * g ≤ 10 * g'
  at_most : tried.length ≤ max_attempts

/-- The next price before it is truncated. -/
def product (bump_pct : ℚ) (g : ℤ) : ℚ := double (double g * double (1 + bump_pct))

/-- There is a whole number from 110 percent of the price up to its product. -/
def Covers (bump_pct : ℚ) (g : ℤ) : Prop := (⌈(11 * g / 10 : ℚ)⌉ : ℚ) ≤ product bump_pct g

instance (bump_pct : ℚ) (g : ℤ) : Decidable (Covers bump_pct g) := Rat.instDecidableLe _ _

variable {s : Settings} {w : World} {bump_pct : ℚ} {g : ℤ}

/-- Three roundings are within a part in 2^51. -/
theorem product_near (hg : 0 ≤ g) (hbump : 0 ≤ bump_pct) :
    Near (1 / 2 ^ 51) (g * (1 + bump_pct)) (product bump_pct g) := by
  have hg' : (0 : ℚ) ≤ g := by exact_mod_cast hg
  have hfactor : 0 ≤ 1 + bump_pct := by linarith
  have hmul : Near _ (g * (1 + bump_pct)) (double g * double (1 + bump_pct)) :=
    (double_near hg').mul hg' (by norm_num) (double_nonneg hfactor) (double_near hfactor)
  have hround : Near _ (double g * double (1 + bump_pct)) (product bump_pct g) :=
    double_near (mul_nonneg (double_nonneg hg') (double_nonneg hfactor))
  exact (hmul.trans (by norm_num) hround).mono (mul_nonneg hg' hfactor) (by norm_num)

theorem bump_eq_floor (hg : 0 ≤ g) (hbump : 0 ≤ s.bump_pct) :
    bump s g = ⌊product s.bump_pct g⌋ := by
  have hg' : (0 : ℚ) ≤ g := by exact_mod_cast hg
  have hfactor : 0 ≤ 1 + s.bump_pct := by linarith
  exact int_of_nonneg (double_nonneg (mul_nonneg (double_nonneg hg') (double_nonneg hfactor)))

theorem covers_iff : Covers bump_pct g ↔ 11 * g ≤ 10 * ⌊product bump_pct g⌋ := by
  rw [Covers, ← Int.le_floor, Int.ceil_le, div_le_iff₀ (by norm_num), mul_comm _ (10 : ℚ)]
  norm_cast

theorem one_le_bump (hg : 1 ≤ g) (hbump : 1 / 10 ≤ s.bump_pct) : 1 ≤ bump s g := by
  have hpct : 0 ≤ s.bump_pct := by linarith
  have hg' : (1 : ℚ) ≤ g := by exact_mod_cast hg
  have hexact : (11 / 10 : ℚ) ≤ g * (1 + s.bump_pct) := by nlinarith
  rw [bump_eq_floor (by omega) hpct, Int.le_floor, Int.cast_one]
  calc (1 : ℚ) ≤ 11 / 10 * (1 - 1 / 2 ^ 51) := by norm_num
    _ ≤ g * (1 + s.bump_pct) * (1 - 1 / 2 ^ 51) :=
        mul_le_mul_of_nonneg_right hexact (by norm_num)
    _ ≤ product s.bump_pct g := (product_near (by omega) hpct).ge

theorem one_le_gas_at (hgas : 1 ≤ s.initial_gas_price) (hbump : 1 / 10 ≤ s.bump_pct) (i : ℕ) :
    1 ≤ gas_at s i := by
  induction i with
  | zero => exact hgas
  | succ i ih =>
      rw [gas_at_succ]
      exact one_le_bump ih hbump

/-- From an attempt on, the loop tries the prices of the attempts that it reaches, in order. -/
theorem loop_tried {left i : ℕ} (h : i + left = s.max_attempts) (gas_prices : List ℤ)
    (last_err : Option Text) :
    ∃ n ≤ left, (loop s w left i (gas_at s i) gas_prices last_err).tried =
        gas_prices ++ (List.range' i n).map (gas_at s) ∧
      ∀ k, Reaches s w i k ↔ k ∈ List.range' i n := by
  induction left generalizing i gas_prices last_err with
  | zero =>
      refine ⟨0, le_rfl, by simp [loop, exhausted], ?_⟩
      intro k
      rw [reaches_iff]
      simp [h.symm]
  | succ left ih =>
      have hleft : i < s.max_attempts := by omega
      by_cases hbudget : InBudget s w i
      · have hattempted := loop_attempted hbudget left (gas_at s i) gas_prices last_err
        generalize loop s w (left + 1) i (gas_at s i) gas_prices last_err = run at hattempted ⊢
        rcases hattempted with ⟨hgoes, err⟩ | ⟨hstop, result, -⟩
        · rw [← gas_at_succ]
          obtain ⟨n, hn, htried, hreaches⟩ := ih (i := i + 1) (by omega)
            (gas_prices ++ [gas_at s i]) (some err)
          refine ⟨n + 1, Nat.succ_le_succ hn, ?_, ?_⟩
          · rw [htried, List.range'_succ, List.map_cons, List.append_assoc,
              List.singleton_append]
          · intro k
            rw [reaches_iff, hreaches, List.range'_succ, List.mem_cons]
            simp only [hleft, hbudget, hgoes, true_and]
        · refine ⟨1, Nat.succ_le_succ (Nat.zero_le left), rfl, ?_⟩
          intro k
          rw [reaches_iff]
          simp [hleft, hbudget, hstop]
      · refine ⟨0, Nat.zero_le _, by simp [loop, hbudget, exhausted], ?_⟩
        intro k
        rw [reaches_iff]
        simp [hbudget]

/-- A call tries the prices of its attempts, one after the other. -/
theorem tried_eq (s : Settings) (w : World) :
    ∃ n ≤ s.max_attempts, (with_gas_bump s w).tried = (List.range n).map (gas_at s) ∧
      ∀ i, Makes s w i ↔ i < n := by
  obtain ⟨n, hn, htried, hreaches⟩ :=
    loop_tried (s := s) (w := w) (Nat.zero_add s.max_attempts) [] none
  rw [List.nil_append, ← List.range_eq_range'] at htried
  refine ⟨n, hn, htried, ?_⟩
  intro i
  rw [Makes, hreaches, ← List.range_eq_range', List.mem_range]

theorem acceptable_range_iff (hgas : 1 ≤ s.initial_gas_price) (hbump : 1 / 10 ≤ s.bump_pct)
    {n : ℕ} (hn : n ≤ s.max_attempts) :
    Acceptable s.max_attempts ((List.range n).map (gas_at s)) ↔
      ∀ i, i + 1 < n → Covers s.bump_pct (gas_at s i) := by
  have hcovers (i : ℕ) :
      Covers s.bump_pct (gas_at s i) ↔ 11 * gas_at s i ≤ 10 * gas_at s (i + 1) := by
    have hpos := one_le_gas_at hgas hbump i
    rw [gas_at_succ, bump_eq_floor (by omega) (by linarith)]
    exact covers_iff
  have hchain (R : ℤ → ℤ → Prop) : ((List.range n).map (gas_at s)).IsChain R ↔
      ∀ i, i + 1 < n → R (gas_at s i) (gas_at s (i + 1)) := by
    rw [List.isChain_map, List.isChain_range]
    simp only [Nat.lt_sub_iff_add_lt, Nat.succ_eq_add_one]
  constructor
  · intro h i hi
    exact (hcovers i).mpr ((hchain _).mp h.replaces i hi)
  · intro h
    have hreplaces (i : ℕ) (hi : i + 1 < n) := (hcovers i).mp (h i hi)
    refine ⟨?_, (hchain _).mpr hreplaces, by simpa using hn⟩
    rw [← List.isChain_iff_pairwise, hchain]
    intro i hi
    have hpos := one_le_gas_at hgas hbump i
    have hstep := hreplaces i hi
    omega

theorem covers_of_ten (hg : 10 ≤ g) (hbump : 1 / 5 ≤ bump_pct) : Covers bump_pct g := by
  have hg' : (10 : ℚ) ≤ g := by exact_mod_cast hg
  have hproduct := (product_near (by omega : 0 ≤ g) (by linarith : 0 ≤ bump_pct)).ge
  have hfifth : (6 / 5 : ℚ) * g ≤ g * (1 + bump_pct) := by nlinarith
  have hrounded : (6 / 5 : ℚ) * g * (1 - 1 / 2 ^ 51) ≤ product bump_pct g :=
    (mul_le_mul_of_nonneg_right hfifth (by norm_num)).trans hproduct
  have hfloor := Int.lt_floor_add_one (product bump_pct g)
  have hnext : (11 * g - 1 : ℚ) < 10 * ⌊product bump_pct g⌋ := by linarith
  have hnext' : 11 * g - 1 < 10 * ⌊product bump_pct g⌋ := by exact_mod_cast hnext
  rw [covers_iff]
  omega

/-- A bump of a fifth that reaches a whole number from one small price reaches one from the
next. -/
theorem covers_succ (hg : 1 ≤ g) (hsmall : g < 10) (hbump : 1 / 5 ≤ bump_pct)
    (h : Covers bump_pct g) : Covers bump_pct (g + 1) := by
  have hpct : 0 ≤ bump_pct := by linarith
  have hsmall' : (g : ℚ) < 10 := by exact_mod_cast hsmall
  have hreached : g + 1 ≤ ⌊product bump_pct g⌋ := by
    have hcovers := covers_iff.mp h
    omega
  have hreached' : (g + 1 : ℚ) ≤ product bump_pct g := by
    have hle := Int.le_floor.mp hreached
    push_cast at hle
    exact hle
  have hupper := (product_near (by omega : 0 ≤ g) hpct).le
  have hlower := (product_near (by omega : 0 ≤ g + 1) hpct).ge
  push_cast at hlower
  rw [add_mul (g : ℚ) 1, one_mul] at hlower
  have hnext : (g + 2 : ℚ) ≤ product bump_pct (g + 1) := by linarith
  have hnext' : g + 2 ≤ ⌊product bump_pct (g + 1)⌋ := Int.le_floor.mpr (by exact_mod_cast hnext)
  rw [covers_iff]
  omega

theorem covers_of_le {g' : ℤ} (hg : 1 ≤ g) (hle : g ≤ g') (hbump : 1 / 5 ≤ bump_pct)
    (h : Covers bump_pct g) : Covers bump_pct g' := by
  induction g', hle using Int.leInduction with
  | base => exact h
  | succ g' hle ih =>
      rcases lt_or_ge g' 10 with hsmall | hlarge
      · exact covers_succ (by omega) hsmall hbump ih
      · exact covers_of_ten (by omega) hbump

theorem covers_gas_at (hgas : 1 ≤ s.initial_gas_price) (hbump : 1 / 5 ≤ s.bump_pct)
    (hfirst : Covers s.bump_pct s.initial_gas_price) (i : ℕ) :
    Covers s.bump_pct (gas_at s i) := by
  have hrises : s.initial_gas_price ≤ gas_at s i := by
    induction i with
    | zero => exact le_rfl
    | succ i ih =>
        have hcovers := covers_iff.mp (covers_of_le hgas ih hbump hfirst)
        rw [gas_at_succ, bump_eq_floor (by omega) (by linarith)]
        omega
  exact covers_of_le hgas hrises hbump hfirst

/-- With a bump of a fifth or more the first price decides. -/
theorem acceptable_fifth_iff (w : World) (hgas : 1 ≤ s.initial_gas_price)
    (hbump : 1 / 5 ≤ s.bump_pct) :
    Acceptable s.max_attempts (with_gas_bump s w).tried ↔
      Covers s.bump_pct s.initial_gas_price ∨ ¬ Makes s w 1 := by
  have htenth : 1 / 10 ≤ s.bump_pct := by linarith
  obtain ⟨n, hn, htried, hmakes⟩ := tried_eq s w
  rw [htried, acceptable_range_iff hgas htenth hn, hmakes]
  constructor
  · intro hcovers
    by_cases hone : 1 < n
    · exact .inl (hcovers 0 hone)
    · exact .inr hone
  · rintro (hfirst | hone) i hi
    · exact covers_gas_at hgas hbump hfirst i
    · omega

theorem fifth_le : (1 / 5 : ℚ) ≤ double (1 / 5) := by decide +kernel

/-- The prices of `log_decision` are acceptable from five wei on. -/
theorem log_decision_acceptable_iff {base_gas_price : ℤ} (h : 1 ≤ base_gas_price) (w : World) :
    Acceptable 3 (with_gas_bump (log_decision_settings base_gas_price) w).tried ↔
      5 ≤ base_gas_price ∨ ¬ Makes (log_decision_settings base_gas_price) w 1 := by
  have hfirst : Covers (double (1 / 5)) base_gas_price ↔ 5 ≤ base_gas_price := by
    constructor
    · intro hcovers
      by_contra hlt
      have hfour := covers_of_le h (by omega : base_gas_price ≤ 4) fifth_le hcovers
      exact absurd hfour (by decide +kernel)
    · intro hle
      exact covers_of_le (by norm_num) hle fifth_le (by decide +kernel)
  rw [← hfirst]
  exact acceptable_fifth_iff (s := log_decision_settings base_gas_price) w h fifth_le

/-- The prices are acceptable exactly where each price that another attempt follows is
covered. -/
theorem prices_acceptable_iff {s : Settings} (w : World) (hgas : 1 ≤ s.initial_gas_price)
    (hbump : 1 / 10 ≤ s.bump_pct) :
    Acceptable s.max_attempts (with_gas_bump s w).tried ↔
      ∀ i, Makes s w (i + 1) → Covers s.bump_pct (gas_at s i) := by
  obtain ⟨n, hn, htried, hmakes⟩ := tried_eq s w
  rw [htried, acceptable_range_iff hgas hbump hn]
  simp only [hmakes]

/-- A node that takes the first transaction, includes none, and refuses to replace it. -/
def refusing : World where
  start := 0
  attempt i :=
    { checked_at := i
      sent := if i = 0 then .ok "0x01".toList else .error "replacement underpriced".toList
      sent_at := i
      delay := 1 / 2
      reply := .ok none }

theorem prices_acceptable_of_hundred :
    Acceptable 3 (with_gas_bump (log_decision_settings 100) refusing).tried := by
  have hcovers := covers_gas_at (s := log_decision_settings 100) (by decide) fifth_le
    (by decide +kernel)
  exact (prices_acceptable_iff (s := log_decision_settings 100) refusing (by decide)
    ((by norm_num : (1 / 10 : ℚ) ≤ 1 / 5).trans fifth_le)).mpr fun i _ => hcovers i

/-- A fifth of four wei is lost in the truncation, and the same price is sent three times. -/
theorem four_wei_not_bumped :
    (with_gas_bump (log_decision_settings 4) refusing).tried = [4, 4, 4] ∧
      ¬ Acceptable 3 (with_gas_bump (log_decision_settings 4) refusing).tried := by
  have htried : (with_gas_bump (log_decision_settings 4) refusing).tried = [4, 4, 4] := by
    decide +kernel
  refine ⟨htried, fun h => ?_⟩
  have hincreasing := h.increasing
  rw [htried] at hincreasing
  exact absurd hincreasing (by decide)

end ArticTrader.ReplacementPrices
