import Mathlib.Data.Int.Log
import Mathlib.Data.Rat.Floor
import Mathlib.Tactic.Linarith
import Mathlib.Tactic.Positivity
import Mathlib.Tactic.Ring

/-!
Numbers rounded to a number of significant digits, a half to the even neighbour. The
exponent has no bounds.
-/

namespace ArticTrader.SignificantDigits

/-- The nearest integer, and the even one of two. -/
def half_even (v : ℚ) : ℤ :=
  let rest := v - ⌊v⌋
  if rest < 1 / 2 ∨ rest = 1 / 2 ∧ ⌊v⌋ % 2 = 0 then ⌊v⌋ else ⌊v⌋ + 1

/-- The last of `n` places in base `b` of a number. -/
def place (b n : ℕ) (x : ℚ) : ℚ := (b : ℚ) ^ (Int.log b |x| + 1 - n)

def to_digits (b n : ℕ) (x : ℚ) : ℚ :=
  if x = 0 then 0 else half_even (x / place b n x) * place b n x

/-- A result of binary arithmetic in double precision. -/
def double (x : ℚ) : ℚ := to_digits 2 53 x

/-- A value with an error of at most the share `d`. -/
def Near (d x y : ℚ) : Prop := |y - x| ≤ x * d

section Near

variable {d e a b x y z u v : ℚ}

theorem Near.le (h : Near d x y) : y ≤ x * (1 + d) := by
  have hle := (abs_le.mp h).2
  linarith

theorem Near.ge (h : Near d x y) : x * (1 - d) ≤ y := by
  have hge := (abs_le.mp h).1
  linarith

theorem Near.mono (hx : 0 ≤ x) (hde : d ≤ e) (h : Near d x y) : Near e x y :=
  le_trans h (mul_le_mul_of_nonneg_left hde hx)

theorem Near.trans (he : 0 ≤ e) (h : Near d x y) (h' : Near e y z) :
    Near (d + e + d * e) x z := by
  have hshare : y * e ≤ x * (1 + d) * e := mul_le_mul_of_nonneg_right h.le he
  calc |z - x| = |(z - y) + (y - x)| := by rw [sub_add_sub_cancel]
    _ ≤ |z - y| + |y - x| := abs_add_le _ _
    _ ≤ y * e + x * d := add_le_add h' h
    _ ≤ x * (1 + d) * e + x * d := add_le_add_left hshare _
    _ = x * (d + e + d * e) := by ring

theorem Near.mul (ha : 0 ≤ a) (hd : 0 ≤ d) (hv : 0 ≤ v) (h : Near d a u) (h' : Near e b v) :
    Near (d + e + d * e) (a * b) (u * v) := by
  have hfirst : |u - a| * v ≤ a * d * (b * (1 + e)) :=
    mul_le_mul h h'.le hv (mul_nonneg ha hd)
  have hsecond : a * |v - b| ≤ a * (b * e) := mul_le_mul_of_nonneg_left h' ha
  calc |u * v - a * b| = |(u - a) * v + a * (v - b)| := by ring_nf
    _ ≤ |(u - a) * v| + |a * (v - b)| := abs_add_le _ _
    _ = |u - a| * v + a * |v - b| := by rw [abs_mul, abs_mul, abs_of_nonneg hv, abs_of_nonneg ha]
    _ ≤ a * d * (b * (1 + e)) + a * (b * e) := add_le_add hfirst hsecond
    _ = a * b * (d + e + d * e) := by ring

end Near

theorem abs_half_even_sub (v : ℚ) : |(half_even v : ℚ) - v| ≤ 1 / 2 := by
  have hfloor := Int.floor_le v
  have hnext := Int.lt_floor_add_one v
  unfold half_even
  rw [abs_le]
  dsimp only
  split_ifs with hdown
  · have hrest : v - ⌊v⌋ ≤ 1 / 2 := by
      rcases hdown with hlt | ⟨heq, -⟩
      · exact hlt.le
      · exact heq.le
    constructor
    · linarith
    · linarith
  · have hrest : 1 / 2 ≤ v - ⌊v⌋ := by
      by_contra hlt
      exact hdown (.inl (not_le.mp hlt))
    push_cast
    constructor
    · linarith
    · linarith

theorem floor_le_half_even (v : ℚ) : ⌊v⌋ ≤ half_even v := by
  unfold half_even
  dsimp only
  split_ifs
  · exact le_refl _
  · exact (lt_add_one _).le

theorem half_even_nonneg {v : ℚ} (h : 0 ≤ v) : 0 ≤ half_even v :=
  (Int.floor_nonneg.mpr h).trans (floor_le_half_even v)

section Digits

variable {b n : ℕ} {x : ℚ}

theorem place_pos (hb : 1 < b) (x : ℚ) : 0 < place b n x := by
  have hpos : (0 : ℚ) < b := by exact_mod_cast zero_lt_one.trans hb
  exact zpow_pos hpos _

/-- The last place is small beside the number. -/
theorem place_le (hb : 1 < b) (hx : 0 < x) :
    place b n x ≤ x * (b : ℚ) ^ (1 - n : ℤ) := by
  have hpos : (0 : ℚ) < b := by exact_mod_cast zero_lt_one.trans hb
  have hlog := Int.zpow_log_le_self hb hx
  have hsplit : place b n x = (b : ℚ) ^ Int.log b x * (b : ℚ) ^ (1 - n : ℤ) := by
    rw [place, abs_of_pos hx, ← zpow_add₀ hpos.ne']
    ring_nf
  rw [hsplit]
  exact mul_le_mul_of_nonneg_right hlog (zpow_pos hpos _).le

theorem to_digits_pos (hb : 1 < b) (hn : 1 ≤ n) (hx : 0 < x) :
    0 < to_digits b n x := by
  have hplace := place_pos (n := n) hb x
  have hone : (b : ℚ) ^ (1 - n : ℤ) ≤ 1 := by
    have hle : (1 : ℚ) ≤ b := by exact_mod_cast hb.le
    exact zpow_le_one_of_nonpos₀ hle (by omega)
  have hsmall : place b n x ≤ x :=
    (place_le hb hx).trans (mul_le_of_le_one_right hx.le hone)
  have hfloor : 1 ≤ ⌊x / place b n x⌋ := by
    rw [Int.le_floor, Int.cast_one, le_div_iff₀ hplace, one_mul]
    exact hsmall
  have hround : (0 : ℚ) < half_even (x / place b n x) := by
    have hle := hfloor.trans (floor_le_half_even _)
    exact_mod_cast hle
  rw [to_digits, if_neg hx.ne']
  exact mul_pos hround hplace

theorem to_digits_nonneg (hb : 1 < b) (hx : 0 ≤ x) : 0 ≤ to_digits b n x := by
  unfold to_digits
  split_ifs
  · exact le_refl 0
  · have hplace := place_pos (n := n) hb x
    have hround : (0 : ℚ) ≤ half_even (x / place b n x) := by
      exact_mod_cast half_even_nonneg (div_nonneg hx hplace.le)
    exact mul_nonneg hround hplace.le

/-- The error is half of the last place. -/
theorem to_digits_near (hb : 1 < b) (hx : 0 ≤ x) :
    Near ((b : ℚ) ^ (1 - n : ℤ) / 2) x (to_digits b n x) := by
  unfold Near
  rcases hx.eq_or_lt with rfl | hx
  · simp [to_digits]
  · have hplace := place_pos (n := n) hb x
    have herror : to_digits b n x - x =
        (half_even (x / place b n x) - x / place b n x) * place b n x := by
      rw [to_digits, if_neg hx.ne', sub_mul, div_mul_cancel₀ _ hplace.ne']
    calc |to_digits b n x - x|
        = |(half_even (x / place b n x) : ℚ) - x / place b n x| * place b n x := by
          rw [herror, abs_mul, abs_of_pos hplace]
      _ ≤ 1 / 2 * place b n x :=
          mul_le_mul_of_nonneg_right (abs_half_even_sub _) hplace.le
      _ ≤ 1 / 2 * (x * (b : ℚ) ^ (1 - n : ℤ)) :=
          mul_le_mul_of_nonneg_left (place_le hb hx) (by norm_num)
      _ = x * ((b : ℚ) ^ (1 - n : ℤ) / 2) := by ring

end Digits

theorem double_nonneg {x : ℚ} (h : 0 ≤ x) : 0 ≤ double x := to_digits_nonneg one_lt_two h

theorem double_near {x : ℚ} (h : 0 ≤ x) : Near (1 / 2 ^ 53) x (double x) := by
  have hnear := to_digits_near (b := 2) (n := 53) one_lt_two h
  norm_num at hnear ⊢
  exact hnear

end ArticTrader.SignificantDigits
