import Mathlib.Algebra.BigOperators.Group.List.Basic
import Mathlib.Algebra.Order.Field.Basic
import Mathlib.Data.List.DropRight
import Mathlib.Data.List.GetD

/-!
Sequences of Python over the numbers of an ordered field: indexes and slices that
count from either end, extrema, quotients, and the rules for programs built from
them that return.
-/

namespace ArticTrader.PythonSequences

inductive Raised where
  | IndexError
  | ValueError
  | ZeroDivisionError
  deriving DecidableEq, Repr

variable {α β : Type} {Z : Type} [Zero Z] {L : Type} [Zero L] [LinearOrder L]
variable {K : Type} [Field K] [LinearOrder K]

/-- Where an index falls in a sequence of the length `n`. -/
def position (n : ℕ) (i : ℤ) : ℤ := if i < 0 then i + n else i

/-- `xs[i]` -/
def index (xs : List α) (i : ℤ) : Except Raised α :=
  if position xs.length i < 0 then .error .IndexError
  else
    match xs[(position xs.length i).toNat]? with
    | some x => .ok x
    | none => .error .IndexError

/-- Where a bound of a slice falls in a sequence of the length `n`. -/
def bound (n : ℕ) (i : ℤ) : ℕ := if i < 0 then (i + n).toNat else min i.toNat n

/-- `xs[start:stop]` -/
def slice (xs : List α) (start stop : Option ℤ) : List α :=
  (xs.take (stop.elim xs.length (bound xs.length))).drop (start.elim 0 (bound xs.length))

/-- `range(start, stop)` -/
def int_range (start stop : ℤ) : List ℤ :=
  (List.range (stop - start).toNat).map fun k : ℕ => start + k

/-- `xs[-k]`, where there is one. -/
def nth_last (xs : List Z) (k : ℕ) : Z := xs.getD (xs.length - k) 0

def highest : List L → L
  | [] => 0
  | x :: xs => xs.foldl max x

def lowest : List L → L
  | [] => 0
  | x :: xs => xs.foldl min x

/-- `max(xs)` -/
def maximum (xs : List L) : Except Raised L :=
  if xs = [] then .error .ValueError else .ok (highest xs)

/-- `min(xs)` -/
def minimum (xs : List L) : Except Raised L :=
  if xs = [] then .error .ValueError else .ok (lowest xs)

def divide (x y : K) : Except Raised K :=
  if y = 0 then .error .ZeroDivisionError else .ok (x / y)

/-- `math.sqrt(x)` -/
def square_root (sqrt : K → K) (x : K) : Except Raised K :=
  if x < 0 then .error .ValueError else .ok (sqrt x)

/-- The program returns a value, and one of which `P` holds. -/
def Returns (x : Except Raised α) (P : α → Prop) : Prop := ∃ a, x = .ok a ∧ P a

theorem ok_bind (a : α) (f : α → Except Raised β) : (Except.ok a >>= f) = f a := rfl

section Rules

variable {x : Except Raised α} {P Q : α → Prop} {R : β → Prop}

theorem returns_ok {a : α} (h : P a) : Returns (.ok a) P := ⟨a, rfl, h⟩

theorem Returns.mono (h : Returns x P) (hPQ : ∀ a, P a → Q a) : Returns x Q := by
  obtain ⟨a, rfl, ha⟩ := h
  exact ⟨a, rfl, hPQ a ha⟩

theorem returns_bind {f : α → Except Raised β} (hx : Returns x P)
    (hf : ∀ a, P a → Returns (f a) R) : Returns (x >>= f) R := by
  obtain ⟨a, rfl, ha⟩ := hx
  exact hf a ha

theorem returns_ite {c : Prop} [Decidable c] {y : Except Raised α} (hx : c → Returns x P)
    (hy : ¬ c → Returns y P) : Returns (if c then x else y) P := by
  split
  next h => exact hx h
  next h => exact hy h

/-- A loop whose invariant counts the passes. -/
theorem returns_foldlM_count {f : β → α → Except Raised β} {xs : List α} {R : ℕ → β → Prop} {k : ℕ}
    {b : β} (hb : R k b) (hf : ∀ k b, R k b → ∀ a ∈ xs, Returns (f b a) (R (k + 1))) :
    Returns (xs.foldlM f b) (R (k + xs.length)) := by
  induction xs generalizing k b with
  | nil => exact returns_ok hb
  | cons a xs ih =>
      have hlength : k + (a :: xs).length = k + 1 + xs.length := by
        rw [List.length_cons]
        omega
      rw [List.foldlM_cons, hlength]
      apply returns_bind (hf k b hb a List.mem_cons_self)
      intro b' hb'
      exact ih hb' fun k b hb a ha => hf k b hb a (List.mem_cons_of_mem _ ha)

theorem returns_foldlM {f : β → α → Except Raised β} {xs : List α} {b : β} (hb : R b)
    (hf : ∀ b, R b → ∀ a ∈ xs, Returns (f b a) R) : Returns (xs.foldlM f b) R :=
  returns_foldlM_count (R := fun _ => R) (k := 0) hb fun _ => hf

theorem returns_mapM {f : α → Except Raised β} {xs : List α} (hf : ∀ a ∈ xs, Returns (f a) R) :
    Returns (xs.mapM f) fun ys => ys.length = xs.length ∧ ∀ b ∈ ys, R b := by
  induction xs with
  | nil => exact returns_ok ⟨rfl, nofun⟩
  | cons a xs ih =>
      rw [List.mapM_cons]
      apply returns_bind (hf a List.mem_cons_self)
      intro b hb
      apply returns_bind (ih fun a ha => hf a (List.mem_cons_of_mem _ ha))
      rintro bs ⟨hlength, hbs⟩
      apply returns_ok
      refine ⟨congrArg (· + 1) hlength, ?_⟩
      intro c hc
      rcases List.mem_cons.mp hc with rfl | hc
      · exact hb
      · exact hbs c hc

theorem returns_divide {x y : K} (hy : y ≠ 0) : Returns (divide x y) (· = x / y) :=
  ⟨x / y, if_neg hy, rfl⟩

end Rules

theorem divide_eq {x y : K} (hy : y ≠ 0) : divide x y = .ok (x / y) := if_neg hy

theorem square_root_eq {sqrt : K → K} {x : K} (hx : 0 ≤ x) :
    square_root sqrt x = .ok (sqrt x) := if_neg (not_lt.mpr hx)

theorem mem_int_range {start stop i : ℤ} : i ∈ int_range start stop ↔ start ≤ i ∧ i < stop := by
  rw [int_range, List.mem_map]
  constructor
  · rintro ⟨k, hk, rfl⟩
    rw [List.mem_range] at hk
    omega
  · rintro ⟨hstart, hstop⟩
    refine ⟨(i - start).toNat, ?_, by omega⟩
    rw [List.mem_range]
    omega

theorem length_int_range (start stop : ℤ) :
    (int_range start stop).length = (stop - start).toNat := by
  rw [int_range, List.length_map, List.length_range]

theorem int_range_empty {start stop : ℤ} (h : stop ≤ start) : int_range start stop = [] := by
  rw [int_range, Int.toNat_eq_zero.mpr (by omega)]
  rfl

theorem int_range_cons {start stop : ℤ} (h : start < stop) :
    int_range start stop = start :: int_range (start + 1) stop := by
  have hlength : (stop - start).toNat = (stop - (start + 1)).toNat + 1 := by omega
  rw [int_range, hlength, List.range_succ_eq_map, List.map_cons, List.map_map, int_range]
  congr 1
  · rw [Nat.cast_zero, add_zero]
  · apply List.map_congr_left
    intro k hk
    rw [Function.comp_apply]
    omega

theorem index_nat {xs : List α} {i : ℕ} (h : i < xs.length) : index xs i = .ok xs[i] := by
  have hposition : position xs.length i = i := if_neg (by omega)
  rw [index, hposition, if_neg (by omega), Int.toNat_natCast, List.getElem?_eq_getElem h]

/-- An index counted from the end. -/
theorem index_back {xs : List α} {k : ℕ} (hk : 1 ≤ k) (h : k ≤ xs.length) :
    index xs (-k) = index xs (xs.length - k : ℕ) := by
  have hback : position xs.length (-k) = (xs.length - k : ℕ) := by
    rw [position, if_pos (by omega)]
    omega
  have hfront : position xs.length (xs.length - k : ℕ) = (xs.length - k : ℕ) := if_neg (by omega)
  rw [index, hback, index, hfront]

theorem returns_index {xs : List α} {i : ℤ} (hlow : -(xs.length : ℤ) ≤ i) (hhigh : i < xs.length) :
    Returns (index xs i) (· ∈ xs) := by
  rcases lt_or_ge i 0 with hneg | hpos
  · have hi : i = -((-i).toNat : ℕ) := by omega
    have hposition : xs.length - (-i).toNat < xs.length := by omega
    rw [hi, index_back (by omega) (by omega), index_nat hposition]
    exact returns_ok (List.getElem_mem hposition)
  · have hi : i = (i.toNat : ℕ) := by omega
    have hposition : i.toNat < xs.length := by omega
    rw [hi, index_nat hposition]
    exact returns_ok (List.getElem_mem hposition)

theorem slice_back (xs : List α) {k : ℕ} (hk : 1 ≤ k) :
    slice xs (some (-k)) none = xs.rtake k := by
  have hbound : bound xs.length (-k) = xs.length - k := by
    rw [bound, if_pos (by omega)]
    omega
  rw [slice, Option.elim_none, Option.elim_some, hbound, List.take_length, List.rtake.eq_def]

theorem slice_front (xs : List α) (k : ℕ) : slice xs none (some k) = xs.take k := by
  rw [slice, Option.elim_none, Option.elim_some, bound, if_neg (by omega), Int.toNat_natCast,
    List.drop_zero]
  rcases le_total k xs.length with hle | hle
  · rw [min_eq_left hle]
  · rw [min_eq_right hle, List.take_length, List.take_of_length_le hle]

theorem slice_before_last (xs : List α) (k : ℕ) :
    slice xs (some (-k - 1)) (some (-1)) = xs.dropLast.rtake k := by
  have hstart : bound xs.length (-k - 1) = xs.length - 1 - k := by
    rw [bound, if_pos (by omega)]
    omega
  have hstop : bound xs.length (-1) = xs.length - 1 := by
    rw [bound, if_pos (by omega)]
    omega
  rw [slice, Option.elim_some, Option.elim_some, hstart, hstop, List.rtake.eq_def,
    List.length_dropLast, List.dropLast_eq_take]

theorem index_nth_last {xs : List Z} {k : ℕ} (hk : 1 ≤ k) (h : k ≤ xs.length) :
    index xs (-k) = .ok (nth_last xs k) := by
  have hposition : xs.length - k < xs.length := by omega
  rw [index_back hk h, index_nat hposition, nth_last, List.getD_eq_getElem xs 0 hposition]

theorem index_last {xs : List Z} (h : 1 ≤ xs.length) : index xs (-1) = .ok (nth_last xs 1) :=
  index_nth_last le_rfl h

theorem nth_last_mem {xs : List Z} {k : ℕ} (hk : 1 ≤ k) (h : k ≤ xs.length) :
    nth_last xs k ∈ xs := by
  have hposition : xs.length - k < xs.length := by omega
  rw [nth_last, List.getD_eq_getElem xs 0 hposition]
  exact List.getElem_mem hposition

theorem maximum_eq {xs : List L} (h : xs ≠ []) : maximum xs = .ok (highest xs) := if_neg h

theorem minimum_eq {xs : List L} (h : xs ≠ []) : minimum xs = .ok (lowest xs) := if_neg h

theorem length_rtake (xs : List α) (k : ℕ) : (xs.rtake k).length = min k xs.length := by
  rw [List.rtake.eq_def, List.length_drop]
  omega

theorem rtake_ne_nil {xs : List α} {k : ℕ} (hk : 1 ≤ k) (h : k ≤ xs.length) :
    xs.rtake k ≠ [] := by
  rw [← List.length_pos_iff, length_rtake]
  omega

theorem mem_of_mem_rtake {a : α} {xs : List α} {k : ℕ} (h : a ∈ xs.rtake k) : a ∈ xs :=
  List.mem_of_mem_drop h

theorem slice_middle_ne_nil {xs : List α} {k : ℕ} (hk : 1 ≤ k) (h : k * 2 ≤ xs.length) :
    slice xs (some (-k * 2)) (some (-k)) ≠ [] := by
  have hstart : bound xs.length (-k * 2) = xs.length - k * 2 := by
    rw [bound, if_pos (by omega)]
    omega
  have hstop : bound xs.length (-k) = xs.length - k := by
    rw [bound, if_pos (by omega)]
    omega
  rw [slice, Option.elim_some, Option.elim_some, hstart, hstop, ← List.length_pos_iff,
    List.length_drop, List.length_take]
  omega

/-- The window of an element that has `k` of them up to it is not empty. -/
theorem window_ne_nil {xs : List α} {k : ℕ} {i : ℤ} (hk : 1 ≤ k) (hlow : k ≤ i + 1)
    (hhigh : i < xs.length) : slice xs (some (i - k + 1)) (some (i + 1)) ≠ [] := by
  have hstart : bound xs.length (i - k + 1) = (i - k + 1).toNat := by
    rw [bound, if_neg (by omega)]
    omega
  have hstop : bound xs.length (i + 1) = (i + 1).toNat := by
    rw [bound, if_neg (by omega)]
    omega
  rw [slice, Option.elim_some, Option.elim_some, hstart, hstop, ← List.length_pos_iff,
    List.length_drop, List.length_take]
  omega

/-- A start that is negative counts from the end, and then lies behind the stop. -/
theorem window_nil {xs : List α} {k : ℕ} {i : ℤ} (hi : i = xs.length - k) (hk : k ≤ xs.length)
    (h : xs.length + 1 < 2 * k) :
    slice xs (some (i - k + 1)) (some (i + 1)) = [] := by
  have hstart : bound xs.length (i - k + 1) = 2 * xs.length - 2 * k + 1 := by
    rw [bound, if_pos (by omega)]
    omega
  have hstop : bound xs.length (i + 1) = xs.length - k + 1 := by
    rw [bound, if_neg (by omega)]
    omega
  rw [slice, Option.elim_some, Option.elim_some, hstart, hstop, ← List.length_eq_zero_iff,
    List.length_drop, List.length_take]
  omega

theorem map_rtake (f : α → β) (xs : List α) (k : ℕ) : (xs.map f).rtake k = (xs.rtake k).map f := by
  rw [List.rtake.eq_def, List.rtake.eq_def, List.length_map, List.map_drop]

theorem nth_last_rtake {xs : List Z} {j k : ℕ} (hjk : j ≤ k) (h : k ≤ xs.length) :
    nth_last (xs.rtake k) j = nth_last xs j := by
  have hposition : xs.length - k + (k - j) = xs.length - j := by omega
  rw [nth_last, nth_last, length_rtake, min_eq_left h, List.rtake.eq_def,
    List.getD_eq_getElem?_getD, List.getElem?_drop, hposition, List.getD_eq_getElem?_getD]

theorem nth_last_mem_rtake {xs : List Z} {k : ℕ} (hk : 1 ≤ k) (h : k ≤ xs.length) :
    nth_last xs 1 ∈ xs.rtake k := by
  rw [← nth_last_rtake hk h]
  apply nth_last_mem le_rfl
  rw [length_rtake]
  omega

/-- A window with one more element begins with it. -/
theorem rtake_succ {xs : List Z} {k : ℕ} (h : k + 1 ≤ xs.length) :
    xs.rtake (k + 1) = nth_last xs (k + 1) :: xs.rtake k := by
  have hposition : xs.length - (k + 1) < xs.length := by omega
  have hnext : xs.length - (k + 1) + 1 = xs.length - k := by omega
  rw [List.rtake.eq_def, List.drop_eq_getElem_cons hposition, hnext, nth_last,
    List.getD_eq_getElem xs 0 hposition, List.rtake.eq_def]

/-- A loop over the last places of a sequence reads the elements there. -/
theorem foldlM_index_back {xs : List Z} {k : ℕ} (h : k ≤ xs.length)
    (f : β → Z → Except Raised β) (b : β) :
    (int_range (-k) 0).foldlM (fun b i => index xs i >>= f b) b = (xs.rtake k).foldlM f b := by
  induction k generalizing b with
  | zero => rw [int_range_empty (by omega), List.rtake_zero, List.foldlM_nil, List.foldlM_nil]
  | succ k ih =>
      have hnext : -((k + 1 : ℕ) : ℤ) + 1 = -k := by omega
      rw [int_range_cons (by omega), List.foldlM_cons, index_nth_last (by omega) h, hnext,
        rtake_succ h, List.foldlM_cons, ok_bind]
      congr 1
      funext b'
      exact ih (Nat.le_of_succ_le h) b'

theorem foldlM_index {xs : List α} {start : ℕ} (h : start ≤ xs.length)
    (f : β → α → Except Raised β) (b : β) :
    (int_range start xs.length).foldlM (fun b i => index xs i >>= f b) b =
      (xs.drop start).foldlM f b := by
  induction hrest : xs.length - start generalizing start b with
  | zero =>
      rw [int_range_empty (by omega), List.drop_of_length_le (by omega), List.foldlM_nil,
        List.foldlM_nil]
  | succ rest ih =>
      have hstart : start < xs.length := by omega
      rw [int_range_cons (by omega), List.foldlM_cons, index_nat hstart,
        List.drop_eq_getElem_cons hstart, List.foldlM_cons, ok_bind]
      congr 1
      funext b'
      exact ih hstart b' (by omega)

/-- A list built place by place. -/
theorem mapM_int_range {f : ℤ → Except Raised α} {ys : List α} {start stop : ℤ}
    (hlength : start + ys.length = stop)
    (h : ∀ i (hi : i < ys.length), f (start + i) = .ok ys[i]) :
    (int_range start stop).mapM f = .ok ys := by
  induction ys generalizing start with
  | nil =>
      rw [int_range_empty (by rw [← hlength, List.length_nil]; omega)]
      rfl
  | cons y ys ih =>
      rw [List.length_cons] at hlength
      have hhead := h 0 (Nat.succ_pos _)
      rw [Nat.cast_zero, add_zero] at hhead
      have htail : (int_range (start + 1) stop).mapM f = .ok ys := by
        apply ih (by omega)
        intro i hi
        have hplace : start + 1 + (i : ℤ) = start + (i + 1 : ℕ) := by omega
        rw [hplace]
        exact h (i + 1) (Nat.succ_lt_succ hi)
      rw [int_range_cons (by omega), List.mapM_cons, hhead, htail]
      rfl

section Extrema

variable {xs : List L} {x y : L}

omit [Zero L] in
theorem foldl_max_le_iff : xs.foldl max x ≤ y ↔ x ≤ y ∧ ∀ z ∈ xs, z ≤ y := by
  induction xs generalizing x with
  | nil => simp
  | cons z xs ih => rw [List.foldl_cons, ih, max_le_iff, List.forall_mem_cons, and_assoc]

omit [Zero L] in
theorem le_foldl_min_iff : y ≤ xs.foldl min x ↔ y ≤ x ∧ ∀ z ∈ xs, y ≤ z := by
  induction xs generalizing x with
  | nil => simp
  | cons z xs ih => rw [List.foldl_cons, ih, le_min_iff, List.forall_mem_cons, and_assoc]

theorem highest_le_iff (h : xs ≠ []) : highest xs ≤ y ↔ ∀ z ∈ xs, z ≤ y := by
  cases xs with
  | nil => exact absurd rfl h
  | cons x xs => rw [highest, foldl_max_le_iff, List.forall_mem_cons]

theorem le_lowest_iff (h : xs ≠ []) : y ≤ lowest xs ↔ ∀ z ∈ xs, y ≤ z := by
  cases xs with
  | nil => exact absurd rfl h
  | cons x xs => rw [lowest, le_foldl_min_iff, List.forall_mem_cons]

omit [Zero L] [LinearOrder L] in
theorem foldl_mem {f : L → L → L} (hf : ∀ a b, f a b = a ∨ f a b = b) (x : L) (xs : List L) :
    xs.foldl f x ∈ x :: xs := by
  induction xs generalizing x with
  | nil => exact List.mem_singleton_self x
  | cons y xs ih =>
      rw [List.foldl_cons]
      rcases hf x y with hleft | hright
      · rw [hleft]
        rcases List.mem_cons.mp (ih x) with heq | hmem
        · rw [heq]
          exact List.mem_cons_self
        · exact List.mem_cons_of_mem x (List.mem_cons_of_mem y hmem)
      · rw [hright]
        exact List.mem_cons_of_mem x (ih y)

theorem highest_mem (h : xs ≠ []) : highest xs ∈ xs := by
  cases xs with
  | nil => exact absurd rfl h
  | cons x xs => exact foldl_mem max_choice x xs

theorem lowest_mem (h : xs ≠ []) : lowest xs ∈ xs := by
  cases xs with
  | nil => exact absurd rfl h
  | cons x xs => exact foldl_mem min_choice x xs

theorem le_highest (h : x ∈ xs) : x ≤ highest xs :=
  (highest_le_iff (List.ne_nil_of_mem h)).mp le_rfl x h

theorem lowest_le (h : x ∈ xs) : lowest xs ≤ x :=
  (le_lowest_iff (List.ne_nil_of_mem h)).mp le_rfl x h

end Extrema

end ArticTrader.PythonSequences
