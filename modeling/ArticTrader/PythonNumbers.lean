import Mathlib.Algebra.Order.Field.Rat
import Mathlib.Data.Rat.Floor

/-!
Python arithmetic on exact numbers: what an operator returns, or the class of
the exception it raises. `None` in an arithmetic position is a `TypeError`.
-/

namespace ArticTrader.PythonNumbers

inductive PyError where
  | TypeError
  | ZeroDivisionError
  | ValueError
  | KeyError
  deriving DecidableEq, Repr

def number {α : Type*} : Option α → Except PyError α
  | some x => .ok x
  | none => .error .TypeError

def true_div (x y : ℚ) : Except PyError ℚ :=
  if y = 0 then .error .ZeroDivisionError else .ok (x / y)

/-- `int(x)` truncates towards zero. -/
def int (x : ℚ) : ℤ := if 0 ≤ x then ⌊x⌋ else ⌈x⌉

def truthy : Option ℚ → Bool
  | none => false
  | some x => decide (x ≠ 0)

theorem int_of_nonneg {x : ℚ} (h : 0 ≤ x) : int x = ⌊x⌋ := if_pos h

@[simp] theorem number_some {α : Type*} (x : α) : number (some x) = .ok x := rfl

@[simp] theorem number_none {α : Type*} :
    number (none : Option α) = .error .TypeError := rfl

theorem bind_eq_ok {α β : Type} {x : Except PyError α} {f : α → Except PyError β} {r : β} :
    (x >>= f) = .ok r ↔ ∃ a, x = .ok a ∧ f a = .ok r := by
  cases x with
  | error e =>
      constructor
      · intro h
        cases h
      · rintro ⟨a, h, -⟩
        cases h
  | ok a =>
      constructor
      · intro h
        exact ⟨a, rfl, h⟩
      · rintro ⟨b, hb, h⟩
        cases hb
        exact h

theorem number_eq_ok {α : Type*} {x : Option α} {a : α} : number x = .ok a ↔ x = some a := by
  cases x with
  | none => simp
  | some b => simp

theorem number_bind_eq_ok {α β : Type} {x : Option α} {f : α → Except PyError β} {r : β} :
    (number x >>= f) = .ok r ↔ ∃ a, x = some a ∧ f a = .ok r := by
  simp only [bind_eq_ok, number_eq_ok]

theorem true_div_of_ne {x y : ℚ} (h : y ≠ 0) : true_div x y = .ok (x / y) := by
  rw [true_div, if_neg h]

end ArticTrader.PythonNumbers
