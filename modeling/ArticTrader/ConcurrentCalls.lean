import Mathlib.Logic.Function.Basic

/-!
A shared value and a number of calls that work on it, each in its own phase. The
calls are named by a type, so their number has no bound.
-/

namespace ArticTrader.ConcurrentCalls

/-- `shared` is what every call sees, `calls` where each of them stands. -/
structure System (ι ρ φ : Type*) where
  shared : ρ
  calls : ι → φ

variable {ι ρ φ : Type*}

def System.write (s : System ι ρ φ) (shared : ρ) : System ι ρ φ := { s with shared }

@[simp] theorem System.write_shared (s : System ι ρ φ) (r : ρ) : (s.write r).shared = r := rfl

@[simp] theorem System.write_calls (s : System ι ρ φ) (r : ρ) :
    (s.write r).calls = s.calls := rfl

variable [DecidableEq ι]

def System.set (s : System ι ρ φ) (i : ι) (p : φ) : System ι ρ φ :=
  { s with calls := Function.update s.calls i p }

@[simp] theorem System.set_shared (s : System ι ρ φ) (i : ι) (p : φ) :
    (s.set i p).shared = s.shared := rfl

@[simp] theorem System.set_self (s : System ι ρ φ) (i : ι) (p : φ) :
    (s.set i p).calls i = p := by
  simp [System.set]

theorem System.set_of_ne (s : System ι ρ φ) {i j : ι} (p : φ) (h : j ≠ i) :
    (s.set i p).calls j = s.calls j := by
  simp [System.set, h]

theorem System.set_cases (s : System ι ρ φ) (i j : ι) (p : φ) :
    (j = i ∧ (s.set i p).calls j = p) ∨ (j ≠ i ∧ (s.set i p).calls j = s.calls j) := by
  by_cases h : j = i
  · subst h
    exact .inl ⟨rfl, s.set_self j p⟩
  · exact .inr ⟨h, s.set_of_ne p h⟩

/-- What holds of the call that moves and of all the others holds of every call. -/
theorem System.forall_set {s : System ι ρ φ} {i : ι} {p : φ} {P : ι → φ → Prop}
    (hp : P i p) (h : ∀ j, j ≠ i → P j (s.calls j)) (j : ι) : P j ((s.set i p).calls j) := by
  rcases s.set_cases i j p with ⟨rfl, heq⟩ | ⟨hne, heq⟩
  · rw [heq]
    exact hp
  · rw [heq]
    exact h j hne

end ArticTrader.ConcurrentCalls
