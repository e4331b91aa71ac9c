import Mathlib.Algebra.BigOperators.Group.List.Basic
import Mathlib.Algebra.GroupWithZero.Nat
import Mathlib.Data.Nat.Init

/-!
Breadth-first walks over any tree that is given by the children of its nodes,
and the nodes that lie within it.
-/

namespace ArticTrader.TreeWalk

variable {α : Type*} (children : α → List α)

def walk : ℕ → List α → List α
  | 0, _ => []
  | _ + 1, [] => []
  | n + 1, a :: todo => a :: walk n (todo ++ children a)

/-- The second node is the first one or lies below it. -/
inductive Within : α → α → Prop where
  | refl (a : α) : Within a a
  | child {a b c : α} (hchild : c ∈ children a) (h : Within c b) : Within a b

variable {children}

theorem Within.cases_child {a b : α} (h : Within children a b) :
    b = a ∨ ∃ c ∈ children a, Within children c b := by
  cases h with
  | refl => exact .inl rfl
  | child hchild h => exact .inr ⟨_, hchild, h⟩

theorem Within.trans {a b c : α} (hab : Within children a b) (hbc : Within children b c) :
    Within children a c := by
  induction hab with
  | refl => exact hbc
  | child hchild _ ih => exact .child hchild (ih hbc)

theorem Within.inherit {P : α → Prop} (hstep : ∀ a, P a → ∀ c ∈ children a, P c) {a b : α}
    (h : Within children a b) (ha : P a) : P b := by
  induction h with
  | refl => exact ha
  | child hchild _ ih => exact ih (hstep _ ha _ hchild)

/-- A walk with enough rounds meets exactly the nodes within the trees that it
starts from. -/
theorem mem_walk_iff {size : α → ℕ} (hsize : ∀ a, ((children a).map size).sum < size a)
    {n : ℕ} {todo : List α} (h : (todo.map size).sum ≤ n) {b : α} :
    b ∈ walk children n todo ↔ ∃ a ∈ todo, Within children a b := by
  induction n generalizing todo with
  | zero =>
      cases todo with
      | nil => simp [walk]
      | cons a todo =>
          have := hsize a
          rw [List.map_cons, List.sum_cons] at h
          omega
  | succ n ih =>
      cases todo with
      | nil => simp [walk]
      | cons a todo =>
          have hle : ((todo ++ children a).map size).sum ≤ n := by
            have := hsize a
            rw [List.map_cons, List.sum_cons] at h
            rw [List.map_append, List.sum_append]
            omega
          rw [walk, List.mem_cons, ih hle]
          constructor
          · rintro (rfl | ⟨c, hc, hwithin⟩)
            · exact ⟨b, List.mem_cons_self, .refl b⟩
            · rcases List.mem_append.mp hc with htodo | hchild
              · exact ⟨c, List.mem_cons_of_mem a htodo, hwithin⟩
              · exact ⟨a, List.mem_cons_self, .child hchild hwithin⟩
          · rintro ⟨c, hc, hwithin⟩
            rcases List.mem_cons.mp hc with rfl | htodo
            · rcases hwithin.cases_child with rfl | ⟨d, hd, hbelow⟩
              · exact .inl rfl
              · exact .inr ⟨d, List.mem_append_right _ hd, hbelow⟩
            · exact .inr ⟨c, List.mem_append_left _ htodo, hwithin⟩

end ArticTrader.TreeWalk
