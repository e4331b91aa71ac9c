import Mathlib.Data.List.Nodup

/-!
A log of keys, each entered by an owner, and the lists that hold the keys of
each owner in the order of the log.
-/

namespace ArticTrader.OwnedKeys

variable {α κ : Type*}

theorem owner_unique {log : List (α × κ)} (h : (log.map Prod.snd).Nodup) {a b : α} {k : κ}
    (ha : (a, k) ∈ log) (hb : (b, k) ∈ log) : a = b :=
  congrArg Prod.fst (List.inj_on_of_nodup_map h ha hb rfl)

variable [DecidableEq α]

/-- The keys that `a` entered, in the order of the log. -/
def keysOf (log : List (α × κ)) (a : α) : List κ :=
  (log.filter fun e => e.1 = a).map Prod.snd

theorem keysOf_concat (log : List (α × κ)) (a : α) (k : κ) :
    keysOf (log ++ [(a, k)]) = Function.update (keysOf log) a (keysOf log a ++ [k]) := by
  funext b
  by_cases hb : b = a
  · subst b
    simp [keysOf]
  · rw [Function.update_of_ne hb]
    simp [keysOf, Ne.symm hb]

theorem mem_keysOf_iff {log : List (α × κ)} {a : α} {k : κ} :
    k ∈ keysOf log a ↔ (a, k) ∈ log := by
  simp [keysOf]

theorem nodup_keysOf {log : List (α × κ)} (h : (log.map Prod.snd).Nodup) (a : α) :
    (keysOf log a).Nodup :=
  h.sublist (List.filter_sublist.map Prod.snd)

variable [DecidableEq κ]

/-- Of all the lists together, only that of `a` holds the key, and only once. -/
def OnlyIn (lists : α → List κ) (k : κ) (a : α) : Prop :=
  (lists a).count k = 1 ∧ ∀ b, b ≠ a → k ∉ lists b

/-- A log that enters no key twice has each of its keys in one list, once. -/
theorem onlyIn_keysOf_iff {log : List (α × κ)} (h : (log.map Prod.snd).Nodup) {a : α} {k : κ} :
    OnlyIn (keysOf log) k a ↔ (a, k) ∈ log := by
  constructor
  · rintro ⟨hcount, -⟩
    apply mem_keysOf_iff.mp
    apply List.count_pos_iff.mp
    omega
  · intro hmem
    refine ⟨List.count_eq_one_of_mem (nodup_keysOf h a) (mem_keysOf_iff.mpr hmem), ?_⟩
    intro b hb hlisted
    exact hb (owner_unique h (mem_keysOf_iff.mp hlisted) hmem)

end ArticTrader.OwnedKeys
