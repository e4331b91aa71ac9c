import Mathlib.Data.List.Basic
import Mathlib.Data.List.Induction

/-!
Lists of pairs as maps with several values a key, and the maps with one value a key
that are read from them.
-/

namespace ArticTrader.Multimaps

section Values

variable {κ α : Type*} [DecidableEq κ]

/-- The values of a key, in their order. -/
def values (k : κ) (pairs : List (κ × α)) : List α :=
  (pairs.filter fun p => p.1 = k).map (·.2)

@[simp] theorem values_nil (k : κ) : values k ([] : List (κ × α)) = [] := rfl

theorem values_append (k : κ) (pairs pairs' : List (κ × α)) :
    values k (pairs ++ pairs') = values k pairs ++ values k pairs' := by
  simp only [values, List.filter_append, List.map_append]

theorem values_cons (k : κ) (p : κ × α) (pairs : List (κ × α)) :
    values k (p :: pairs) = if p.1 = k then p.2 :: values k pairs else values k pairs := by
  by_cases h : p.1 = k
  · simp [values, h]
  · simp [values, h]

theorem values_singleton (k : κ) (p : κ × α) : values k [p] = if p.1 = k then [p.2] else [] :=
  values_cons k p []

theorem values_eq_nil_iff {k : κ} {pairs : List (κ × α)} :
    values k pairs = [] ↔ k ∉ pairs.map (·.1) := by
  simp only [values, List.map_eq_nil_iff, List.filter_eq_nil_iff, decide_eq_true_eq, List.mem_map,
    not_exists, not_and]

theorem values_filter (keep : κ → Bool) (k : κ) (pairs : List (κ × α)) :
    values k (pairs.filter fun p => keep p.1) = if keep k then values k pairs else [] := by
  induction pairs with
  | nil => simp
  | cons p pairs ih =>
      rw [List.filter_cons, values_cons]
      by_cases hkey : p.1 = k
      · subst hkey
        by_cases hkeep : keep p.1
        · simp [hkeep, values_cons, ih]
        · simp [hkeep, ih]
      · by_cases hkeep : keep p.1
        · simp [hkeep, values_cons, ih, hkey]
        · simp [hkeep, ih, hkey]

/-- `d[k] = v`, where `merge` says what becomes of a value that is there. -/
def upsert (merge : α → α → α) : List (κ × α) → κ → α → List (κ × α)
  | [], k, v => [(k, v)]
  | p :: d, k, v => if p.1 = k then (k, merge p.2 v) :: d else p :: upsert merge d k v

def merged (merge : α → α → α) (pairs : List (κ × α)) : List (κ × α) :=
  pairs.foldl (fun d p => upsert merge d p.1 p.2) []

/-- `functools.reduce(merge, vs)`; there is none of no values. -/
def reduce (merge : α → α → α) : List α → Option α
  | [] => none
  | v :: vs => some (vs.foldl merge v)

theorem reduce_concat (merge : α → α → α) (vs : List α) (v : α) :
    reduce merge (vs ++ [v]) = some ((reduce merge vs).elim v fun w => merge w v) := by
  cases vs with
  | nil => rfl
  | cons w vs =>
      rw [List.cons_append, reduce, List.foldl_concat]
      rfl

/-- Only lists of several values are changed. -/
theorem toList_reduce_eq_iff (merge : α → α → α) (vs : List α) :
    (reduce merge vs).toList = vs ↔ vs.length ≤ 1 := by
  match vs with
  | [] => simp [reduce]
  | [v] => simp [reduce]
  | v :: w :: vs => simp [reduce]

theorem values_upsert_self (merge : α → α → α) (d : List (κ × α)) (k : κ) (v : α) :
    values k (upsert merge d k v) =
      match values k d with
      | [] => [v]
      | w :: rest => merge w v :: rest := by
  induction d with
  | nil => simp [upsert, values_cons]
  | cons p d ih =>
      unfold upsert
      by_cases h : p.1 = k
      · simp [h, values_cons]
      · simp [h, values_cons, ih]

theorem values_upsert_of_ne (merge : α → α → α) (d : List (κ × α)) {k k' : κ} (h : k' ≠ k)
    (v : α) : values k (upsert merge d k' v) = values k d := by
  induction d with
  | nil => simp [upsert, values_cons, h]
  | cons p d ih =>
      unfold upsert
      by_cases hkey : p.1 = k'
      · simp [hkey, values_cons, h]
      · simp [hkey, values_cons, ih]

theorem values_merged (merge : α → α → α) (k : κ) (pairs : List (κ × α)) :
    values k (merged merge pairs) = (reduce merge (values k pairs)).toList := by
  induction pairs using List.reverseRecOn with
  | nil => rfl
  | append_singleton pairs p ih =>
      have hstep : merged merge (pairs ++ [p]) = upsert merge (merged merge pairs) p.1 p.2 :=
        List.foldl_concat _ _ p pairs
      rw [hstep, values_append, values_singleton]
      by_cases h : p.1 = k
      · subst h
        rw [values_upsert_self, ih, if_pos rfl, reduce_concat]
        rcases reduce merge (values p.1 pairs) with _ | w
        · rfl
        · rfl
      · rw [values_upsert_of_ne merge _ h, ih, if_neg h, List.append_nil]

theorem values_merged_eq_iff (merge : α → α → α) (k : κ) (pairs : List (κ × α)) :
    values k (merged merge pairs) = values k pairs ↔ (values k pairs).length ≤ 1 := by
  rw [values_merged]
  exact toList_reduce_eq_iff merge _

theorem reduce_eq_none_iff (merge : α → α → α) (vs : List α) :
    reduce merge vs = none ↔ vs = [] := by
  rcases vs with _ | ⟨v, vs⟩
  · simp [reduce]
  · simp [reduce]

theorem reduce_toList (merge : α → α → α) (o : Option α) : reduce merge o.toList = o := by
  rcases o with _ | v
  · rfl
  · rfl

theorem mem_keys_merged_iff (merge : α → α → α) (k : κ) (pairs : List (κ × α)) :
    k ∈ (merged merge pairs).map (·.1) ↔ k ∈ pairs.map (·.1) := by
  apply not_iff_not.mp
  rw [← values_eq_nil_iff, ← values_eq_nil_iff, values_merged, Option.toList_eq_nil_iff,
    reduce_eq_none_iff]

theorem upsert_of_not_mem (merge : α → α → α) {d : List (κ × α)} {k : κ}
    (h : k ∉ d.map (·.1)) (v : α) : upsert merge d k v = d ++ [(k, v)] := by
  induction d with
  | nil => rfl
  | cons p d ih =>
      rw [List.map_cons, List.mem_cons, not_or] at h
      rw [upsert, if_neg (Ne.symm h.1), ih h.2, List.cons_append]

theorem lookup_eq_head?_values [BEq κ] [LawfulBEq κ] (k : κ) (pairs : List (κ × α)) :
    pairs.lookup k = (values k pairs).head? := by
  induction pairs with
  | nil => rfl
  | cons p pairs ih =>
      rw [List.lookup_cons, values_cons]
      by_cases h : p.1 = k
      · simp [h]
      · have hne : (k == p.1) = false := beq_eq_false_iff_ne.mpr (Ne.symm h)
        rw [hne, if_neg h]
        exact ih

/-- `dict(pairs)`: a later value takes the place of an earlier one. -/
def dict (pairs : List (κ × α)) : List (κ × α) := merged (fun _ v => v) pairs

def setitem (d : List (κ × α)) (k : κ) (v : α) : List (κ × α) := upsert (fun _ v => v) d k v

end Values

end ArticTrader.Multimaps
