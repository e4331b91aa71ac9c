import Mathlib.Data.List.Dedup
import Mathlib.Data.List.DropRight
import Mathlib.Data.Set.Function
import ArticTrader.Multimaps

/-!
What has been used last: the latest values of a list, and dictionaries in the order of
their use.
-/

namespace ArticTrader.Recency

open ArticTrader.Multimaps

section Lists

variable {α β : Type*}

theorem rtake_append_of_le {n : ℕ} (x : List α) {y : List α} (h : n ≤ y.length) :
    (x ++ y).rtake n = y.rtake n := by
  have hlength : (x ++ y).length - n = x.length + (y.length - n) := by
    rw [List.length_append]
    omega
  rw [List.rtake, List.rtake, hlength, List.drop_append]
  simp

theorem rtake_of_length_le {n : ℕ} {x : List α} (h : x.length ≤ n) : x.rtake n = x := by
  rw [List.rtake, Nat.sub_eq_zero_of_le h, List.drop_zero]

variable [DecidableEq α]

/-- The last `n` different values of a list, each at its last use. -/
def recent (n : ℕ) (l : List α) : List α := l.dedup.rtake n

def touch (a : α) (l : List α) : List α := l.filter (· ≠ a) ++ [a]

theorem touch_of_not_mem {a : α} {l : List α} (h : a ∉ l) : touch a l = l ++ [a] := by
  have hall : ∀ x ∈ l, decide (x ≠ a) = true := by
    intro x hx
    have hne : x ≠ a := fun heq => h (heq ▸ hx)
    simpa using hne
  rw [touch, List.filter_eq_self.mpr hall]

theorem nodup_touch {l : List α} (h : l.Nodup) (a : α) : (touch a l).Nodup := by
  rw [touch, List.nodup_append']
  refine ⟨h.filter _, List.nodup_singleton a, ?_⟩
  intro x hx hmem
  obtain rfl := List.mem_singleton.mp hmem
  simp at hx

theorem length_touch_of_mem {l : List α} {a : α} (h : l.Nodup) (ha : a ∈ l) :
    (touch a l).length = l.length := by
  have hcount : l.countP (· = a) = 1 := by
    simpa [List.count, ← beq_eq_decide] using List.count_eq_one_of_mem h ha
  have hsplit := List.length_eq_countP_add_countP (· = a) (l := l)
  rw [touch, List.length_append, List.length_singleton, ← List.countP_eq_length_filter, hsplit,
    hcount, Nat.add_comm]
  simp

theorem dedup_concat (l : List α) (a : α) : (l ++ [a]).dedup = touch a l.dedup := by
  induction l with
  | nil => simp [touch]
  | cons x l ih =>
      rw [List.cons_append]
      by_cases hx : x ∈ l
      · rw [List.dedup_cons_of_mem (List.mem_append_left _ hx), List.dedup_cons_of_mem hx, ih]
      · rw [List.dedup_cons_of_notMem hx]
        by_cases hxa : x = a
        · subst hxa
          rw [List.dedup_cons_of_mem (by simp), ih]
          simp [touch]
        · rw [List.dedup_cons_of_notMem (by simp [hx, hxa]), ih]
          simp [touch, hxa]

/-- What has been dropped of a list does not matter for what is used next. -/
theorem rtake_touch {d : List α} (h : d.Nodup) (n : ℕ) (a : α) :
    (touch a (d.rtake n)).rtake n = (touch a d).rtake n := by
  rcases le_total d.length n with hle | hle
  · rw [rtake_of_length_le hle]
  · obtain ⟨p, hp⟩ : ∃ p, d = p ++ d.rtake n :=
      ⟨d.take (d.length - n), (List.take_append_drop _ _).symm⟩
    have hlength : (d.rtake n).length = n := by
      rw [List.rtake, List.length_drop]
      omega
    have hnodup : (d.rtake n).Nodup := h.sublist (List.drop_sublist _ _)
    have hlong : n ≤ (touch a (d.rtake n)).length := by
      by_cases ha : a ∈ d.rtake n
      · rw [length_touch_of_mem hnodup ha, hlength]
      · rw [touch_of_not_mem ha, List.length_append, hlength]
        omega
    have htouch : touch a d = p.filter (· ≠ a) ++ touch a (d.rtake n) := by
      rw [touch, touch, ← List.append_assoc, ← List.filter_append, ← hp]
    rw [htouch, rtake_append_of_le _ hlong]

theorem recent_concat (n : ℕ) (l : List α) (a : α) :
    recent n (l ++ [a]) = (touch a (recent n l)).rtake n := by
  rw [recent, recent, dedup_concat, rtake_touch (List.nodup_dedup l)]

theorem recent_map [DecidableEq β] {f : α → β} (n : ℕ) {l : List α}
    (hf : Set.InjOn f {a | a ∈ l}) : recent n (l.map f) = (recent n l).map f := by
  have hdedup : (l.map f).dedup = l.dedup.map f := by
    induction l with
    | nil => simp
    | cons x l ih =>
        have hl : Set.InjOn f {a | a ∈ l} := hf.mono fun a ha => List.mem_cons_of_mem x ha
        rw [List.map_cons]
        by_cases hx : x ∈ l
        · rw [List.dedup_cons_of_mem hx, List.dedup_cons_of_mem (List.mem_map_of_mem hx), ih hl]
        · have hfx : f x ∉ l.map f := by
            intro hmem
            obtain ⟨y, hy, heq⟩ := List.mem_map.mp hmem
            exact hx (hf (List.mem_cons_of_mem x hy) List.mem_cons_self heq ▸ hy)
          rw [List.dedup_cons_of_notMem hx, List.dedup_cons_of_notMem hfx, ih hl, List.map_cons]
  rw [recent, recent, hdedup, List.rtake, List.rtake, List.length_map, List.map_drop]

end Lists

section Dictionaries

variable {κ α : Type*}

def keys (d : List (κ × α)) : List κ := d.map (·.1)

/-- `while len(d) > n: d.popitem(last=False)`. -/
def evict (n : ℕ) : List (κ × α) → List (κ × α)
  | [] => []
  | p :: d => if n < (p :: d).length then evict n d else p :: d

theorem evict_eq_rtake (n : ℕ) (d : List (κ × α)) : evict n d = d.rtake n := by
  induction d with
  | nil => simp [evict]
  | cons p d ih =>
      unfold evict
      split_ifs with hlong
      · have hle : n ≤ d.length := Nat.lt_succ_iff.mp hlong
        rw [ih, List.rtake, List.rtake, List.length_cons, Nat.succ_sub hle, List.drop_succ_cons]
      · have hle : (p :: d).length ≤ n := not_lt.mp hlong
        rw [List.rtake, Nat.sub_eq_zero_of_le hle, List.drop_zero]

theorem keys_rtake (n : ℕ) (d : List (κ × α)) : keys (d.rtake n) = (keys d).rtake n := by
  simp only [keys, List.rtake, List.map_drop, List.length_map]

theorem keys_filter (f : κ → Bool) (d : List (κ × α)) :
    keys (d.filter fun p => f p.1) = (keys d).filter f := by
  simp only [keys, List.filter_map, Function.comp_def]

variable [DecidableEq κ]

def get (d : List (κ × α)) (k : κ) : Option α := (d.find? fun p => p.1 = k).map (·.2)

/-- `d.move_to_end(k)`. -/
def move_to_end (d : List (κ × α)) (k : κ) : List (κ × α) :=
  d.filter (fun p => p.1 ≠ k) ++ d.filter fun p => p.1 = k

theorem mem_of_get {d : List (κ × α)} {k : κ} {v : α} (h : get d k = some v) : (k, v) ∈ d := by
  obtain ⟨p, hp, rfl⟩ := Option.map_eq_some_iff.mp h
  have hkey : p.1 = k := by simpa using List.find?_some hp
  have hmem := List.mem_of_find?_eq_some hp
  rwa [← hkey]

theorem filter_key_of_get {d : List (κ × α)} (hd : (keys d).Nodup) {k : κ} {v : α}
    (h : get d k = some v) : d.filter (fun p => p.1 = k) = [(k, v)] := by
  induction d with
  | nil => simp [get] at h
  | cons p d ih =>
      obtain ⟨hfresh, hnodup⟩ := List.nodup_cons.mp hd
      by_cases hp : p.1 = k
      · obtain rfl : p.2 = v := by simpa [get, hp] using h
        have hrest : d.filter (fun p => p.1 = k) = [] := by
          rw [List.filter_eq_nil_iff]
          intro q hq hkey
          have hqk : q.1 = k := by simpa using hkey
          have hsame : q.1 = p.1 := hqk.trans hp.symm
          exact hfresh (List.mem_map.mpr ⟨q, hq, hsame⟩)
        rw [List.filter_cons_of_pos (by simpa using hp), hrest, ← hp]
      · have hget : get d k = some v := by simpa [get, hp] using h
        rw [List.filter_cons_of_neg (by simpa using hp), ih hnodup hget]

/-- A key that is found is used. -/
theorem keys_move_to_end {d : List (κ × α)} (hd : (keys d).Nodup) {k : κ} {v : α}
    (h : get d k = some v) : keys (move_to_end d k) = touch k (keys d) := by
  rw [move_to_end, filter_key_of_get hd h, keys, List.map_append]
  exact congrArg (· ++ [k]) (keys_filter (fun x => decide (x ≠ k)) d)

theorem get_setitem (d : List (κ × α)) (k : κ) (v : α) : get (setitem d k v) k = some v := by
  induction d with
  | nil => simp [get, setitem, upsert]
  | cons p d ih =>
      unfold setitem upsert
      split_ifs with hp
      · simp [get]
      · simpa [get, hp, setitem] using ih

theorem filter_setitem (d : List (κ × α)) (k : κ) (v : α) :
    (setitem d k v).filter (fun p => p.1 ≠ k) = d.filter fun p => p.1 ≠ k := by
  induction d with
  | nil => simp [setitem, upsert]
  | cons p d ih =>
      unfold setitem upsert
      split_ifs with hp
      · simp [hp]
      · simpa [hp, setitem] using ih

theorem keys_setitem (d : List (κ × α)) (k : κ) (v : α) :
    keys (setitem d k v) = if k ∈ keys d then keys d else keys d ++ [k] := by
  induction d with
  | nil => simp [keys, setitem, upsert]
  | cons p d ih =>
      unfold setitem upsert
      split_ifs with hp hmem hmem
      · simp [keys, hp]
      · exact absurd (by simp [keys, hp]) hmem
      · have hd : k ∈ keys d := by simpa [keys, Ne.symm hp] using hmem
        rw [setitem, if_pos hd] at ih
        simpa [keys] using ih
      · have hd : k ∉ keys d := fun h => hmem (List.mem_cons_of_mem _ h)
        rw [setitem, if_neg hd] at ih
        simpa [keys] using ih

theorem nodup_keys_setitem {d : List (κ × α)} (hd : (keys d).Nodup) (k : κ) (v : α) :
    (keys (setitem d k v)).Nodup := by
  rw [keys_setitem]
  split_ifs with h
  · exact hd
  · rw [← touch_of_not_mem h]
    exact nodup_touch hd k

/-- A key that is set and moved to the end is used. -/
theorem keys_used {d : List (κ × α)} (hd : (keys d).Nodup) (k : κ) (v : α) :
    keys (move_to_end (setitem d k v) k) = touch k (keys d) := by
  rw [keys_move_to_end (nodup_keys_setitem hd k v) (get_setitem d k v), touch, touch,
    ← keys_filter (fun x => decide (x ≠ k)), ← keys_filter (fun x => decide (x ≠ k)),
    filter_setitem]

theorem mem_used {d : List (κ × α)} (hd : (keys d).Nodup) {k : κ} {v : α} {p : κ × α} :
    p ∈ move_to_end (setitem d k v) k ↔ p ∈ d ∧ p.1 ≠ k ∨ p = (k, v) := by
  rw [move_to_end, filter_key_of_get (nodup_keys_setitem hd k v) (get_setitem d k v),
    filter_setitem]
  simp

theorem mem_move_to_end {d : List (κ × α)} {k : κ} {p : κ × α} : p ∈ move_to_end d k ↔ p ∈ d := by
  rw [move_to_end, List.mem_append, List.mem_filter, List.mem_filter]
  by_cases hp : p.1 = k
  · simp [hp]
  · simp [hp]

end Dictionaries

end ArticTrader.Recency
