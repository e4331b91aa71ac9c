import Mathlib.Data.List.Nodup
import Mathlib.Data.List.Perm.Basic
import Mathlib.Data.List.Sort
import Mathlib.Order.Basic

/-!
Reading a table page by page, where a page is what comes first in the order of a
key that several rows may share, and the next page begins at the key of the last
row read.
-/

namespace ArticTrader.KeyedPages

section Sorted

variable {α κ : Type*} [LinearOrder κ] {key : α → κ} {xs : List α} {n : ℕ}

theorem key_le_of_take_of_drop (hsorted : xs.Pairwise fun y z => key y ≤ key z) {x y : α}
    (hx : x ∈ xs.take n) (hy : y ∈ xs.drop n) : key x ≤ key y := by
  rw [← List.take_append_drop n xs] at hsorted
  exact (List.pairwise_append.mp hsorted).2.2 x hx y hy

theorem mem_take_or_drop {x : α} (hx : x ∈ xs) (n : ℕ) : x ∈ xs.take n ∨ x ∈ xs.drop n := by
  rw [← List.take_append_drop n xs] at hx
  exact List.mem_append.mp hx

/-- In a sorted list what few elements do not exceed is among the first. -/
theorem mem_take_of_few {x : α} (hsorted : xs.Pairwise fun y z => key y ≤ key z) (hx : x ∈ xs)
    (hfew : (xs.filter fun y => key y ≤ key x).length ≤ n) : x ∈ xs.take n := by
  rcases mem_take_or_drop hx n with htake | hdrop
  · exact htake
  have hlength : (xs.take n).length = n := by
    rw [List.length_take]
    have := List.length_pos_of_mem hdrop
    rw [List.length_drop] at this
    omega
  have hlater : x ∈ (xs.drop n).filter fun y => key y ≤ key x :=
    List.mem_filter.mpr ⟨hdrop, decide_eq_true le_rfl⟩
  have hmany : n < (xs.filter fun y => key y ≤ key x).length := by
    rw [← List.take_append_drop n xs, List.filter_append, List.length_append,
      List.filter_eq_self.mpr fun y hy =>
        decide_eq_true (key_le_of_take_of_drop hsorted hy hdrop), hlength]
    exact Nat.lt_add_of_pos_right (List.length_pos_of_mem hlater)
  exact absurd hfew (not_le.mpr hmany)

theorem mem_take_filter {p : α → Bool} {x : α} (hx : x ∈ xs.take n) (hp : p x = true) :
    x ∈ (xs.filter p).take n := by
  have hprefix := (List.take_prefix n xs).filter p
  have hshort : ((xs.take n).filter p).length ≤ n :=
    le_trans (List.length_filter_le ..) (List.length_take_le ..)
  have hmem : x ∈ (xs.take n).filter p := List.mem_filter.mpr ⟨hx, hp⟩
  rw [List.prefix_iff_eq_take.mp hprefix] at hmem
  exact List.take_subset_take_left _ hshort hmem

theorem key_le_getLast (hsorted : xs.Pairwise fun y z => key y ≤ key z) {x a : α}
    (hx : x ∈ xs) (ha : xs.getLast? = some a) : key x ≤ key a := by
  obtain ⟨ys, rfl⟩ := List.getLast?_eq_some_iff.mp ha
  rcases List.mem_append.mp hx with hbefore | hlast
  · exact (List.pairwise_append.mp hsorted).2.2 x hbefore a (List.mem_singleton_self a)
  · rw [List.mem_singleton.mp hlast]

end Sorted

variable {α κ : Type*} [LinearOrder κ] (key : α → κ) (table : List α)

/-- The rows from the key `k` on, in the order of their keys; rows of one key come
in any order. -/
structure Lists (k : κ) (rows : List α) : Prop where
  perm : rows.Perm (table.filter fun a => k ≤ key a)
  sorted : rows.Pairwise fun a b => key a ≤ key b

def shared (k : κ) : ℕ := (table.filter fun a => key a = k).length

/-- From `k` on fewer rows than a page holds share a key, but for the last key, whose
rows may fill a page. -/
def Fits (limit : ℕ) (k : κ) : Prop :=
  ∀ a ∈ table, k ≤ key a → shared key table (key a) ≤ limit ∧
    (shared key table (key a) = limit → ∀ b ∈ table, key b ≤ key a)

instance (limit : ℕ) (k : κ) : Decidable (Fits key table limit k) :=
  inferInstanceAs (Decidable (∀ a ∈ table, k ≤ key a → shared key table (key a) ≤ limit ∧
    (shared key table (key a) = limit → ∀ b ∈ table, key b ≤ key a)))

section Reading

variable (query : ℕ → κ → List α) (limit : ℕ) (k : κ)

def cursor : ℕ → κ
  | 0 => k
  | n + 1 => ((query n (cursor n)).take limit).getLast?.elim (cursor n) key

def page (n : ℕ) : List α := (query n (cursor key query limit k n)).take limit

def Obtained (n : ℕ) (a : α) : Prop := ∃ m < n, a ∈ page key query limit k m

end Reading

variable {key table} {limit : ℕ} {k k' : κ} {rows : List α}

theorem Lists.mem_iff (h : Lists key table k rows) {a : α} :
    a ∈ rows ↔ a ∈ table ∧ k ≤ key a := by
  rw [h.perm.mem_iff, List.mem_filter, decide_eq_true_eq]

theorem Lists.length_filter (h : Lists key table k rows) (hk : k ≤ k') :
    (rows.filter fun a => key a = k').length = shared key table k' := by
  rw [(h.perm.filter _).length_eq, List.filter_filter, shared]
  congr 1
  apply List.filter_congr
  intro a _
  rw [Bool.and_eq_left_iff_imp, decide_eq_true_eq, decide_eq_true_eq]
  rintro rfl
  exact hk

/-- A page does not reach past a key that fills it. -/
theorem Lists.key_le_of_mem_page (h : Lists key table k rows) (hk : k ≤ k')
    (hfull : limit ≤ shared key table k') {a : α} (ha : a ∈ rows.take limit) : key a ≤ k' := by
  by_contra hlater
  rw [not_le] at hlater
  have hnone : (rows.drop limit).filter (fun b => key b = k') = [] := by
    rw [List.filter_eq_nil_iff]
    intro b hb heq
    rw [decide_eq_true_eq] at heq
    exact absurd (key_le_of_take_of_drop h.sorted ha hb) (not_le.mpr (heq ▸ hlater))
  have hfirst : shared key table k' = ((rows.take limit).filter fun b => key b = k').length := by
    rw [← h.length_filter hk]
    nth_rewrite 1 [← List.take_append_drop limit rows]
    rw [List.filter_append, hnone, List.append_nil]
  have hless : ((rows.take limit).filter fun b => key b = k').length < (rows.take limit).length :=
    List.length_filter_lt_length_iff_exists.mpr ⟨a, ha, by simp [hlater.ne']⟩
  have hpage := List.length_take_le limit rows
  omega

/-- A page that is not the last moves the cursor on and leaves nothing behind. -/
theorem Lists.page_cases (h : Lists key table k rows) (hlimit : 0 < limit)
    (hfits : Fits key table limit k) :
    rows.take limit = rows ∨ ∃ a ∈ rows, (rows.take limit).getLast? = some a ∧ k < key a ∧
      ∀ b ∈ rows, key b < key a → b ∈ rows.take limit := by
  rcases le_or_gt rows.length limit with hshort | hlong
  · exact .inl (List.take_of_length_le hshort)
  have hlength : (rows.take limit).length = limit := by
    rw [List.length_take, min_eq_left (Nat.le_of_lt hlong)]
  obtain ⟨a, hlast⟩ : ∃ a, (rows.take limit).getLast? = some a :=
    ⟨_, List.getLast?_eq_some_getLast (List.ne_nil_of_length_pos (by omega))⟩
  have htake : a ∈ rows.take limit := List.mem_of_getLast? hlast
  have ha : a ∈ rows := List.mem_of_mem_take htake
  obtain ⟨htable, hfrom⟩ := h.mem_iff.mp ha
  refine .inr ⟨a, ha, hlast, lt_of_le_of_ne hfrom ?_, ?_⟩
  · intro heq
    have hsame : ∀ b ∈ rows.take limit, key b = k := fun b hb =>
      le_antisymm (heq ▸ key_le_getLast (h.sorted.sublist (List.take_sublist ..)) hb hlast)
        (h.mem_iff.mp (List.mem_of_mem_take hb)).2
    obtain ⟨hfew, hend⟩ := hfits a htable hfrom
    rw [← heq, ← h.length_filter le_rfl] at hfew hend
    have hfull : limit ≤ (rows.filter fun b => key b = k).length := by
      calc limit
        _ = ((rows.take limit).filter fun b => key b = k).length := by
            rw [List.filter_eq_self.mpr fun b hb => decide_eq_true (hsame b hb), hlength]
        _ ≤ (rows.filter fun b => key b = k).length :=
            ((List.take_sublist limit rows).filter _).length_le
    have hall : ∀ b ∈ rows, key b = k := fun b hb =>
      le_antisymm (hend (le_antisymm hfew hfull) b (h.mem_iff.mp hb).1) (h.mem_iff.mp hb).2
    rw [List.filter_eq_self.mpr fun b hb => decide_eq_true (hall b hb)] at hfew
    exact absurd hfew (not_le.mpr hlong)
  · intro b hb hless
    rcases mem_take_or_drop hb limit with hpage | hdrop
    · exact hpage
    · exact absurd hless (not_lt.mpr (key_le_of_take_of_drop h.sorted htake hdrop))

variable {query : ℕ → κ → List α}

omit [LinearOrder κ] in
theorem Obtained.mono {n m : ℕ} (hle : n ≤ m) {a : α} (h : Obtained key query limit k n a) :
    Obtained key query limit k m a := by
  obtain ⟨i, hi, ha⟩ := h
  exact ⟨i, lt_of_lt_of_le hi hle, ha⟩

theorem Fits.mono (h : Fits key table limit k) (hk : k ≤ k') : Fits key table limit k' :=
  fun a ha hfrom => h a ha (le_trans hk hfrom)

/-- The cursor after `n` pages, with every row before it read. -/
structure Reached (key : α → κ) (table : List α) (query : ℕ → κ → List α) (limit : ℕ) (k : κ)
    (n : ℕ) : Prop where
  from_start : k ≤ cursor key query limit k n
  obtained : ∀ a ∈ table, k ≤ key a → key a < cursor key query limit k n →
    Obtained key query limit k n a

theorem reached_succ (hquery : ∀ n k, Lists key table k (query n k)) (hlimit : 0 < limit)
    (hfits : Fits key table limit k) {n : ℕ} (h : Reached key table query limit k n) :
    (∀ a ∈ table, k ≤ key a → Obtained key query limit k (n + 1) a) ∨
      Reached key table query limit k (n + 1) ∧ ∃ a ∈ table,
        key a = cursor key query limit k (n + 1) ∧ cursor key query limit k n < key a := by
  have hlists := hquery n (cursor key query limit k n)
  have hread (b : α) (hb : b ∈ table) (hfrom : k ≤ key b)
      (hpage : cursor key query limit k n ≤ key b → b ∈ page key query limit k n) :
      Obtained key query limit k (n + 1) b := by
    rcases lt_or_ge (key b) (cursor key query limit k n) with hless | hge
    · exact (h.obtained b hb hfrom hless).mono (Nat.le_succ n)
    · exact ⟨n, Nat.lt_succ_self n, hpage hge⟩
  have hfrom_start := hfits.mono h.from_start
  rcases hlists.page_cases hlimit hfrom_start with hall | ⟨a, ha, hlast, hnew, hbefore⟩
  · refine .inl fun b hb hfrom => hread b hb hfrom fun hge => ?_
    rw [page, hall]
    exact hlists.mem_iff.mpr ⟨hb, hge⟩
  · have hcursor : cursor key query limit k (n + 1) = key a := by
      rw [cursor, hlast, Option.elim_some]
    refine .inr ⟨⟨?_, ?_⟩, a, (hlists.mem_iff.mp ha).1, hcursor.symm, hnew⟩
    · exact le_trans h.from_start (hcursor ▸ hnew.le)
    · intro b hb hfrom hless
      exact hread b hb hfrom fun hge =>
        hbefore b (hlists.mem_iff.mpr ⟨hb, hge⟩) (hcursor ▸ hless)

theorem exists_complete (hquery : ∀ n k, Lists key table k (query n k)) (hlimit : 0 < limit)
    (hfits : Fits key table limit k) {n : ℕ} (h : Reached key table query limit k n) :
    ∃ m, ∀ a ∈ table, k ≤ key a → Obtained key query limit k m a := by
  generalize hleft : (table.filter fun a => cursor key query limit k n < key a).length = left
  induction left using Nat.strong_induction_on generalizing n with
  | h left ih =>
      rcases reached_succ hquery hlimit hfits h with hdone | ⟨hnext, a, ha, hcursor, hnew⟩
      · exact ⟨n + 1, hdone⟩
      · refine ih _ ?_ hnext rfl
        rw [← hleft, ← hcursor]
        have hsub : (table.filter fun b => key a < key b) =
            (table.filter fun b => cursor key query limit k n < key b).filter
              fun b => key a < key b := by
          rw [List.filter_filter]
          apply List.filter_congr
          intro b _
          rw [eq_comm, Bool.and_eq_left_iff_imp, decide_eq_true_eq, decide_eq_true_eq]
          exact hnew.trans
        rw [hsub]
        refine List.length_filter_lt_length_iff_exists.mpr ⟨a, ?_, by simp⟩
        exact List.mem_filter.mpr ⟨ha, decide_eq_true hnew⟩

theorem cursor_le (hquery : ∀ n k, Lists key table k (query n k)) (hk : k ≤ k')
    (hfull : limit ≤ shared key table k') (n : ℕ) : cursor key query limit k n ≤ k' := by
  induction n with
  | zero => exact hk
  | succ n ih =>
      rw [cursor]
      cases hlast : ((query n (cursor key query limit k n)).take limit).getLast? with
      | none => exact ih
      | some a => exact (hquery n _).key_le_of_mem_page ih hfull (List.mem_of_getLast? hlast)

section Ascending

variable (key table)

def ascending : List α := table.mergeSort fun a b => key a ≤ key b

/-- The table in one order, from the key `k` on. -/
def fixed (k : κ) : List α := (ascending key table).filter fun a => k ≤ key a

theorem ascending_perm : (ascending key table).Perm table := List.mergeSort_perm table _

theorem ascending_sorted : (ascending key table).Pairwise fun a b => key a ≤ key b := by
  have htrans : ∀ a b c : α, decide (key a ≤ key b) = true → decide (key b ≤ key c) = true →
      decide (key a ≤ key c) = true := fun a b c hab hbc =>
    decide_eq_true (le_trans (of_decide_eq_true hab) (of_decide_eq_true hbc))
  have htotal : ∀ a b : α, (decide (key a ≤ key b) || decide (key b ≤ key a)) = true := by
    intro a b
    rw [Bool.or_eq_true, decide_eq_true_eq, decide_eq_true_eq]
    exact le_total (key a) (key b)
  exact (List.pairwise_mergeSort htrans htotal table).imp of_decide_eq_true

theorem lists_fixed (k : κ) : Lists key table k (fixed key table k) where
  perm := (ascending_perm key table).filter _
  sorted := (ascending_sorted key table).filter _

end Ascending

theorem fixed_filter (hk : k ≤ k') : (fixed key table k).filter (fun a => key a = k') =
    (ascending key table).filter fun a => key a = k' := by
  rw [fixed, List.filter_filter]
  apply List.filter_congr
  intro a _
  rw [Bool.and_eq_left_iff_imp, decide_eq_true_eq, decide_eq_true_eq]
  rintro rfl
  exact hk

/-- Among rows of a key that fills a page, one order of the table only ever shows the
first. -/
theorem mem_first_of_obtained (hk : k ≤ k') (hfull : limit ≤ shared key table k') {n : ℕ} {a : α}
    (h : Obtained key (fun _ => fixed key table) limit k n a) :
    key a ≤ k' ∧ (key a = k' →
      a ∈ ((ascending key table).filter fun a => key a = k').take limit) := by
  obtain ⟨m, -, ha⟩ := h
  have hcursor : cursor key (fun _ => fixed key table) limit k m ≤ k' :=
    cursor_le (fun _ => lists_fixed key table) hk hfull m
  refine ⟨(lists_fixed key table _).key_le_of_mem_page hcursor hfull ha, fun hsame => ?_⟩
  rw [← fixed_filter hcursor]
  exact mem_take_filter ha (decide_eq_true hsame)

theorem fits_of_complete (htable : table.Nodup)
    (h : ∃ n, ∀ a ∈ table, k ≤ key a → Obtained key (fun _ => fixed key table) limit k n a) :
    Fits key table limit k := by
  intro a ha hfrom
  obtain ⟨n, hall⟩ := h
  have hperm := ascending_perm key table
  have hlength : ((ascending key table).filter fun b => key b = key a).length =
      shared key table (key a) := (hperm.filter _).length_eq
  refine ⟨?_, fun heq b hb => ?_⟩
  · by_contra hmany
    rw [not_le] at hmany
    have hdrop : 0 < (((ascending key table).filter fun b =>
        key b = key a).drop limit).length := by
      rw [List.length_drop]
      omega
    obtain ⟨b, hb⟩ := List.exists_mem_of_length_pos hdrop
    obtain ⟨hsorted, hsame⟩ := List.mem_filter.mp (List.mem_of_mem_drop hb)
    have hsame := of_decide_eq_true hsame
    have hfirst := (mem_first_of_obtained hfrom hmany.le
      (hall b (hperm.mem_iff.mp hsorted) (hsame ▸ hfrom))).2 hsame
    have hnodup := ((hperm.nodup_iff.mpr htable).filter fun b => decide (key b = key a))
    exact List.disjoint_take_drop hnodup le_rfl hfirst hb
  · by_contra hlater
    rw [not_le] at hlater
    exact hlater.not_ge (mem_first_of_obtained hfrom heq.ge
      (hall b hb (le_trans hfrom hlater.le))).1

end ArticTrader.KeyedPages
