import Mathlib.Data.Int.Order.Basic
import Mathlib.Data.List.Nodup
import Mathlib.Data.List.Perm.Basic
import ArticTrader.LabelledRuns
import ArticTrader.PythonText

/-!
The log stream of an agent: a WebSocket that polls the log table for rows newer
than the last one it has sent, while pushes commit rows whose timestamps were
taken earlier, by the agent or by the database.
-/

namespace ArticTrader.LogStream

open ArticTrader.LabelledRuns
open ArticTrader.PythonText (Text truthy)

variable {α : Type}

structure LogEntryIn where
  agent_id : Option Text
  level : Text
  message : Text
  ts : ℤ
  deriving DecidableEq, Repr

structure LogsPush (α : Type) where
  entries : List LogEntryIn
  agent_id : Option α
  deriving DecidableEq

structure SupervisorPush (α : Type) where
  agent_id : α
  action : Text
  detail : Option Text
  deriving DecidableEq

structure LogEntry (α : Type) where
  agent_id : α
  level : Text
  message : Text
  ts : ℤ
  deriving DecidableEq

/-- The rows of a batch; `none` stands for an agent id that is no UUID. -/
def push_logs (parse : Text → Option α) (body : LogsPush α) : Option (List (LogEntry α)) := do
  let rows ← body.entries.mapM fun e => do
    let aid ←
      if truthy e.agent_id then (parse (e.agent_id.getD [])).map some else some body.agent_id
    return aid.map fun agent_id =>
      ({ agent_id, level := e.level, message := e.message, ts := e.ts } : LogEntry α)
  return rows.reduceOption

/-- The row has the database's time of the transaction. -/
def push_supervisor (body : SupervisorPush α) (now : ℤ) : LogEntry α where
  agent_id := body.agent_id
  level := "supervisor".toList
  message := body.action ++ ": ".toList ++ body.detail.getD []
  ts := now

/-- A committed row; `number` is its place in the order of the commits. -/
structure Row (α : Type) where
  number : ℕ
  entry : LogEntry α
  deriving DecidableEq

def numbered : ℕ → List (LogEntry α) → List (Row α)
  | _, [] => []
  | n, e :: es => ⟨n, e⟩ :: numbered (n + 1) es

/-- The table, and the stream: its cursor, what is left of the page that it is
sending, and what it has sent. `accepted` rows were there when it was accepted. -/
structure State (α : Type) where
  table : List (Row α)
  accepted : ℕ
  last_ts : ℤ
  page : List (Row α)
  sent : List (Row α)
  deriving DecidableEq

def start (rows : List (LogEntry α)) (accepted_at : ℤ) : State α where
  table := numbered 0 rows
  accepted := rows.length
  last_ts := accepted_at
  page := []
  sent := []

def State.commit (s : State α) (entries : List (LogEntry α)) : State α :=
  { s with table := s.table ++ numbered s.table.length entries }

def LIMIT : ℕ := 500

def Earlier (r r' : Row α) : Prop := r.entry.ts ≤ r'.entry.ts

instance : DecidableRel (Earlier (α := α)) := fun r r' => Int.decLe r.entry.ts r'.entry.ts

variable [DecidableEq α]

/-- The `where` of the query. -/
def State.matching (s : State α) (agent_id : α) : List (Row α) :=
  s.table.filter fun r => r.entry.agent_id = agent_id && s.last_ts < r.entry.ts

/-- A poll comes with the rows it finds in the order in which the database has them,
which is free for rows of one timestamp. -/
inductive Label (α : Type) where
  | push_logs (body : LogsPush α)
  | push_supervisor (body : SupervisorPush α) (now : ℤ)
  | poll (ordered : List (Row α))
  | send

variable (parse : Text → Option α) (agent_id : α)

def step (s : State α) : Label α → Option (State α)
  | .push_logs body => some (s.commit ((push_logs parse body).getD []))
  | .push_supervisor body now => some (s.commit [push_supervisor body now])
  | .poll ordered =>
      if s.page = [] ∧ ordered.Perm (s.matching agent_id) ∧ ordered.Pairwise Earlier then
        some { s with page := ordered.take LIMIT }
      else none
  | .send =>
      match s.page with
      | [] => none
      | r :: rest =>
          some { s with page := rest, sent := s.sent ++ [r], last_ts := r.entry.ts }

/-- The timestamp that the cursor has, or will have after the page. -/
def State.reach (s : State α) : ℤ := s.page.getLast?.elim s.last_ts (·.entry.ts)

/-- The stream has sent its page, and its next poll finds nothing. -/
def CaughtUp (s : State α) : Prop := s.page = [] ∧ s.matching agent_id = []

def Due (s : State α) (r : Row α) : Prop :=
  r ∈ s.table ∧ s.accepted ≤ r.number ∧ r.entry.agent_id = agent_id

/-- Every row committed since the stream was accepted has been sent exactly once. -/
def Delivered (s : State α) : Prop := ∀ r, Due agent_id s r → s.sent.count r = 1

/-- Rows are committed with timestamps that the stream has not reached, and a full
page does not end among rows of one timestamp. -/
def InOrder (s : State α) : Label α → Prop
  | .push_logs body =>
      ∀ e ∈ (push_logs parse body).getD [], e.agent_id = agent_id → s.reach < e.ts
  | .push_supervisor body now => body.agent_id = agent_id → s.reach < now
  | .poll ordered =>
      ∀ r ∈ ordered.drop LIMIT, s.accepted ≤ r.number →
        ∀ last ∈ (ordered.take LIMIT).getLast?, last.entry.ts < r.entry.ts
  | .send => True

/-- No row is behind the cursor unless it was sent or is in the page. -/
def Kept (s : State α) : Prop :=
  ∀ r, Due agent_id s r → r ∈ s.sent ∨ r ∈ s.page ∨ s.reach < r.entry.ts

structure Reading (s : State α) : Prop where
  numbers : s.table.map (·.number) = List.range s.table.length
  accepted_le : s.accepted ≤ s.table.length
  nodup : (s.sent ++ s.page).Nodup
  known : ∀ r ∈ s.sent ++ s.page, r ∈ s.table
  sent_le : ∀ r ∈ s.sent, r.entry.ts ≤ s.last_ts
  page_ge : ∀ r ∈ s.page, s.last_ts ≤ r.entry.ts
  sorted : s.page.Pairwise Earlier

omit [DecidableEq α] in
@[simp] theorem numbers_numbered (n : ℕ) (entries : List (LogEntry α)) :
    (numbered n entries).map (·.number) = List.range' n entries.length := by
  induction entries generalizing n with
  | nil => rfl
  | cons e es ih => rw [numbered, List.map_cons, ih, List.length_cons, List.range'_succ]

omit [DecidableEq α] in
@[simp] theorem length_numbered (n : ℕ) (entries : List (LogEntry α)) :
    (numbered n entries).length = entries.length := by
  rw [← List.length_map (·.number), numbers_numbered, List.length_range']

omit [DecidableEq α] in
theorem mem_numbered {n : ℕ} {entries : List (LogEntry α)} {r : Row α}
    (h : r ∈ numbered n entries) : r.entry ∈ entries ∧ n ≤ r.number := by
  induction entries generalizing n with
  | nil => cases h
  | cons e es ih =>
      rcases List.mem_cons.mp h with rfl | h
      · exact ⟨List.mem_cons_self, le_rfl⟩
      · obtain ⟨hentry, hnumber⟩ := ih h
        exact ⟨List.mem_cons_of_mem e hentry, by omega⟩

omit [DecidableEq α] in
theorem exists_numbered {n : ℕ} {entries : List (LogEntry α)} {e : LogEntry α}
    (h : e ∈ entries) : ∃ r ∈ numbered n entries, r.entry = e := by
  induction entries generalizing n with
  | nil => cases h
  | cons e' es ih =>
      rcases List.mem_cons.mp h with rfl | h
      · exact ⟨⟨n, e⟩, List.mem_cons_self, rfl⟩
      · obtain ⟨r, hr, hentry⟩ := ih (n := n + 1) h
        exact ⟨r, List.mem_cons_of_mem _ hr, hentry⟩

variable {parse agent_id}

omit [DecidableEq α] in
theorem reach_of_nil {s : State α} (h : s.page = []) : s.reach = s.last_ts := by
  rw [State.reach, h]
  rfl

omit [DecidableEq α] in
/-- Sending a row does not move the end of the page. -/
theorem reach_send {s : State α} {r : Row α} {rest : List (Row α)} (h : s.page = r :: rest) :
    State.reach { s with page := rest, sent := s.sent ++ [r], last_ts := r.entry.ts } =
      s.reach := by
  unfold State.reach
  rw [h]
  cases rest with
  | nil => rfl
  | cons r' rest => rw [List.getLast?_cons_cons, List.getLast?_cons]; rfl

theorem mem_matching {s : State α} {r : Row α} :
    r ∈ s.matching agent_id ↔
      r ∈ s.table ∧ r.entry.agent_id = agent_id ∧ s.last_ts < r.entry.ts := by
  simp [State.matching]

omit [DecidableEq α] in
theorem reading_start (rows : List (LogEntry α)) (accepted_at : ℤ) :
    Reading (start rows accepted_at) where
  numbers := by simp [start, List.range_eq_range']
  accepted_le := by simp [start]
  nodup := List.nodup_nil
  known := nofun
  sent_le := nofun
  page_ge := nofun
  sorted := .nil

omit [DecidableEq α] in
theorem Reading.number_lt {s : State α} (hs : Reading s) {r : Row α} (hr : r ∈ s.table) :
    r.number < s.table.length := by
  have hmem : r.number ∈ s.table.map (·.number) := List.mem_map_of_mem hr
  rw [hs.numbers] at hmem
  exact List.mem_range.mp hmem

omit [DecidableEq α] in
theorem Reading.table_nodup {s : State α} (hs : Reading s) : s.table.Nodup := by
  apply List.Nodup.of_map (·.number)
  rw [hs.numbers]
  exact List.nodup_range

omit [DecidableEq α] in
theorem reading_commit {s : State α} (hs : Reading s) (entries : List (LogEntry α)) :
    Reading (s.commit entries) where
  numbers := by
    simp only [State.commit, List.map_append, hs.numbers, numbers_numbered, List.length_append,
      length_numbered, List.range_eq_range']
    simpa using List.range'_append_1 (s := 0) (m := s.table.length) (n := entries.length)
  accepted_le := by
    have hle := hs.accepted_le
    simp only [State.commit, List.length_append]
    omega
  nodup := hs.nodup
  known := fun r hr => List.mem_append_left _ (hs.known r hr)
  sent_le := hs.sent_le
  page_ge := hs.page_ge
  sorted := hs.sorted

theorem mem_of_take {s : State α} {ordered : List (Row α)} {r : Row α}
    (hperm : ordered.Perm (s.matching agent_id)) (hr : r ∈ ordered.take LIMIT) :
    r ∈ s.table ∧ s.last_ts < r.entry.ts := by
  obtain ⟨htable, -, hlt⟩ := mem_matching.mp (hperm.subset (List.mem_of_mem_take hr))
  exact ⟨htable, hlt⟩

theorem reading_poll {s : State α} {ordered : List (Row α)} (hs : Reading s)
    (hpage : s.page = []) (hperm : ordered.Perm (s.matching agent_id))
    (hsorted : ordered.Pairwise Earlier) : Reading { s with page := ordered.take LIMIT } where
  numbers := hs.numbers
  accepted_le := hs.accepted_le
  nodup := by
    have hsent := hs.nodup
    rw [hpage, List.append_nil] at hsent
    have hordered : ordered.Nodup := hperm.nodup_iff.mpr (hs.table_nodup.filter _)
    refine hsent.append (hordered.sublist (List.take_sublist _ _)) ?_
    intro r hr hpaged
    have hle := hs.sent_le r hr
    have hlt := (mem_of_take hperm hpaged).2
    omega
  known := by
    intro r hr
    rcases List.mem_append.mp hr with hr | hr
    · exact hs.known r (List.mem_append_left _ hr)
    · exact (mem_of_take hperm hr).1
  sent_le := hs.sent_le
  page_ge := fun r hr => (mem_of_take hperm hr).2.le
  sorted := hsorted.sublist (List.take_sublist _ _)

omit [DecidableEq α] in
theorem reading_send {s : State α} {r : Row α} {rest : List (Row α)} (hs : Reading s)
    (hpage : s.page = r :: rest) :
    Reading { s with page := rest, sent := s.sent ++ [r], last_ts := r.entry.ts } := by
  have hnodup := hs.nodup
  have hknown := hs.known
  have hsorted := hs.sorted
  have hge := hs.page_ge r (hpage ▸ List.mem_cons_self)
  rw [hpage] at hnodup hknown hsorted
  obtain ⟨hfirst, hrest⟩ := List.pairwise_cons.mp hsorted
  refine ⟨hs.numbers, hs.accepted_le, by simpa using hnodup, by simpa using hknown, ?_, hfirst,
    hrest⟩
  intro r' hr'
  rcases List.mem_append.mp hr' with hr' | hr'
  · exact (hs.sent_le r' hr').trans hge
  · rw [List.mem_singleton.mp hr']

omit [DecidableEq α] in
/-- The rows of a commit are kept if they are ahead of the stream. -/
theorem kept_commit_iff {s : State α} (hs : Reading s) (entries : List (LogEntry α)) :
    Kept agent_id (s.commit entries) ↔
      Kept agent_id s ∧ ∀ e ∈ entries, e.agent_id = agent_id → s.reach < e.ts := by
  constructor
  · intro hkept
    constructor
    · intro r hr
      exact hkept r ⟨List.mem_append_left _ hr.1, hr.2⟩
    · intro e he hagent
      obtain ⟨r, hr, rfl⟩ := exists_numbered (n := s.table.length) he
      have hnumber := (mem_numbered hr).2
      have hnew : r ∉ s.sent ++ s.page := by
        intro hold
        have hlt := hs.number_lt (hs.known r hold)
        omega
      have hle := hs.accepted_le
      rcases hkept r ⟨List.mem_append_right _ hr, hle.trans hnumber, hagent⟩ with h | h | h
      · exact absurd (List.mem_append_left _ h) hnew
      · exact absurd (List.mem_append_right _ h) hnew
      · exact h
  · rintro ⟨hkept, hahead⟩ r ⟨htable, hnumber, hagent⟩
    rcases List.mem_append.mp htable with hr | hr
    · exact hkept r ⟨hr, hnumber, hagent⟩
    · exact .inr (.inr (hahead r.entry (mem_numbered hr).1 hagent))

theorem kept_poll_iff {s : State α} {ordered : List (Row α)} (hs : Reading s)
    (hpage : s.page = []) (hperm : ordered.Perm (s.matching agent_id)) :
    Kept agent_id { s with page := ordered.take LIMIT } ↔
      Kept agent_id s ∧ ∀ r ∈ ordered.drop LIMIT, s.accepted ≤ r.number →
        ∀ last ∈ (ordered.take LIMIT).getLast?, last.entry.ts < r.entry.ts := by
  have hordered : ordered.Nodup := hperm.nodup_iff.mpr (hs.table_nodup.filter _)
  constructor
  · intro hkept
    constructor
    · intro r hr
      rw [reach_of_nil hpage]
      rcases hkept r hr with h | h | h
      · exact .inl h
      · exact .inr (.inr (mem_of_take hperm h).2)
      · refine .inr (.inr ?_)
        unfold State.reach at h
        cases hlast : (ordered.take LIMIT).getLast? with
        | none => simpa [hlast] using h
        | some last =>
            have hlt := (mem_of_take hperm (List.mem_of_getLast? hlast)).2
            simp only [hlast, Option.elim] at h
            omega
    · intro r hr hnumber last hlast
      obtain ⟨htable, hagent, hlt⟩ := mem_matching.mp (hperm.subset (List.mem_of_mem_drop hr))
      rcases hkept r ⟨htable, hnumber, hagent⟩ with h | h | h
      · have hle := hs.sent_le r h
        omega
      · exact absurd hr (List.disjoint_take_drop hordered le_rfl h)
      · rw [Option.mem_def] at hlast
        simpa [State.reach, hlast] using h
  · rintro ⟨hkept, htie⟩ r ⟨htable, hnumber, hagent⟩
    rcases hkept r ⟨htable, hnumber, hagent⟩ with h | h | h
    · exact .inl h
    · rw [hpage] at h
      cases h
    · rw [reach_of_nil hpage] at h
      have hmem : r ∈ ordered := hperm.symm.subset (mem_matching.mpr ⟨htable, hagent, h⟩)
      rw [← List.take_append_drop LIMIT ordered] at hmem
      rcases List.mem_append.mp hmem with hr | hr
      · exact .inr (.inl hr)
      · refine .inr (.inr ?_)
        unfold State.reach
        cases hlast : (ordered.take LIMIT).getLast? with
        | none => simpa using h
        | some last => exact htie r hr hnumber last hlast

omit [DecidableEq α] in
theorem kept_send_iff {s : State α} {r : Row α} {rest : List (Row α)}
    (hpage : s.page = r :: rest) :
    Kept agent_id { s with page := rest, sent := s.sent ++ [r], last_ts := r.entry.ts } ↔
      Kept agent_id s := by
  unfold Kept
  rw [reach_send hpage]
  have hmem : ∀ r', (r' ∈ s.sent ++ [r] ∨ r' ∈ rest) ↔ (r' ∈ s.sent ∨ r' ∈ s.page) := by
    intro r'
    rw [hpage, List.mem_append, List.mem_singleton, List.mem_cons, or_assoc]
  apply forall_congr'
  intro r'
  simp only [← or_assoc, hmem, Due]

theorem step_reading {s s' : State α} {l : Label α} (hs : Reading s)
    (h : step parse agent_id s l = some s') :
    Reading s' ∧ (Kept agent_id s' ↔ Kept agent_id s ∧ InOrder parse agent_id s l) := by
  cases l with
  | push_logs body =>
      cases h
      exact ⟨reading_commit hs _, kept_commit_iff hs _⟩
  | push_supervisor body now =>
      cases h
      refine ⟨reading_commit hs _, ?_⟩
      rw [kept_commit_iff hs, List.forall_mem_singleton]
      rfl
  | poll ordered =>
      obtain ⟨⟨hpage, hperm, hsorted⟩, h⟩ := Option.ite_none_right_eq_some.mp h
      cases h
      exact ⟨reading_poll hs hpage hperm hsorted, kept_poll_iff hs hpage hperm⟩
  | send =>
      unfold step at h
      cases hpage : s.page with
      | nil => simp [hpage] at h
      | cons r rest =>
          simp only [hpage, Option.some.injEq] at h
          subst h
          refine ⟨reading_send hs hpage, ?_⟩
          rw [kept_send_iff hpage]
          exact (and_iff_left trivial).symm

theorem kept_start (rows : List (LogEntry α)) (accepted_at : ℤ) :
    Kept agent_id (start rows accepted_at) := by
  rintro r ⟨htable, hnumber, -⟩
  have hlt := (reading_start rows accepted_at).number_lt htable
  simp only [start, length_numbered] at hnumber hlt
  omega

/-- Where the stream has nothing left to read, what is kept is sent. -/
theorem delivered_iff_kept {s : State α} (hs : Reading s) (hdone : CaughtUp agent_id s) :
    Delivered agent_id s ↔ Kept agent_id s := by
  have hsent := hs.nodup
  rw [hdone.1, List.append_nil] at hsent
  constructor
  · intro hdelivered r hr
    exact .inl (List.count_pos_iff.mp (by rw [hdelivered r hr]; exact Nat.one_pos))
  · intro hkept r hr
    rcases hkept r hr with h | h | h
    · exact List.count_eq_one_of_mem hsent h
    · rw [hdone.1] at h
      cases h
    · rw [reach_of_nil hdone.1] at h
      have hmem : r ∈ s.matching agent_id := mem_matching.mpr ⟨hr.1, hr.2.2, h⟩
      rw [hdone.2] at hmem
      cases hmem

def reads : Label α → Bool
  | .poll _ => true
  | .send => true
  | _ => false

theorem matching_send {s : State α} {r : Row α} {rest : List (Row α)}
    (hge : s.last_ts ≤ r.entry.ts) :
    State.matching { s with page := rest, sent := s.sent ++ [r], last_ts := r.entry.ts } agent_id =
      (s.matching agent_id).filter fun r' => r.entry.ts < r'.entry.ts := by
  unfold State.matching
  rw [List.filter_filter]
  apply List.filter_congr
  intro r' _
  rw [Bool.eq_iff_iff]
  simp only [Bool.and_eq_true, decide_eq_true_eq]
  constructor
  · rintro ⟨hagent, hlt⟩
    exact ⟨hlt, hagent, by omega⟩
  · rintro ⟨hlt, hagent, -⟩
    exact ⟨hagent, hlt⟩

theorem step_send {s : State α} {r : Row α} {rest : List (Row α)} (hpage : s.page = r :: rest) :
    step parse agent_id s .send =
      some { s with page := rest, sent := s.sent ++ [r], last_ts := r.entry.ts } := by
  simp only [step, hpage]

/-- The rows in the order of a poll. -/
def State.ordered (s : State α) (agent_id : α) : List (Row α) :=
  (s.matching agent_id).mergeSort fun r r' => r.entry.ts ≤ r'.entry.ts

theorem ordered_perm (s : State α) (agent_id : α) :
    (s.ordered agent_id).Perm (s.matching agent_id) :=
  List.mergeSort_perm _ _

theorem step_poll {s : State α} (hpage : s.page = []) :
    step parse agent_id s (.poll (s.ordered agent_id)) =
      some { s with page := (s.ordered agent_id).take LIMIT } := by
  have hsorted : (s.ordered agent_id).Pairwise Earlier := by
    refine (List.pairwise_mergeSort ?_ ?_ (s.matching agent_id)).imp fun hle =>
      of_decide_eq_true hle
    · intro r r' r'' hle hle'
      exact decide_eq_true ((of_decide_eq_true hle).trans (of_decide_eq_true hle'))
    · intro r r'
      rw [Bool.or_eq_true, decide_eq_true_eq, decide_eq_true_eq]
      exact le_total _ _
  exact Option.ite_none_right_eq_some.mpr ⟨⟨hpage, ordered_perm s agent_id, hsorted⟩, rfl⟩

/-- What is left to be read, where the first row of a page counts for the page. -/
def unread (s : State α) (agent_id : α) : ℕ :=
  501 * (s.matching agent_id).length + s.page.length

theorem unread_send {s : State α} {r : Row α} {rest : List (Row α)} (hs : Reading s)
    (hpage : s.page = r :: rest) :
    unread { s with page := rest, sent := s.sent ++ [r], last_ts := r.entry.ts } agent_id <
      unread s agent_id := by
  have hless := List.length_filter_le (fun r' => decide (r.entry.ts < r'.entry.ts))
    (s.matching agent_id)
  unfold unread
  rw [matching_send (hs.page_ge r (hpage ▸ List.mem_cons_self)), hpage, List.length_cons]
  dsimp only
  omega

/-- A poll and the first row that it sends. -/
theorem unread_poll {s : State α} {r : Row α} {rest : List (Row α)}
    (hordered : (s.ordered agent_id).take LIMIT = r :: rest) :
    unread { s with page := rest, sent := s.sent ++ [r], last_ts := r.entry.ts } agent_id <
      unread s agent_id := by
  have hmem : r ∈ s.matching agent_id := by
    apply (ordered_perm s agent_id).subset
    apply List.mem_of_mem_take (i := LIMIT)
    rw [hordered]
    exact List.mem_cons_self
  have hlt := (mem_matching.mp hmem).2.2
  have hless : ((s.matching agent_id).filter fun r' => r.entry.ts < r'.entry.ts).length <
      (s.matching agent_id).length :=
    List.length_filter_lt_length_iff_exists.mpr ⟨r, hmem, by simp⟩
  have hrest := congrArg List.length hordered
  rw [List.length_take, List.length_cons] at hrest
  unfold unread
  rw [matching_send hlt.le]
  unfold LIMIT at hrest
  dsimp only
  omega

/-- With nothing more committed, polls and sends let the stream catch up. -/
theorem catches_up {s : State α} (hs : Reading s) :
    ∃ labels t, (∀ l ∈ labels, reads l = true) ∧
      run (step parse agent_id) s labels = some t ∧ CaughtUp agent_id t ∧ t.table = s.table := by
  obtain ⟨n, hn⟩ : ∃ n, n = unread s agent_id := ⟨_, rfl⟩
  induction n using Nat.strong_induction_on generalizing s with
  | _ n ih =>
      cases hpage : s.page with
      | cons r rest =>
          obtain ⟨labels, t, hreads, hrun, hdone, htable⟩ :=
            ih _ (hn ▸ unread_send hs hpage) (reading_send hs hpage) rfl
          exact ⟨.send :: labels, t, List.forall_mem_cons.mpr ⟨rfl, hreads⟩,
            run_cons_iff.mpr ⟨_, step_send hpage, hrun⟩, hdone, htable⟩
      | nil =>
          have hpoll : step parse agent_id s (.poll (s.ordered agent_id)) =
              some { s with page := (s.ordered agent_id).take LIMIT } := step_poll hpage
          cases hordered : (s.ordered agent_id).take LIMIT with
          | nil =>
              have hempty : s.ordered agent_id = [] := by
                rcases List.take_eq_nil_iff.mp hordered with h | h
                · cases h
                · exact h
              have hnone : s.matching agent_id = [] :=
                (hempty ▸ ordered_perm s agent_id).nil_eq.symm
              exact ⟨[], s, nofun, rfl, ⟨hpage, hnone⟩, rfl⟩
          | cons r rest =>
              rw [hordered] at hpoll
              have hread := (step_reading hs hpoll).1
              obtain ⟨labels, t, hreads, hrun, hdone, htable⟩ :=
                ih _ (hn ▸ unread_poll hordered) (reading_send hread rfl) rfl
              refine ⟨.poll (s.ordered agent_id) :: .send :: labels, t, ?_, ?_, hdone, htable⟩
              · simpa [reads] using hreads
              · exact run_cons_iff.mpr
                  ⟨_, hpoll, run_cons_iff.mpr ⟨_, step_send rfl, hrun⟩⟩

/-- A stream that has caught up has sent every row committed since it was accepted
exactly where each was committed ahead of it and no page ended in a tie; and no row
is sent twice. -/
theorem delivered_iff (parse : Text → Option α) (agent_id : α) (rows : List (LogEntry α))
    (accepted_at : ℤ) {labels : List (Label α)} {s : State α}
    (hrun : run (step parse agent_id) (start rows accepted_at) labels = some s)
    (hdone : CaughtUp agent_id s) :
    (Delivered agent_id s ↔
        AllSteps (step parse agent_id) (InOrder parse agent_id) (start rows accepted_at)
          labels) ∧ s.sent.Nodup := by
  have hreading : Reading s := run_invariant (P := Reading)
    (fun s l s' hs h => (step_reading hs h).1) hrun (reading_start rows accepted_at)
  constructor
  · rw [delivered_iff_kept hreading hdone]
    have hfinal := final_iff_allSteps (P := Reading) (I := Kept agent_id)
      (C := InOrder parse agent_id) (fun s l s' hs h => (step_reading hs h).1)
      (fun s l s' hs h => (step_reading hs h).2) hrun (reading_start rows accepted_at)
    rw [hfinal]
    exact and_iff_right (kept_start rows accepted_at)
  · have hsent := hreading.nodup
    rwa [hdone.1, List.append_nil] at hsent

def tick (ts : ℤ) : LogEntryIn where
  agent_id := some "1".toList
  level := "tick".toList
  message := "[TICK]".toList
  ts := ts

def tick_row (number : ℕ) (ts : ℤ) : Row ℕ :=
  ⟨number, { agent_id := 1, level := "tick".toList, message := "[TICK]".toList, ts }⟩

def parse_id (text : Text) : Option ℕ := if text = "1".toList then some 1 else none

/-- A batch of two entries that is sent before a third is committed. -/
def inOrder : List (Label ℕ) :=
  [.push_logs ⟨[tick 102, tick 101], none⟩, .poll [tick_row 1 101, tick_row 0 102], .send, .send,
    .push_logs ⟨[tick 103], none⟩, .poll [tick_row 2 103], .send]

theorem delivered_iff_inOrder :
    ∃ s, run (step parse_id 1) (start [] 100) inOrder = some s ∧
      (Delivered 1 s ↔
        AllSteps (step parse_id 1) (InOrder parse_id 1) (start [] 100) inOrder) ∧
      s.sent.Nodup := by
  obtain ⟨s, hrun, hpage, hmatching⟩ : ∃ s ∈ run (step parse_id 1) (start [] 100) inOrder,
      s.page = [] ∧ s.matching 1 = [] := by decide
  exact ⟨s, hrun, delivered_iff parse_id 1 [] 100 hrun ⟨hpage, hmatching⟩⟩

/-- The agent took the timestamp before the stream was accepted, and pushes after. -/
def lateBatch : List (Label ℕ) := [.push_logs ⟨[tick 95], none⟩, .poll []]

theorem late_batch_not_delivered :
    ∃ s ∈ run (step parse_id 1) (start [] 100) lateBatch,
      s.table = [tick_row 0 95] ∧ s.accepted = 0 ∧ CaughtUp 1 s ∧ s.sent = [] ∧
      ¬ Delivered 1 s := by
  obtain ⟨s, hrun, htable, haccepted, hpage, hmatching, hsent⟩ :
      ∃ s ∈ run (step parse_id 1) (start [] 100) lateBatch,
        s.table = [tick_row 0 95] ∧ s.accepted = 0 ∧ s.page = [] ∧ s.matching 1 = [] ∧
        s.sent = [] := by decide
  refine ⟨s, hrun, htable, haccepted, ⟨hpage, hmatching⟩, hsent, ?_⟩
  intro hdelivered
  have hdue : Due 1 s (tick_row 0 95) := by
    refine ⟨?_, ?_, rfl⟩
    · rw [htable]
      exact List.mem_cons_self
    · rw [haccepted]
      exact Nat.zero_le _
  have hcount := hdelivered _ hdue
  rw [hsent] at hcount
  cases hcount

end ArticTrader.LogStream
