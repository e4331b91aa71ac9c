import Mathlib.Data.List.Nodup
import Mathlib.Data.List.Perm.Basic
import ArticTrader.Datetimes
import ArticTrader.KeyedPages
import ArticTrader.LabelledRuns
import ArticTrader.PythonText

/-!
The indexer of the user server: rows of transactions, and the job that posts the
oldest of the last seven days to the hub every half an hour.
-/

namespace ArticTrader.IndexerFlush

open ArticTrader.Datetimes
open ArticTrader.KeyedPages (mem_take_of_few)
open ArticTrader.LabelledRuns
open ArticTrader.PythonText (Text rstrip)

/-- A row; ids, amounts and tags stand as their texts. -/
structure IndexerTx where
  tx_hash : Text
  user_id : Text
  agent_id : Text
  kind : Text
  amount_usdt : Option Text
  block_number : ℕ
  tags : Text
  created_at : Datetime
  deriving DecidableEq, Repr

structure PayloadRow where
  tx_hash : Text
  user_id : Text
  agent_id : Text
  kind : Text
  amount_usdt : Option Text
  block_number : ℕ
  tags : Text
  created_at : Text
  deriving DecidableEq, Repr

def payload_row (r : IndexerTx) : PayloadRow where
  tx_hash := r.tx_hash
  user_id := r.user_id
  agent_id := r.agent_id
  kind := r.kind
  amount_usdt := r.amount_usdt
  block_number := r.block_number
  tags := r.tags
  created_at := r.created_at.isoformat

inductive Response where
  | status (code : ℕ)
  | http_error (name : Text)
  deriving DecidableEq, Repr

structure FlushResult where
  pushed : ℕ
  skipped : ℕ
  status : Text
  deriving DecidableEq, Repr

def BATCH_SIZE : ℕ := 500

def WINDOW : ℕ := DAY * 7

/-- Thirty minutes. -/
def INTERVAL : ℕ := 1800000000

def flush_url (hub_url : Text) : Text :=
  rstrip hub_url '/' ++ "/internal/v1/indexer/flush".toList

def flush (hub_url : Text) (rows : List IndexerTx) (post : Text → List PayloadRow → Response) :
    FlushResult :=
  if hub_url = [] then ⟨0, 0, "no_hub_url".toList⟩
  else if rows = [] then ⟨0, 0, "empty".toList⟩
  else match post (flush_url hub_url) (rows.map payload_row) with
    | .http_error name => ⟨0, rows.length, "error:".toList ++ name⟩
    | .status code =>
        if code = 404 then ⟨0, rows.length, "hub_endpoint_missing".toList⟩
        else if 400 ≤ code then ⟨0, rows.length, "http_".toList ++ Nat.toDigits 10 code⟩
        else ⟨rows.length, 0, "ok".toList⟩

/-- The table, the scheduler (when its server started, and how often the job has run
since), what the table was and where the window began at the last flush, and the
payloads that the hub has taken. -/
structure State where
  table : List IndexerTx
  started : Datetime
  jobs : ℕ
  flushed : List IndexerTx
  cutoff : ℕ
  received : List (List PayloadRow)
  deriving DecidableEq, Repr

def start (now : Datetime) : State := ⟨[], now, 0, [], 0, []⟩

/-- The last run of the job, or the start of the server. -/
def State.last_run (s : State) : ℕ := s.started.micros + INTERVAL * s.jobs

def State.next_run (s : State) : ℕ := s.started.micros + INTERVAL * (s.jobs + 1)

/-- `on_conflict_do_nothing` on the hash. -/
def write (table : List IndexerTx) (row : IndexerTx) : List IndexerTx :=
  if row.tx_hash ∈ table.map (·.tx_hash) then table else table ++ [row]

def Older (r r' : IndexerTx) : Prop := r.created_at.micros ≤ r'.created_at.micros

instance : DecidableRel Older := fun r r' => Nat.decLe r.created_at.micros r'.created_at.micros

/-- The `where` of the query. -/
def State.matching (s : State) (cutoff : Datetime) : List IndexerTx :=
  s.table.filter fun r => cutoff.micros ≤ r.created_at.micros

/-- `write` is the commit of a row: its `created_at` is the time at which the
transaction began. A flush comes with the rows in its window in the order in which
the database has them, which is free for rows of one time. -/
inductive Label where
  | lifespan (now : Datetime)
  | write (row : IndexerTx)
  | flush_job (now : Datetime) (ordered : List IndexerTx) (response : Response)
  deriving DecidableEq, Repr

variable (hub_url : Text)

def flush_page (ordered : List IndexerTx) (response : Response) : FlushResult :=
  flush hub_url (ordered.take BATCH_SIZE) fun _ _ => response

def State.flush_job (s : State) (cutoff : Datetime) (ordered : List IndexerTx)
    (response : Response) : State :=
  { s with
    jobs := s.jobs + 1
    flushed := s.table
    cutoff := cutoff.micros
    received :=
      if (flush_page hub_url ordered response).status = "ok".toList then
        s.received ++ [(ordered.take BATCH_SIZE).map payload_row]
      else s.received }

def step (s : State) : Label → Option State
  | .lifespan now =>
      if s.last_run ≤ now.micros then some { s with started := now, jobs := 0 } else none
  | .write row => some { s with table := write s.table row }
  | .flush_job now ordered response => do
      let cutoff ← now.minus WINDOW
      if now.micros = s.next_run ∧ ordered.Perm (s.matching cutoff) ∧ ordered.Pairwise Older then
        some (s.flush_job hub_url cutoff ordered response)
      else none

/-- A post is answered by a success, unless there is nothing to post. -/
def succeeds : Label → Bool
  | .flush_job _ ordered response =>
      (flush_page hub_url ordered response).status = "ok".toList ||
        (flush_page hub_url ordered response).status = "empty".toList
  | _ => true

def Received (s : State) (r : IndexerTx) : Prop := ∃ payload ∈ s.received, payload_row r ∈ payload

/-- The hub has taken every row that the last flush found older than its window. -/
def Reached (s : State) : Prop :=
  ∀ r ∈ s.flushed, r.created_at.micros < s.cutoff → Received s r

/-- Fewer rows than a batch are inserted between one flush and the next. -/
def FewInserted (s : State) : Label → Prop
  | .flush_job _ _ _ => s.table.length < s.flushed.length + BATCH_SIZE
  | _ => True

/-- The server is not started again, and a row's transaction begins after the last
flush before its commit. -/
def Undisturbed (s : State) : Label → Prop
  | .lifespan _ => False
  | .write row => s.last_run ≤ row.created_at.micros ∧ row.created_at.micros < s.next_run
  | .flush_job _ _ _ => True

def State.leaving (s : State) (cutoff : Datetime) : List IndexerTx :=
  s.flushed.filter fun r =>
    s.cutoff ≤ r.created_at.micros && r.created_at.micros < cutoff.micros

/-- No more rows than a batch leave the window between one flush and the next, and
only rows that were there at the first of the two. -/
def FewLeaving (s : State) : Label → Prop
  | .flush_job now _ _ => ∀ cutoff ∈ now.minus WINDOW,
      (s.leaving cutoff).length ≤ BATCH_SIZE ∧
        ∀ r ∈ s.table, r.created_at.micros < cutoff.micros → r ∈ s.flushed
  | _ => True

instance (s : State) : (l : Label) → Decidable (FewLeaving s l)
  | .lifespan _ => .isTrue trivial
  | .write _ => .isTrue trivial
  | .flush_job now _ _ => inferInstanceAs (Decidable (∀ cutoff ∈ now.minus WINDOW,
      (s.leaving cutoff).length ≤ BATCH_SIZE ∧
        ∀ r ∈ s.table, r.created_at.micros < cutoff.micros → r ∈ s.flushed))

variable {hub_url : Text}

theorem minus_some_iff {t t' : Datetime} {δ : ℕ} :
    t.minus δ = some t' ↔ t'.micros + δ = t.micros := by
  unfold Datetime.minus
  split
  next hle =>
      rw [Option.some.injEq, Datetime.ext_iff]
      simp only
      omega
  next hlt => exact ⟨nofun, fun h => absurd (h ▸ Nat.le_add_left δ t'.micros) hlt⟩

theorem step_flush_job {s t : State} {now : Datetime} {ordered : List IndexerTx}
    {response : Response} (h : step hub_url s (.flush_job now ordered response) = some t) :
    ∃ cutoff, now.minus WINDOW = some cutoff ∧ now.micros = s.next_run ∧
      ordered.Perm (s.matching cutoff) ∧ ordered.Pairwise Older ∧
        t = s.flush_job hub_url cutoff ordered response := by
  obtain ⟨cutoff, hcutoff, hflush⟩ := Option.bind_eq_some_iff.mp h
  obtain ⟨⟨hnow, hperm, hsorted⟩, ht⟩ := Option.ite_none_right_eq_some.mp hflush
  exact ⟨cutoff, hcutoff, hnow, hperm, hsorted, (Option.some.inj ht).symm⟩

theorem step_lifespan {s t : State} {now : Datetime} (h : step hub_url s (.lifespan now) = some t) :
    s.last_run ≤ now.micros ∧ t = { s with started := now, jobs := 0 } := by
  obtain ⟨hlast, ht⟩ := Option.ite_none_right_eq_some.mp h
  exact ⟨hlast, (Option.some.inj ht).symm⟩

theorem nil_of_status_empty {rows : List IndexerTx} {post : Text → List PayloadRow → Response}
    (h : (flush hub_url rows post).status = "empty".toList) : rows = [] := by
  unfold flush at h
  split_ifs at h with hhub hrows
  · cases h
  · exact hrows
  · cases hpost : post (flush_url hub_url) (rows.map payload_row) with
    | http_error name =>
        rw [hpost] at h
        cases h
    | status code =>
        rw [hpost] at h
        dsimp only at h
        split_ifs at h <;> cases h

/-- What a flush that succeeds leaves with the hub. -/
theorem received_flush_job {s : State} {now cutoff : Datetime} {ordered : List IndexerTx}
    {response : Response} (h : succeeds hub_url (.flush_job now ordered response) = true)
    {r : IndexerTx} :
    (r ∈ ordered.take BATCH_SIZE → Received (s.flush_job hub_url cutoff ordered response) r) ∧
      (Received s r → Received (s.flush_job hub_url cutoff ordered response) r) := by
  unfold Received State.flush_job
  rcases Bool.or_eq_true_iff.mp h with hok | hempty
  · rw [if_pos (of_decide_eq_true hok)]
    constructor
    · intro hr
      exact ⟨_, List.mem_append_right _ (.head _), List.mem_map_of_mem hr⟩
    · rintro ⟨payload, hpayload, hr⟩
      exact ⟨payload, List.mem_append_left _ hpayload, hr⟩
  · have hnil : ordered.take BATCH_SIZE = [] := nil_of_status_empty (of_decide_eq_true hempty)
    constructor
    · intro hr
      rw [hnil] at hr
      cases hr
    · intro hr
      split
      · obtain ⟨payload, hpayload, hr⟩ := hr
        exact ⟨payload, List.mem_append_left _ hpayload, hr⟩
      · exact hr

/-- Of the rows in the window of the last flush, those with less than a batch in
front of them were posted. -/
def Posted (s : State) : Prop :=
  ∀ r ∈ s.flushed, s.cutoff ≤ r.created_at.micros →
    (s.flushed.filter fun r' => s.cutoff ≤ r'.created_at.micros &&
      r'.created_at.micros ≤ r.created_at.micros).length ≤ BATCH_SIZE → Received s r

theorem posted_flush_job {s : State} {now cutoff : Datetime} {ordered : List IndexerTx}
    {response : Response} (h : succeeds hub_url (.flush_job now ordered response) = true)
    (hperm : ordered.Perm (s.matching cutoff)) (hsorted : ordered.Pairwise Older) :
    Posted (s.flush_job hub_url cutoff ordered response) := by
  intro r hr hin hfew
  apply (received_flush_job h).1
  apply mem_take_of_few hsorted
  · exact hperm.mem_iff.mpr (List.mem_filter.mpr ⟨hr, decide_eq_true hin⟩)
  · calc (ordered.filter fun r' => r'.created_at.micros ≤ r.created_at.micros).length
      _ = ((s.matching cutoff).filter fun r' =>
            r'.created_at.micros ≤ r.created_at.micros).length := (hperm.filter _).length_eq
      _ = (s.table.filter fun r' => cutoff.micros ≤ r'.created_at.micros &&
            r'.created_at.micros ≤ r.created_at.micros).length := by
          rw [State.matching, List.filter_filter]
          simp only [Bool.and_comm]
      _ ≤ BATCH_SIZE := hfew

theorem reached_flush_job {s : State} {now cutoff : Datetime} {ordered : List IndexerTx}
    {response : Response} (h : succeeds hub_url (.flush_job now ordered response) = true)
    (hposted : Posted s) (hreached : Reached s)
    (hleaving : (s.leaving cutoff).length ≤ BATCH_SIZE)
    (hknown : ∀ r ∈ s.table, r.created_at.micros < cutoff.micros → r ∈ s.flushed) :
    Reached (s.flush_job hub_url cutoff ordered response) := by
  intro r hr hout
  have hflushed : r ∈ s.flushed := hknown r hr hout
  apply (received_flush_job h).2
  by_cases hgone : r.created_at.micros < s.cutoff
  · exact hreached r hflushed hgone
  · apply hposted r hflushed (not_lt.mp hgone)
    refine le_trans (List.Sublist.length_le (List.monotone_filter_right _ ?_)) hleaving
    intro r' hr'
    obtain ⟨hin, hle⟩ := Bool.and_eq_true_iff.mp hr'
    exact Bool.and_eq_true_iff.mpr
      ⟨hin, decide_eq_true (lt_of_le_of_lt (of_decide_eq_true hle) hout)⟩

theorem step_kept {s t : State} {l : Label} (hs : Posted s ∧ Reached s)
    (hl : FewLeaving s l ∧ succeeds hub_url l = true) (h : step hub_url s l = some t) :
    Posted t ∧ Reached t := by
  cases l with
  | lifespan now =>
      obtain ⟨-, rfl⟩ := step_lifespan h
      exact hs
  | write row =>
      cases h
      exact hs
  | flush_job now ordered response =>
      obtain ⟨cutoff, hcutoff, -, hperm, hsorted, rfl⟩ := step_flush_job h
      obtain ⟨hleaving, hknown⟩ := hl.1 cutoff hcutoff
      exact ⟨posted_flush_job hl.2 hperm hsorted,
        reached_flush_job hl.2 hs.1 hs.2 hleaving hknown⟩

def State.period (s : State) (k : ℕ) (r : IndexerTx) : Bool :=
  s.started.micros + INTERVAL * k ≤ r.created_at.micros &&
    r.created_at.micros < s.started.micros + INTERVAL * (k + 1)

/-- Rows lie in the period between two runs of the job in which they were inserted. -/
structure Timed (s : State) : Prop where
  recent : ∃ rows, s.table = s.flushed ++ rows ∧ ∀ r ∈ rows, s.period s.jobs r = true
  earlier : ∀ r ∈ s.flushed,
    s.started.micros ≤ r.created_at.micros ∧ r.created_at.micros < s.last_run
  few : ∀ k, (s.flushed.filter (s.period k)).length < BATCH_SIZE
  cutoff : s.jobs = 0 ∧ s.flushed = [] ∨ s.cutoff + WINDOW = s.last_run

theorem timed_start (now : Datetime) : Timed (start now) where
  recent := ⟨[], rfl, nofun⟩
  earlier := nofun
  few := fun _ => Nat.zero_lt_succ _
  cutoff := .inl ⟨rfl, rfl⟩

theorem write_cases (table : List IndexerTx) (row : IndexerTx) :
    write table row = table ∨ write table row = table ++ [row] := by
  unfold write
  split
  · exact .inl rfl
  · exact .inr rfl

theorem timed_write {s : State} {row : IndexerTx} (hs : Timed s)
    (hrow : s.period s.jobs row = true) : Timed { s with table := write s.table row } := by
  refine { recent := ?_, earlier := hs.earlier, few := hs.few, cutoff := hs.cutoff }
  obtain ⟨rows, htable, hrows⟩ := hs.recent
  rcases write_cases s.table row with hsame | happend
  · exact ⟨rows, hsame.trans htable, hrows⟩
  · refine ⟨rows ++ [row], ?_, ?_⟩
    · dsimp only
      rw [happend, htable, List.append_assoc]
    · intro r hr
      rcases List.mem_append.mp hr with hold | hnew
      · exact hrows r hold
      · cases List.mem_singleton.mp hnew
        exact hrow

theorem period_iff {s : State} {k : ℕ} {r : IndexerTx} :
    s.period k r = true ↔ s.started.micros + INTERVAL * k ≤ r.created_at.micros ∧
      r.created_at.micros < s.started.micros + INTERVAL * (k + 1) := by
  rw [State.period, Bool.and_eq_true, decide_eq_true_eq, decide_eq_true_eq]

theorem not_period_of_lt {s : State} {r : IndexerTx} {j k : ℕ} (hlt : j < k)
    (hj : s.period j r = true) : ¬ s.period k r = true := by
  have hle : INTERVAL * (j + 1) ≤ INTERVAL * k := Nat.mul_le_mul_left INTERVAL hlt
  rw [period_iff] at hj ⊢
  omega

theorem few_of_append {s : State} {rows : List IndexerTx} (hs : Timed s)
    (hrows : ∀ r ∈ rows, s.period s.jobs r = true) (hfew : rows.length < BATCH_SIZE) (k : ℕ) :
    ((s.flushed ++ rows).filter (s.period k)).length < BATCH_SIZE := by
  rw [List.filter_append, List.length_append]
  by_cases hk : k = s.jobs
  · subst hk
    have hnone : s.flushed.filter (s.period s.jobs) = [] := by
      rw [List.filter_eq_nil_iff]
      intro r hr hperiod
      exact absurd (period_iff.mp hperiod).1 (not_le.mpr (hs.earlier r hr).2)
    rw [hnone, List.length_nil, Nat.zero_add]
    exact lt_of_le_of_lt (List.length_filter_le _ _) hfew
  · have hnone : rows.filter (s.period k) = [] := by
      rw [List.filter_eq_nil_iff]
      intro r hr
      rcases Nat.lt_or_gt_of_ne hk with hlt | hgt
      · exact fun hperiod => not_period_of_lt hlt hperiod (hrows r hr)
      · exact not_period_of_lt hgt (hrows r hr)
    rw [hnone, List.length_nil, Nat.add_zero]
    exact hs.few k

theorem timed_flush_job {s : State} {now cutoff : Datetime} {ordered : List IndexerTx}
    {response : Response} (hs : Timed s) (hfew : s.table.length < s.flushed.length + BATCH_SIZE)
    (hcutoff : now.minus WINDOW = some cutoff) (hnow : now.micros = s.next_run) :
    Timed (s.flush_job hub_url cutoff ordered response) := by
  obtain ⟨rows, htable, hrows⟩ := hs.recent
  have hlast : s.last_run ≤ s.next_run :=
    Nat.add_le_add_left (Nat.mul_le_mul_left INTERVAL (Nat.le_succ s.jobs)) _
  constructor
  · exact ⟨[], (List.append_nil _).symm, nofun⟩
  · intro r hr
    have hr : r ∈ s.flushed ++ rows := htable ▸ hr
    rcases List.mem_append.mp hr with hold | hnew
    · exact ⟨(hs.earlier r hold).1, lt_of_lt_of_le (hs.earlier r hold).2 hlast⟩
    · obtain ⟨hafter, hbefore⟩ := period_iff.mp (hrows r hnew)
      exact ⟨le_trans (Nat.le_add_right _ _) hafter, hbefore⟩
  · intro k
    have hnew : rows.length < BATCH_SIZE := by
      rw [htable, List.length_append] at hfew
      omega
    have hall := few_of_append hs hrows hnew k
    rw [← htable] at hall
    exact hall
  · exact .inr ((minus_some_iff.mp hcutoff).trans hnow)

/-- A window is 336 periods long, so what leaves it between two runs of the job was
inserted between two runs. -/
theorem leaving_length_lt {s : State} {cutoff : Datetime} (hs : Timed s)
    (hcutoff : cutoff.micros + WINDOW = s.next_run) : (s.leaving cutoff).length < BATCH_SIZE := by
  rcases hs.cutoff with ⟨-, hnil⟩ | hlast
  · rw [State.leaving, hnil]
    exact Nat.zero_lt_succ _
  have hwindow : WINDOW = INTERVAL * 336 := rfl
  rcases Nat.lt_or_ge s.jobs 336 with hearly | hlate
  · have hnone : s.leaving cutoff = [] := by
      rw [State.leaving, List.filter_eq_nil_iff]
      intro r hr hout
      have hstarted := (hs.earlier r hr).1
      have hlt := of_decide_eq_true (Bool.and_eq_true_iff.mp hout).2
      have hle : INTERVAL * (s.jobs + 1) ≤ INTERVAL * 336 := Nat.mul_le_mul_left INTERVAL hearly
      unfold State.next_run at hcutoff
      omega
    rw [hnone]
    exact Nat.zero_lt_succ _
  · obtain ⟨k, hk⟩ := Nat.exists_eq_add_of_le' hlate
    have hthen : s.cutoff = s.started.micros + INTERVAL * k := by
      rw [State.last_run, hk, Nat.mul_add] at hlast
      omega
    have hnow : cutoff.micros = s.started.micros + INTERVAL * (k + 1) := by
      rw [State.next_run, hk, show k + 336 + 1 = k + 1 + 336 by omega, Nat.mul_add] at hcutoff
      omega
    have heq : s.leaving cutoff = s.flushed.filter (s.period k) := by
      rw [State.leaving, hthen, hnow]
      rfl
    rw [heq]
    exact hs.few k

theorem fewLeaving_of_timed {s t : State} {l : Label} (hs : Timed s)
    (h : step hub_url s l = some t) : FewLeaving s l := by
  cases l with
  | lifespan now => trivial
  | write row => trivial
  | flush_job now ordered response =>
      intro cutoff hcutoff
      obtain ⟨-, -, hnow, -⟩ := step_flush_job h
      have hcutoff : cutoff.micros + WINDOW = s.next_run :=
        (minus_some_iff.mp hcutoff).trans hnow
      refine ⟨(leaving_length_lt hs hcutoff).le, ?_⟩
      intro r hr hout
      obtain ⟨rows, htable, hrows⟩ := hs.recent
      have hr : r ∈ s.flushed ++ rows := htable ▸ hr
      rcases List.mem_append.mp hr with hold | hnew
      · exact hold
      · have hafter := (period_iff.mp (hrows r hnew)).1
        have hlong : INTERVAL ≤ WINDOW := by decide
        rw [State.next_run, Nat.mul_add] at hcutoff
        omega

theorem step_timed {s t : State} {l : Label} (hs : Timed s)
    (hl : FewInserted s l ∧ Undisturbed s l) (h : step hub_url s l = some t) : Timed t := by
  cases l with
  | lifespan now => exact hl.2.elim
  | write row =>
      cases h
      exact timed_write hs (period_iff.mpr hl.2)
  | flush_job now ordered response =>
      obtain ⟨cutoff, hcutoff, hnow, -, -, rfl⟩ := step_flush_job h
      exact timed_flush_job hs hl.1 hcutoff hnow

def MINUTE : ℕ := 60000000

def opened : Datetime := ⟨DAY * 739000, by decide⟩

def at_minute_20 : Datetime := ⟨opened.micros + MINUTE * 20, by decide⟩

def at_minute_35 : Datetime := ⟨opened.micros + MINUTE * 35, by decide⟩

def at_minute_40 : Datetime := ⟨opened.micros + MINUTE * 40, by decide⟩

def tx_row (created_at : Datetime) (i : ℕ) : IndexerTx where
  tx_hash := digits 3 i
  user_id := "u".toList
  agent_id := "a".toList
  kind := "trades".toList
  amount_usdt := none
  block_number := i
  tags := "{}".toList
  created_at := created_at

def hub : Text := "http://hub".toList

/-- A row that the flush at the half hour posts; the next one is a week later. -/
def one_row : List Label :=
  [.write (tx_row at_minute_20 0),
    .flush_job ⟨opened.micros + INTERVAL, by decide⟩ [tx_row at_minute_20 0] (.status 200),
    .lifespan ⟨opened.micros + WINDOW, by decide⟩,
    .flush_job ⟨opened.micros + WINDOW + INTERVAL, by decide⟩ [] (.status 200)]

/-- A run whose posts succeed, with fewer insertions than a batch between its flushes. -/
structure Served (hub_url : Text) (s t : State) (labels : List Label) : Prop where
  run : run (step hub_url) s labels = some t
  posts : ∀ l ∈ labels, succeeds hub_url l = true
  few : AllSteps (step hub_url) FewInserted s labels

theorem Served.append {s m t : State} {labels later : List Label}
    (h : Served hub_url s m labels) (hlater : Served hub_url m t later) :
    Served hub_url s t (labels ++ later) where
  run := run_append_iff.mpr ⟨m, h.run, hlater.run⟩
  posts := List.forall_mem_append.mpr ⟨h.posts, hlater.posts⟩
  few := by
    refine allSteps_append_iff.mpr ⟨h.few, ?_⟩
    intro m' hm'
    cases Option.some.inj (h.run.symm.trans hm')
    exact hlater.few

theorem served_step {s t : State} {l : Label} (h : step hub_url s l = some t)
    (hpost : succeeds hub_url l = true) (hfew : FewInserted s l) : Served hub_url s t [l] where
  run := run_cons_iff.mpr ⟨t, h, rfl⟩
  posts := List.forall_mem_singleton.mpr hpost
  few := (allSteps_cons_iff h).mpr ⟨hfew, trivial⟩

theorem served_writes {rows : List IndexerTx} {s : State}
    (hnodup : ((s.table ++ rows).map (·.tx_hash)).Nodup) :
    Served hub_url s { s with table := s.table ++ rows } (rows.map .write) := by
  induction rows generalizing s with
  | nil =>
      rw [List.append_nil]
      exact ⟨rfl, nofun, trivial⟩
  | cons row rows ih =>
      have hnew : row.tx_hash ∉ s.table.map (·.tx_hash) := by
        rw [List.map_append, List.nodup_append] at hnodup
        exact fun hmem => hnodup.2.2 _ hmem _ (.head _) rfl
      have hstep : step hub_url s (.write row) = some { s with table := s.table ++ [row] } := by
        rw [step, write, if_neg hnew]
      rw [← List.singleton_append, ← List.append_assoc] at hnodup ⊢
      exact (served_step hstep rfl trivial).append (ih hnodup)

theorem succeeds_of_answered (hhub : hub_url ≠ []) (now : Datetime) (ordered : List IndexerTx) :
    succeeds hub_url (.flush_job now ordered (.status 200)) = true := by
  rw [succeeds, flush_page, flush, if_neg hhub]
  split
  · rfl
  · rfl

/-- A run of the job when it is due, with the table in the order of its times. -/
theorem served_flush (hhub : hub_url ≠ []) {s : State} {cutoff : Datetime}
    (hsorted : s.table.Pairwise Older) (hfew : s.table.length < s.flushed.length + BATCH_SIZE)
    (hdue : cutoff.micros + WINDOW = s.next_run) (hrange : s.next_run < MAXORDINAL * DAY) :
    ∃ l, Served hub_url s (s.flush_job hub_url cutoff (s.matching cutoff) (.status 200)) [l] := by
  have hcutoff : Datetime.minus ⟨s.next_run, hrange⟩ WINDOW = some cutoff := minus_some_iff.mpr hdue
  refine ⟨.flush_job ⟨s.next_run, hrange⟩ (s.matching cutoff) (.status 200), served_step ?_
    (succeeds_of_answered hhub _ _) hfew⟩
  rw [step, hcutoff, Option.bind_eq_bind, Option.bind_some,
    if_pos ⟨rfl, List.Perm.refl _, hsorted.filter _⟩]

theorem mem_received_flush_job {s : State} {cutoff : Datetime} {ordered : List IndexerTx}
    {response : Response} {p : List PayloadRow}
    (h : p ∈ (s.flush_job hub_url cutoff ordered response).received) :
    p ∈ s.received ∨ p = (ordered.take BATCH_SIZE).map payload_row := by
  unfold State.flush_job at h
  dsimp only at h
  split at h
  · exact (List.mem_append.mp h).imp_right List.mem_singleton.mp
  · exact .inl h

/-- While nothing is inserted and nothing leaves the window, each flush posts the same rows. -/
theorem flushes_repeat (hhub : hub_url ≠ []) (n : ℕ) {s : State}
    (hsorted : s.table.Pairwise Older) (hfew : s.table.length < s.flushed.length + BATCH_SIZE)
    (hwindow : WINDOW ≤ s.started.micros)
    (hrange : s.started.micros + INTERVAL * (s.jobs + n) < MAXORDINAL * DAY)
    (hin : ∀ r ∈ s.table,
      s.started.micros + INTERVAL * (s.jobs + n) ≤ r.created_at.micros + WINDOW) :
    ∃ labels t, Served hub_url s t labels ∧
      t.table = s.table ∧ t.started = s.started ∧ t.jobs = s.jobs + n ∧
      t.table.length < t.flushed.length + BATCH_SIZE ∧
      ∀ p ∈ t.received, p ∈ s.received ∨ p = (s.table.take BATCH_SIZE).map payload_row := by
  induction n generalizing s with
  | zero =>
      exact ⟨[], s, ⟨rfl, nofun, trivial⟩, rfl, rfl, rfl, hfew, fun p hp => .inl hp⟩
  | succ n ih =>
      have hnext : s.next_run ≤ s.started.micros + INTERVAL * (s.jobs + (n + 1)) :=
        Nat.add_le_add_left (Nat.mul_le_mul_left INTERVAL (by omega)) _
      have hafter : WINDOW ≤ s.next_run := le_trans hwindow (Nat.le_add_right _ _)
      have hdated : s.next_run < MAXORDINAL * DAY := lt_of_le_of_lt hnext hrange
      let cutoff : Datetime := ⟨s.next_run - WINDOW, lt_of_le_of_lt (Nat.sub_le _ _) hdated⟩
      have hdue : cutoff.micros + WINDOW = s.next_run := Nat.sub_add_cancel hafter
      have hall : s.matching cutoff = s.table := by
        apply List.filter_eq_self.mpr
        intro r hr
        have hle := hin r hr
        exact decide_eq_true (by omega)
      obtain ⟨l, hfirst⟩ := served_flush hhub hsorted hfew hdue hdated
      rw [hall] at hfirst
      have hsum : s.jobs + (n + 1) = s.jobs + 1 + n := by omega
      rw [hsum] at hrange hin
      obtain ⟨labels, t, hserved, htable, hstarted, hjobs, hfew', hreceived⟩ :=
        ih (s := s.flush_job hub_url cutoff s.table (.status 200)) hsorted
          (Nat.lt_add_of_pos_right (Nat.zero_lt_succ _)) hwindow hrange hin
      refine ⟨l :: labels, t, hfirst.append hserved, htable, hstarted, hjobs.trans hsum.symm,
        hfew', ?_⟩
      intro p hp
      rcases hreceived p hp with hold | hnew
      · exact mem_received_flush_job hold
      · exact .inr hnew

/-- Rows are inserted before the first flush and after it, and ten minutes after it the
server is started again: its flushes now come at other minutes, and all the rows leave
the window between the same two of them. -/
theorem served_restart (hhub : hub_url ≠ []) {before after : List IndexerTx}
    (hnodup : ((before ++ after).map (·.tx_hash)).Nodup)
    (hsorted : (before ++ after).Pairwise Older) (hbefore : before.length < BATCH_SIZE)
    (hafter : after.length < BATCH_SIZE)
    (hrows : ∀ r ∈ before ++ after, at_minute_20.micros ≤ r.created_at.micros ∧
      r.created_at.micros < at_minute_40.micros) :
    ∃ labels s, Served hub_url (start opened) s labels ∧ s.flushed = before ++ after ∧
      s.cutoff = at_minute_40.micros ∧
      ∀ p ∈ s.received, p = (before.take BATCH_SIZE).map payload_row ∨
        p = ((before ++ after).take BATCH_SIZE).map payload_row ∨ p = [] := by
  let filled : State := { start opened with table := before }
  have hfirst : Served hub_url (start opened) filled (before.map .write) := by
    apply served_writes
    exact (List.nodup_append.mp (List.map_append ▸ hnodup)).1
  let edge : Datetime := ⟨opened.micros + INTERVAL - WINDOW, by decide⟩
  let flushed : State := filled.flush_job hub_url edge (filled.matching edge) (.status 200)
  obtain ⟨l, hflush⟩ : ∃ l, Served hub_url filled flushed [l] := by
    have hdue : edge.micros + WINDOW = opened.micros + INTERVAL * (0 + 1) := by decide
    have hrange : opened.micros + INTERVAL * (0 + 1) < MAXORDINAL * DAY := by decide
    refine served_flush hhub (List.pairwise_append.mp hsorted).1 ?_ hdue hrange
    exact (Nat.zero_add BATCH_SIZE).symm ▸ hbefore
  let full : State := { flushed with table := before ++ after }
  have hsecond : Served hub_url flushed full (after.map .write) := served_writes hnodup
  let restarted : State := { full with started := at_minute_40, jobs := 0 }
  have hrestart : Served hub_url full restarted [.lifespan at_minute_40] := by
    have hlast : full.last_run ≤ at_minute_40.micros := by
      show opened.micros + INTERVAL * (0 + 1) ≤ at_minute_40.micros
      decide
    refine served_step ?_ rfl trivial
    rw [step, if_pos hlast]
  obtain ⟨labels, t, hrepeat, htable, hstarted, hjobs, hfew, hreceived⟩ :
      ∃ labels t, Served hub_url restarted t labels ∧
        t.table = before ++ after ∧ t.started = at_minute_40 ∧ t.jobs = 0 + 335 ∧
        t.table.length < t.flushed.length + BATCH_SIZE ∧
        ∀ p ∈ t.received, p ∈ flushed.received ∨
          p = ((before ++ after).take BATCH_SIZE).map payload_row := by
    apply flushes_repeat (s := restarted) hhub 335 hsorted
    · show (before ++ after).length < before.length + BATCH_SIZE
      rw [List.length_append]
      exact Nat.add_lt_add_left hafter _
    · show WINDOW ≤ at_minute_40.micros
      decide
    · show at_minute_40.micros + INTERVAL * (0 + 335) < MAXORDINAL * DAY
      decide
    · intro r hr
      have hpast : at_minute_40.micros + INTERVAL * (0 + 335) ≤ at_minute_20.micros + WINDOW := by
        decide
      exact le_trans hpast (Nat.add_le_add_right (hrows r hr).1 WINDOW)
  have hdue : at_minute_40.micros + WINDOW = t.next_run := by
    rw [State.next_run, hstarted, hjobs]
    decide
  obtain ⟨l', hlast⟩ : ∃ l, Served hub_url t
      (t.flush_job hub_url at_minute_40 (t.matching at_minute_40) (.status 200)) [l] := by
    apply served_flush hhub (htable ▸ hsorted) hfew hdue
    rw [← hdue]
    decide
  refine ⟨_, _, hfirst.append (hflush.append (hsecond.append (hrestart.append
    (hrepeat.append hlast)))), htable, rfl, ?_⟩
  intro p hp
  rcases mem_received_flush_job hp with hold | hnew
  · rcases hreceived p hold with hflushed | hpage
    · rcases mem_received_flush_job hflushed with hnone | hpage
      · cases hnone
      · left
        have hall : filled.matching edge = before := by
          apply List.filter_eq_self.mpr
          intro r hr
          have hold : edge.micros ≤ at_minute_20.micros := by decide
          exact decide_eq_true (le_trans hold (hrows r (List.mem_append_left _ hr)).1)
        rw [hpage, hall]
    · exact .inr (.inl hpage)
  · right; right
    have hnone : t.matching at_minute_40 = [] := by
      rw [State.matching, htable, List.filter_eq_nil_iff]
      intro r hr
      exact fun hin => absurd (of_decide_eq_true hin) (not_le.mpr (hrows r hr).2)
    rw [hnew, hnone]
    rfl

/-- 499 rows before the first flush, and 499 more after it. -/
def first_rows : List IndexerTx := (List.range' 0 499).map (tx_row at_minute_20)

def second_rows : List IndexerTx := (List.range' 499 499).map (tx_row at_minute_35)

theorem hashes :
    (first_rows ++ second_rows).map (·.tx_hash) = (List.range' 0 998).map (digits 3) := by
  rw [first_rows, second_rows, List.map_append, List.map_map, List.map_map]
  exact List.map_append.symm.trans (congrArg _ (List.range'_append_1 (s := 0)))

theorem hashes_nodup : ((first_rows ++ second_rows).map (·.tx_hash)).Nodup := by
  rw [hashes]
  apply List.Nodup.map_on
  · intro i hi j hj heq
    have hi := (List.mem_range'_1.mp hi).2
    have hj := (List.mem_range'_1.mp hj).2
    exact digits_injective (by omega) (by omega) heq
  · exact List.nodup_range'

theorem created_at_first {r : IndexerTx} (h : r ∈ first_rows) : r.created_at = at_minute_20 := by
  obtain ⟨i, -, rfl⟩ := List.mem_map.mp h
  rfl

theorem created_at_second {r : IndexerTx} (h : r ∈ second_rows) : r.created_at = at_minute_35 := by
  obtain ⟨i, -, rfl⟩ := List.mem_map.mp h
  rfl

theorem rows_sorted : (first_rows ++ second_rows).Pairwise Older := by
  rw [List.pairwise_append]
  refine ⟨?_, ?_, ?_⟩
  · exact List.pairwise_map.mpr (List.pairwise_of_forall fun _ _ => le_rfl)
  · exact List.pairwise_map.mpr (List.pairwise_of_forall fun _ _ => le_rfl)
  · intro r hr r' hr'
    rw [Older, created_at_first hr, created_at_second hr']
    decide

theorem last_not_posted {rows : List IndexerTx} (hrows : rows <+: first_rows ++ second_rows)
    (hshort : rows.length ≤ BATCH_SIZE) :
    payload_row (tx_row at_minute_35 997) ∉ rows.map payload_row := by
  intro hmem
  obtain ⟨r, hr, heq⟩ := List.mem_map.mp hmem
  have hhash : r.tx_hash = digits 3 997 := congrArg PayloadRow.tx_hash heq
  have hearly : r.tx_hash ∈ ((List.range' 0 998).take rows.length).map (digits 3) := by
    rw [List.map_take, ← hashes, ← List.map_take, ← List.prefix_iff_eq_take.mp hrows]
    exact List.mem_map_of_mem hr
  obtain ⟨i, hi, hdigits⟩ := List.mem_map.mp hearly
  have hbatch : BATCH_SIZE = 500 := rfl
  rw [List.take_range'_of_length_ge (by omega), List.mem_range'_1] at hi
  have hlast : i = 997 := digits_injective (m := 997) (by omega) (by omega) (hdigits.trans hhash)
  omega

theorem mem_rows {r : IndexerTx} (h : r ∈ first_rows ++ second_rows) :
    at_minute_20.micros ≤ r.created_at.micros ∧ r.created_at.micros < at_minute_40.micros := by
  rcases List.mem_append.mp h with hr | hr
  · rw [created_at_first hr]
    decide
  · rw [created_at_second hr]
    decide

end ArticTrader.IndexerFlush
