import Mathlib.Data.List.Nodup
import Mathlib.Data.List.Perm.Basic
import ArticTrader.LabelledRuns
import ArticTrader.PythonText

/-!
How the agent hands its log to the user server: a flush empties the buffer and
posts what was in it, and only an exception brings the batch back.
-/

namespace ArticTrader.LogPushes

open ArticTrader.LabelledRuns
open ArticTrader.PythonText (Text)

/-- What a call of `buffer_log` adds; `number` counts the calls. -/
structure Entry where
  number : ℕ
  ts : Text
  level : Text
  message : Text
  deriving DecidableEq, Repr

structure PushedEntry where
  ts : Text
  level : Text
  message : Text
  agent_id : Text
  deriving DecidableEq, Repr

structure Post where
  agent_id : Text
  batch : List Entry
  deriving DecidableEq, Repr

/-- The body of `POST /logs`. -/
def Post.entries (p : Post) : List PushedEntry :=
  p.batch.map fun e =>
    { ts := e.ts, level := e.level, message := e.message, agent_id := p.agent_id }

inductive Outcome where
  | status (code : ℕ)
  | transport_error
  deriving DecidableEq, Repr

/-- The callback's buffer and its posts: those in flight, and those answered, with
the status of the answer. -/
structure State where
  log_buffer : List Entry
  in_flight : List Post
  answered : List (Post × ℕ)
  buffered : ℕ
  deriving DecidableEq, Repr

def start : State := ⟨[], [], [], 0⟩

/-- `flush_logs` runs up to its post without a break; `answer` is the rest of the
flush whose post is at a place among those in flight. -/
inductive Label where
  | buffer_log (ts level message : Text)
  | flush_logs (agent_id : Text)
  | answer (place : ℕ) (outcome : Outcome)
  deriving DecidableEq, Repr

def State.buffer_log (s : State) (ts level message : Text) : State :=
  { s with
    log_buffer := s.log_buffer ++ [{ number := s.buffered, ts, level, message }]
    buffered := s.buffered + 1 }

def State.flush_logs (s : State) (enabled : Bool) (agent_id : Text) : State :=
  if enabled = false ∨ s.log_buffer = [] then s
  else { s with
    log_buffer := []
    in_flight := s.in_flight ++ [{ agent_id, batch := s.log_buffer }] }

/-- A status of any kind is an answer; an exception puts the batch back. -/
def State.answer (s : State) (place : ℕ) (p : Post) : Outcome → State
  | .status code =>
      { s with in_flight := s.in_flight.eraseIdx place, answered := s.answered ++ [(p, code)] }
  | .transport_error =>
      { s with
        log_buffer := s.log_buffer ++ p.batch
        in_flight := s.in_flight.eraseIdx place }

variable (enabled : Bool)

def step (s : State) : Label → Option State
  | .buffer_log ts level message => some (s.buffer_log ts level message)
  | .flush_logs agent_id => some (s.flush_logs enabled agent_id)
  | .answer place outcome => (s.in_flight[place]?).map fun p => s.answer place p outcome

def is_success (code : ℕ) : Bool := 200 ≤ code && code ≤ 299

/-- A post is answered with a status that does not acknowledge it. -/
def refused : Label → Bool
  | .answer _ (.status code) => !is_success code
  | _ => false

def State.acknowledged (s : State) : List Entry :=
  (s.answered.filter fun a => is_success a.2).flatMap fun a => a.1.batch

def State.posted (s : State) : List Entry := s.in_flight.flatMap (·.batch)

/-- Every entry that was buffered is in the buffer, in flight or acknowledged. -/
def Accounted (s : State) : Prop :=
  ∀ number < s.buffered,
    ∃ e ∈ s.log_buffer ++ s.posted ++ s.acknowledged, e.number = number

def occurrences (number : ℕ) (entries : List Entry) : ℕ := (entries.map (·.number)).count number

@[simp] theorem occurrences_nil (number : ℕ) : occurrences number [] = 0 := rfl

@[simp] theorem occurrences_append (number : ℕ) (xs ys : List Entry) :
    occurrences number (xs ++ ys) = occurrences number xs + occurrences number ys := by
  simp [occurrences]

theorem occurrences_pos_iff {number : ℕ} {entries : List Entry} :
    0 < occurrences number entries ↔ ∃ e ∈ entries, e.number = number := by
  simp [occurrences, List.count_pos_iff]

theorem occurrences_eraseIdx {posts : List Post} {place : ℕ} {p : Post}
    (h : posts[place]? = some p) (number : ℕ) :
    occurrences number (posts.flatMap (·.batch)) =
      occurrences number p.batch +
        occurrences number ((posts.eraseIdx place).flatMap (·.batch)) := by
  obtain ⟨hlt, rfl⟩ := List.getElem?_eq_some_iff.mp h
  have hperm := (List.getElem_cons_eraseIdx_perm hlt).flatMap_right (·.batch)
  rw [← occurrences_append, ← List.flatMap_cons]
  exact ((hperm.map (·.number)).count_eq number).symm

/-- How often an entry is somewhere: once, if it was buffered. -/
def due (buffered number : ℕ) : ℕ := if number < buffered then 1 else 0

theorem due_succ (buffered number : ℕ) :
    due (buffered + 1) number = due buffered number + if buffered = number then 1 else 0 := by
  unfold due
  split_ifs <;> omega

/-- Each entry is in one place, answered posts of every status included. -/
structure Counted (s : State) : Prop where
  once : ∀ number, occurrences number s.log_buffer + occurrences number s.posted +
    occurrences number (s.answered.flatMap fun a => a.1.batch) = due s.buffered number
  nonempty : ∀ p ∈ s.in_flight, p.batch ≠ []

theorem counted_start : Counted start := ⟨fun _ => rfl, nofun⟩

variable {enabled}

theorem counted_buffer_log {s : State} (hs : Counted s) (ts level message : Text) :
    Counted (s.buffer_log ts level message) := by
  refine ⟨?_, hs.nonempty⟩
  intro number
  have honce := hs.once number
  have hnew : occurrences number [⟨s.buffered, ts, level, message⟩] =
      if s.buffered = number then 1 else 0 := by
    simp [occurrences, List.count_singleton]
  simp only [State.buffer_log, State.posted, occurrences_append, hnew, due_succ] at honce ⊢
  omega

theorem counted_flush_logs {s : State} (hs : Counted s) (agent_id : Text) :
    Counted (s.flush_logs enabled agent_id) := by
  unfold State.flush_logs
  split_ifs with hidle
  · exact hs
  · constructor
    · intro number
      have honce := hs.once number
      simp only [State.posted, List.flatMap_append, List.flatMap_singleton, occurrences_append,
        occurrences_nil] at honce ⊢
      omega
    · intro p hp
      rcases List.mem_append.mp hp with hp | hp
      · exact hs.nonempty p hp
      · rw [List.mem_singleton.mp hp]
        exact fun hempty => hidle (.inr hempty)

theorem counted_answer {s : State} {place : ℕ} {p : Post} (hs : Counted s)
    (h : s.in_flight[place]? = some p) (outcome : Outcome) :
    Counted (s.answer place p outcome) := by
  have hkept : ∀ q ∈ s.in_flight.eraseIdx place, q.batch ≠ [] := by
    intro q hq
    exact hs.nonempty q (List.mem_of_mem_eraseIdx hq)
  cases outcome with
  | status code =>
      refine ⟨?_, hkept⟩
      intro number
      have honce := hs.once number
      have herase := occurrences_eraseIdx h number
      simp only [State.answer, State.posted, List.flatMap_append, List.flatMap_singleton,
        occurrences_append] at honce herase ⊢
      omega
  | transport_error =>
      refine ⟨?_, hkept⟩
      intro number
      have honce := hs.once number
      have herase := occurrences_eraseIdx h number
      simp only [State.answer, State.posted, occurrences_append] at honce herase ⊢
      omega

theorem counted_step {s s' : State} {l : Label} (hs : Counted s)
    (h : step enabled s l = some s') : Counted s' := by
  cases l with
  | buffer_log ts level message =>
      cases h
      exact counted_buffer_log hs ts level message
  | flush_logs agent_id =>
      cases h
      exact counted_flush_logs hs agent_id
  | answer place outcome =>
      obtain ⟨p, hp, rfl⟩ := Option.map_eq_some_iff.mp h
      exact counted_answer hs hp outcome

def State.refused (s : State) : List Entry :=
  (s.answered.filter fun a => !is_success a.2).flatMap fun a => a.1.batch

theorem occurrences_answered (s : State) (number : ℕ) :
    occurrences number (s.answered.flatMap fun a => a.1.batch) =
      occurrences number s.acknowledged + occurrences number s.refused := by
  have hperm := (List.filter_append_perm (fun a => is_success a.2) s.answered).flatMap_right
    fun a => a.1.batch
  rw [← occurrences_append, State.acknowledged, State.refused, ← List.flatMap_append]
  exact ((hperm.map (·.number)).count_eq number).symm

/-- All answers so far acknowledge their posts. -/
def AllAcknowledged (s : State) : Prop := ∀ a ∈ s.answered, is_success a.2 = true

theorem acknowledged_eq {s : State} (hs : AllAcknowledged s) :
    s.acknowledged = s.answered.flatMap fun a => a.1.batch := by
  rw [State.acknowledged, List.filter_eq_self.mpr hs]

theorem accounted_of_all {s : State} (hs : Counted s) (hall : AllAcknowledged s) :
    Accounted s := by
  intro number hnumber
  apply occurrences_pos_iff.mp
  have honce := hs.once number
  rw [due, if_pos hnumber] at honce
  rw [acknowledged_eq hall, occurrences_append, occurrences_append]
  omega

/-- The batch of a refused post is nowhere any more. -/
theorem not_accounted {s : State} {p : Post} {code : ℕ} (hs : Counted s)
    (hanswered : (p, code) ∈ s.answered) (hcode : is_success code = false) (hp : p.batch ≠ []) :
    ¬ Accounted s := by
  obtain ⟨e, he⟩ := List.exists_mem_of_ne_nil p.batch hp
  intro haccounted
  have honce := hs.once e.number
  rw [occurrences_answered] at honce
  have hlost : 0 < occurrences e.number s.refused := by
    refine occurrences_pos_iff.mpr ⟨e, List.mem_flatMap.mpr ⟨(p, code), ?_, he⟩, rfl⟩
    exact List.mem_filter.mpr ⟨hanswered, by simp [hcode]⟩
  have hlt : e.number < s.buffered := by
    by_contra hge
    rw [due, if_neg hge] at honce
    omega
  have hplace := occurrences_pos_iff.mpr (haccounted e.number hlt)
  rw [due, if_pos hlt] at honce
  simp only [occurrences_append] at hplace
  omega

theorem acknowledged_nodup {s : State} (hs : Counted s) :
    (s.acknowledged.map (·.number)).Nodup := by
  apply List.nodup_iff_count_le_one.mpr
  intro number
  have honce := hs.once number
  have hdue : due s.buffered number ≤ 1 := by
    unfold due
    split_ifs <;> omega
  rw [occurrences_answered] at honce
  change occurrences number s.acknowledged ≤ 1
  omega

theorem all_acknowledged_step {s s' : State} {l : Label} (hs : AllAcknowledged s)
    (hl : refused l = false) (h : step enabled s l = some s') : AllAcknowledged s' := by
  cases l with
  | buffer_log ts level message =>
      cases h
      exact hs
  | flush_logs agent_id =>
      cases h
      unfold State.flush_logs
      split_ifs <;> exact hs
  | answer place outcome =>
      obtain ⟨p, hp, rfl⟩ := Option.map_eq_some_iff.mp h
      cases outcome with
      | transport_error => exact hs
      | status code =>
          intro a ha
          rcases List.mem_append.mp ha with ha | ha
          · exact hs a ha
          · rw [List.mem_singleton.mp ha]
            simpa [refused] using hl

theorem refused_step {s s' : State} {l : Label} (hs : Counted s) (hl : refused l = true)
    (h : step enabled s l = some s') : ¬ Accounted s' := by
  have hs' := counted_step hs h
  cases l with
  | buffer_log ts level message => cases hl
  | flush_logs agent_id => cases hl
  | answer place outcome =>
      obtain ⟨p, hp, rfl⟩ := Option.map_eq_some_iff.mp h
      cases outcome with
      | transport_error => cases hl
      | status code =>
          have hcode : is_success code = false := by simpa [refused] using hl
          exact not_accounted hs' (List.mem_append_right _ (List.mem_singleton.mpr rfl)) hcode
            (hs.nonempty p (List.mem_of_getElem? hp))

/-- Every entry is accounted for in every state exactly where no post is answered
with a status outside 2xx; and no entry is ever acknowledged twice. -/
theorem pushes_accounted_iff (enabled : Bool) {labels : List Label} {s : State}
    (hrun : run (step enabled) start labels = some s) :
    ((∀ l ∈ labels, refused l = false) ↔
        ∀ m later, Passes (step enabled) start labels m later → Accounted m) ∧
      ∀ m later, Passes (step enabled) start labels m later →
        (m.acknowledged.map (·.number)).Nodup := by
  constructor
  · have hall : AllSteps (step enabled) (fun _ l => refused l = false) start labels ↔
        ∀ m later, Passes (step enabled) start labels m later → Accounted m := by
      apply allSteps_iff_passes (P := fun s => Counted s ∧ AllAcknowledged s) _ _ _ hrun
      · exact ⟨counted_start, nofun⟩
      · intro s l s' hs hl h
        exact ⟨counted_step hs.1 h, all_acknowledged_step hs.2 hl h⟩
      · intro s l s' hs h
        constructor
        · intro hl
          exact accounted_of_all (counted_step hs.1 h) (all_acknowledged_step hs.2 hl h)
        · intro haccounted
          by_contra hl
          exact refused_step hs.1 (eq_true_of_ne_false hl) h haccounted
      · intro s hs
        exact accounted_of_all hs.1 hs.2
    rw [← hall, allSteps_iff_forall_mem hrun]
  · intro m later hpass
    have hcounted : Counted m :=
      hpass.invariant (fun s l s' hs _ h => counted_step hs h) (allSteps_true start labels)
        counted_start
    exact acknowledged_nodup hcounted

def entry_seven : Label := .buffer_log "t7".toList "tick".toList "[TICK]".toList

/-- A post that fails on the way is sent again and acknowledged. -/
def retried : List Label :=
  [entry_seven, .flush_logs "a1".toList, entry_seven, .answer 0 .transport_error,
    .flush_logs "a1".toList, .answer 0 (.status 201)]

theorem pushes_accounted_iff_retried :
    ∃ s, run (step true) start retried = some s ∧
      ((∀ l ∈ retried, refused l = false) ↔
        ∀ m later, Passes (step true) start retried m later → Accounted m) ∧
      ∀ m later, Passes (step true) start retried m later →
        (m.acknowledged.map (·.number)).Nodup := by
  obtain ⟨s, hrun, -⟩ : ∃ s ∈ run (step true) start retried, True := by decide
  exact ⟨s, hrun, pushes_accounted_iff true hrun⟩

/-- The server is there, and answers with an error of its own. -/
def unavailable : List Label :=
  [entry_seven, .flush_logs "a1".toList, .answer 0 (.status 503)]

theorem unavailable_loses_entry :
    ∃ s ∈ run (step true) start unavailable, s.buffered = 1 ∧ s.log_buffer = [] ∧
      s.in_flight = [] ∧ s.acknowledged = [] ∧ ¬ Accounted s := by
  obtain ⟨s, hrun, hbuffered, hbuffer, hflight, hacknowledged⟩ :
      ∃ s ∈ run (step true) start unavailable, s.buffered = 1 ∧ s.log_buffer = [] ∧
        s.in_flight = [] ∧ s.acknowledged = [] := by decide
  refine ⟨s, hrun, hbuffered, hbuffer, hflight, hacknowledged, ?_⟩
  intro haccounted
  obtain ⟨e, he, -⟩ := haccounted 0 (by omega)
  simp [hbuffer, hflight, hacknowledged, State.posted] at he

end ArticTrader.LogPushes
