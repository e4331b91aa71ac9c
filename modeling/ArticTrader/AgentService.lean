import Mathlib.Data.List.Basic
import Mathlib.Logic.Function.Basic

/-!
The agents of a user server: their rows, the registry, the containers at docker,
and the requests that start, stop, create, delete and report them. A request is
resumed at each of its awaits. It works in a session of its own: what it has
flushed is locked and seen by no other session until it commits. Port, heartbeat
and the columns that no request decides on are left out.
-/

namespace ArticTrader.AgentService

inductive AgentStatus where
  | stopped
  | starting
  | alive
  | stopping
  | error
  deriving DecidableEq, Repr

/-- A row of `agents`. `κ` are the ids of containers. -/
structure Agent (κ : Type*) where
  status : AgentStatus
  container_id : Option κ
  deriving DecidableEq, Repr

/-- An object of a session, as it was loaded and with what was assigned to it. -/
structure Change (α κ : Type*) where
  agent : α
  loaded : Agent κ
  assigned : Agent κ
  deriving DecidableEq, Repr

/-- `agents` are the ids of the rows in the order of `list_all`. A container is named
after its agent; `spawned` are the ids docker has given out. -/
structure Server (α κ : Type*) where
  agents : List α
  row : α → Agent κ
  locked : α → Bool
  registry : α → Option κ
  containers : List (α × κ)
  spawned : List κ
  accepting_starts : Bool

/-- What a session has still to do and what it is to write. -/
structure Session (α κ : Type*) where
  todo : List (α × Agent κ)
  changes : List (Change α κ)
  deriving DecidableEq, Repr

inductive Job where
  | start
  | stop
  deriving DecidableEq, Repr

inductive Op (α : Type*) where
  | create (a : α)
  | delete (a : α)
  | start (a : α)
  | stop (a : α)
  | start_all
  | stop_all
  | drain
  | halt
  | push_status (a : α)
  deriving DecidableEq, Repr

/-- What a request awaits, with the agent at hand as it was loaded. `spawned` and
`removed` await the return of the thread that has called docker. -/
inductive Phase (α κ : Type*) where
  | selecting (op : Op α) (a : α)
  | listing (job : Job)
  | counting (a : α) (loaded : Agent κ) (q : Session α κ)
  | locking (job : Job) (a : α) (loaded : Agent κ) (q : Session α κ)
  | spawning (a : α) (loaded : Agent κ) (q : Session α κ)
  | spawned (a : α) (loaded : Agent κ) (cid : κ) (q : Session α κ)
  | waiting (a : α) (loaded : Agent κ) (cid : κ) (q : Session α κ)
  | posting (a : α) (loaded : Agent κ) (cid : κ) (q : Session α κ)
  | removing (a : α) (loaded : Agent κ) (cid : κ) (q : Session α κ)
  | removed (a : α) (loaded : Agent κ) (q : Session α κ)
  | committing (changes : List (Change α κ))
  | pushing (a : α) (loaded : Agent κ)
  | deleting (a : α)
  | inserting (a : α)
  | done (succeeded : Bool)
  deriving DecidableEq, Repr

/-- How an await ends. `kill_raised` is a container that was removed although its stop
raised; `not_found` any exception of docker's lookup. -/
inductive Input (κ : Type*) where
  | go
  | raised
  | container (cid : κ)
  | healthy
  | unhealthy
  | killed
  | not_found
  | kill_raised
  deriving DecidableEq, Repr

variable {α κ : Type*}

def is_live (status : AgentStatus) : Bool := status = .alive || status = .starting

def Session.locks (q : Session α κ) : List α := q.changes.map Change.agent

/-- The requests that start agents. -/
def starting : Op α → Bool
  | .start _ | .start_all => true
  | _ => false

def finished : Phase α κ → Bool
  | .done _ => true
  | _ => false

/-- The containers that the changes are to record. -/
def held (changes : List (Change α κ)) : List (α × κ) :=
  changes.filterMap fun c => c.assigned.container_id.map fun cid => (c.agent, cid)

theorem mem_held_iff {changes : List (Change α κ)} {a : α} {cid : κ} :
    (a, cid) ∈ held changes ↔
      ∃ c ∈ changes, c.agent = a ∧ c.assigned.container_id = some cid := by
  simp [held, and_comm]

/-- The containers that a request has started and no commit has recorded. -/
def Phase.running : Phase α κ → List (α × κ)
  | .counting _ _ q | .locking _ _ _ q | .spawning _ _ q | .removing _ _ _ q | .removed _ _ q =>
      held q.changes
  | .spawned a _ cid q | .waiting a _ cid q | .posting a _ cid q => (a, cid) :: held q.changes
  | .committing changes => held changes
  | _ => []

/-- The locks that the session of a request holds. -/
def Phase.locks : Phase α κ → List α
  | .counting _ _ q | .locking _ _ _ q => q.locks
  | .spawning a _ q | .spawned a _ _ q | .waiting a _ _ q | .posting a _ _ q
  | .removing a _ _ q | .removed a _ q => a :: q.locks
  | .committing changes => changes.map Change.agent
  | _ => []

theorem ite_eq_left {β : Type*} [DecidableEq β] (x y : β) : (if x = y then y else x) = x := by
  split
  next heq => exact heq.symm
  next => rfl

section

variable [DecidableEq α]

def Server.lock (s : Server α κ) (a : α) : Server α κ :=
  { s with locked := Function.update s.locked a true }

def Server.release (s : Server α κ) (locks : List α) : Server α κ :=
  { s with locked := fun a => s.locked a && !locks.contains a }

def Server.update (s : Server α κ) (a : α) (row : Agent κ) : Server α κ :=
  { s with row := Function.update s.row a row }

def Server.insert (s : Server α κ) (a : α) : Server α κ :=
  { s with
    agents := a :: s.agents
    row := Function.update s.row a { status := .stopped, container_id := none } }

def Server.delete (s : Server α κ) (a : α) : Server α κ :=
  { s with agents := s.agents.filter (· ≠ a) }

def Server.run (s : Server α κ) (a : α) (cid : κ) : Server α κ :=
  { s with containers := (a, cid) :: s.containers, spawned := cid :: s.spawned }

def Server.put (s : Server α κ) (a : α) (cid : κ) : Server α κ :=
  { s with registry := Function.update s.registry a (some cid) }

def Server.remove (s : Server α κ) (a : α) : Server α κ :=
  { s with registry := Function.update s.registry a none }

/-- An exception ends the session, which is rolled back. -/
def fail (s : Server α κ) (locks : List α) : Server α κ × Phase α κ :=
  (s.release locks, .done false)

/-- The loop of `start_all` and `stop_all` up to its next await. -/
def next (job : Job) (s : Server α κ) :
    List (α × Agent κ) → List (Change α κ) → Server α κ × Phase α κ
  | [], changes => (s, .committing changes)
  | (a, loaded) :: todo, changes =>
      match job with
      | .start =>
          if loaded.status = .alive then next .start s todo changes
          else if s.accepting_starts then (s, .counting a loaded ⟨todo, changes⟩)
          else fail s (changes.map Change.agent)
      | .stop =>
          if loaded.status = .stopped ∨ loaded.status = .stopping then next .stop s todo changes
          else (s, .locking .stop a loaded ⟨todo, changes⟩)

/-- The loop passes over the agent. -/
def Skips (job : Job) (loaded : Agent κ) : Prop :=
  match job with
  | .start => loaded.status = .alive
  | .stop => loaded.status = .stopped ∨ loaded.status = .stopping

/-- Where the loop comes to. -/
inductive Next (s : Server α κ) (changes : List (Change α κ)) :
    Job → List (α × Agent κ) → Server α κ × Phase α κ → Prop
  | ended (job : Job) (todo : List (α × Agent κ)) (hskip : ∀ p ∈ todo, Skips job p.2) :
      Next s changes job todo (s, .committing changes)
  | counted (skipped todo : List (α × Agent κ)) (a : α) (loaded : Agent κ)
      (hskip : ∀ p ∈ skipped, Skips .start p.2) (hnot : loaded.status ≠ .alive)
      (haccepting : s.accepting_starts = true) :
      Next s changes .start (skipped ++ (a, loaded) :: todo) (s, .counting a loaded ⟨todo, changes⟩)
  | refused (todo : List (α × Agent κ)) (haccepting : s.accepting_starts = false) :
      Next s changes .start todo (fail s (changes.map Change.agent))
  | locked (skipped todo : List (α × Agent κ)) (a : α) (loaded : Agent κ)
      (hskip : ∀ p ∈ skipped, Skips .stop p.2) (hnot : ¬ Skips .stop loaded) :
      Next s changes .stop (skipped ++ (a, loaded) :: todo)
        (s, .locking .stop a loaded ⟨todo, changes⟩)

theorem Next.skip {s : Server α κ} {changes : List (Change α κ)} {job : Job}
    {todo : List (α × Agent κ)} {r : Server α κ × Phase α κ} (h : Next s changes job todo r)
    {p : α × Agent κ} (hp : Skips job p.2) : Next s changes job (p :: todo) r := by
  cases h with
  | ended _ _ hskip => exact .ended job _ (List.forall_mem_cons.mpr ⟨hp, hskip⟩)
  | counted skipped todo a loaded hskip hnot haccepting =>
      exact .counted (p :: skipped) todo a loaded (List.forall_mem_cons.mpr ⟨hp, hskip⟩) hnot
        haccepting
  | refused _ haccepting => exact .refused _ haccepting
  | locked skipped todo a loaded hskip hnot =>
      exact .locked (p :: skipped) todo a loaded (List.forall_mem_cons.mpr ⟨hp, hskip⟩) hnot

/-- The loop changes no more than the locks. -/
theorem Next.server {s : Server α κ} {changes : List (Change α κ)} {job : Job}
    {todo : List (α × Agent κ)} {r : Server α κ × Phase α κ} (h : Next s changes job todo r) :
    ∃ locked, r.1 = { s with locked } := by
  cases h <;> exact ⟨_, rfl⟩

theorem next_spec (job : Job) (s : Server α κ) (todo : List (α × Agent κ))
    (changes : List (Change α κ)) : Next s changes job todo (next job s todo changes) := by
  induction todo with
  | nil => exact .ended job [] nofun
  | cons p todo ih =>
      obtain ⟨a, loaded⟩ := p
      cases job with
      | start =>
          unfold next
          dsimp only
          split
          next halive => exact ih.skip halive
          next hnot =>
              split
              next haccepting => exact .counted [] todo a loaded nofun hnot haccepting
              next hrefused => exact .refused _ (by simpa using hrefused)
      | stop =>
          unfold next
          dsimp only
          split
          next hskip => exact ih.skip hskip
          next hnot => exact .locked [] todo a loaded nofun hnot

/-- The row is loaded that a request for one agent is about. -/
def selected (s : Server α κ) (op : Op α) (a : α) : Server α κ × Phase α κ :=
  let loaded := s.row a
  match op with
  | .start _ =>
      if loaded.status = .alive then (s, .committing [])
      else (s, .counting a loaded ⟨[], []⟩)
  | .stop _ => next .stop s [(a, loaded)] []
  | .delete _ => if is_live loaded.status then fail s [] else (s, .deleting a)
  | _ => (s, .pushing a loaded)

/-- A stop goes on when its container is gone. -/
def stopped (s : Server α κ) (a : α) (loaded : Agent κ) (q : Session α κ) :
    Server α κ × Phase α κ :=
  next .stop (s.remove a) q.todo
    (⟨a, loaded, { status := .stopped, container_id := none }⟩ :: q.changes)

/-- The status starting or stopping is flushed. -/
def flushed (s : Server α κ) (job : Job) (a : α) (loaded : Agent κ) (q : Session α κ) :
    Server α κ × Phase α κ :=
  match job with
  | .start => (s, .spawning a loaded q)
  | .stop =>
      match s.registry a <|> loaded.container_id with
      | none => stopped s a loaded q
      | some cid => (s, .removing a loaded cid q)

/-- The agent has been posted its start. -/
def started (s : Server α κ) (a : α) (loaded : Agent κ) (cid : κ) (q : Session α κ) :
    Server α κ × Phase α κ :=
  next .start s q.todo (⟨a, loaded, { status := .alive, container_id := some cid }⟩ :: q.changes)

theorem stopped_spec (s : Server α κ) (a : α) (loaded : Agent κ) (q : Session α κ) :
    Next (s.remove a) (⟨a, loaded, { status := .stopped, container_id := none }⟩ :: q.changes)
      .stop q.todo (stopped s a loaded q) :=
  next_spec _ _ _ _

theorem started_spec (s : Server α κ) (a : α) (loaded : Agent κ) (cid : κ) (q : Session α κ) :
    Next s (⟨a, loaded, { status := .alive, container_id := some cid }⟩ :: q.changes)
      .start q.todo (started s a loaded cid q) :=
  next_spec _ _ _ _

def call (op : Op α) (s : Server α κ) : Server α κ × Phase α κ :=
  match op with
  | .create a => (s, .inserting a)
  | .delete a | .stop a | .push_status a => (s, .selecting op a)
  | .start a => if s.accepting_starts then (s, .selecting op a) else fail s []
  | .start_all => (s, .listing .start)
  | .stop_all => (s, .listing .stop)
  | .drain | .halt => ({ s with accepting_starts := false }, .listing .stop)

variable [DecidableEq κ]

/-- The `UPDATE` writes the columns that were assigned another value. -/
def Change.write (c : Change α κ) (row : Agent κ) : Agent κ where
  status := if c.assigned.status = c.loaded.status then row.status else c.assigned.status
  container_id :=
    if c.assigned.container_id = c.loaded.container_id then row.container_id
    else c.assigned.container_id

/-- The row of an agent as the session sees it that has made the changes. -/
def Server.view (s : Server α κ) (changes : List (Change α κ)) (a : α) : Agent κ :=
  match changes.find? fun c => c.agent = a with
  | none => s.row a
  | some c => c.write (s.row a)

omit [DecidableEq α] in
theorem write_of_loaded {c : Change α κ} {row : Agent κ} (h : c.loaded = row) :
    c.write row = c.assigned := by
  subst h
  simp only [Change.write, ite_eq_left]

theorem view_cases (s : Server α κ) (changes : List (Change α κ)) (a : α) :
    (a ∉ changes.map Change.agent ∧ s.view changes a = s.row a) ∨
      ∃ c ∈ changes, c.agent = a ∧ s.view changes a = c.write (s.row a) := by
  unfold Server.view
  cases h : changes.find? fun c => c.agent = a with
  | none =>
      refine .inl ⟨?_, rfl⟩
      intro hmem
      obtain ⟨c, hc, rfl⟩ := List.mem_map.mp hmem
      simpa using List.find?_eq_none.mp h c hc
  | some c =>
      have hagent : c.agent = a := by simpa using List.find?_some h
      exact .inr ⟨c, List.mem_of_find?_eq_some h, hagent, rfl⟩

def Server.commit (s : Server α κ) (changes : List (Change α κ)) : Server α κ :=
  { s.release (changes.map Change.agent) with row := s.view changes }

def Server.kill (s : Server α κ) (cid : κ) : Server α κ :=
  { s with containers := s.containers.filter (·.2 ≠ cid) }

/-- The agents with status alive or starting that a session sees. -/
def live_count (s : Server α κ) (changes : List (Change α κ)) : ℕ :=
  s.agents.countP fun a => is_live (s.view changes a).status

/-- A push commits, with the status only if another one was loaded. -/
def pushed (s : Server α κ) (a : α) (loaded : Agent κ) : Server α κ :=
  s.update a ((⟨a, loaded, { loaded with status := .alive }⟩ : Change α κ).write (s.row a))

/-- One step of a request, from one await to the next. -/
def resume (max_agents : ℕ) (s : Server α κ) :
    Phase α κ → Input κ → Option (Server α κ × Phase α κ)
  | .selecting op a, .go => some (if a ∈ s.agents then selected s op a else fail s [])
  | .listing job, .go => some (next job s (s.agents.map fun a => (a, s.row a)) [])
  | .counting a loaded q, .go =>
      some (if max_agents ≤ live_count s q.changes then fail s q.locks
        else (s, .locking .start a loaded q))
  | .locking job a loaded q, .go =>
      if a ∈ s.agents then
        if s.locked a then none else some (flushed (s.lock a) job a loaded q)
      else some (fail s q.locks)
  | .spawning a loaded q, .container cid =>
      if (∀ c ∈ s.containers, c.1 ≠ a) ∧ cid ∉ s.spawned then
        some (s.run a cid, .spawned a loaded cid q)
      else none
  | .spawned a loaded cid q, .go => some (s.put a cid, .waiting a loaded cid q)
  | .waiting a loaded cid q, .healthy => some (s, .posting a loaded cid q)
  | .waiting a _ _ q, .unhealthy => some (fail (s.remove a) (a :: q.locks))
  | .posting a loaded cid q, .go => some (started s a loaded cid q)
  | .removing a loaded cid q, .killed => some (s.kill cid, .removed a loaded q)
  | .removing a loaded _ q, .not_found => some (s, .removed a loaded q)
  | .removing a _ cid q, .kill_raised => some (fail (s.kill cid) (a :: q.locks))
  | .removed a loaded q, .go => some (stopped s a loaded q)
  | .committing changes, .go => some (s.commit changes, .done true)
  | .pushing a loaded, .go =>
      if a ∈ s.agents then
        if s.locked a then none else some (pushed s a loaded, .done true)
      else some (fail s [])
  | .deleting a, .go => if s.locked a then none else some (s.delete a, .done true)
  | .inserting a, .go => if a ∈ s.agents then none else some (s.insert a, .done true)
  | .posting _ _ _ _, .raised | .removed _ _ _, .raised | .spawned _ _ _ _, .raised
  | .done _, .raised => none
  | p, .raised => some (fail s p.locks)
  | _, _ => none

/-- The steps there are, by what is awaited. A quota that is used up and a row that is
gone end a request as an exception does. -/
inductive Resumed (max_agents : ℕ) (s : Server α κ) :
    Phase α κ → Input κ → Server α κ × Phase α κ → Prop
  | refused (p : Phase α κ) (hopen : ∀ succeeded, p ≠ .done succeeded) :
      Resumed max_agents s p .go (fail s p.locks)
  | raised (p : Phase α κ) (hopen : ∀ succeeded, p ≠ .done succeeded) :
      Resumed max_agents s p .raised (fail s p.locks)
  | selected (op : Op α) (a : α) (ha : a ∈ s.agents) :
      Resumed max_agents s (.selecting op a) .go (selected s op a)
  | listed (job : Job) :
      Resumed max_agents s (.listing job) .go (next job s (s.agents.map fun a => (a, s.row a)) [])
  | counted (a : α) (loaded : Agent κ) (q : Session α κ)
      (hroom : live_count s q.changes < max_agents) :
      Resumed max_agents s (.counting a loaded q) .go (s, .locking .start a loaded q)
  | locked (job : Job) (a : α) (loaded : Agent κ) (q : Session α κ) (ha : a ∈ s.agents)
      (hfree : s.locked a = false) :
      Resumed max_agents s (.locking job a loaded q) .go (flushed (s.lock a) job a loaded q)
  | ran (a : α) (loaded : Agent κ) (q : Session α κ) (cid : κ)
      (hname : ∀ c ∈ s.containers, c.1 ≠ a) (hfresh : cid ∉ s.spawned) :
      Resumed max_agents s (.spawning a loaded q) (.container cid)
        (s.run a cid, .spawned a loaded cid q)
  | put (a : α) (loaded : Agent κ) (cid : κ) (q : Session α κ) :
      Resumed max_agents s (.spawned a loaded cid q) .go (s.put a cid, .waiting a loaded cid q)
  | healthy (a : α) (loaded : Agent κ) (cid : κ) (q : Session α κ) :
      Resumed max_agents s (.waiting a loaded cid q) .healthy (s, .posting a loaded cid q)
  | unhealthy (a : α) (loaded : Agent κ) (cid : κ) (q : Session α κ) :
      Resumed max_agents s (.waiting a loaded cid q) .unhealthy (fail (s.remove a) (a :: q.locks))
  | posted (a : α) (loaded : Agent κ) (cid : κ) (q : Session α κ) :
      Resumed max_agents s (.posting a loaded cid q) .go (started s a loaded cid q)
  | killed (a : α) (loaded : Agent κ) (cid : κ) (q : Session α κ) :
      Resumed max_agents s (.removing a loaded cid q) .killed (s.kill cid, .removed a loaded q)
  | not_found (a : α) (loaded : Agent κ) (cid : κ) (q : Session α κ) :
      Resumed max_agents s (.removing a loaded cid q) .not_found (s, .removed a loaded q)
  | kill_raised (a : α) (loaded : Agent κ) (cid : κ) (q : Session α κ) :
      Resumed max_agents s (.removing a loaded cid q) .kill_raised
        (fail (s.kill cid) (a :: q.locks))
  | removed (a : α) (loaded : Agent κ) (q : Session α κ) :
      Resumed max_agents s (.removed a loaded q) .go (stopped s a loaded q)
  | committed (changes : List (Change α κ)) :
      Resumed max_agents s (.committing changes) .go (s.commit changes, .done true)
  | pushed (a : α) (loaded : Agent κ) (ha : a ∈ s.agents) (hfree : s.locked a = false) :
      Resumed max_agents s (.pushing a loaded) .go (pushed s a loaded, .done true)
  | deleted (a : α) (hfree : s.locked a = false) :
      Resumed max_agents s (.deleting a) .go (s.delete a, .done true)
  | inserted (a : α) (ha : a ∉ s.agents) :
      Resumed max_agents s (.inserting a) .go (s.insert a, .done true)

theorem resumed_of_resume {max_agents : ℕ} {s : Server α κ} {p : Phase α κ} {x : Input κ}
    {r : Server α κ × Phase α κ} (h : resume max_agents s p x = some r) :
    Resumed max_agents s p x r := by
  unfold resume at h
  split at h
  case h_1 op a =>
      cases h
      split
      next ha => exact .selected op a ha
      next => exact .refused (.selecting op a) nofun
  case h_3 a loaded q =>
      cases h
      split
      next => exact .refused (.counting a loaded q) nofun
      next hroom => exact .counted a loaded q (by omega)
  case h_4 job a loaded q =>
      split at h
      next ha =>
          rw [Option.ite_none_left_eq_some, Bool.not_eq_true] at h
          cases h.2
          exact .locked job a loaded q ha h.1
      next =>
          cases h
          exact .refused (.locking job a loaded q) nofun
  case h_5 a loaded q cid =>
      rw [Option.ite_none_right_eq_some] at h
      cases h.2
      exact .ran a loaded q cid h.1.1 h.1.2
  case h_15 a loaded =>
      split at h
      next ha =>
          rw [Option.ite_none_left_eq_some, Bool.not_eq_true] at h
          cases h.2
          exact .pushed a loaded ha h.1
      next =>
          cases h
          exact .refused (.pushing a loaded) nofun
  case h_16 a =>
      rw [Option.ite_none_left_eq_some, Bool.not_eq_true] at h
      cases h.2
      exact .deleted a h.1
  case h_17 a =>
      rw [Option.ite_none_left_eq_some] at h
      cases h.2
      exact .inserted a h.1
  case h_22 hposting hremoved hspawned hdone =>
      cases h
      refine .raised p ?_
      rintro succeeded rfl
      exact hdone succeeded rfl
  all_goals cases h <;> constructor

end

end ArticTrader.AgentService
