import ArticTrader.AgentService
import ArticTrader.LabelledRuns

/-!
The requests of a user server one after the other, in any order: which agents are
alive, and with which container.
-/

namespace ArticTrader.AgentStatus

open ArticTrader.AgentService
open ArticTrader.LabelledRuns

variable {α κ : Type*}

/-- The request at hand, and the agents of which a stop has completed with no start
called since. -/
structure History (α κ : Type*) where
  server : Server α κ
  op : Op α
  phase : Phase α κ
  quiet : α → Bool

inductive Event (α κ : Type*) where
  | call (op : Op α)
  | input (x : Input κ)
  deriving DecidableEq, Repr

def Server.empty : Server α κ where
  agents := []
  row := fun _ => { status := .stopped, container_id := none }
  locked := fun _ => false
  registry := fun _ => none
  containers := []
  spawned := []
  accepting_starts := true

def initial : History α κ where
  server := Server.empty
  op := .stop_all
  phase := .done false
  quiet := fun _ => false

/-- The agents that a request is to start. -/
def starts [DecidableEq α] : Op α → α → Bool
  | .start b, a => a = b
  | .start_all, _ => true
  | _, _ => false

/-- The agents that a request is to stop. -/
def stops [DecidableEq α] : Op α → α → Bool
  | .stop b, a => a = b
  | .stop_all, _ | .drain, _ | .halt, _ => true
  | _, _ => false

section

variable [DecidableEq α]

/-- Alive means a container, and a stopped agent is not alive until it is started. -/
def Sound (m : History α κ) : Prop :=
  ∀ a ∈ m.server.agents,
    ((m.server.row a).status = .alive → (m.server.row a).container_id ≠ none) ∧
      (m.quiet a = true → (m.server.row a).status ≠ .alive)

def heard : Phase α κ → Input κ → Bool
  | .pushing _ loaded, .go => loaded.status = .alive
  | _, _ => true

/-- A push is committed for an agent whose row says alive already. -/
def Heard (m : History α κ) : Event α κ → Prop
  | .call _ => True
  | .input x => heard m.phase x = true

instance (m : History α κ) : DecidablePred (Heard m)
  | .call _ => inferInstanceAs (Decidable True)
  | .input x => inferInstanceAs (Decidable (heard m.phase x = true))

/-- The rows there are between the requests. -/
def Settled (row : Agent κ) : Prop :=
  (row.status = .stopped ∧ row.container_id = none) ∨
    (row.status = .alive ∧ ∃ cid, row.container_id = some cid)

/-- The objects in the session of a start, as loaded and as assigned. -/
structure Starts (row : α → Agent κ) (op : Op α) (todo : List (α × Agent κ))
    (changes : List (Change α κ)) : Prop where
  never : ∀ a, stops op a = false
  queued : ∀ p ∈ todo, p.2 = row p.1 ∧ starts op p.1 = true
  changed : ∀ c ∈ changes, c.loaded = row c.agent ∧ starts op c.agent = true ∧
    ∃ cid, c.assigned = { status := .alive, container_id := some cid }

structure Stops (row : α → Agent κ) (agents : List α) (op : Op α) (todo : List (α × Agent κ))
    (changes : List (Change α κ)) : Prop where
  queued : ∀ p ∈ todo, p.2 = row p.1
  changed : ∀ c ∈ changes, c.loaded = row c.agent ∧
    c.assigned = { status := .stopped, container_id := none }
  covered : ∀ a ∈ agents, stops op a = true → (row a).status = .alive →
    a ∈ todo.map Prod.fst ∨ a ∈ changes.map Change.agent

/-- The agent that a request is about. -/
def Target : Op α → α → Prop
  | .delete b, a | .start b, a | .stop b, a | .push_status b, a => b = a
  | _, _ => False

def Known (s : Server α κ) (op : Op α) : Phase α κ → Prop
  | .selecting op' a => op' = op ∧ Target op a
  | .listing .start => op = .start_all
  | .counting a loaded q | .locking .start a loaded q | .spawning a loaded q
  | .spawned a loaded _ q | .waiting a loaded _ q | .posting a loaded _ q =>
      Starts s.row op ((a, loaded) :: q.todo) q.changes
  | .locking .stop a loaded q | .removing a loaded _ q | .removed a loaded q =>
      Stops s.row s.agents op ((a, loaded) :: q.todo) q.changes
  | .committing changes =>
      Starts s.row op [] changes ∨ Stops s.row s.agents op [] changes
  | .pushing a loaded => a ∈ s.agents ∧ loaded = s.row a ∧ ∀ b, stops op b = false
  | .deleting _ | .inserting _ => ∀ b, stops op b = false
  | .listing .stop | .done _ => True

structure Kept (m : History α κ) : Prop where
  rows : ∀ a ∈ m.server.agents, Settled (m.server.row a)
  quiet : ∀ a ∈ m.server.agents, m.quiet a = true → (m.server.row a).status ≠ .alive
  called : ∀ a, starts m.op a = true → m.quiet a = false
  known : Known m.server m.op m.phase

theorem Kept.sound {m : History α κ} (h : Kept m) : Sound m := by
  intro a ha
  refine ⟨?_, h.quiet a ha⟩
  intro halive
  rcases h.rows a ha with ⟨hstopped, -⟩ | ⟨-, cid, hcid⟩
  · rw [hstopped] at halive
    cases halive
  · simp [hcid]

theorem initial_kept : Kept (initial : History α κ) where
  rows := nofun
  quiet := nofun
  called := fun _ _ => rfl
  known := trivial

/-- A step that writes no row and completes nothing. -/
structure Stays (s : Server α κ) (op : Op α) (r : Server α κ × Phase α κ) : Prop where
  row : r.1.row = s.row
  agents : r.1.agents = s.agents
  phase : r.2 ≠ .done true
  known : Known r.1 op r.2

theorem stays_fail (s : Server α κ) (op : Op α) (locks : List α) : Stays s op (fail s locks) :=
  ⟨rfl, rfl, nofun, trivial⟩

theorem Starts.skip {row : α → Agent κ} {op : Op α} {skipped todo : List (α × Agent κ)}
    {changes : List (Change α κ)} (h : Starts row op (skipped ++ todo) changes) :
    Starts row op todo changes :=
  ⟨h.never, fun p hp => h.queued p (List.mem_append_right skipped hp), h.changed⟩

theorem Stops.skip {row : α → Agent κ} {agents : List α} {op : Op α}
    {skipped todo : List (α × Agent κ)} {changes : List (Change α κ)}
    (h : Stops row agents op (skipped ++ todo) changes)
    (hskip : ∀ p ∈ skipped, Skips .stop p.2) : Stops row agents op todo changes where
  queued := fun p hp => h.queued p (List.mem_append_right skipped hp)
  changed := h.changed
  covered := by
    intro a ha hstops halive
    rcases h.covered a ha hstops halive with hmem | hmem
    · obtain ⟨p, hp, rfl⟩ := List.mem_map.mp hmem
      rcases List.mem_append.mp hp with hp' | hp'
      · have hstatus := hskip p hp'
        rw [h.queued p hp] at hstatus
        rcases hstatus with hstatus | hstatus <;> rw [hstatus] at halive <;> cases halive
      · exact .inl (List.mem_map_of_mem hp')
    · exact .inr hmem

theorem stays_next_start {s : Server α κ} {op : Op α} {todo : List (α × Agent κ)}
    {changes : List (Change α κ)} {r : Server α κ × Phase α κ}
    (h : Starts s.row op todo changes) (hr : Next s changes .start todo r) : Stays s op r := by
  cases hr with
  | ended _ _ hskip => exact ⟨rfl, rfl, nofun, .inl ⟨h.never, nofun, h.changed⟩⟩
  | counted skipped todo a loaded hskip hnot haccepting => exact ⟨rfl, rfl, nofun, h.skip⟩
  | refused _ haccepting => exact stays_fail s op _

theorem stays_next_stop {s : Server α κ} {op : Op α} {todo : List (α × Agent κ)}
    {changes : List (Change α κ)} {r : Server α κ × Phase α κ}
    (h : Stops s.row s.agents op todo changes) (hr : Next s changes .stop todo r) :
    Stays s op r := by
  cases hr with
  | ended _ _ hskip =>
      have hall : Stops s.row s.agents op (todo ++ []) changes := by simpa using h
      exact ⟨rfl, rfl, nofun, .inr (hall.skip hskip)⟩
  | locked skipped todo a loaded hskip hnot => exact ⟨rfl, rfl, nofun, h.skip hskip⟩

theorem stays_stopped {s : Server α κ} {op : Op α} {a : α} {loaded : Agent κ} {q : Session α κ}
    (h : Stops s.row s.agents op ((a, loaded) :: q.todo) q.changes) :
    Stays s op (stopped s a loaded q) := by
  have hnext : Stops s.row s.agents op q.todo
      (⟨a, loaded, { status := .stopped, container_id := none }⟩ :: q.changes) := by
    refine ⟨fun p hp => h.queued p (.tail _ hp), ?_, ?_⟩
    · exact List.forall_mem_cons.mpr ⟨⟨h.queued _ List.mem_cons_self, rfl⟩, h.changed⟩
    · intro b hb hstops halive
      have hcovered := h.covered b hb hstops halive
      simp only [List.map_cons, List.mem_cons] at hcovered ⊢
      tauto
  have hstays := stays_next_stop (s := s.remove a) hnext (stopped_spec s a loaded q)
  exact ⟨hstays.row, hstays.agents, hstays.phase, hstays.known⟩

theorem stays_started {s : Server α κ} {op : Op α} {a : α} {loaded : Agent κ} {cid : κ}
    {q : Session α κ} (h : Starts s.row op ((a, loaded) :: q.todo) q.changes) :
    Stays s op (started s a loaded cid q) := by
  refine stays_next_start ?_ (started_spec s a loaded cid q)
  have hfirst := h.queued _ List.mem_cons_self
  exact ⟨h.never, fun p hp => h.queued p (.tail _ hp),
    List.forall_mem_cons.mpr ⟨⟨hfirst.1, hfirst.2, cid, rfl⟩, h.changed⟩⟩

theorem stays_flushed {s : Server α κ} {op : Op α} {job : Job} {a : α} {loaded : Agent κ}
    {q : Session α κ} (h : Known s op (.locking job a loaded q)) :
    Stays s op (flushed (s.lock a) job a loaded q) := by
  cases job with
  | start => exact ⟨rfl, rfl, nofun, h⟩
  | stop =>
      unfold flushed
      dsimp only
      split
      next =>
          have hstays := stays_stopped (s := s.lock a) h
          exact ⟨hstays.row, hstays.agents, hstays.phase, hstays.known⟩
      next => exact ⟨rfl, rfl, nofun, h⟩

theorem stays_selected {s : Server α κ} {op : Op α} {a : α} (ha : a ∈ s.agents)
    (h : Target op a) :
    Stays s op (selected s op a) := by
  cases op with
  | create b => exact h.elim
  | delete b =>
      unfold selected
      dsimp only
      split
      next => exact stays_fail s _ _
      next => exact ⟨rfl, rfl, nofun, fun _ => rfl⟩
  | start b =>
      cases h
      unfold selected
      dsimp only
      split
      next => exact ⟨rfl, rfl, nofun, .inl ⟨fun _ => rfl, nofun, nofun⟩⟩
      next =>
          refine ⟨rfl, rfl, nofun, fun _ => rfl, ?_, nofun⟩
          intro p hp
          cases List.mem_singleton.mp hp
          exact ⟨rfl, by simp [starts]⟩
  | stop b =>
      cases h
      refine stays_next_stop ?_ (next_spec _ _ _ _)
      refine ⟨?_, nofun, ?_⟩
      · intro p hp
        cases List.mem_singleton.mp hp
        rfl
      · intro a _ hstops _
        exact .inl (by simpa [stops] using hstops)
  | start_all => exact h.elim
  | stop_all => exact h.elim
  | drain => exact h.elim
  | halt => exact h.elim
  | push_status b => exact ⟨rfl, rfl, nofun, ha, rfl, fun _ => rfl⟩

theorem stays_listed {s : Server α κ} {op : Op α} {job : Job} (h : Known s op (.listing job)) :
    Stays s op (next job s (s.agents.map fun a => (a, s.row a)) []) := by
  have htodo : ∀ p ∈ s.agents.map fun a => (a, s.row a), p.2 = s.row p.1 := by
    intro p hp
    obtain ⟨a, -, rfl⟩ := List.mem_map.mp hp
    rfl
  cases job with
  | start =>
      cases (h : op = .start_all)
      refine stays_next_start ?_ (next_spec _ _ _ _)
      exact ⟨fun _ => rfl, fun p hp => ⟨htodo p hp, rfl⟩, nofun⟩
  | stop =>
      refine stays_next_stop ?_ (next_spec _ _ _ _)
      refine ⟨htodo, nofun, ?_⟩
      intro a ha _ _
      exact .inl (List.mem_map.mpr ⟨(a, s.row a), List.mem_map_of_mem ha, rfl⟩)

/-- A step of the request at hand: what it leaves of the rows and what is known then. -/
structure Advances (op : Op α) (quiet : α → Bool) (r : Server α κ × Phase α κ) : Prop where
  rows : ∀ a ∈ r.1.agents, Settled (r.1.row a)
  quiet : ∀ a ∈ r.1.agents, (quiet a = true ∨ (r.2 = .done true ∧ stops op a = true)) →
    (r.1.row a).status ≠ .alive
  known : Known r.1 op r.2

theorem Stays.advances {m : History α κ} {r : Server α κ × Phase α κ} (hm : Kept m)
    (h : Stays m.server m.op r) : Advances m.op m.quiet r where
  rows := by
    rw [h.row, h.agents]
    exact hm.rows
  quiet := by
    intro a ha hquiet
    rw [h.agents] at ha
    rw [h.row]
    rcases hquiet with hquiet | ⟨hdone, -⟩
    · exact hm.quiet a ha hquiet
    · exact absurd hdone h.phase
  known := h.known

theorem advances_done {m : History α κ} (hm : Kept m) {s : Server α κ}
    (hstops : ∀ b, stops m.op b = false)
    (hrows : ∀ a ∈ s.agents, (a ∈ m.server.agents ∧ s.row a = m.server.row a) ∨
      s.row a = { status := .stopped, container_id := none }) :
    Advances m.op m.quiet (s, .done true) := by
  refine ⟨?_, ?_, trivial⟩
  · intro a ha
    rcases hrows a ha with ⟨hmem, heq⟩ | heq
    · exact (congrArg Settled heq).mpr (hm.rows a hmem)
    · exact (congrArg Settled heq).mpr (.inl ⟨rfl, rfl⟩)
  · intro a ha hquiet halive
    have hq : m.quiet a = true := by simpa [hstops] using hquiet
    rcases hrows a ha with ⟨hmem, heq⟩ | heq
    · exact hm.quiet a hmem hq ((congrArg Agent.status heq).symm.trans halive)
    · cases (congrArg Agent.status heq).symm.trans halive

theorem called_kept {m : History α κ} (hm : Kept m) (op : Op α) :
    Kept { server := (call op m.server).1, op, phase := (call op m.server).2,
           quiet := fun a => !starts op a && m.quiet a } := by
  have hcall : (call op m.server).1.row = m.server.row ∧
      (call op m.server).1.agents = m.server.agents ∧
        Known (call op m.server).1 op (call op m.server).2 := by
    cases op with
    | create a => exact ⟨rfl, rfl, fun _ => rfl⟩
    | delete a => exact ⟨rfl, rfl, rfl, rfl⟩
    | start a =>
        unfold call
        dsimp only
        split
        next => exact ⟨rfl, rfl, rfl, rfl⟩
        next => exact ⟨rfl, rfl, trivial⟩
    | stop a => exact ⟨rfl, rfl, rfl, rfl⟩
    | start_all => exact ⟨rfl, rfl, rfl⟩
    | stop_all => exact ⟨rfl, rfl, trivial⟩
    | drain => exact ⟨rfl, rfl, trivial⟩
    | halt => exact ⟨rfl, rfl, trivial⟩
    | push_status a => exact ⟨rfl, rfl, rfl, rfl⟩
  refine ⟨?_, ?_, ?_, hcall.2.2⟩
  · rw [hcall.1, hcall.2.1]
    exact hm.rows
  · rw [hcall.1, hcall.2.1]
    intro a ha hquiet
    exact hm.quiet a ha (Bool.and_eq_true_iff.mp hquiet).2
  · intro a hstarts
    simp [hstarts]

variable [DecidableEq κ]

def step (max_agents : ℕ) (m : History α κ) : Event α κ → Option (History α κ)
  | .call op =>
      if finished m.phase then
        let r := call op m.server
        some
          { server := r.1
            op
            phase := r.2
            quiet := fun a => !starts op a && m.quiet a }
      else none
  | .input x =>
      (resume max_agents m.server m.phase x).map fun r =>
        { m with
          server := r.1
          phase := r.2
          quiet := fun a => (r.2 = .done true && stops m.op a) || m.quiet a }

theorem advances_committed {m : History α κ} (hm : Kept m) {changes : List (Change α κ)}
    (h : Known m.server m.op (.committing changes)) :
    Advances m.op m.quiet (m.server.commit changes, .done true) := by
  rcases h with hstarts | hstops
  · have hview : ∀ a ∈ m.server.agents, (m.server.view changes a = m.server.row a) ∨
        (starts m.op a = true ∧
          ∃ cid, m.server.view changes a = { status := .alive, container_id := some cid }) := by
      intro a _
      rcases view_cases m.server changes a with ⟨-, heq⟩ | ⟨c, hc, rfl, heq⟩
      · exact .inl heq
      · obtain ⟨hloaded, hstart, cid, hassigned⟩ := hstarts.changed c hc
        rw [write_of_loaded hloaded, hassigned] at heq
        exact .inr ⟨hstart, cid, heq⟩
    refine ⟨?_, ?_, trivial⟩
    · intro a ha
      rcases hview a ha with heq | ⟨-, cid, heq⟩
      · exact (congrArg Settled heq).mpr (hm.rows a ha)
      · exact (congrArg Settled heq).mpr (.inr ⟨rfl, cid, rfl⟩)
    · intro a ha hquiet
      have hq : m.quiet a = true := by simpa [hstarts.never] using hquiet
      rcases hview a ha with heq | ⟨hstart, -⟩
      · exact fun halive => hm.quiet a ha hq ((congrArg Agent.status heq).symm.trans halive)
      · rw [hm.called a hstart] at hq
        cases hq
  · have hview : ∀ a ∈ m.server.agents,
        (a ∉ changes.map Change.agent ∧ m.server.view changes a = m.server.row a) ∨
          m.server.view changes a = { status := .stopped, container_id := none } := by
      intro a _
      rcases view_cases m.server changes a with hrow | ⟨c, hc, rfl, heq⟩
      · exact .inl hrow
      · obtain ⟨hloaded, hassigned⟩ := hstops.changed c hc
        rw [write_of_loaded hloaded, hassigned] at heq
        exact .inr heq
    refine ⟨?_, ?_, trivial⟩
    · intro a ha
      rcases hview a ha with ⟨-, heq⟩ | heq
      · exact (congrArg Settled heq).mpr (hm.rows a ha)
      · exact (congrArg Settled heq).mpr (.inl ⟨rfl, rfl⟩)
    · intro a ha hquiet halive
      rcases hview a ha with ⟨hnot, heq⟩ | heq
      · have hrow : (m.server.row a).status = .alive :=
          (congrArg Agent.status heq).symm.trans halive
        rcases hquiet with hquiet | ⟨-, hstop⟩
        · exact hm.quiet a ha hquiet hrow
        · have hcovered := hstops.covered a ha hstop hrow
          exact hcovered.elim nofun hnot
      · cases (congrArg Agent.status heq).symm.trans halive

theorem pushed_of_alive {s : Server α κ} {a : α} (h : (s.row a).status = .alive) :
    pushed s a (s.row a) = s := by
  have hassigned : { s.row a with status := .alive } = s.row a := by
    rw [← h]
  unfold pushed Server.update
  rw [write_of_loaded rfl, hassigned, Function.update_eq_self]

theorem advances_resumed {max_agents : ℕ} {m : History α κ} (hm : Kept m) {p : Phase α κ}
    {x : Input κ} {r : Server α κ × Phase α κ} (hp : m.phase = p) (hheard : Heard m (.input x))
    (h : Resumed max_agents m.server p x r) : Advances m.op m.quiet r := by
  have hknown : Known m.server m.op p := hp ▸ hm.known
  cases h with
  | refused => exact (stays_fail m.server m.op _).advances hm
  | raised => exact (stays_fail m.server m.op _).advances hm
  | selected op a ha =>
      obtain ⟨rfl, htarget⟩ := hknown
      exact (stays_selected ha htarget).advances hm
  | listed job => exact (stays_listed hknown).advances hm
  | counted a loaded q hroom => exact Stays.advances hm ⟨rfl, rfl, nofun, hknown⟩
  | locked job a loaded q ha hfree => exact (stays_flushed hknown).advances hm
  | ran a loaded q cid hname hfresh => exact Stays.advances hm ⟨rfl, rfl, nofun, hknown⟩
  | put a loaded cid q => exact Stays.advances hm ⟨rfl, rfl, nofun, hknown⟩
  | healthy a loaded cid q => exact Stays.advances hm ⟨rfl, rfl, nofun, hknown⟩
  | unhealthy a loaded cid q => exact Stays.advances hm ⟨rfl, rfl, nofun, trivial⟩
  | posted a loaded cid q => exact (stays_started hknown).advances hm
  | killed a loaded cid q => exact Stays.advances hm ⟨rfl, rfl, nofun, hknown⟩
  | not_found a loaded cid q => exact Stays.advances hm ⟨rfl, rfl, nofun, hknown⟩
  | kill_raised a loaded cid q => exact Stays.advances hm ⟨rfl, rfl, nofun, trivial⟩
  | removed a loaded q => exact (stays_stopped hknown).advances hm
  | committed changes => exact advances_committed hm hknown
  | pushed a loaded ha hfree =>
      obtain ⟨-, rfl, hstops⟩ := hknown
      have halive : (m.server.row a).status = .alive := by simpa [Heard, heard, hp] using hheard
      rw [pushed_of_alive halive]
      exact advances_done hm hstops fun b hb => .inl ⟨hb, rfl⟩
  | deleted a hfree =>
      exact advances_done hm hknown fun b hb => .inl ⟨(List.mem_filter.mp hb).1, rfl⟩
  | inserted a ha =>
      refine advances_done hm hknown ?_
      intro b hb
      by_cases hba : b = a
      · subst hba
        exact .inr (Function.update_self ..)
      · exact .inl ⟨(List.mem_cons.mp hb).resolve_left hba, Function.update_of_ne hba ..⟩

theorem resumed_kept {m : History α κ} (hm : Kept m) {r : Server α κ × Phase α κ}
    (h : Advances m.op m.quiet r) :
    Kept { m with server := r.1, phase := r.2,
                  quiet := fun a => (r.2 = .done true && stops m.op a) || m.quiet a } := by
  refine ⟨h.rows, ?_, ?_, h.known⟩
  · intro a ha hquiet
    apply h.quiet a ha
    simpa [or_comm] using hquiet
  · intro a hstarts
    have hnever : stops m.op a = false := by
      cases hop : m.op <;> rw [hop] at hstarts <;> simp_all [starts, stops]
    simp [hnever, hm.called a hstarts]

theorem step_kept {max_agents : ℕ} {m m' : History α κ} {e : Event α κ} (hm : Kept m)
    (hheard : Heard m e) (h : step max_agents m e = some m') : Kept m' := by
  cases e with
  | call op =>
      obtain ⟨-, h⟩ := Option.ite_none_right_eq_some.mp h
      cases h
      exact called_kept hm op
  | input x =>
      obtain ⟨r, hr, rfl⟩ := Option.map_eq_some_iff.mp h
      exact resumed_kept hm (advances_resumed hm rfl hheard (resumed_of_resume hr))

/-- A push that finds the agent not alive leaves it alive without a container. -/
theorem not_sound_of_unheard {max_agents : ℕ} {m m' : History α κ} {e : Event α κ} (hm : Kept m)
    (hnot : ¬ Heard m e) (h : step max_agents m e = some m') : ¬ Sound m' := by
  have hcase : ∃ a loaded, e = .input .go ∧ m.phase = .pushing a loaded ∧
      loaded.status ≠ .alive := by
    cases e with
    | call op => exact absurd trivial hnot
    | input x =>
        change ¬ heard m.phase x = true at hnot
        unfold heard at hnot
        split at hnot
        next a loaded hphase => exact ⟨a, loaded, rfl, hphase, by simpa using hnot⟩
        next => exact absurd rfl hnot
  obtain ⟨a, loaded, rfl, hphase, hstatus⟩ := hcase
  have hknown := hm.known
  rw [hphase] at hknown
  obtain ⟨ha, rfl, -⟩ := hknown
  have hnone : (m.server.row a).container_id = none := by
    rcases hm.rows a ha with ⟨-, hnone⟩ | ⟨halive, -⟩
    · exact hnone
    · exact absurd halive hstatus
  obtain ⟨r, hr, rfl⟩ := Option.map_eq_some_iff.mp h
  rw [hphase] at hr
  simp only [resume, if_pos ha, Option.ite_none_left_eq_some, Option.some.injEq] at hr
  obtain ⟨-, rfl⟩ := hr
  intro hsound
  have hpushed : (pushed m.server a (m.server.row a)).row a =
      { m.server.row a with status := .alive } := by
    unfold pushed Server.update
    rw [write_of_loaded rfl]
    exact Function.update_self ..
  have hid := (hsound a ha).1 (congrArg Agent.status hpushed)
  exact hid ((congrArg Agent.container_id hpushed).trans hnone)

/-- In every order of requests alive means a container, and stopped means not alive, exactly
if no push is committed for an agent that is not alive. -/
theorem alive_means_container_iff {max_agents : ℕ} {es : List (Event α κ)} {t : History α κ}
    (hrun : run (step max_agents) initial es = some t) :
    (∀ m later, Passes (step max_agents) initial es m later → Sound m) ↔
      AllSteps (step max_agents) Heard initial es := by
  refine (allSteps_iff_passes (P := Kept) ?_ ?_ (fun _ => Kept.sound) hrun initial_kept).symm
  · intro m e m' hm hheard h
    exact step_kept hm hheard h
  · intro m e m' hm h
    constructor
    · intro hheard
      exact (step_kept hm hheard h).sound
    · intro hsound
      by_contra hnot
      exact not_sound_of_unheard hm hnot h hsound

end

/-- An agent is created, started and stopped again. -/
def stopped_agent : List (Event ℕ ℕ) :=
  [.call (.create 0), .input .go, .call (.start 0), .input .go, .input .go, .input .go,
    .input (.container 7), .input .go, .input .healthy, .input .go, .input .go,
    .call (.stop 0), .input .go, .input .go, .input .killed, .input .go, .input .go]

theorem alive_means_container_stopped : ∃ t, run (step 4) initial stopped_agent = some t ∧
    ∀ m later, Passes (step 4) (initial : History ℕ ℕ) stopped_agent m later → Sound m := by
  obtain ⟨t, hrun⟩ := Option.isSome_iff_exists.mp (show
    (run (step 4) (initial : History ℕ ℕ) stopped_agent).isSome by decide)
  exact ⟨t, hrun, (alive_means_container_iff hrun).mpr (by decide)⟩

/-- A push of the stopped container is handled late. -/
theorem late_push_revives :
    ¬ ∀ (max_agents : ℕ) (es : List (Event ℕ ℕ)) (t : History ℕ ℕ),
      run (step max_agents) initial es = some t → Sound t := by
  intro h
  have hend : (run (step 4) (initial : History ℕ ℕ)
      (stopped_agent ++ [.call (.push_status 0), .input .go, .input .go])).map
        (fun t => (t.server.agents, t.server.row 0)) = some ([0], ⟨.alive, none⟩) := by
    decide
  obtain ⟨t, hrun, hlast⟩ := Option.map_eq_some_iff.mp hend
  obtain ⟨hagents, hrow⟩ := Prod.mk.inj hlast
  have hsound := h 4 _ t hrun 0 (by simp [hagents])
  rw [hrow] at hsound
  exact hsound.1 rfl rfl

end ArticTrader.AgentStatus
