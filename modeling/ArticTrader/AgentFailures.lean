import Mathlib.Data.List.Nodup
import ArticTrader.AgentService
import ArticTrader.LabelledRuns

/-!
A start of one agent or of all, alone on a server whose database, registry and
containers agree: what it leaves behind when it fails.
-/

namespace ArticTrader.AgentFailures

open ArticTrader.AgentService
open ArticTrader.LabelledRuns

variable {α κ : Type*}

/-- Every container is one that the database records for an alive agent, the registry
says the same as the database, and no name is taken of an agent that may be started. -/
structure NothingLeft (s : Server α κ) : Prop where
  containers : ∀ a cid, (a, cid) ∈ s.containers →
    a ∈ s.agents ∧ s.row a = { status := .alive, container_id := some cid }
  registry : ∀ a cid, s.registry a = some cid ↔
    a ∈ s.agents ∧ s.row a = { status := .alive, container_id := some cid }
  startable : ∀ a ∈ s.agents, (s.row a).status ≠ .alive → ∀ c ∈ s.containers, c.1 ≠ a

/-- A container comes up. -/
def spawns : Input κ → Bool
  | .container _ => true
  | _ => false

theorem startable_of_containers {s : Server α κ} (h : ∀ a cid, (a, cid) ∈ s.containers →
    a ∈ s.agents ∧ s.row a = { status := .alive, container_id := some cid }) :
    ∀ a ∈ s.agents, (s.row a).status ≠ .alive → ∀ c ∈ s.containers, c.1 ≠ a := by
  rintro a - hnot c hc rfl
  exact hnot (congrArg Agent.status (h c.1 c.2 hc).2)

/-- The server while a request has started containers that no commit has recorded. -/
structure Began (s t : Server α κ) (registered running : List (α × κ)) : Prop where
  agents : t.agents = s.agents
  row : t.row = s.row
  containers : t.containers = running ++ s.containers
  registry : ∀ a cid, t.registry a = some cid ↔ (a, cid) ∈ registered ∨ s.registry a = some cid
  names : (running.map Prod.fst).Nodup
  idle : ∀ c ∈ running, c.1 ∈ s.agents ∧ (s.row c.1).status ≠ .alive

/-- The objects in the session of a start. -/
structure Queue (s : Server α κ) (todo : List (α × Agent κ)) (changes : List (Change α κ)) :
    Prop where
  queued : ∀ p ∈ todo, p.1 ∈ s.agents ∧ p.2 = s.row p.1
  changed : ∀ c ∈ changes, c.loaded = s.row c.agent ∧
    ∃ cid, c.assigned = { status := .alive, container_id := some cid }

/-- The server after a start that failed. -/
structure Ended (s t : Server α κ) (running : List (α × κ)) : Prop where
  agents : t.agents = s.agents
  row : t.row = s.row
  containers : t.containers = running ++ s.containers
  registry : running = [] → ∀ a cid, t.registry a = some cid ↔ s.registry a = some cid
  idle : ∀ c ∈ running, (s.row c.1).status ≠ .alive

def Known (s t : Server α κ) : Phase α κ → Prop
  | .selecting op _ => (∃ b, op = .start b) ∧ Began s t [] []
  | .listing .start => Began s t [] []
  | .counting a loaded q | .locking .start a loaded q | .spawning a loaded q =>
      loaded.status ≠ .alive ∧ Queue s ((a, loaded) :: q.todo) q.changes ∧
        Began s t (held q.changes) (held q.changes)
  | .spawned a loaded cid q =>
      Queue s ((a, loaded) :: q.todo) q.changes ∧
        Began s t (held q.changes) ((a, cid) :: held q.changes)
  | .waiting a loaded cid q | .posting a loaded cid q =>
      Queue s ((a, loaded) :: q.todo) q.changes ∧
        Began s t ((a, cid) :: held q.changes) ((a, cid) :: held q.changes)
  | .committing changes => Queue s [] changes ∧ Began s t (held changes) (held changes)
  | .done true => NothingLeft t
  | .done false => ∃ running, Ended s t running
  | _ => False

def After (s : Server α κ) (r : Server α κ × Phase α κ) : Prop := Known s r.1 r.2

theorem began_self (s : Server α κ) : Began s s [] [] :=
  ⟨rfl, rfl, rfl, fun _ _ => by simp, List.nodup_nil, nofun⟩

theorem Began.ended {s t : Server α κ} {registered running : List (α × κ)}
    (h : Began s t registered running) (hsub : registered ⊆ running) : Ended s t running where
  agents := h.agents
  row := h.row
  containers := h.containers
  registry := by
    rintro rfl a cid
    rw [h.registry, List.subset_nil.mp hsub]
    simp
  idle := fun c hc => (h.idle c hc).2

theorem Queue.skip {s : Server α κ} {skipped todo : List (α × Agent κ)}
    {changes : List (Change α κ)} (h : Queue s (skipped ++ todo) changes) :
    Queue s todo changes :=
  ⟨fun p hp => h.queued p (List.mem_append_right skipped hp), h.changed⟩

theorem known_ran {s t : Server α κ} {a : α} {loaded : Agent κ} {q : Session α κ} {cid : κ}
    (h : Known s t (.spawning a loaded q)) (hname : ∀ c ∈ t.containers, c.1 ≠ a) :
    After s (t.run a cid, .spawned a loaded cid q) := by
  obtain ⟨hnot, hqueue, hbegan⟩ := h
  have hfirst := hqueue.queued _ List.mem_cons_self
  refine ⟨hqueue, hbegan.agents, hbegan.row, congrArg _ hbegan.containers, hbegan.registry, ?_, ?_⟩
  · rw [List.map_cons, List.nodup_cons]
    refine ⟨?_, hbegan.names⟩
    intro hmem
    obtain ⟨c, hc, heq⟩ := List.mem_map.mp hmem
    exact hname c (hbegan.containers ▸ List.mem_append_left _ hc) heq
  · refine List.forall_mem_cons.mpr ⟨⟨hfirst.1, ?_⟩, hbegan.idle⟩
    rw [← hfirst.2]
    exact hnot

/-- A step leads to what is known, and only a container that comes up adds one. -/
structure Advances (s t : Server α κ) (x : Input κ) (r : Server α κ × Phase α κ) : Prop where
  known : After s r
  containers : r.1.containers = s.containers ↔ t.containers = s.containers ∧ spawns x = false

theorem advances_of_same {s t : Server α κ} {x : Input κ} {r : Server α κ × Phase α κ}
    (hknown : After s r) (hsame : r.1.containers = t.containers) (hx : spawns x = false) :
    Advances s t x r :=
  ⟨hknown, by rw [hsame, and_iff_left hx]⟩

theorem began_of_known {s t : Server α κ} {p : Phase α κ} (h : Known s t p)
    (hopen : ∀ succeeded, p ≠ .done succeeded) :
    ∃ registered running, Began s t registered running ∧ registered ⊆ running := by
  unfold Known at h
  split at h
  case h_1 => exact ⟨[], [], h.2, List.Subset.refl _⟩
  case h_2 => exact ⟨[], [], h, List.Subset.refl _⟩
  case h_3 => exact ⟨_, _, h.2.2, List.Subset.refl _⟩
  case h_4 => exact ⟨_, _, h.2.2, List.Subset.refl _⟩
  case h_5 => exact ⟨_, _, h.2.2, List.Subset.refl _⟩
  case h_6 => exact ⟨_, _, h.2, List.subset_cons_self _ _⟩
  case h_7 => exact ⟨_, _, h.2, List.Subset.refl _⟩
  case h_8 => exact ⟨_, _, h.2, List.Subset.refl _⟩
  case h_9 => exact ⟨_, _, h.2, List.Subset.refl _⟩
  case h_10 => exact absurd rfl (hopen true)
  case h_11 => exact absurd rfl (hopen false)
  case h_12 => exact h.elim

theorem nothingLeft_iff_of_ended {s t : Server α κ} (hs : NothingLeft s) {running : List (α × κ)}
    (h : Ended s t running) : NothingLeft t ↔ t.containers = s.containers := by
  constructor
  · intro ht
    cases hrunning : running with
    | nil => rw [h.containers, hrunning, List.nil_append]
    | cons c rest =>
        have hmem : c ∈ running := hrunning ▸ List.mem_cons_self
        have hrecorded := ht.containers c.1 c.2 (h.containers ▸ List.mem_append_left _ hmem)
        rw [h.row] at hrecorded
        exact absurd (congrArg Agent.status hrecorded.2) (h.idle c hmem)
  · intro hsame
    have hnil : running = [] := by
      have hlength := congrArg List.length (h.containers.symm.trans hsame)
      simpa using hlength
    have hcontainers : ∀ a cid, (a, cid) ∈ t.containers →
        a ∈ t.agents ∧ t.row a = { status := .alive, container_id := some cid } := by
      rw [hsame, h.agents, h.row]
      exact hs.containers
    refine ⟨hcontainers, ?_, startable_of_containers hcontainers⟩
    rw [h.agents, h.row]
    intro a cid
    rw [h.registry hnil, hs.registry]

theorem advances_ran {s t : Server α κ} {a : α} {loaded : Agent κ} {q : Session α κ} {cid : κ}
    (h : Known s t (.spawning a loaded q)) (hname : ∀ c ∈ t.containers, c.1 ≠ a) :
    Advances s t (.container cid) (t.run a cid, .spawned a loaded cid q) := by
  refine ⟨known_ran h hname, iff_of_false ?_ ?_⟩
  · intro heq
    have hlength := congrArg List.length heq
    change (t.containers.length + 1) = s.containers.length at hlength
    rw [h.2.2.containers, List.length_append] at hlength
    omega
  · rintro ⟨-, hx⟩
    cases hx

section

variable [DecidableEq α]

theorem known_fail {s t : Server α κ} {registered running : List (α × κ)}
    (h : Began s t registered running) (hsub : registered ⊆ running) (locks : List α) :
    After s (fail t locks) := by
  have hended := h.ended hsub
  exact ⟨running, hended.agents, hended.row, hended.containers, hended.registry, hended.idle⟩

theorem known_next {s t : Server α κ} {todo : List (α × Agent κ)} {changes : List (Change α κ)}
    {r : Server α κ × Phase α κ} (hqueue : Queue s todo changes)
    (hbegan : Began s t (held changes) (held changes)) (hr : Next t changes .start todo r) :
    After s r := by
  cases hr with
  | ended _ _ hskip => exact ⟨⟨nofun, hqueue.changed⟩, hbegan⟩
  | counted skipped todo a loaded hskip hnot haccepting => exact ⟨hnot, hqueue.skip, hbegan⟩
  | refused _ haccepting => exact known_fail hbegan (List.Subset.refl _) _

theorem registry_put {s : Server α κ} (hs : NothingLeft s) {t : Server α κ} {a : α} {cid : κ}
    {running : List (α × κ)} (h : Began s t running ((a, cid) :: running)) (b : α) (cid' : κ) :
    (t.put a cid).registry b = some cid' ↔
      (b, cid') ∈ (a, cid) :: running ∨ s.registry b = some cid' := by
  by_cases hb : b = a
  · subst hb
    have hnone : s.registry b ≠ some cid' := by
      intro hsome
      have halive := congrArg Agent.status ((hs.registry b cid').mp hsome).2
      exact (h.idle (b, cid) List.mem_cons_self).2 halive
    have hnew : (b, cid') ∉ running := by
      intro hmem
      exact (List.nodup_cons.mp h.names).1 (List.mem_map.mpr ⟨_, hmem, rfl⟩)
    have hput : (t.put b cid).registry b = some cid := Function.update_self ..
    rw [hput]
    simp [hnone, hnew, eq_comm]
  · have hput : (t.put a cid).registry b = t.registry b := Function.update_of_ne hb ..
    rw [hput, h.registry]
    simp [hb]

theorem known_put {s : Server α κ} (hs : NothingLeft s) {t : Server α κ} {a : α}
    {loaded : Agent κ} {cid : κ} {q : Session α κ} (h : Known s t (.spawned a loaded cid q)) :
    After s (t.put a cid, .waiting a loaded cid q) :=
  ⟨h.1, h.2.agents, h.2.row, h.2.containers, registry_put hs h.2, h.2.names, h.2.idle⟩

theorem known_unhealthy {s t : Server α κ} {a : α} {loaded : Agent κ} {cid : κ}
    {q : Session α κ} (h : Known s t (.waiting a loaded cid q)) (locks : List α) :
    After s (fail (t.remove a) locks) := by
  have hended := h.2.ended (List.Subset.refl _)
  exact ⟨_, hended.agents, hended.row, hended.containers, nofun, hended.idle⟩

theorem known_posted {s t : Server α κ} {a : α} {loaded : Agent κ} {cid : κ} {q : Session α κ}
    (h : Known s t (.posting a loaded cid q)) : After s (started t a loaded cid q) := by
  obtain ⟨hqueue, hbegan⟩ := h
  refine known_next ?_ hbegan (started_spec t a loaded cid q)
  have hfirst := hqueue.queued _ List.mem_cons_self
  exact ⟨fun p hp => hqueue.queued p (.tail _ hp),
    List.forall_mem_cons.mpr ⟨⟨hfirst.2, cid, rfl⟩, hqueue.changed⟩⟩

theorem known_selected {s t : Server α κ} {op : Op α} {a : α} (ha : a ∈ t.agents)
    (h : Known s t (.selecting op a)) : After s (selected t op a) := by
  obtain ⟨⟨b, rfl⟩, hbegan⟩ := h
  unfold selected
  dsimp only
  split
  next => exact ⟨⟨nofun, nofun⟩, hbegan⟩
  next hnot =>
      refine ⟨hnot, ⟨?_, nofun⟩, hbegan⟩
      intro p hp
      cases List.mem_singleton.mp hp
      exact ⟨hbegan.agents ▸ ha, congrFun hbegan.row a⟩

theorem known_listed {s t : Server α κ} (h : Known s t (.listing .start)) :
    After s (next .start t (t.agents.map fun a => (a, t.row a)) []) := by
  have hbegan : Began s t (held []) (held []) := h
  refine known_next ?_ hbegan (next_spec _ _ _ _)
  refine ⟨?_, nofun⟩
  intro p hp
  obtain ⟨a, ha, rfl⟩ := List.mem_map.mp hp
  exact ⟨hbegan.agents ▸ ha, congrFun hbegan.row a⟩

theorem containers_selected {s t : Server α κ} {op : Op α} {a : α}
    (h : Known s t (.selecting op a)) : (selected t op a).1 = t := by
  obtain ⟨⟨b, rfl⟩, -⟩ := h
  unfold selected
  dsimp only
  split <;> rfl

theorem known_locked {s t : Server α κ} {job : Job} {a : α} {loaded : Agent κ} {q : Session α κ}
    (h : Known s t (.locking job a loaded q)) :
    After s (flushed (t.lock a) job a loaded q) ∧
      (flushed (t.lock a) job a loaded q).1.containers = t.containers := by
  cases job with
  | start =>
      obtain ⟨hnot, hqueue, hbegan⟩ := h
      exact ⟨⟨hnot, hqueue, hbegan.agents, hbegan.row, hbegan.containers, hbegan.registry,
        hbegan.names, hbegan.idle⟩, rfl⟩
  | stop => exact h.elim

theorem known_call {s : Server α κ} {op : Op α} (hop : starting op = true) :
    After s (call op s) ∧ (call op s).1.containers = s.containers := by
  cases op with
  | start a =>
      unfold call
      dsimp only
      split
      next => exact ⟨⟨⟨a, rfl⟩, began_self s⟩, rfl⟩
      next => exact ⟨known_fail (began_self s) (List.Subset.refl _) _, rfl⟩
  | start_all => exact ⟨began_self s, rfl⟩
  | create b => cases hop
  | delete b => cases hop
  | stop b => cases hop
  | stop_all => cases hop
  | drain => cases hop
  | halt => cases hop
  | push_status b => cases hop

theorem known_failed {s t : Server α κ} {p : Phase α κ} (h : Known s t p)
    (hopen : ∀ succeeded, p ≠ .done succeeded) : After s (fail t p.locks) := by
  obtain ⟨registered, running, hbegan, hsub⟩ := began_of_known h hopen
  exact known_fail hbegan hsub _

theorem containers_next {s : Server α κ} {job : Job} {todo : List (α × Agent κ)}
    {changes : List (Change α κ)} : (next job s todo changes).1.containers = s.containers := by
  obtain ⟨locked, hserver⟩ := (next_spec job s todo changes).server
  rw [hserver]

variable [DecidableEq κ]

/-- What the rows say once the request has committed. -/
theorem recorded_iff {s t : Server α κ} {changes : List (Change α κ)}
    (hqueue : Queue s [] changes) (hbegan : Began s t (held changes) (held changes)) (a : α)
    (cid : κ) :
    (a ∈ s.agents ∧ t.view changes a = { status := .alive, container_id := some cid }) ↔
      (a, cid) ∈ held changes ∨
        (a ∈ s.agents ∧ s.row a = { status := .alive, container_id := some cid }) := by
  have hchange : ∀ c ∈ changes, c.agent = a →
      ∃ cid', (a, cid') ∈ held changes ∧
        c.write (t.row a) = { status := .alive, container_id := some cid' } := by
    rintro c hc rfl
    obtain ⟨hloaded, cid', hassigned⟩ := hqueue.changed c hc
    refine ⟨cid', mem_held_iff.mpr ⟨c, hc, rfl, by rw [hassigned]⟩, ?_⟩
    rw [write_of_loaded (hloaded.trans (congrFun hbegan.row _).symm), hassigned]
  constructor
  · rintro ⟨ha, hview⟩
    rcases view_cases t changes a with ⟨-, heq⟩ | ⟨c, hc, hagent, heq⟩
    · exact .inr ⟨ha, (congrFun hbegan.row a).symm.trans (heq.symm.trans hview)⟩
    · obtain ⟨cid', hheld, hwrite⟩ := hchange c hc hagent
      have hid := congrArg Agent.container_id (hwrite.symm.trans (heq.symm.trans hview))
      cases Option.some.inj hid
      exact .inl hheld
  · rintro (hheld | ⟨ha, hrow⟩)
    · refine ⟨(hbegan.idle _ hheld).1, ?_⟩
      obtain ⟨c₀, hc₀, hagent₀, -⟩ := mem_held_iff.mp hheld
      rcases view_cases t changes a with ⟨hnot, -⟩ | ⟨c, hc, hagent, heq⟩
      · exact absurd (List.mem_map.mpr ⟨c₀, hc₀, hagent₀⟩) hnot
      · obtain ⟨cid', hheld', hwrite⟩ := hchange c hc hagent
        have hsame : (a, cid) = (a, cid') :=
          List.inj_on_of_nodup_map hbegan.names hheld hheld' rfl
        rw [heq, hwrite, (Prod.mk.inj hsame).2]
    · refine ⟨ha, ?_⟩
      rcases view_cases t changes a with ⟨-, heq⟩ | ⟨c, hc, hagent, -⟩
      · rw [heq, hbegan.row, hrow]
      · obtain ⟨cid', hheld', -⟩ := hchange c hc hagent
        exact absurd (congrArg Agent.status hrow) (hbegan.idle _ hheld').2

theorem known_committed {s t : Server α κ} (hs : NothingLeft s) {changes : List (Change α κ)}
    (h : Known s t (.committing changes)) : NothingLeft (t.commit changes) := by
  obtain ⟨hqueue, hbegan⟩ := h
  have hrecorded (a : α) (cid : κ) : (a ∈ (t.commit changes).agents ∧
      (t.commit changes).row a = { status := .alive, container_id := some cid }) ↔
        (a, cid) ∈ held changes ∨
          (a ∈ s.agents ∧ s.row a = { status := .alive, container_id := some cid }) := by
    rw [← recorded_iff hqueue hbegan a cid, ← hbegan.agents]
    exact Iff.rfl
  have hcontainers : ∀ a cid, (a, cid) ∈ (t.commit changes).containers →
      a ∈ (t.commit changes).agents ∧
        (t.commit changes).row a = { status := .alive, container_id := some cid } := by
    intro a cid hmem
    change (a, cid) ∈ t.containers at hmem
    rw [hbegan.containers, List.mem_append] at hmem
    exact (hrecorded a cid).mpr (hmem.imp_right (hs.containers a cid))
  refine ⟨hcontainers, ?_, startable_of_containers hcontainers⟩
  intro a cid
  rw [hrecorded, ← hs.registry]
  exact hbegan.registry a cid

/-- One step of the only request on the server. -/
def step (max_agents : ℕ) (r : Server α κ × Phase α κ) (x : Input κ) :
    Option (Server α κ × Phase α κ) :=
  resume max_agents r.1 r.2 x

theorem advances_resumed {max_agents : ℕ} {s t : Server α κ} (hs : NothingLeft s)
    {p : Phase α κ} {x : Input κ} {r : Server α κ × Phase α κ} (hknown : Known s t p)
    (h : Resumed max_agents t p x r) : Advances s t x r := by
  cases h with
  | refused _ hopen => exact advances_of_same (known_failed hknown hopen) rfl rfl
  | raised _ hopen => exact advances_of_same (known_failed hknown hopen) rfl rfl
  | selected op a ha =>
      have hserver := containers_selected hknown
      exact advances_of_same (known_selected ha hknown) (congrArg Server.containers hserver) rfl
  | listed job =>
      cases job with
      | start => exact advances_of_same (known_listed hknown) containers_next rfl
      | stop => exact hknown.elim
  | counted a loaded q hroom => exact advances_of_same hknown rfl rfl
  | locked job a loaded q ha hfree =>
      obtain ⟨hafter, hcontainers⟩ := known_locked hknown
      exact advances_of_same hafter hcontainers rfl
  | ran a loaded q cid hname hfresh => exact advances_ran hknown hname
  | put a loaded cid q => exact advances_of_same (known_put hs hknown) rfl rfl
  | healthy a loaded cid q => exact advances_of_same hknown rfl rfl
  | unhealthy a loaded cid q => exact advances_of_same (known_unhealthy hknown _) rfl rfl
  | posted a loaded cid q => exact advances_of_same (known_posted hknown) containers_next rfl
  | killed a loaded cid q => exact hknown.elim
  | not_found a loaded cid q => exact hknown.elim
  | kill_raised a loaded cid q => exact hknown.elim
  | removed a loaded q => exact hknown.elim
  | committed changes => exact advances_of_same (known_committed hs hknown) rfl rfl
  | pushed a loaded ha hfree => exact hknown.elim
  | deleted a hfree => exact hknown.elim
  | inserted a ha => exact hknown.elim

end

/-- Two agents, both stopped, and nothing else. -/
def idle_server : Server ℕ ℕ where
  agents := [0, 1]
  row := fun _ => { status := .stopped, container_id := none }
  locked := fun _ => false
  registry := fun _ => none
  containers := []
  spawned := []
  accepting_starts := true

theorem idle_server_nothingLeft : NothingLeft idle_server where
  containers := nofun
  registry := by
    intro a cid
    refine iff_of_false nofun ?_
    rintro ⟨-, hrow⟩
    cases congrArg Agent.status hrow
  startable := fun _ _ _ => nofun

end ArticTrader.AgentFailures
