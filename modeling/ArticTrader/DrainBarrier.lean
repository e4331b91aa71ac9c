import Mathlib.Data.List.Nodup
import ArticTrader.AgentQuota

/-!
A drain or a halt of a user server among starts that are called before and during it:
whether anything is left running when it has returned.
-/

namespace ArticTrader.DrainBarrier

open ArticTrader.AgentService
open ArticTrader.AgentQuota
open ArticTrader.ConcurrentCalls
open ArticTrader.LabelledRuns

variable {ι α κ : Type*}

def Alive (s : Server α κ) (a : α) : Prop := a ∈ s.agents ∧ (s.row a).status = .alive

/-- Where a stop of the agent would look up the container, it finds this one. -/
def Knows (s : Server α κ) (a : α) (cid : κ) : Prop :=
  (s.registry a <|> (s.row a).container_id) = some cid

/-- No request has been called, and the containers of alive agents are recorded. -/
structure Ready (s : State ι α κ) : Prop where
  names : (s.shared.containers.map Prod.fst).Nodup
  ids : (s.shared.containers.map Prod.snd).Nodup
  issued : ∀ c ∈ s.shared.containers, c.2 ∈ s.shared.spawned
  knows : ∀ c ∈ s.shared.containers, Alive s.shared c.1 → Knows s.shared c.1 c.2
  calls : ∀ i, s.calls i = .done false

/-- The drain has read the agents, and has not failed since. -/
def barred : Phase α κ → Bool
  | .locking .stop _ _ _ | .removing _ _ _ _ | .removed _ _ _ | .committing _ | .done true => true
  | _ => false

/-- Only starts are called, and not as the call `d`. -/
def Others (d : ι) : Event ι α κ → Prop
  | .call i op => i ≠ d ∧ starting op = true
  | .input _ _ => True

/-- The list of the agents is read that are to be stopped. -/
def lists : Phase α κ → Bool
  | .listing .stop => true
  | _ => false

/-- The container that docker is asked to stop. -/
def wanted : Phase α κ → Option κ
  | .removing _ _ cid _ => some cid
  | _ => none

/-- When the agents are read that are to be stopped, every container is of an agent whose
committed row says alive. -/
def AllRecorded (s : Server α κ) (p : Phase α κ) (x : Input κ) : Prop :=
  lists p = true → x = .go → ∀ c ∈ s.containers, Alive s c.1

/-- Docker finds the containers there are. -/
def Found (s : Server α κ) (p : Phase α κ) (x : Input κ) : Prop :=
  x = .not_found → ∀ cid ∈ wanted p, ∀ c ∈ s.containers, c.2 ≠ cid

def spawns : Input κ → Bool
  | .container _ => true
  | _ => false

/-- The drain reads the agents while every container is recorded, no container comes up
after that, and docker finds what it is to stop. -/
def Barrier [DecidableEq ι] (d : ι) (s : State ι α κ) : Event ι α κ → Prop
  | .call _ _ => True
  | .input i x =>
      if i = d then AllRecorded s.shared (s.calls d) x ∧ Found s.shared (s.calls d) x
      else spawns x = true → barred (s.calls d) = false

instance [DecidableEq ι] (d : ι) : DecidablePred (Others (α := α) (κ := κ) d)
  | .call i op => inferInstanceAs (Decidable (i ≠ d ∧ starting op = true))
  | .input _ _ => inferInstanceAs (Decidable True)

section

variable [DecidableEq α]

instance (s : Server α κ) : DecidablePred (Alive s) :=
  fun _ => inferInstanceAs (Decidable (_ ∧ _))

variable [DecidableEq κ]

instance (s : Server α κ) (p : Phase α κ) : DecidablePred (AllRecorded s p) :=
  fun _ => inferInstanceAs (Decidable (_ → _ → _))

instance (s : Server α κ) (p : Phase α κ) : DecidablePred (Found s p) :=
  fun _ => inferInstanceAs (Decidable (_ → ∀ cid ∈ wanted p, _))

instance [DecidableEq ι] (d : ι) (s : State ι α κ) : DecidablePred (Barrier d s)
  | .call _ _ => inferInstanceAs (Decidable True)
  | .input i _ => inferInstanceAs (Decidable (if i = d then _ ∧ _ else _ → _))

end

/-- The containers of a start that the registry holds and no commit has recorded. -/
def registered : Phase α κ → List (α × κ)
  | .spawned _ _ _ q => held q.changes
  | p => p.running

/-- The agents a start has still to start, as it loaded them. -/
def pending : Phase α κ → List (α × Agent κ)
  | .counting a loaded q | .locking _ a loaded q | .spawning a loaded q => (a, loaded) :: q.todo
  | .spawned _ _ _ q | .waiting _ _ _ q | .posting _ _ _ q => q.todo
  | _ => []

def Started (changes : List (Change α κ)) : Prop :=
  ∀ c ∈ changes, ∃ cid, c.assigned = { status := .alive, container_id := some cid }

/-- The requests that start agents, and what they are to write. -/
def Starts : Phase α κ → Prop
  | .selecting op _ => ∃ b, op = .start b
  | .listing job => job = .start
  | .counting _ loaded q | .locking .start _ loaded q | .spawning _ loaded q =>
      loaded.status ≠ .alive ∧ Started q.changes
  | .spawned _ _ _ q | .waiting _ _ _ q | .posting _ _ _ q => Started q.changes
  | .committing changes => Started changes
  | .done _ => True
  | _ => False

/-- Only a start could have made an agent alive that was not when it was loaded. -/
def Fresh (s : Server α κ) (todo : List (α × Agent κ)) : Prop :=
  ∀ p ∈ todo, p.2.status ≠ .alive → Alive s p.1 → Named s p.1

theorem exists_held {changes : List (Change α κ)} (h : Started changes) {c : Change α κ}
    (hc : c ∈ changes) : ∃ cid, (c.agent, cid) ∈ held changes := by
  obtain ⟨cid, hassigned⟩ := h c hc
  exact ⟨cid, mem_held_iff.mpr ⟨c, hc, rfl, by rw [hassigned]⟩⟩

theorem changes_eq_nil {changes : List (Change α κ)} (h : Started changes)
    (hheld : held changes = []) : changes = [] := by
  cases changes with
  | nil => rfl
  | cons c rest =>
      obtain ⟨cid, hmem⟩ := exists_held h List.mem_cons_self
      rw [hheld] at hmem
      cases hmem

theorem Fresh.skip {s : Server α κ} {skipped todo : List (α × Agent κ)}
    (h : Fresh s (skipped ++ todo)) : Fresh s todo :=
  fun p hp => h p (List.mem_append_right skipped hp)

theorem fresh_nil (s : Server α κ) : Fresh s [] := nofun

theorem fresh_listed (s : Server α κ) : Fresh s (s.agents.map fun a => (a, s.row a)) := by
  intro p hp hnot halive
  obtain ⟨a, -, rfl⟩ := List.mem_map.mp hp
  exact absurd halive.2 hnot

/-- What a step of a start does to the server. -/
inductive Effect [DecidableEq α] [DecidableEq κ] (s : Server α κ) (p : Phase α κ) (x : Input κ) :
    Server α κ × Phase α κ → Prop
  | same (locked : α → Bool) (p' : Phase α κ) (hrunning : p'.running ⊆ p.running)
      (hregistered : registered p' ⊆ registered p)
      (hpending : Fresh s (pending p) → Fresh s (pending p')) :
      Effect s p x ({ s with locked }, p')
  | ran (a : α) (loaded : Agent κ) (q : Session α κ) (cid : κ)
      (hp : p = .spawning a loaded q) (hx : spawns x = true)
      (hname : ∀ c ∈ s.containers, c.1 ≠ a) (hfresh : cid ∉ s.spawned) :
      Effect s p x (s.run a cid, .spawned a loaded cid q)
  | put (a : α) (loaded : Agent κ) (cid : κ) (q : Session α κ)
      (hp : p = .spawned a loaded cid q) : Effect s p x (s.put a cid, .waiting a loaded cid q)
  | unhealthy (a : α) (loaded : Agent κ) (cid : κ) (q : Session α κ)
      (hp : p = .waiting a loaded cid q) :
      Effect s p x (fail (s.remove a) (a :: q.locks))
  | committed (c : Change α κ) (changes : List (Change α κ)) (hp : p = .committing (c :: changes)) :
      Effect s p x (s.commit (c :: changes), .done true)

section

variable [DecidableEq α] [DecidableEq κ] {max_agents : ℕ} {s : Server α κ} {p : Phase α κ}
  {x : Input κ} {r : Server α κ × Phase α κ}

theorem effect_fail (locks : List α) : Effect s p x (fail s locks) :=
  .same _ _ (List.nil_subset _) (List.nil_subset _) fun _ => fresh_nil s

theorem effect_next {changes : List (Change α κ)} {todo : List (α × Agent κ)}
    (hr : Next s changes .start todo r) (hheld : held changes ⊆ p.running)
    (hregistered : held changes ⊆ registered p) (hpending : Fresh s (pending p) → Fresh s todo) :
    Effect s p x r := by
  cases hr with
  | ended _ _ hskip => exact .same _ _ hheld hregistered fun _ => fresh_nil s
  | counted skipped todo a loaded hskip hnot haccepting =>
      exact .same _ _ hheld hregistered fun h => (hpending h).skip
  | refused _ haccepting => exact effect_fail _

omit [DecidableEq κ] in
theorem starts_next {changes : List (Change α κ)} {todo : List (α × Agent κ)}
    (hr : Next s changes .start todo r) (h : Started changes) : Starts r.2 := by
  cases hr with
  | ended _ _ hskip => exact h
  | counted skipped todo a loaded hskip hnot haccepting => exact ⟨hnot, h⟩
  | refused _ haccepting => trivial

theorem effect_selected {a : α} {op : Op α}
    (h : Starts (.selecting op a : Phase α κ)) :
    Effect s (.selecting op a) x (selected s op a) ∧ Starts (selected s op a).2 := by
  obtain ⟨b, rfl⟩ := h
  unfold selected
  dsimp only
  split
  next => exact ⟨.same _ _ (List.nil_subset _) (List.nil_subset _) fun _ => fresh_nil s, nofun⟩
  next hnot =>
      refine ⟨.same _ _ (List.nil_subset _) (List.nil_subset _) ?_, hnot, nofun⟩
      intro _ p hp _ halive
      cases List.mem_singleton.mp hp
      exact absurd halive.2 hnot

/-- The steps of a start. -/
theorem effect_resumed (hstarts : Starts p) (h : Resumed max_agents s p x r) :
    Effect s p x r ∧ Starts r.2 := by
  cases h with
  | refused => exact ⟨effect_fail _, trivial⟩
  | raised => exact ⟨effect_fail _, trivial⟩
  | selected op a ha => exact effect_selected hstarts
  | listed job =>
      cases (hstarts : job = .start)
      have hnext := next_spec .start s (s.agents.map fun a => (a, s.row a)) []
      exact ⟨effect_next hnext (List.nil_subset _) (List.nil_subset _) fun _ => fresh_listed s,
        starts_next hnext nofun⟩
  | counted a loaded q hroom =>
      exact ⟨.same _ _ (List.Subset.refl _) (List.Subset.refl _) id, hstarts⟩
  | locked job a loaded q ha hfree =>
      cases job with
      | start => exact ⟨.same _ _ (List.Subset.refl _) (List.Subset.refl _) id, hstarts⟩
      | stop => exact hstarts.elim
  | ran a loaded q cid hname hfresh =>
      exact ⟨.ran a loaded q cid rfl rfl hname hfresh, hstarts.2⟩
  | put a loaded cid q => exact ⟨.put a loaded cid q rfl, hstarts⟩
  | healthy a loaded cid q =>
      exact ⟨.same _ _ (List.Subset.refl _) (List.Subset.refl _) id, hstarts⟩
  | unhealthy a loaded cid q => exact ⟨.unhealthy a loaded cid q rfl, trivial⟩
  | posted a loaded cid q =>
      have hnext := started_spec s a loaded cid q
      refine ⟨effect_next hnext (List.Subset.refl _) (List.Subset.refl _) id, ?_⟩
      exact starts_next hnext (List.forall_mem_cons.mpr ⟨⟨cid, rfl⟩, hstarts⟩)
  | killed a loaded cid q => exact hstarts.elim
  | not_found a loaded cid q => exact hstarts.elim
  | kill_raised a loaded cid q => exact hstarts.elim
  | removed a loaded q => exact hstarts.elim
  | committed changes =>
      cases changes with
      | nil => exact ⟨.same _ _ (List.nil_subset _) (List.nil_subset _) id, trivial⟩
      | cons c changes => exact ⟨.committed c changes rfl, trivial⟩
  | pushed a loaded ha hfree => exact hstarts.elim
  | deleted a hfree => exact hstarts.elim
  | inserted a ha => exact hstarts.elim

end

/-- What is known of a start, whose containers are not recorded yet. -/
structure Call (s : Server α κ) (p : Phase α κ) : Prop where
  starts : Starts p
  running : ∀ c ∈ p.running, c ∈ s.containers ∧ ¬ Alive s c.1
  noted : ∀ c ∈ registered p, s.registry c.1 = some c.2

/-- What the drain has still to stop and what it is to write. -/
structure Sweep (agents : List α) (row : α → Agent κ) (todo : List (α × Agent κ))
    (changes : List (Change α κ)) : Prop where
  loaded : ∀ p ∈ todo, p.2 = row p.1
  changed : ∀ c ∈ changes, c.loaded = row c.agent ∧
    c.assigned = { status := .stopped, container_id := none }
  covers : ∀ a ∈ agents, (row a).status = .alive →
    a ∈ todo.map Prod.fst ∨ a ∈ changes.map Change.agent

/-- What is known of the drain: the containers that are left are those it is to stop. -/
def Drains (s : Server α κ) : Phase α κ → Prop
  | .listing job => job = .stop
  | .locking .stop a loaded q =>
      Sweep s.agents s.row ((a, loaded) :: q.todo) q.changes ∧
        ∀ c ∈ s.containers, Alive s c.1 ∧ c.1 ∈ a :: q.todo.map Prod.fst
  | .removing a loaded cid q =>
      Sweep s.agents s.row ((a, loaded) :: q.todo) q.changes ∧
        ∀ c ∈ s.containers, Alive s c.1 ∧ (c = (a, cid) ∨ c.1 ≠ a ∧ c.1 ∈ q.todo.map Prod.fst)
  | .removed a loaded q =>
      Sweep s.agents s.row ((a, loaded) :: q.todo) q.changes ∧
        ∀ c ∈ s.containers, Alive s c.1 ∧ (c.1 ≠ a ∧ c.1 ∈ q.todo.map Prod.fst)
  | .committing changes => Sweep s.agents s.row [] changes ∧ s.containers = []
  | .done true => (∀ a, ¬ Alive s a) ∧ s.containers = []
  | .done false => True
  | _ => False

structure Kept (d : ι) (s : State ι α κ) : Prop where
  names : (s.shared.containers.map Prod.fst).Nodup
  ids : (s.shared.containers.map Prod.snd).Nodup
  issued : ∀ c ∈ s.shared.containers, c.2 ∈ s.shared.spawned
  knows : ∀ c ∈ s.shared.containers, Alive s.shared c.1 → Knows s.shared c.1 c.2
  calls : ∀ j, j ≠ d → Call s.shared (s.calls j)
  disjoint : ∀ j k, j ≠ d → k ≠ d → ∀ c ∈ (s.calls j).running, ∀ c' ∈ (s.calls k).running,
    c.1 = c'.1 → j = k
  fresh : barred (s.calls d) = false → ∀ j, j ≠ d → Fresh s.shared (pending (s.calls j))
  drains : Drains s.shared (s.calls d)
  quiet : barred (s.calls d) = true → ∀ j, j ≠ d → (s.calls j).running = []

theorem registered_subset (p : Phase α κ) : registered p ⊆ p.running := by
  cases p with
  | spawned a loaded cid q => exact List.subset_cons_self _ _
  | _ => exact List.Subset.refl _

theorem Call.mono {s s' : Server α κ} {p : Phase α κ} (h : Call s p)
    (hcontainers : ∀ c ∈ p.running, c ∈ s'.containers)
    (halive : ∀ c ∈ p.running, Alive s' c.1 → Alive s c.1)
    (hregistry : ∀ c ∈ registered p, s'.registry c.1 = s.registry c.1) : Call s' p where
  starts := h.starts
  running := fun c hc => ⟨hcontainers c hc, fun ha => (h.running c hc).2 (halive c hc ha)⟩
  noted := fun c hc => (hregistry c hc).trans (h.noted c hc)

theorem Call.of_quiet {s s' : Server α κ} {p : Phase α κ} (h : Call s p)
    (hquiet : p.running = []) : Call s' p where
  starts := h.starts
  running := by simp [hquiet]
  noted := by
    intro c hc
    have hmem := registered_subset p hc
    rw [hquiet] at hmem
    cases hmem

theorem Fresh.mono {s s' : Server α κ} {todo : List (α × Agent κ)} (h : Fresh s todo)
    (halive : ∀ a, Alive s' a → Alive s a ∨ Named s' a)
    (hnamed : ∀ a, Named s a → Named s' a) : Fresh s' todo := by
  intro p hp hnot ha
  rcases halive p.1 ha with hbefore | hafter
  · exact hnamed _ (h p hp hnot hbefore)
  · exact hafter

theorem drains_of_not_barred {s s' : Server α κ} {p : Phase α κ} (hnot : barred p = false)
    (h : Drains s p) : Drains s' p := by
  cases p with
  | listing job => exact h
  | locking job a loaded q =>
      cases job with
      | start => exact h.elim
      | stop => cases hnot
  | done succeeded =>
      cases succeeded with
      | true => cases hnot
      | false => trivial
  | removing a loaded cid q => cases hnot
  | removed a loaded q => cases hnot
  | committing changes => cases hnot
  | selecting op a => exact h.elim
  | counting a loaded q => exact h.elim
  | spawning a loaded q => exact h.elim
  | spawned a loaded cid q => exact h.elim
  | waiting a loaded cid q => exact h.elim
  | posting a loaded cid q => exact h.elim
  | pushing a loaded => exact h.elim
  | deleting a => exact h.elim
  | inserting a => exact h.elim

theorem Ready.kept {s : State ι α κ} (h : Ready s) (d : ι) : Kept d s where
  names := h.names
  ids := h.ids
  issued := h.issued
  knows := h.knows
  calls := by
    intro j _
    rw [h.calls j]
    exact ⟨trivial, nofun, nofun⟩
  disjoint := by
    intro j k _ _ c hc
    rw [h.calls j] at hc
    cases hc
  fresh := by
    intro _ j _
    rw [h.calls j]
    exact fresh_nil _
  drains := by
    rw [h.calls d]
    trivial
  quiet := by
    rw [h.calls d]
    nofun

theorem mem_running_unique {s : State ι α κ} {d : ι} (h : Kept d s) {c c' : α × κ}
    (hc : c ∈ s.shared.containers) (hc' : c' ∈ s.shared.containers) (heq : c.1 = c'.1) :
    c' = c :=
  List.inj_on_of_nodup_map h.names hc' hc heq.symm

/-- The others' containers are of other agents. -/
theorem ne_of_running {s : State ι α κ} {d i : ι} (h : Kept d s) (hi : i ≠ d) {j : ι}
    (hj : j ≠ d) (hji : j ≠ i) :
    ∀ c ∈ (s.calls i).running, ∀ c' ∈ (s.calls j).running, c.1 ≠ c'.1 := by
  intro c hc c' hc' heq
  exact hji (h.disjoint i j hi hj c hc c' hc' heq).symm

theorem not_barred {s : State ι α κ} {d i : ι} (h : Kept d s) (hi : i ≠ d)
    (hne : (s.calls i).running ≠ []) : barred (s.calls d) = false := by
  rw [← Bool.not_eq_true]
  intro hbarred
  exact hne (h.quiet hbarred i hi)

theorem Sweep.stopped {agents : List α} {row : α → Agent κ} {a : α} {loaded : Agent κ}
    {todo : List (α × Agent κ)} {changes : List (Change α κ)}
    (h : Sweep agents row ((a, loaded) :: todo) changes) :
    Sweep agents row todo
      (⟨a, loaded, { status := .stopped, container_id := none }⟩ :: changes) where
  loaded := fun p hp => h.loaded p (List.mem_cons_of_mem _ hp)
  changed := List.forall_mem_cons.mpr ⟨⟨h.loaded _ List.mem_cons_self, rfl⟩, h.changed⟩
  covers := by
    intro b hb hrow
    rcases h.covers b hb hrow with htodo | hchanged
    · rcases List.mem_cons.mp htodo with rfl | htodo
      · exact .inr List.mem_cons_self
      · exact .inl htodo
    · exact .inr (List.mem_cons_of_mem _ hchanged)

section

variable [DecidableEq α]

/-- What the loop of a stop comes to. -/
theorem drains_next {server : Server α κ} {changes : List (Change α κ)}
    {todo : List (α × Agent κ)} {r : Server α κ × Phase α κ}
    (hr : Next server changes .stop todo r)
    (hsweep : Sweep server.agents server.row todo changes)
    (hleft : ∀ c ∈ server.containers, Alive server c.1 ∧ c.1 ∈ todo.map Prod.fst) :
    r.1 = server ∧ Drains r.1 r.2 ∧ barred r.2 = true := by
  have halive : ∀ p ∈ todo, Skips .stop p.2 → (server.row p.1).status ≠ .alive := by
    intro p hp hskip
    rw [← hsweep.loaded p hp]
    rcases hskip with hstopped | hstopping
    · rw [hstopped]
      decide
    · rw [hstopping]
      decide
  cases hr with
  | ended _ _ hskip =>
      refine ⟨rfl, ⟨⟨nofun, hsweep.changed, ?_⟩, ?_⟩, rfl⟩
      · intro a ha hrow
        rcases hsweep.covers a ha hrow with htodo | hchanged
        · obtain ⟨p, hp, rfl⟩ := List.mem_map.mp htodo
          exact absurd hrow (halive p hp (hskip p hp))
        · exact .inr hchanged
      · refine List.eq_nil_iff_forall_not_mem.mpr ?_
        intro c hc
        obtain ⟨hlive, htodo⟩ := hleft c hc
        obtain ⟨p, hp, heq⟩ := List.mem_map.mp htodo
        exact halive p hp (hskip p hp) (heq ▸ hlive.2)
  | locked skipped todo a loaded hskip hnot =>
      have hlater : ∀ b, (server.row b).status = .alive →
          b ∈ (skipped ++ (a, loaded) :: todo).map Prod.fst → b ∈ a :: todo.map Prod.fst := by
        intro b hrow hmem
        obtain ⟨p, hp, rfl⟩ := List.mem_map.mp hmem
        rcases List.mem_append.mp hp with hskipped | htodo
        · exact absurd hrow (halive p hp (hskip p hskipped))
        · exact List.mem_map_of_mem (f := Prod.fst) htodo
      refine ⟨rfl, ⟨⟨?_, hsweep.changed, ?_⟩, ?_⟩, rfl⟩
      · intro p hp
        exact hsweep.loaded p (List.mem_append_right _ hp)
      · intro b hb hrow
        exact (hsweep.covers b hb hrow).imp_left (hlater b hrow)
      · intro c hc
        obtain ⟨hlive, htodo⟩ := hleft c hc
        exact ⟨hlive, hlater c.1 hlive.2 htodo⟩

theorem drains_stopped {s : Server α κ} {a : α} {loaded : Agent κ} {q : Session α κ}
    (hsweep : Sweep s.agents s.row ((a, loaded) :: q.todo) q.changes)
    (hleft : ∀ c ∈ s.containers, Alive s c.1 ∧ c.1 ≠ a ∧ c.1 ∈ q.todo.map Prod.fst) :
    (stopped s a loaded q).1 = s.remove a ∧
      Drains (stopped s a loaded q).1 (stopped s a loaded q).2 ∧
      barred (stopped s a loaded q).2 = true :=
  drains_next (stopped_spec s a loaded q) hsweep.stopped
    fun c hc => ⟨(hleft c hc).1, (hleft c hc).2.2⟩

/-- The containers that are left are known after an agent without one is removed from
the registry. -/
theorem knows_remove {s : Server α κ} {a : α}
    (hknows : ∀ c ∈ s.containers, Alive s c.1 → Knows s c.1 c.2)
    (hne : ∀ c ∈ s.containers, c.1 ≠ a) :
    ∀ c ∈ (s.remove a).containers, Alive (s.remove a) c.1 →
      Knows (s.remove a) c.1 c.2 := by
  intro c hc halive
  have heq : (s.remove a).registry c.1 = s.registry c.1 :=
    Function.update_of_ne (hne c hc) ..
  unfold Knows
  rw [heq]
  exact hknows c hc halive

end

section

variable [DecidableEq ι] {s : State ι α κ} {d i : ι}

/-- Another request moves and starts no container. -/
theorem Kept.same (h : Kept d s) (hi : i ≠ d) {locked : α → Bool} {p : Phase α κ}
    (hstarts : Starts p) (hrunning : p.running ⊆ (s.calls i).running)
    (hregistered : registered p ⊆ registered (s.calls i))
    (hpending : Fresh s.shared (pending (s.calls i)) → Fresh s.shared (pending p)) :
    Kept d ((s.write { s.shared with locked }).set i p) := by
  have hd : ((s.write { s.shared with locked }).set i p).calls d = s.calls d :=
    System.set_of_ne _ p hi.symm
  have hsub : ∀ j, (((s.write { s.shared with locked }).set i p).calls j).running ⊆
      (s.calls j).running :=
    System.forall_set (P := fun j (q : Phase α κ) => q.running ⊆ (s.calls j).running) hrunning
      fun j _ => List.Subset.refl _
  have hcall := h.calls i hi
  refine ⟨h.names, h.ids, h.issued, h.knows, ?_, ?_, ?_, ?_, ?_⟩
  · refine System.forall_set (P := fun j q => j ≠ d → Call { s.shared with locked } q) ?_ ?_
    · intro _
      exact ⟨hstarts, fun c hc => hcall.running c (hrunning hc),
        fun c hc => hcall.noted c (hregistered hc)⟩
    · intro j _ hj
      exact ⟨(h.calls j hj).starts, (h.calls j hj).running, (h.calls j hj).noted⟩
  · intro j k hj hk c hc c' hc' heq
    exact h.disjoint j k hj hk c (hsub j hc) c' (hsub k hc') heq
  · rw [hd]
    intro hnot
    exact System.forall_set (P := fun j q => j ≠ d → Fresh { s.shared with locked } (pending q))
      (fun hj => hpending (h.fresh hnot i hj)) fun j _ hj => h.fresh hnot j hj
  · rw [hd]
    exact h.drains
  · rw [hd]
    intro hbarred j hj
    exact List.subset_nil.mp (h.quiet hbarred j hj ▸ hsub j)

/-- Another request moves while the drain has not read the agents. -/
theorem Kept.moved (h : Kept d s) (hi : i ≠ d) (hnot : barred (s.calls d) = false)
    {server : Server α κ} {p : Phase α κ} (hnames : (server.containers.map Prod.fst).Nodup)
    (hids : (server.containers.map Prod.snd).Nodup)
    (hissued : ∀ c ∈ server.containers, c.2 ∈ server.spawned)
    (hknows : ∀ c ∈ server.containers, Alive server c.1 → Knows server c.1 c.2)
    (hcall : Call server p)
    (hothers : ∀ j, j ≠ d → j ≠ i → Call server (s.calls j))
    (hdisjoint : ∀ j, j ≠ d → j ≠ i → ∀ c ∈ p.running, ∀ c' ∈ (s.calls j).running, c.1 ≠ c'.1)
    (hfresh : Fresh server (pending p))
    (hfreshOthers : ∀ j, j ≠ d → j ≠ i → Fresh server (pending (s.calls j))) :
    Kept d ((s.write server).set i p) := by
  have hd : ((s.write server).set i p).calls d = s.calls d := System.set_of_ne _ p hi.symm
  refine ⟨hnames, hids, hissued, hknows, ?_, ?_, ?_, ?_, ?_⟩
  · exact System.forall_set (P := fun j q => j ≠ d → Call server q) (fun _ => hcall)
      fun j hj hjd => hothers j hjd hj
  · intro j k hj hk c hc c' hc' heq
    rcases (s.write server).set_cases i j p with ⟨rfl, hself⟩ | ⟨hji, hother⟩
    · rw [hself] at hc
      rcases (s.write server).set_cases j k p with ⟨rfl, -⟩ | ⟨hki, hother'⟩
      · rfl
      · rw [hother'] at hc'
        exact absurd heq (hdisjoint k hk hki c hc c' hc')
    · rw [hother] at hc
      rcases (s.write server).set_cases i k p with ⟨rfl, hself'⟩ | ⟨hki, hother'⟩
      · rw [hself'] at hc'
        exact absurd heq.symm (hdisjoint j hj hji c' hc' c hc)
      · rw [hother'] at hc'
        exact h.disjoint j k hj hk c hc c' hc' heq
  · intro _
    exact System.forall_set (P := fun j q => j ≠ d → Fresh server (pending q)) (fun _ => hfresh)
      fun j hj hjd => hfreshOthers j hjd hj
  · rw [hd]
    exact drains_of_not_barred hnot h.drains
  · rw [hd, hnot]
    nofun

/-- The registry changes for an agent whose container another request has started. -/
theorem kept_registry (h : Kept d s) (hi : i ≠ d) {a : α} {cid : κ}
    (hmem : (a, cid) ∈ (s.calls i).running) {server : Server α κ} {p : Phase α κ}
    (hserver : server = { s.shared with registry := server.registry, locked := server.locked })
    (hregistry : ∀ b, b ≠ a → server.registry b = s.shared.registry b) (hstarts : Starts p)
    (hrunning : p.running ⊆ (s.calls i).running)
    (hnoted : ∀ c ∈ registered p, server.registry c.1 = some c.2)
    (hpending : pending p ⊆ pending (s.calls i)) : Kept d ((s.write server).set i p) := by
  have hnot : barred (s.calls d) = false :=
    not_barred h hi (List.ne_nil_of_mem hmem)
  have hcall := h.calls i hi
  rw [hserver]
  refine h.moved hi hnot h.names h.ids h.issued ?_ ?_ ?_ ?_ ?_ ?_
  · intro c hc halive
    have hne : c.1 ≠ a := by
      intro heq
      exact (hcall.running _ hmem).2 (heq ▸ halive)
    unfold Knows
    dsimp only
    rw [hregistry c.1 hne]
    exact h.knows c hc halive
  · exact ⟨hstarts, fun c hc => hcall.running c (hrunning hc), hnoted⟩
  · intro j hj hji
    refine (h.calls j hj).mono (fun c hc => ((h.calls j hj).running c hc).1)
      (fun _ _ ha => ha) ?_
    intro c hc
    apply hregistry
    exact (ne_of_running h hi hj hji _ hmem c (registered_subset _ hc)).symm
  · intro j hj hji c hc
    exact ne_of_running h hi hj hji c (hrunning hc)
  · intro p' hp'
    exact h.fresh hnot i hi p' (hpending hp')
  · intro j hj _
    exact h.fresh hnot j hj

theorem kept_ran (h : Kept d s) (hi : i ≠ d) (hnot : barred (s.calls d) = false) {a : α}
    {loaded : Agent κ} {q : Session α κ} {cid : κ} (hp : s.calls i = .spawning a loaded q)
    (hname : ∀ c ∈ s.shared.containers, c.1 ≠ a) (hfresh : cid ∉ s.shared.spawned) :
    Kept d ((s.write (s.shared.run a cid)).set i (.spawned a loaded cid q)) := by
  have hcall := h.calls i hi
  have hpending := h.fresh hnot i hi
  rw [hp] at hcall hpending
  have hdead : ¬ Alive s.shared a := by
    intro halive
    obtain ⟨c, hc, heq⟩ :=
      List.mem_map.mp (hpending (a, loaded) List.mem_cons_self hcall.starts.1 halive)
    exact hname c hc heq
  have hmono : ∀ j, j ≠ d → Call (s.shared.run a cid) (s.calls j) := fun j hj =>
    (h.calls j hj).mono (fun c hc => List.mem_cons_of_mem _ ((h.calls j hj).running c hc).1)
      (fun _ _ ha => ha) fun _ _ => rfl
  refine h.moved hi hnot ?_ ?_ ?_ ?_ ?_ (fun j hj _ => hmono j hj) ?_ ?_ ?_
  · refine List.nodup_cons.mpr ⟨?_, h.names⟩
    intro hmem
    obtain ⟨c, hc, heq⟩ := List.mem_map.mp hmem
    exact hname c hc heq
  · refine List.nodup_cons.mpr ⟨?_, h.ids⟩
    intro hmem
    obtain ⟨c, hc, heq⟩ := List.mem_map.mp hmem
    have heq' : c.2 = cid := heq
    rw [← heq'] at hfresh
    exact hfresh (h.issued c hc)
  · exact List.forall_mem_cons.mpr
      ⟨List.mem_cons_self, fun c hc => List.mem_cons_of_mem _ (h.issued c hc)⟩
  · exact List.forall_mem_cons.mpr ⟨fun halive => absurd halive hdead, h.knows⟩
  · refine ⟨hcall.starts.2, List.forall_mem_cons.mpr ⟨⟨List.mem_cons_self, hdead⟩, ?_⟩,
      hcall.noted⟩
    intro c hc
    exact ⟨List.mem_cons_of_mem _ (hcall.running c hc).1, (hcall.running c hc).2⟩
  · intro j hj hji
    refine List.forall_mem_cons.mpr ⟨?_, ?_⟩
    · intro c' hc' heq
      exact hname c' ((h.calls j hj).running c' hc').1 heq.symm
    · have hne := ne_of_running h hi hj hji
      rw [hp] at hne
      exact hne
  · exact Fresh.mono (fun p hp => hpending p (List.mem_cons_of_mem _ hp)) (fun _ => .inl)
      fun _ hb => List.mem_cons_of_mem _ hb
  · intro j hj _
    exact (h.fresh hnot j hj).mono (fun _ => .inl) fun _ hb => List.mem_cons_of_mem _ hb

/-- The drain moves, and leaves no container that it has not found. -/
theorem Kept.swept (h : Kept d s) (hquiet : ∀ j, j ≠ d → (s.calls j).running = [])
    {server : Server α κ} {p : Phase α κ}
    (hsub : server.containers.Sublist s.shared.containers)
    (hspawned : server.spawned = s.shared.spawned)
    (hknows : ∀ c ∈ server.containers, Alive server c.1 → Knows server c.1 c.2)
    (hdrains : Drains server p) (hbarred : barred p = true) :
    Kept d ((s.write server).set d p) := by
  have hself : ((s.write server).set d p).calls d = p := System.set_self _ _ _
  have hother : ∀ j, j ≠ d → ((s.write server).set d p).calls j = s.calls j :=
    fun j hj => System.set_of_ne _ _ hj
  refine ⟨(hsub.map _).nodup h.names, (hsub.map _).nodup h.ids, ?_, hknows, ?_, ?_, ?_, ?_, ?_⟩
  · intro c hc
    exact hspawned ▸ h.issued c (hsub.subset hc)
  · intro j hj
    rw [hother j hj]
    exact (h.calls j hj).of_quiet (hquiet j hj)
  · intro j k hj _ c hc
    rw [hother j hj, hquiet j hj] at hc
    cases hc
  · rw [hself, hbarred]
    nofun
  · rw [hself]
    exact hdrains
  · intro _ j hj
    rw [hother j hj]
    exact hquiet j hj

/-- A stop has gone on with a container of an agent, which is no longer there. -/
theorem kept_removed (h : Kept d s) {a : α} {loaded : Agent κ} {cid : κ} {q : Session α κ}
    (hp : s.calls d = .removing a loaded cid q) {containers : List (α × κ)}
    (hsub : containers.Sublist s.shared.containers) (hgone : ∀ c ∈ containers, c.2 ≠ cid) :
    Kept d ((s.write { s.shared with containers }).set d (.removed a loaded q)) := by
  have hdrains := h.drains
  have hquiet := h.quiet
  rw [hp] at hdrains hquiet
  refine h.swept (hquiet rfl) hsub rfl (fun c hc => h.knows c (hsub.subset hc))
    ⟨hdrains.1, ?_⟩ rfl
  intro c hc
  obtain ⟨halive, hself | hlater⟩ := hdrains.2 c (hsub.subset hc)
  · exact absurd (congrArg Prod.snd hself) (hgone c hc)
  · exact ⟨halive, hlater⟩

variable [DecidableEq α]

theorem kept_put (h : Kept d s) (hi : i ≠ d) {a : α} {loaded : Agent κ} {cid : κ}
    {q : Session α κ} (hp : s.calls i = .spawned a loaded cid q) :
    Kept d ((s.write (s.shared.put a cid)).set i (.waiting a loaded cid q)) := by
  have hcall := h.calls i hi
  rw [hp] at hcall
  have hself : (s.shared.put a cid).registry a = some cid := Function.update_self ..
  have hother : ∀ b, b ≠ a → (s.shared.put a cid).registry b = s.shared.registry b :=
    fun b hb => Function.update_of_ne hb ..
  have hmem : (a, cid) ∈ (s.calls i).running := by
    rw [hp]
    exact List.mem_cons_self
  refine kept_registry h hi hmem rfl hother hcall.starts ?_ ?_ ?_
  · rw [hp]
    exact List.Subset.refl _
  · refine List.forall_mem_cons.mpr ⟨hself, ?_⟩
    intro c hc
    by_cases hca : c.1 = a
    · have hmem := (hcall.running c (List.mem_cons_of_mem _ hc)).1
      have hfirst := (hcall.running (a, cid) List.mem_cons_self).1
      rw [mem_running_unique h hfirst hmem hca.symm]
      exact hself
    · rw [hother c.1 hca]
      exact hcall.noted c hc
  · rw [hp]
    exact List.Subset.refl _

theorem kept_unhealthy (h : Kept d s) (hi : i ≠ d) {a : α} {loaded : Agent κ} {cid : κ}
    {q : Session α κ} (hp : s.calls i = .waiting a loaded cid q) (locks : List α) :
    Kept d ((s.write (fail (s.shared.remove a) locks : Server α κ × Phase α κ).1).set i
      (.done false)) := by
  have hmem : (a, cid) ∈ (s.calls i).running := by
    rw [hp]
    exact List.mem_cons_self
  refine kept_registry h hi hmem rfl ?_ trivial (List.nil_subset _) nofun (List.nil_subset _)
  intro b hb
  exact Function.update_of_ne hb ..

/-- The drain goes on to the next agent. -/
theorem kept_stopped (h : Kept d s) (hquiet : ∀ j, j ≠ d → (s.calls j).running = [])
    {server : Server α κ} {a : α} {loaded : Agent κ} {q : Session α κ}
    (hserver : server = { s.shared with locked := server.locked })
    (hsweep : Sweep s.shared.agents s.shared.row ((a, loaded) :: q.todo) q.changes)
    (hleft : ∀ c ∈ s.shared.containers,
      Alive s.shared c.1 ∧ c.1 ≠ a ∧ c.1 ∈ q.todo.map Prod.fst) :
    Kept d ((s.write (stopped server a loaded q).1).set d (stopped server a loaded q).2) := by
  rw [hserver]
  obtain ⟨hstopped, hdrains, hbarred⟩ :=
    drains_stopped (s := { s.shared with locked := server.locked }) hsweep hleft
  rw [hstopped] at hdrains ⊢
  refine h.swept hquiet (List.Sublist.refl _) rfl ?_ hdrains hbarred
  exact knows_remove (s := { s.shared with locked := server.locked }) h.knows
    fun c hc => (hleft c hc).2.1

theorem kept_listed (h : Kept d s) {job : Job} (hp : s.calls d = .listing job)
    (hrecorded : AllRecorded s.shared (s.calls d) (.go : Input κ))
    {r : Server α κ × Phase α κ}
    (hr : Next s.shared [] job (s.shared.agents.map fun a => (a, s.shared.row a)) r) :
    Kept d ((s.write r.1).set d r.2) := by
  have hdrains := h.drains
  rw [hp] at hdrains hrecorded
  cases (hdrains : job = .stop)
  have halive : ∀ c ∈ s.shared.containers, Alive s.shared c.1 := hrecorded rfl rfl
  have hlisted : (s.shared.agents.map fun a => (a, s.shared.row a)).map Prod.fst =
      s.shared.agents := by
    simp [List.map_map, Function.comp_def]
  have hquiet : ∀ j, j ≠ d → (s.calls j).running = [] := by
    intro j hj
    refine List.eq_nil_iff_forall_not_mem.mpr ?_
    intro c hc
    obtain ⟨hmem, hdead⟩ := (h.calls j hj).running c hc
    exact hdead (halive c hmem)
  have hsweep : Sweep s.shared.agents s.shared.row
      (s.shared.agents.map fun a => (a, s.shared.row a)) [] := by
    refine ⟨?_, nofun, ?_⟩
    · intro p hp
      obtain ⟨a, -, rfl⟩ := List.mem_map.mp hp
      rfl
    · intro a ha _
      rw [hlisted]
      exact .inl ha
  obtain ⟨hsame, hdrains', hbarred⟩ := drains_next hr hsweep (by
    intro c hc
    rw [hlisted]
    exact ⟨halive c hc, (halive c hc).1⟩)
  rw [hsame] at hdrains' ⊢
  exact h.swept hquiet (List.Sublist.refl _) rfl h.knows hdrains' hbarred

theorem kept_locked (h : Kept d s) {a : α} {loaded : Agent κ} {q : Session α κ}
    (hp : s.calls d = .locking .stop a loaded q) :
    Kept d ((s.write (flushed (s.shared.lock a) .stop a loaded q).1).set d
      (flushed (s.shared.lock a) .stop a loaded q).2) := by
  have hdrains := h.drains
  have hquiet := h.quiet
  rw [hp] at hdrains hquiet
  obtain ⟨hsweep, hleft⟩ := hdrains
  have hloaded : loaded = s.shared.row a := hsweep.loaded _ List.mem_cons_self
  have hknows : ∀ c ∈ s.shared.containers, c.1 = a →
      ((s.shared.lock a).registry a <|> loaded.container_id) = some c.2 := by
    rintro ⟨b, cid⟩ hc rfl
    rw [hloaded]
    exact h.knows _ hc (hleft _ hc).1
  have hlater : ∀ c ∈ s.shared.containers, c.1 ≠ a → c.1 ∈ q.todo.map Prod.fst := by
    intro c hc hne
    exact (List.mem_cons.mp (hleft c hc).2).resolve_left hne
  unfold flushed
  dsimp only
  cases hcid : (s.shared.lock a).registry a <|> loaded.container_id with
  | none =>
      refine kept_stopped h (hquiet rfl) rfl hsweep ?_
      intro c hc
      have hne : c.1 ≠ a := by
        intro heq
        have hsome := hknows c hc heq
        rw [hcid] at hsome
        cases hsome
      exact ⟨(hleft c hc).1, hne, hlater c hc hne⟩
  | some cid =>
      refine h.swept (hquiet rfl) (List.Sublist.refl _) rfl h.knows ⟨hsweep, ?_⟩ rfl
      intro c hc
      refine ⟨(hleft c hc).1, ?_⟩
      by_cases heq : c.1 = a
      · have hsome := hknows c hc heq
        rw [hcid] at hsome
        exact .inl (Prod.ext heq (Option.some.inj hsome).symm)
      · exact .inr ⟨heq, hlater c hc heq⟩

theorem kept_called (h : Kept d s) (hi : i ≠ d) {op : Op α} (hop : starting op = true) :
    Kept d ((s.write (call op s.shared).1).set i (call op s.shared).2) := by
  cases op with
  | start a =>
      unfold call
      dsimp only
      split
      next =>
          exact h.same hi (p := .selecting (.start a) a) ⟨a, rfl⟩ (List.nil_subset _)
            (List.nil_subset _) fun _ => fresh_nil _
      next =>
          exact h.same hi trivial (List.nil_subset _) (List.nil_subset _) fun _ => fresh_nil _
  | start_all =>
      exact h.same hi (p := .listing .start) rfl (List.nil_subset _) (List.nil_subset _)
        fun _ => fresh_nil _
  | create a => cases hop
  | delete a => cases hop
  | stop a => cases hop
  | stop_all => cases hop
  | drain => cases hop
  | halt => cases hop
  | push_status a => cases hop

variable [DecidableEq κ] {max_agents : ℕ}

theorem kept_committed (h : Kept d s) (hi : i ≠ d) {c : Change α κ} {changes : List (Change α κ)}
    (hp : s.calls i = .committing (c :: changes)) :
    Kept d ((s.write (s.shared.commit (c :: changes))).set i (.done true)) := by
  have hcall := h.calls i hi
  have hne := fun j hj hji => ne_of_running h hi (j := j) hj hji
  rw [hp] at hcall hne
  have hnot : barred (s.calls d) = false := by
    refine not_barred h hi ?_
    rw [hp]
    intro hnil
    cases changes_eq_nil hcall.starts hnil
  have hrow : ∀ a, (s.shared.commit (c :: changes)).row a = s.shared.row a ∨
      ∃ cid, (a, cid) ∈ held (c :: changes) := by
    intro a
    rcases view_cases s.shared (c :: changes) a with ⟨-, heq⟩ | ⟨b, hb, rfl, -⟩
    · exact .inl heq
    · exact .inr (exists_held hcall.starts hb)
  refine h.moved hi hnot h.names h.ids h.issued ?_ ⟨trivial, nofun, nofun⟩ ?_ ?_ (fresh_nil _) ?_
  · rintro ⟨a, cid⟩ hmem halive
    rcases hrow a with heq | ⟨cid', hheld⟩
    · have hknows := h.knows (a, cid) hmem ⟨halive.1, heq ▸ halive.2⟩
      unfold Knows at hknows ⊢
      rw [heq]
      exact hknows
    · have hsame := mem_running_unique h (hcall.running _ hheld).1 hmem rfl
      have hnoted : s.shared.registry a = some cid' := hcall.noted _ hheld
      cases hsame
      unfold Knows
      exact congrArg (· <|> _) hnoted
  · intro j hj hji
    refine (h.calls j hj).mono (fun c' hc' => ((h.calls j hj).running c' hc').1) ?_
      fun _ _ => rfl
    intro c' hc' halive
    rcases hrow c'.1 with heq | ⟨cid, hheld⟩
    · exact ⟨halive.1, heq ▸ halive.2⟩
    · exact absurd rfl (hne j hj hji _ hheld c' hc')
  · intro j _ _ c' hc'
    cases hc'
  · intro j hj _
    refine (h.fresh hnot j hj).mono ?_ fun _ hb => hb
    intro a halive
    rcases hrow a with heq | ⟨cid, hheld⟩
    · exact .inl ⟨halive.1, heq ▸ halive.2⟩
    · exact .inr (List.mem_map_of_mem (hcall.running _ hheld).1)

/-- A step of a start. -/
theorem kept_resumed (h : Kept d s) (hi : i ≠ d) {x : Input κ} {r : Server α κ × Phase α κ}
    (hspawns : spawns x = true → barred (s.calls d) = false)
    (hr : Resumed max_agents s.shared (s.calls i) x r) : Kept d ((s.write r.1).set i r.2) := by
  obtain ⟨heffect, hstarts⟩ := effect_resumed (h.calls i hi).starts hr
  cases heffect with
  | same locked p' hrunning hregistered hpending =>
      exact h.same hi hstarts hrunning hregistered hpending
  | ran a loaded q cid hp hx hname hfresh => exact kept_ran h hi (hspawns hx) hp hname hfresh
  | put a loaded cid q hp => exact kept_put h hi hp
  | unhealthy a loaded cid q hp => exact kept_unhealthy h hi hp _
  | committed c changes hp => exact kept_committed h hi hp

theorem kept_recorded (h : Kept d s) {changes : List (Change α κ)}
    (hp : s.calls d = .committing changes) :
    Kept d ((s.write (s.shared.commit changes)).set d (.done true)) := by
  have hdrains := h.drains
  have hquiet := h.quiet
  rw [hp] at hdrains hquiet
  obtain ⟨hsweep, hempty⟩ := hdrains
  refine h.swept (hquiet rfl) (List.Sublist.refl _) rfl ?_ ⟨?_, hempty⟩ rfl
  · intro c hc
    have hmem : c ∈ s.shared.containers := hc
    rw [hempty] at hmem
    cases hmem
  · rintro a ⟨ha, hrow⟩
    rcases view_cases s.shared changes a with ⟨hnot, heq⟩ | ⟨c, hc, rfl, heq⟩
    · have hbefore : (s.shared.row a).status = .alive := heq ▸ hrow
      rcases hsweep.covers a ha hbefore with htodo | hchanged
      · cases htodo
      · exact hnot hchanged
    · obtain ⟨hloaded, hassigned⟩ := hsweep.changed c hc
      have hstopped : (s.shared.commit changes).row c.agent =
          { status := .stopped, container_id := none } :=
        heq.trans ((write_of_loaded hloaded).trans hassigned)
      rw [hstopped] at hrow
      cases hrow

/-- A step of the drain. -/
theorem kept_drained (h : Kept d s) {x : Input κ} {r : Server α κ × Phase α κ}
    (hrecorded : AllRecorded s.shared (s.calls d) x) (hfound : Found s.shared (s.calls d) x)
    (hr : Resumed max_agents s.shared (s.calls d) x r) :
    Kept d ((s.write r.1).set d r.2) ∨ r.2 = .done false := by
  have hdrains := h.drains
  have hquiet := h.quiet
  generalize hp : s.calls d = p at hr hrecorded hfound hdrains hquiet
  cases hr with
  | refused => exact .inr rfl
  | raised => exact .inr rfl
  | kill_raised => exact .inr rfl
  | listed job => exact .inl (kept_listed h hp (hp ▸ hrecorded) (next_spec _ _ _ _))
  | locked job a loaded q ha hfree =>
      cases job with
      | start => exact hdrains.elim
      | stop => exact .inl (kept_locked h hp)
  | killed a loaded cid q =>
      refine .inl (kept_removed h hp List.filter_sublist ?_)
      intro c hc
      simpa using List.of_mem_filter hc
  | not_found a loaded cid q =>
      exact .inl (kept_removed h hp (List.Sublist.refl _) (hfound rfl cid rfl))
  | removed a loaded q =>
      exact .inl (kept_stopped h (hquiet rfl) rfl hdrains.1 hdrains.2)
  | committed changes => exact .inl (kept_recorded h hp)
  | selected => exact hdrains.elim
  | counted => exact hdrains.elim
  | ran => exact hdrains.elim
  | put => exact hdrains.elim
  | healthy => exact hdrains.elim
  | unhealthy => exact hdrains.elim
  | posted => exact hdrains.elim
  | pushed => exact hdrains.elim
  | deleted => exact hdrains.elim
  | inserted => exact hdrains.elim

theorem no_step_done {succeeded : Bool} {x : Input κ} {server : Server α κ}
    {r : Server α κ × Phase α κ} :
    ¬ resume max_agents server (.done succeeded) x = some r := by
  intro h
  cases resumed_of_resume h with
  | refused _ hopen => exact hopen succeeded rfl
  | raised _ hopen => exact hopen succeeded rfl

theorem calls_of_other {s' : State ι α κ} {e : Event ι α κ} (hother : Others d e)
    (hne : ∀ x, e ≠ .input d x) (hstep : step max_agents s e = some s') :
    s'.calls d = s.calls d := by
  cases e with
  | call i op =>
      obtain ⟨-, hstep⟩ := Option.ite_none_right_eq_some.mp hstep
      cases hstep
      exact System.set_of_ne _ _ hother.1.symm
  | input i x =>
      obtain ⟨r, -, rfl⟩ := Option.map_eq_some_iff.mp hstep
      have hi : d ≠ i := fun heq => hne x (heq ▸ rfl)
      exact System.set_of_ne _ _ hi

/-- A step that is not the drain's. -/
theorem kept_other {s' : State ι α κ} {e : Event ι α κ} (h : Kept d s)
    (hother : Others d e) (hbarrier : Barrier d s e) (hne : ∀ x, e ≠ .input d x)
    (hstep : step max_agents s e = some s') : Kept d s' := by
  cases e with
  | call i op =>
      obtain ⟨-, hstep⟩ := Option.ite_none_right_eq_some.mp hstep
      cases hstep
      exact kept_called h hother.1 hother.2
  | input i x =>
      obtain ⟨r, hr, rfl⟩ := Option.map_eq_some_iff.mp hstep
      have hi : i ≠ d := fun heq => hne x (heq ▸ rfl)
      exact kept_resumed h hi ((if_neg hi).mp hbarrier) (resumed_of_resume hr)

/-- Before the drain is called. -/
theorem kept_before {s' : State ι α κ} {e : Event ι α κ}
    (h : Kept d s ∧ s.calls d = .done false) (hother : Others d e) (hbarrier : Barrier d s e)
    (hstep : step max_agents s e = some s') : Kept d s' ∧ s'.calls d = .done false := by
  have hne : ∀ x, e ≠ .input d x := by
    rintro x rfl
    obtain ⟨r, hr, -⟩ := Option.map_eq_some_iff.mp hstep
    rw [h.2] at hr
    exact no_step_done hr
  exact ⟨kept_other h.1 hother hbarrier hne hstep, (calls_of_other hother hne hstep).trans h.2⟩

theorem kept_drain {s' : State ι α κ} (h : Kept d s) (hbefore : s.calls d = .done false)
    {op : Op α} (hop : op = .drain ∨ op = .halt)
    (hstep : step max_agents s (.call d op) = some s') : Kept d s' := by
  obtain ⟨-, hstep⟩ := Option.ite_none_right_eq_some.mp hstep
  have hs' : s' = (s.write { s.shared with accepting_starts := false }).set d
      (.listing .stop) := by
    rcases hop with rfl | rfl
    · exact (Option.some.inj hstep).symm
    · exact (Option.some.inj hstep).symm
  have hself : s'.calls d = .listing .stop := by
    rw [hs']
    exact System.set_self _ _ _
  have hother : ∀ j, j ≠ d → s'.calls j = s.calls j := by
    intro j hj
    rw [hs']
    exact System.set_of_ne _ _ hj
  have hserver : s'.shared = { s.shared with accepting_starts := false } := by
    rw [hs']
    rfl
  constructor
  case names => exact hserver ▸ h.names
  case ids => exact hserver ▸ h.ids
  case issued => exact hserver ▸ h.issued
  case knows => exact hserver ▸ h.knows
  case calls =>
      intro j hj
      rw [hother j hj, hserver]
      exact ⟨(h.calls j hj).starts, (h.calls j hj).running, (h.calls j hj).noted⟩
  case disjoint =>
      intro j k hj hk
      rw [hother j hj, hother k hk]
      exact h.disjoint j k hj hk
  case fresh =>
      intro _ j hj
      rw [hother j hj, hserver]
      exact h.fresh (by rw [hbefore]; rfl) j hj
  case drains =>
      rw [hself]
      rfl
  case quiet =>
      rw [hself]
      nofun

/-- After the drain has been called. -/
theorem kept_after {s' : State ι α κ} {e : Event ι α κ}
    (h : Kept d s ∨ s.calls d = .done false) (hother : Others d e) (hbarrier : Barrier d s e)
    (hstep : step max_agents s e = some s') : Kept d s' ∨ s'.calls d = .done false := by
  by_cases hdrain : ∃ x, e = .input d x
  · obtain ⟨x, rfl⟩ := hdrain
    obtain ⟨r, hr, rfl⟩ := Option.map_eq_some_iff.mp hstep
    obtain ⟨hrecorded, hfound⟩ := (if_pos rfl).mp hbarrier
    rcases h with hkept | hfailed
    · refine (kept_drained hkept hrecorded hfound (resumed_of_resume hr)).imp id ?_
      intro hfails
      exact (System.set_self _ _ _).trans hfails
    · rw [hfailed] at hr
      exact absurd hr no_step_done
  · have hne : ∀ x, e ≠ .input d x := fun x heq => hdrain ⟨x, heq⟩
    refine h.imp (fun hkept => kept_other hkept hother hbarrier hne hstep) ?_
    exact (calls_of_other hother hne hstep).trans

/-- A drain or halt that returns leaves no agent alive and no container, when it reads
the agents while every container is recorded and none comes up after that. -/
theorem drain_leaves_nothing {op : Op α} {before after : List (Event ι α κ)} {t : State ι α κ}
    (hs : Ready s) (hop : op = .drain ∨ op = .halt) (hothers : ∀ e ∈ before ++ after, Others d e)
    (hrun : run (step max_agents) s (before ++ .call d op :: after) = some t)
    (hbarrier : AllSteps (step max_agents) (Barrier d) s (before ++ .call d op :: after))
    (hreturned : t.calls d = .done true) :
    (∀ a, ¬ Alive t.shared a) ∧ t.shared.containers = [] := by
  obtain ⟨m, hbefore, hrest⟩ := run_append_iff.mp hrun
  obtain ⟨m', hcall, hafter⟩ := run_cons_iff.mp hrest
  obtain ⟨hfirst, hlater⟩ := allSteps_append_iff.mp hbarrier
  have hlast := ((allSteps_cons_iff hcall).mp (hlater m hbefore)).2
  have hm : Kept d m ∧ m.calls d = .done false := by
    refine run_invariant_of_allSteps (P := fun s => Kept d s ∧ s.calls d = .done false)
      (C := fun s e => Others d e ∧ Barrier d s e) ?_ hbefore
      ((allSteps_of_forall_mem (fun e he => hothers e (List.mem_append_left _ he)) s).and hfirst)
      ⟨hs.kept d, hs.calls d⟩
    intro s e s' h hboth hstep
    exact kept_before h hboth.1 hboth.2 hstep
  have ht : Kept d t ∨ t.calls d = .done false := by
    refine run_invariant_of_allSteps (P := fun s => Kept d s ∨ s.calls d = .done false)
      (C := fun s e => Others d e ∧ Barrier d s e) ?_ hafter
      ((allSteps_of_forall_mem (fun e he => hothers e (List.mem_append_right _ he)) m').and hlast)
      (.inl (kept_drain hm.1 hm.2 hop hcall))
    intro s e s' h hboth hstep
    exact kept_after h hboth.1 hboth.2 hstep
  rcases ht with hkept | hfailed
  · have hdrains := hkept.drains
    rw [hreturned] at hdrains
    exact hdrains
  · rw [hreturned] at hfailed
    cases hfailed

end

/-- A server with one alive agent and a stopped one. -/
def one_alive : State Bool ℕ ℕ where
  shared :=
    { agents := [0, 1]
      row := fun a =>
        if a = 0 then { status := .alive, container_id := some 0 }
        else { status := .stopped, container_id := none }
      locked := fun _ => false
      registry := fun a => if a = 0 then some 0 else none
      containers := [(0, 0)]
      spawned := [0]
      accepting_starts := true }
  calls := fun _ => .done false

theorem one_alive_ready : Ready one_alive where
  names := by decide
  ids := by decide
  issued := by decide
  knows := by
    rintro c hc -
    cases List.mem_singleton.mp hc
    rfl
  calls := fun _ => rfl

/-- A start of the stopped agent, up to its commit. -/
def start_healthy : List (Event Bool ℕ ℕ) :=
  [.call false (.start 1), .input false .go, .input false .go, .input false .go,
    .input false (.container 1), .input false .go, .input false .healthy]

/-- The start has committed when the drain is called. -/
def started : List (Event Bool ℕ ℕ) :=
  start_healthy ++ [.input false .go, .input false .go]

def drains : List (Event Bool ℕ ℕ) :=
  [.input true .go, .input true .go, .input true .killed, .input true .go,
    .input true .go, .input true .killed, .input true .go, .input true .go]

theorem drain_leaves_nothing_after_start : ∃ t, run (step 4) one_alive
      ((start_healthy ++ [.input false .go, .input false .go]) ++ .call true .drain ::
        [.input true .go, .input true .go, .input true .killed, .input true .go,
          .input true .go, .input true .killed, .input true .go, .input true .go]) = some t ∧
      (∀ a, ¬ Alive t.shared a) ∧ t.shared.containers = [] := by
  have hend : (run (step 4) one_alive (started ++ .call true .drain :: drains)).map
      (fun t => t.calls true) = some (.done true) := by
    decide
  obtain ⟨t, hrun, hreturned⟩ := Option.map_eq_some_iff.mp hend
  exact ⟨t, hrun, drain_leaves_nothing one_alive_ready (.inl rfl) (by decide) hrun (by decide)
    hreturned⟩

/-- The drain reads the agents before the start commits. -/
theorem drain_misses_start :
    ¬ ∀ (max_agents : ℕ) (s t : State Bool ℕ ℕ) (before after : List (Event Bool ℕ ℕ)),
      Ready s → (∀ e ∈ before ++ after, Others true e) →
        run (step max_agents) s (before ++ .call true .drain :: after) = some t →
          t.calls true = .done true → (∀ i, finished (t.calls i) = true) →
            (∀ a, ¬ Alive t.shared a) ∧ t.shared.containers = [] := by
  intro h
  let drain : List (Event Bool ℕ ℕ) :=
    [.input true .go, .input true .go, .input true .killed, .input true .go, .input true .go,
      .input false .go, .input false .go]
  have hend : (run (step 4) one_alive (start_healthy ++ .call true .drain :: drain)).map
      (fun t => (t.calls true, t.calls false, t.shared.containers)) =
        some (.done true, .done true, [(1, 1)]) := by
    decide
  obtain ⟨t, hrun, hlast⟩ := Option.map_eq_some_iff.mp hend
  obtain ⟨hdrain, hlater⟩ := Prod.mk.inj hlast
  obtain ⟨hstart, hcontainers⟩ := Prod.mk.inj hlater
  have hfinished : ∀ i, finished (t.calls i) = true := by
    rintro (_ | _)
    · rw [hstart]
      rfl
    · rw [hdrain]
      rfl
  have hempty := (h 4 one_alive t _ _ one_alive_ready (by decide) hrun hdrain hfinished).2
  rw [hcontainers] at hempty
  cases hempty

end ArticTrader.DrainBarrier
