import Mathlib.Data.Fintype.Card
import Mathlib.Data.List.Perm.Subperm
import ArticTrader.AgentService
import ArticTrader.ConcurrentCalls
import ArticTrader.LabelledRuns

/-!
Any number of requests to one user server, interleaved at their awaits, and the
quota of agents under starts alone.
-/

namespace ArticTrader.AgentQuota

open ArticTrader.AgentService
open ArticTrader.ConcurrentCalls
open ArticTrader.LabelledRuns

variable {ι α κ : Type*}

abbrev State (ι α κ : Type*) := System ι (Server α κ) (Phase α κ)

inductive Event (ι α κ : Type*) where
  | call (i : ι) (op : Op α)
  | input (i : ι) (x : Input κ)
  deriving DecidableEq, Repr

def step [DecidableEq ι] [DecidableEq α] [DecidableEq κ] (max_agents : ℕ) (s : State ι α κ) :
    Event ι α κ → Option (State ι α κ)
  | .call i op =>
      if finished (s.calls i) then
        let r := call op s.shared
        some ((s.write r.1).set i r.2)
      else none
  | .input i x =>
      (resume max_agents s.shared (s.calls i) x).map fun r => (s.write r.1).set i r.2

/-- Only starts are requested. -/
def OnlyStarts : Event ι α κ → Prop
  | .call _ op => starting op = true
  | .input _ _ => True

instance : DecidablePred (OnlyStarts (ι := ι) (α := α) (κ := κ))
  | .call _ op => inferInstanceAs (Decidable (starting op = true))
  | .input _ _ => inferInstanceAs (Decidable True)

def alive_count (s : Server α κ) : ℕ := s.agents.countP fun a => (s.row a).status = .alive

/-- The request has passed the quota and docker has not answered it yet. -/
def admitted : Phase α κ → Bool
  | .locking .start _ _ _ | .spawning _ _ _ => true
  | _ => false

def counted : Phase α κ → Option (Session α κ)
  | .counting _ _ q => some q
  | _ => none

/-- There is room for another container besides those of the other requests that have
passed the quota. -/
def HasRoom (max_agents : ℕ) (s : State ι α κ) (i : ι) : Prop :=
  ∃ l : List ι, (∀ j, j ≠ i → admitted (s.calls j) = true → j ∈ l) ∧
    s.shared.containers.length + l.length < max_agents

/-- A request passes the quota only where there is room. -/
def Room [DecidableEq α] [DecidableEq κ] (max_agents : ℕ) (s : State ι α κ) :
    Event ι α κ → Prop
  | .input i .go =>
      ∀ q ∈ counted (s.calls i), live_count s.shared q.changes < max_agents →
        HasRoom max_agents s i
  | _ => True

section Decidable

variable [DecidableEq ι] [Fintype ι]

theorem hasRoom_iff (max_agents : ℕ) (s : State ι α κ) (i : ι) :
    s.shared.containers.length +
        (Finset.univ.filter fun j => j ≠ i ∧ admitted (s.calls j) = true).card < max_agents ↔
      HasRoom max_agents s i := by
  constructor
  · intro h
    refine ⟨(Finset.univ.filter fun j => j ≠ i ∧ admitted (s.calls j) = true).toList, ?_, ?_⟩
    · intro j hj hadmitted
      simp [hj, hadmitted]
    · rw [Finset.length_toList]
      exact h
  · rintro ⟨l, hl, hlt⟩
    have hsub : (Finset.univ.filter fun j => j ≠ i ∧ admitted (s.calls j) = true) ⊆
        l.toFinset := by
      intro j hj
      simp only [Finset.mem_filter, Finset.mem_univ, true_and] at hj
      exact List.mem_toFinset.mpr (hl j hj.1 hj.2)
    have hcard := (Finset.card_le_card hsub).trans l.toFinset_card_le
    omega

instance (max_agents : ℕ) (s : State ι α κ) (i : ι) : Decidable (HasRoom max_agents s i) :=
  decidable_of_iff _ (hasRoom_iff max_agents s i)

instance [DecidableEq α] [DecidableEq κ] (max_agents : ℕ) (s : State ι α κ) :
    DecidablePred (Room max_agents s)
  | .call _ _ => inferInstanceAs (Decidable True)
  | .input i .go => inferInstanceAs (Decidable (∀ q ∈ counted (s.calls i),
      live_count s.shared q.changes < max_agents → HasRoom max_agents s i))
  | .input _ .raised => inferInstanceAs (Decidable True)
  | .input _ (.container _) => inferInstanceAs (Decidable True)
  | .input _ .healthy => inferInstanceAs (Decidable True)
  | .input _ .unhealthy => inferInstanceAs (Decidable True)
  | .input _ .killed => inferInstanceAs (Decidable True)
  | .input _ .not_found => inferInstanceAs (Decidable True)
  | .input _ .kill_raised => inferInstanceAs (Decidable True)

end Decidable

/-- The agent has a container. -/
def Named (s : Server α κ) (a : α) : Prop := a ∈ s.containers.map Prod.fst

instance [DecidableEq α] (s : Server α κ) : DecidablePred (Named s) :=
  fun _ => inferInstanceAs (Decidable (_ ∈ _))

/-- No request is in progress, and there are no more containers than the quota allows. -/
structure Idle (max_agents : ℕ) (s : State ι α κ) : Prop where
  nodup : s.shared.agents.Nodup
  alive : ∀ a ∈ s.shared.agents, (s.shared.row a).status = .alive → Named s.shared a
  calls : ∀ i, finished (s.calls i) = true
  room : s.shared.containers.length ≤ max_agents

/-- A start whose changes are of agents with a container. -/
def Known (s : Server α κ) : Phase α κ → Prop
  | .selecting op _ => ∃ b, op = .start b
  | .listing job => job = .start
  | .counting _ _ q | .locking .start _ _ q | .spawning _ _ q => ∀ c ∈ q.changes, Named s c.agent
  | .spawned a _ _ q | .waiting a _ _ q | .posting a _ _ q =>
      Named s a ∧ ∀ c ∈ q.changes, Named s c.agent
  | .committing changes => ∀ c ∈ changes, Named s c.agent
  | .done _ => True
  | _ => False

structure Kept (max_agents : ℕ) (s : State ι α κ) : Prop where
  nodup : s.shared.agents.Nodup
  alive : ∀ a ∈ s.shared.agents, (s.shared.row a).status = .alive → Named s.shared a
  known : ∀ i, Known s.shared (s.calls i)
  room : ∃ l : List ι, (∀ i, admitted (s.calls i) = true → i ∈ l) ∧
    s.shared.containers.length + l.length ≤ max_agents

theorem alive_count_le {s : Server α κ} (hnodup : s.agents.Nodup)
    (halive : ∀ a ∈ s.agents, (s.row a).status = .alive → Named s a) :
    alive_count s ≤ s.containers.length := by
  have hlength : (s.containers.map Prod.fst).length = s.containers.length := List.length_map _
  unfold alive_count
  rw [List.countP_eq_length_filter, ← hlength]
  refine (List.subperm_of_subset (hnodup.filter _) ?_).length_le
  intro a ha
  obtain ⟨hmem, hstatus⟩ := List.mem_filter.mp ha
  exact halive a hmem (of_decide_eq_true hstatus)

theorem known_done {s : Server α κ} {p : Phase α κ} (h : finished p = true) : Known s p := by
  cases p <;> first | exact trivial | cases h

theorem admitted_of_finished {p : Phase α κ} (h : finished p = true) : admitted p = false := by
  cases p <;> first | rfl | cases h

theorem Idle.kept {max_agents : ℕ} {s : State ι α κ} (h : Idle max_agents s) :
    Kept max_agents s where
  nodup := h.nodup
  alive := h.alive
  known := fun i => known_done (h.calls i)
  room := by
    refine ⟨[], ?_, h.room⟩
    intro i hi
    rw [admitted_of_finished (h.calls i)] at hi
    cases hi

theorem Kept.quota {max_agents : ℕ} {s : State ι α κ} (h : Kept max_agents s) :
    alive_count s.shared ≤ max_agents ∧ s.shared.containers.length ≤ max_agents := by
  obtain ⟨l, -, hroom⟩ := h.room
  have halive := alive_count_le h.nodup h.alive
  omega

/-- What is known of a start stays known where no container is removed. -/
theorem Known.mono {s s' : Server α κ} (hnamed : ∀ a, Named s a → Named s' a) {p : Phase α κ}
    (h : Known s p) : Known s' p := by
  unfold Known at h ⊢
  split at h
  case h_1 => exact h
  case h_2 => exact h
  case h_3 => exact fun c hc => hnamed _ (h c hc)
  case h_4 => exact fun c hc => hnamed _ (h c hc)
  case h_5 => exact fun c hc => hnamed _ (h c hc)
  case h_6 => exact ⟨hnamed _ h.1, fun c hc => hnamed _ (h.2 c hc)⟩
  case h_7 => exact ⟨hnamed _ h.1, fun c hc => hnamed _ (h.2 c hc)⟩
  case h_8 => exact ⟨hnamed _ h.1, fun c hc => hnamed _ (h.2 c hc)⟩
  case h_9 => exact fun c hc => hnamed _ (h c hc)
  case h_10 => trivial
  case h_11 => exact h.elim

/-- A step of one start: which agents have containers, and what is known of the start. -/
structure Advances (s : Server α κ) (r : Server α κ × Phase α κ) : Prop where
  agents : r.1.agents = s.agents
  named : ∀ a, Named s a → Named r.1 a
  alive : ∀ a ∈ s.agents, (r.1.row a).status = .alive → (s.row a).status = .alive ∨ Named r.1 a
  known : Known r.1 r.2

theorem advances_of_same {s : Server α κ} {r : Server α κ × Phase α κ}
    (hagents : r.1.agents = s.agents) (hrow : r.1.row = s.row)
    (hcontainers : r.1.containers = s.containers) (hknown : Known r.1 r.2) : Advances s r where
  agents := hagents
  named := by
    intro a ha
    unfold Named
    rw [hcontainers]
    exact ha
  alive := by
    intro a _ halive
    rw [hrow] at halive
    exact .inl halive
  known := hknown

theorem advances_ran {s : Server α κ} {a : α} {loaded : Agent κ} {q : Session α κ} {cid : κ}
    (h : Known s (.spawning a loaded q)) :
    Advances s (s.run a cid, .spawned a loaded cid q) where
  agents := rfl
  named := fun _ hb => List.mem_cons_of_mem a hb
  alive := fun _ _ halive => .inl halive
  known := ⟨List.mem_cons_self, fun c hc => List.mem_cons_of_mem a (h c hc)⟩

section

variable [DecidableEq ι] {max_agents : ℕ} {s : State ι α κ}

theorem Kept.set (h : Kept max_agents s) {i : ι} {r : Server α κ × Phase α κ}
    (hr : Advances s.shared r)
    (hroom : ∃ l : List ι, (∀ j, admitted (((s.write r.1).set i r.2).calls j) = true → j ∈ l) ∧
      r.1.containers.length + l.length ≤ max_agents) :
    Kept max_agents ((s.write r.1).set i r.2) where
  nodup := by
    change r.1.agents.Nodup
    rw [hr.agents]
    exact h.nodup
  alive := by
    intro a ha halive
    change a ∈ r.1.agents at ha
    rw [hr.agents] at ha
    rcases hr.alive a ha halive with hbefore | hnamed
    · exact hr.named a (h.alive a ha hbefore)
    · exact hnamed
  known := System.forall_set (P := fun _ q => Known r.1 q) hr.known
    fun j _ => (h.known j).mono hr.named
  room := hroom

/-- The calls that have passed the quota where the one that moves has not. -/
theorem covered_of_others {i : ι} {q : Phase α κ} {server : Server α κ} {l : List ι}
    (hl : ∀ j, j ≠ i → admitted (s.calls j) = true → j ∈ l) (hq : admitted q = true → i ∈ l) :
    ∀ j, admitted (((s.write server).set i q).calls j) = true → j ∈ l :=
  System.forall_set (P := fun j q => admitted q = true → j ∈ l) hq hl

end

section

variable [DecidableEq α]

theorem advances_fail (s : Server α κ) (locks : List α) : Advances s (fail s locks) :=
  advances_of_same rfl rfl rfl trivial

theorem advances_next {s : Server α κ} {changes : List (Change α κ)}
    {todo : List (α × Agent κ)} {r : Server α κ × Phase α κ}
    (h : ∀ c ∈ changes, Named s c.agent) (hr : Next s changes .start todo r) : Advances s r := by
  cases hr with
  | ended _ _ hskip => exact advances_of_same rfl rfl rfl h
  | counted skipped todo a loaded hskip hnot haccepting => exact advances_of_same rfl rfl rfl h
  | refused _ haccepting => exact advances_fail s _

theorem advances_selected {s : Server α κ} {op : Op α} {a : α}
    (h : Known s (.selecting op a : Phase α κ)) : Advances s (selected s op a) := by
  obtain ⟨b, rfl⟩ := h
  unfold selected
  dsimp only
  split
  next => exact advances_of_same rfl rfl rfl nofun
  next => exact advances_of_same rfl rfl rfl nofun

theorem advances_locked {s : Server α κ} {job : Job} {a : α} {loaded : Agent κ}
    {q : Session α κ} (h : Known s (.locking job a loaded q)) :
    Advances s (flushed (s.lock a) job a loaded q) := by
  cases job with
  | start => exact advances_of_same rfl rfl rfl h
  | stop => exact h.elim

theorem advances_posted {s : Server α κ} {a : α} {loaded : Agent κ} {q : Session α κ} {cid : κ}
    (h : Known s (.posting a loaded cid q)) : Advances s (started s a loaded cid q) := by
  refine advances_next ?_ (started_spec s a loaded cid q)
  exact List.forall_mem_cons.mpr ⟨h.1, h.2⟩

theorem advances_call {s : Server α κ} {op : Op α} (hop : starting op = true) :
    Advances s (call op s) := by
  cases op with
  | start a =>
      unfold call
      dsimp only
      split
      next => exact advances_of_same rfl rfl rfl ⟨a, rfl⟩
      next => exact advances_fail s _
  | start_all => exact advances_of_same rfl rfl rfl rfl
  | create b => cases hop
  | delete b => cases hop
  | stop b => cases hop
  | stop_all => cases hop
  | drain => cases hop
  | halt => cases hop
  | push_status b => cases hop

theorem admitted_call (op : Op α) (s : Server α κ) : admitted (call op s).2 = false := by
  cases op with
  | start a =>
      unfold call
      dsimp only
      split <;> rfl
  | _ => rfl

theorem containers_call (op : Op α) (s : Server α κ) :
    (call op s).1.containers = s.containers := by
  cases op with
  | start a =>
      unfold call
      dsimp only
      split <;> rfl
  | _ => rfl

variable [DecidableEq κ]

theorem advances_committed {s : Server α κ} {changes : List (Change α κ)}
    (h : ∀ c ∈ changes, Named s c.agent) : Advances s (s.commit changes, .done true) where
  agents := rfl
  named := fun _ ha => ha
  alive := by
    intro a _ halive
    rcases view_cases s changes a with ⟨-, heq⟩ | ⟨c, hc, rfl, -⟩
    · exact .inl ((congrArg Agent.status heq).symm.trans halive)
    · exact .inr (h c hc)
  known := trivial

theorem advances_resumed {max_agents : ℕ} {s : Server α κ} {p : Phase α κ} {x : Input κ}
    {r : Server α κ × Phase α κ} (hknown : Known s p) (h : Resumed max_agents s p x r) :
    Advances s r := by
  cases h with
  | refused => exact advances_fail s _
  | raised => exact advances_fail s _
  | selected op a ha => exact advances_selected hknown
  | listed job =>
      cases (hknown : job = .start)
      exact advances_next (List.forall_mem_nil _) (next_spec _ _ _ _)
  | counted a loaded q hroom => exact advances_of_same rfl rfl rfl hknown
  | locked job a loaded q ha hfree => exact advances_locked hknown
  | ran a loaded q cid hname hfresh => exact advances_ran hknown
  | put a loaded cid q => exact advances_of_same rfl rfl rfl hknown
  | healthy a loaded cid q => exact advances_of_same rfl rfl rfl hknown
  | unhealthy a loaded cid q => exact advances_of_same rfl rfl rfl trivial
  | posted a loaded cid q => exact advances_posted hknown
  | killed a loaded cid q => exact hknown.elim
  | not_found a loaded cid q => exact hknown.elim
  | kill_raised a loaded cid q => exact hknown.elim
  | removed a loaded q => exact hknown.elim
  | committed changes => exact advances_committed hknown
  | pushed a loaded ha hfree => exact hknown.elim
  | deleted a hfree => exact hknown.elim
  | inserted a ha => exact hknown.elim

/-- What a step does to the containers there are and to those still to come. -/
inductive Takes (max_agents : ℕ) (s : Server α κ) (p : Phase α κ) (x : Input κ)
    (r : Server α κ × Phase α κ) : Prop
  | admits (a : α) (loaded : Agent κ) (q : Session α κ) (hp : p = .counting a loaded q)
      (hx : x = .go) (hcount : live_count s q.changes < max_agents)
      (hcontainers : r.1.containers = s.containers)
  | spawns (hp : admitted p = true) (hr : admitted r.2 = false)
      (hcontainers : r.1.containers.length = s.containers.length + 1)
  | leaves (hadmitted : admitted r.2 = true → admitted p = true)
      (hcontainers : r.1.containers.length ≤ s.containers.length)

theorem takes_next {max_agents : ℕ} {s s' : Server α κ} {p : Phase α κ} {x : Input κ}
    {changes : List (Change α κ)} {job : Job} {todo : List (α × Agent κ)}
    {r : Server α κ × Phase α κ} (hr : Next s' changes job todo r)
    (hs : s'.containers = s.containers) : Takes max_agents s p x r := by
  obtain ⟨locked, hserver⟩ := hr.server
  refine .leaves ?_ (by rw [hserver, ← hs])
  cases hr <;> exact nofun

theorem takes_selected {max_agents : ℕ} {s : Server α κ} {p : Phase α κ} {x : Input κ}
    (op : Op α) (a : α) : Takes max_agents s p x (selected s op a) := by
  cases op with
  | stop b => exact takes_next (next_spec _ _ _ _) rfl
  | delete b =>
      unfold selected
      dsimp only
      split <;> exact .leaves nofun le_rfl
  | start b =>
      unfold selected
      dsimp only
      split <;> exact .leaves nofun le_rfl
  | create b => exact .leaves nofun le_rfl
  | start_all => exact .leaves nofun le_rfl
  | stop_all => exact .leaves nofun le_rfl
  | drain => exact .leaves nofun le_rfl
  | halt => exact .leaves nofun le_rfl
  | push_status b => exact .leaves nofun le_rfl

theorem takes_locked {max_agents : ℕ} {s : Server α κ} {x : Input κ} (job : Job) (a : α)
    (loaded : Agent κ) (q : Session α κ) :
    Takes max_agents s (.locking job a loaded q) x (flushed (s.lock a) job a loaded q) := by
  cases job with
  | start => exact .leaves (fun _ => rfl) le_rfl
  | stop =>
      unfold flushed
      dsimp only
      split
      next => exact takes_next (stopped_spec (s.lock a) a loaded q) rfl
      next => exact .leaves nofun le_rfl

theorem takes_resumed {max_agents : ℕ} {s : Server α κ} {p : Phase α κ} {x : Input κ}
    {r : Server α κ × Phase α κ} (h : Resumed max_agents s p x r) : Takes max_agents s p x r := by
  cases h with
  | selected op a ha => exact takes_selected op a
  | listed job => exact takes_next (next_spec _ _ _ _) rfl
  | counted a loaded q hroom => exact .admits a loaded q rfl rfl hroom rfl
  | locked job a loaded q ha hfree => exact takes_locked job a loaded q
  | ran a loaded q cid hname hfresh => exact .spawns rfl rfl rfl
  | posted a loaded cid q => exact takes_next (started_spec s a loaded cid q) rfl
  | killed a loaded cid q => exact .leaves nofun (List.length_filter_le _ _)
  | kill_raised a loaded cid q => exact .leaves nofun (List.length_filter_le _ _)
  | removed a loaded q => exact takes_next (stopped_spec s a loaded q) rfl
  | refused => exact .leaves nofun le_rfl
  | raised => exact .leaves nofun le_rfl
  | put a loaded cid q => exact .leaves nofun le_rfl
  | healthy a loaded cid q => exact .leaves nofun le_rfl
  | unhealthy a loaded cid q => exact .leaves nofun le_rfl
  | not_found a loaded cid q => exact .leaves nofun le_rfl
  | committed changes => exact .leaves nofun le_rfl
  | pushed a loaded ha hfree => exact .leaves nofun le_rfl
  | deleted a hfree => exact .leaves nofun le_rfl
  | inserted a ha => exact .leaves nofun le_rfl

section System

variable [DecidableEq ι] {max_agents : ℕ} {s s' : State ι α κ}

theorem room_resumed (h : Kept max_agents s) {i : ι} {x : Input κ} {r : Server α κ × Phase α κ}
    (hroom : Room max_agents s (.input i x))
    (hr : Takes max_agents s.shared (s.calls i) x r) :
    ∃ l : List ι, (∀ j, admitted (((s.write r.1).set i r.2).calls j) = true → j ∈ l) ∧
      r.1.containers.length + l.length ≤ max_agents := by
  obtain ⟨l, hl, hle⟩ := h.room
  cases hr with
  | admits a loaded q hp hx hcount hcontainers =>
      subst hx
      have hcounted : counted (s.calls i) = some q := by rw [hp]; rfl
      obtain ⟨l', hl', hlt⟩ := hroom q hcounted hcount
      refine ⟨i :: l', covered_of_others ?_ (fun _ => List.mem_cons_self), ?_⟩
      · intro j hj hadmitted
        exact List.mem_cons_of_mem i (hl' j hj hadmitted)
      · rw [hcontainers, List.length_cons]
        omega
  | spawns hp hnot hcontainers =>
      have hmem : i ∈ l := hl i hp
      refine ⟨l.erase i, covered_of_others ?_ ?_, ?_⟩
      · intro j hj hadmitted
        exact (List.mem_erase_of_ne hj).mpr (hl j hadmitted)
      · intro hadmitted
        rw [hnot] at hadmitted
        cases hadmitted
      · have hpos := List.length_pos_of_mem hmem
        rw [hcontainers, List.length_erase_of_mem hmem]
        omega
  | leaves hadmitted hcontainers =>
      refine ⟨l, covered_of_others (fun j _ => hl j) (fun hq => hl i (hadmitted hq)), ?_⟩
      omega

theorem step_kept {e : Event ι α κ} (h : Kept max_agents s) (hstarts : OnlyStarts e)
    (hroom : Room max_agents s e) (hstep : step max_agents s e = some s') :
    Kept max_agents s' := by
  cases e with
  | call i op =>
      obtain ⟨-, hstep⟩ := Option.ite_none_right_eq_some.mp hstep
      cases hstep
      refine h.set (advances_call hstarts) ?_
      obtain ⟨l, hl, hle⟩ := h.room
      refine ⟨l, covered_of_others (fun j _ => hl j) ?_, ?_⟩
      · intro hadmitted
        rw [admitted_call] at hadmitted
        cases hadmitted
      · rw [containers_call]
        exact hle
  | input i x =>
      obtain ⟨r, hr, rfl⟩ := Option.map_eq_some_iff.mp hstep
      have hresumed := resumed_of_resume hr
      exact h.set (advances_resumed (h.known i) hresumed)
        (room_resumed h hroom (takes_resumed hresumed))

/-- Starts that pass the quota only where there is room leave no more agents alive and no
more containers than it allows. -/
theorem quota_kept {es : List (Event ι α κ)} {t : State ι α κ} (hs : Idle max_agents s)
    (hstarts : ∀ e ∈ es, OnlyStarts e) (hrun : run (step max_agents) s es = some t)
    (hroom : AllSteps (step max_agents) (Room max_agents) s es) :
    alive_count t.shared ≤ max_agents ∧ t.shared.containers.length ≤ max_agents := by
  have hall := (allSteps_of_forall_mem hstarts s).and hroom
  have hkept : Kept max_agents t := by
    apply run_invariant_of_allSteps _ hrun hall hs.kept
    intro s e s' h hboth hstep
    exact step_kept h hboth.1 hboth.2 hstep
  exact hkept.quota

end System

end

/-- Five agents, of which three are alive, and the number of requests that are made. -/
def busy_server : State Bool ℕ ℕ where
  shared :=
    { agents := [0, 1, 2, 3, 4]
      row := fun a =>
        if a < 3 then { status := .alive, container_id := some a }
        else { status := .stopped, container_id := none }
      locked := fun _ => false
      registry := fun a => if a < 3 then some a else none
      containers := [(0, 0), (1, 1), (2, 2)]
      spawned := [0, 1, 2]
      accepting_starts := true }
  calls := fun _ => .done false

theorem busy_server_idle : Idle 4 busy_server where
  nodup := by decide
  alive := by decide
  calls := fun _ => rfl
  room := by decide

/-- A start after its call, up to the answer of docker. -/
def started_by (i : Bool) (cid : ℕ) : List (Event Bool ℕ ℕ) :=
  [.input i .go, .input i (.container cid), .input i .go, .input i .healthy, .input i .go,
    .input i .go]

theorem quota_kept_one_start : ∃ t, run (step 4) busy_server
      ([.call false (.start 3), .input false .go, .input false .go] ++ started_by false 3) =
        some t ∧ alive_count t.shared ≤ 4 ∧ t.shared.containers.length ≤ 4 := by
  obtain ⟨t, hrun⟩ := Option.isSome_iff_exists.mp (show
    (run (step 4) busy_server ([.call false (.start 3), .input false .go, .input false .go] ++
      started_by false 3)).isSome by decide)
  exact ⟨t, hrun, quota_kept busy_server_idle (by decide) hrun (by decide)⟩

/-- Two starts count three live agents each, before either commits. -/
theorem quota_exceeded :
    ¬ ∀ (max_agents : ℕ) (s t : State Bool ℕ ℕ) (es : List (Event Bool ℕ ℕ)),
      Idle max_agents s → (∀ e ∈ es, OnlyStarts e) → run (step max_agents) s es = some t →
        alive_count t.shared ≤ max_agents ∧ t.shared.containers.length ≤ max_agents := by
  intro h
  have hend : (run (step 4) busy_server
      ([.call false (.start 3), .call true (.start 4), .input false .go, .input true .go,
        .input false .go, .input true .go] ++ started_by false 3 ++ started_by true 4)).map
      (fun t => (alive_count t.shared, t.shared.containers.length)) = some (5, 5) := by
    decide
  obtain ⟨t, hrun, hlast⟩ := Option.map_eq_some_iff.mp hend
  have hquota := (h 4 busy_server t _ busy_server_idle (by decide) hrun).1
  rw [(Prod.mk.inj hlast).1] at hquota
  omega

end ArticTrader.AgentQuota
