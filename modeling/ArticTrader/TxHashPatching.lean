import ArticTrader.HubCallback
import ArticTrader.LabelledRuns

/-!
The agent posts the hash of an on-chain trade log for the trade it reported last.
Every transition of its position schedules its report and its log; both begin in the
order in which they were scheduled, and the hashes return in any.
-/

namespace ArticTrader.TxHashPatching

open ArticTrader.HubCallback
open ArticTrader.LabelledRuns
open ArticTrader.PythonText (Text truthy)
open ArticTrader.TradingEngine (TradeReport)

structure Agent where
  agent_id : Text
  hub_enabled : Bool
  logger_enabled : Bool
  deriving DecidableEq, Repr

/-- The tasks of a transition that have not begun. -/
inductive Task where
  | report (event : ℕ) (trade : TradeReport)
  | log (event : ℕ)
  deriving DecidableEq, Repr

/-- A hash that was posted for a trade, and the transition whose log it is the hash of. -/
structure Post where
  trade_id : ℕ
  tx_hash : Text
  event : ℕ
  deriving DecidableEq, Repr

/-- The transitions are numbered. No UUID is drawn twice, so that a new one goes by the
number of the transition it is drawn for. `named` has the trade ids of the transitions
that have been reported. -/
structure State where
  tasks : List Task
  events : ℕ
  trades : Trades ℕ
  named : List ℕ
  waiting : List ℕ
  posts : List Post

inductive Step where
  | transition (trade : TradeReport)
  | begin_task (now : ℤ)
  | log_trade (event : ℕ) (tx_hash : Option Text)
  deriving DecidableEq, Repr

def initial : State where
  tasks := []
  events := 0
  trades := { open_trades := fun _ => none, last_trade_id := fun _ => none }
  named := []
  waiting := []
  posts := []

/-- The tasks that `_execute_action` schedules. -/
def scheduled (agent : Agent) (event : ℕ) (trade : TradeReport) : List Task :=
  (if agent.agent_id ≠ [] then [.report event trade] else []) ++ [.log event]

def State.report_trade (s : State) (agent : Agent) (event : ℕ) (trade : TradeReport) (now : ℤ) :
    State :=
  if agent.hub_enabled then
    { s with
      trades := name_trade s.trades trade event now
      named := s.named ++ [(trade_entry s.trades trade event now).1] }
  else s

def patch_trade_tx_hash (agent : Agent) (trades : Trades ℕ) (event : ℕ) (tx_hash : Text) :
    List Post :=
  if agent.hub_enabled then
    match trades.last_trade_id agent.agent_id with
    | none => []
    | some trade_id => [{ trade_id, tx_hash, event }]
  else []

def report_onchain_trade (agent : Agent) (trades : Trades ℕ) (event : ℕ) (tx_hash : Option Text) :
    List Post :=
  if truthy tx_hash = true ∧ agent.agent_id ≠ [] then
    patch_trade_tx_hash agent trades event (tx_hash.getD [])
  else []

/-- `_log_trade_onchain` once `log_trade` has returned or raised. -/
def State.log_trade_onchain (s : State) (agent : Agent) (event : ℕ) (tx_hash : Option Text) :
    State :=
  { s with
    waiting := s.waiting.filter (· ≠ event)
    posts := s.posts ++ report_onchain_trade agent s.trades event tx_hash }

def step (agent : Agent) (s : State) : Step → Option State
  | .transition trade =>
      if trade.agent_id = agent.agent_id then
        some { s with
          tasks := s.tasks ++ scheduled agent s.events trade
          events := s.events + 1 }
      else none
  | .begin_task now =>
      match s.tasks with
      | [] => none
      | .report event trade :: rest =>
          some ({ s with tasks := rest }.report_trade agent event trade now)
      | .log event :: rest =>
          some { s with
            tasks := rest
            waiting := if agent.logger_enabled then event :: s.waiting else s.waiting }
  | .log_trade event tx_hash =>
      if event ∈ s.waiting then some (s.log_trade_onchain agent event tx_hash) else none

def OwnTrades (s : State) : Prop := ∀ post ∈ s.posts, s.named[post.event]? = some post.trade_id

/-- A hash returns before the report of another trade than its own has begun. -/
def Current (s : State) : Step → Prop
  | .log_trade event tx_hash => truthy tx_hash = true →
      ∀ later id : ℕ, event < later → s.named[later]? = some id → s.named[event]? = some id
  | _ => True

/-- The ids of the reported trades, in the order of the reports. -/
structure Named (named : List ℕ) : Prop where
  below : ∀ i id : ℕ, named[i]? = some id → id ≤ i
  sorted : ∀ i j a b : ℕ, i ≤ j → named[i]? = some a → named[j]? = some b → a ≤ b

theorem getElem?_append_one {named : List ℕ} {new i id : ℕ} :
    (named ++ [new])[i]? = some id ↔ named[i]? = some id ∨ i = named.length ∧ id = new := by
  rcases Nat.lt_trichotomy i named.length with h | h | h
  · rw [List.getElem?_append_left h]
    simp [h.ne]
  · subst h
    simp [eq_comm]
  · rw [List.getElem?_append_right h.le, List.getElem?_eq_none (by simp; omega),
      List.getElem?_eq_none h.le]
    simp [h.ne']

theorem Named.append {named : List ℕ} (h : Named named) {new : ℕ} (hbelow : new ≤ named.length)
    (habove : ∀ i id : ℕ, named[i]? = some id → id ≤ new) : Named (named ++ [new]) where
  below := by
    intro i id hid
    rcases getElem?_append_one.mp hid with hid | ⟨rfl, rfl⟩
    · exact h.below i id hid
    · exact hbelow
  sorted := by
    intro i j a b hij ha hb
    rcases getElem?_append_one.mp hb with hb | ⟨rfl, rfl⟩
    · rcases getElem?_append_one.mp ha with ha | ⟨rfl, -⟩
      · exact h.sorted i j a b hij ha hb
      · rw [List.getElem?_eq_none (by omega)] at hb
        cases hb
    · rcases getElem?_append_one.mp ha with ha | ⟨-, rfl⟩
      · exact habove i a ha
      · exact le_rfl

theorem getLast?_eq {named : List ℕ} {last : ℕ} (h : named.getLast? = some last) :
    named[named.length - 1]? = some last := by
  rw [← List.getLast?_eq_getElem?]
  exact h

theorem Named.le_last {named : List ℕ} (h : Named named) {last : ℕ}
    (hlast : named.getLast? = some last) (i id : ℕ) (hid : named[i]? = some id) : id ≤ last := by
  have hi : i < named.length := (List.getElem?_eq_some_iff.mp hid).1
  exact h.sorted i (named.length - 1) id last (by omega) hid (getLast?_eq hlast)

/-- The last report is of the trade of a given one exactly if all in between are. -/
theorem Named.last_iff {named : List ℕ} (h : Named named) {last event : ℕ}
    (hlast : named.getLast? = some last) (hevent : event < named.length) :
    named[event]? = some last ↔
      ∀ later id : ℕ, event < later → named[later]? = some id → named[event]? = some id := by
  constructor
  · intro hown later id hlater hid
    have hle : id ≤ last := h.le_last hlast later id hid
    have hge : last ≤ id := h.sorted event later last id hlater.le hown hid
    rw [hown, le_antisymm hle hge]
  · intro hcurrent
    by_cases hend : event = named.length - 1
    · rw [hend]
      exact getLast?_eq hlast
    · exact hcurrent (named.length - 1) last (by omega) (getLast?_eq hlast)

def Task.report_event : Task → Option ℕ
  | .report event _ => some event
  | .log _ => none

/-- With `reported` reports begun, every log of the queue comes behind its report. -/
def LogsFollow : ℕ → List Task → Prop
  | _, [] => True
  | reported, .report _ _ :: tasks => LogsFollow (reported + 1) tasks
  | reported, .log event :: tasks => event < reported ∧ LogsFollow reported tasks

theorem logsFollow_append (reported : ℕ) (tasks tasks' : List Task) :
    LogsFollow reported (tasks ++ tasks') ↔ LogsFollow reported tasks ∧
      LogsFollow (reported + (tasks.filterMap Task.report_event).length) tasks' := by
  induction tasks generalizing reported with
  | nil => simp [LogsFollow]
  | cons task tasks ih =>
      cases task with
      | report event trade =>
          simp [LogsFollow, ih, Task.report_event, Nat.add_assoc, Nat.add_comm 1]
      | log event =>
          have hskip : (Task.log event :: tasks).filterMap Task.report_event =
              tasks.filterMap Task.report_event := List.filterMap_cons_none rfl
          simp only [List.cons_append, LogsFollow, ih, hskip, and_assoc]

/-- The agent has an id and a hub to report to. -/
def Agent.reporting (agent : Agent) : Prop := agent.agent_id ≠ [] ∧ agent.hub_enabled = true

structure Kept (agent : Agent) (s : State) : Prop where
  named : Named s.named
  last : s.trades.last_trade_id agent.agent_id = s.named.getLast?
  opened : ∀ id at_, s.trades.open_trades agent.agent_id = some (id, at_) →
    s.named.getLast? = some id
  reporter : ∀ event trade, .report event trade ∈ s.tasks →
    trade.agent_id = agent.agent_id ∧ agent.agent_id ≠ []
  quiet : ¬ agent.reporting → s.named = []
  reports : agent.reporting → s.named.length ≤ s.events ∧
    s.tasks.filterMap Task.report_event =
      List.range' s.named.length (s.events - s.named.length)
  logs : agent.reporting → LogsFollow s.named.length s.tasks
  waiting : agent.reporting → ∀ event ∈ s.waiting, event < s.named.length
  posted : ∀ post ∈ s.posts, post.event < s.named.length

theorem initial_kept (agent : Agent) : Kept agent initial where
  named := ⟨by simp [initial], by simp [initial]⟩
  last := rfl
  opened := fun _ _ h => by cases h
  reporter := fun _ _ h => by cases h
  quiet := fun _ => rfl
  reports := fun _ => ⟨le_rfl, rfl⟩
  logs := fun _ => trivial
  waiting := fun _ _ h => by cases h
  posted := fun _ h => by cases h

theorem Kept.transition {agent : Agent} {s : State} (hs : Kept agent s) {trade : TradeReport}
    (hagent : trade.agent_id = agent.agent_id) :
    Kept agent { s with
      tasks := s.tasks ++ scheduled agent s.events trade
      events := s.events + 1 } where
  named := hs.named
  last := hs.last
  opened := hs.opened
  reporter := by
    intro event trade' hmem
    rcases List.mem_append.mp hmem with hmem | hmem
    · exact hs.reporter event trade' hmem
    · by_cases hid : agent.agent_id = []
      · simp [scheduled, hid] at hmem
      · simp only [scheduled, if_pos hid, List.singleton_append, List.mem_cons, Task.report.injEq,
          reduceCtorEq, List.not_mem_nil, or_false] at hmem
        obtain ⟨-, rfl⟩ := hmem
        exact ⟨hagent, hid⟩
  quiet := hs.quiet
  reports := by
    intro hreporting
    obtain ⟨hle, hreports⟩ := hs.reports hreporting
    refine ⟨by simp only; omega, ?_⟩
    have hnew : (scheduled agent s.events trade).filterMap Task.report_event = [s.events] := by
      simp [scheduled, hreporting.1, Task.report_event]
    rw [List.filterMap_append, hreports, hnew, Nat.succ_sub hle, List.range'_concat]
    simp only [Nat.one_mul, List.append_cancel_left_eq, List.cons.injEq, and_true]
    omega
  logs := by
    intro hreporting
    obtain ⟨hle, hreports⟩ := hs.reports hreporting
    rw [logsFollow_append]
    refine ⟨hs.logs hreporting, ?_⟩
    simp [scheduled, hreporting.1, LogsFollow, hreports]
    omega
  waiting := hs.waiting
  posted := hs.posted

theorem Kept.named_append {agent : Agent} {s : State} (hs : Kept agent s) {trade : TradeReport}
    (hagent : trade.agent_id = agent.agent_id) (now : ℤ) :
    Named (s.named ++ [(trade_entry s.trades trade s.named.length now).1]) := by
  have hnew : Named (s.named ++ [s.named.length]) := by
    apply hs.named.append le_rfl
    intro i id hid
    exact (hs.named.below i id hid).trans (List.getElem?_eq_some_iff.mp hid).1.le
  unfold trade_entry
  split
  · exact hnew
  · rw [hagent]
    cases hopen : s.trades.open_trades agent.agent_id with
    | none => exact hnew
    | some entry =>
        have hlast : s.named.getLast? = some entry.1 := hs.opened entry.1 entry.2 hopen
        apply hs.named.append
        · have hle := hs.named.below _ _ (getLast?_eq hlast)
          simp only [Option.getD_some]
          omega
        · exact hs.named.le_last hlast

theorem Kept.reporter_rest {agent : Agent} {s : State} (hs : Kept agent s) {task : Task}
    {rest : List Task} (htasks : s.tasks = task :: rest) (event : ℕ) (trade : TradeReport)
    (hmem : .report event trade ∈ rest) :
    trade.agent_id = agent.agent_id ∧ agent.agent_id ≠ [] :=
  hs.reporter event trade (htasks ▸ .tail _ hmem)

theorem Kept.without_hub {agent : Agent} {s : State} (hs : Kept agent s)
    (hsilent : ¬ agent.reporting) {task : Task} {rest : List Task}
    (htasks : s.tasks = task :: rest) : Kept agent { s with tasks := rest } where
  named := hs.named
  last := hs.last
  opened := hs.opened
  reporter := hs.reporter_rest htasks
  quiet := hs.quiet
  reports := fun h => absurd h hsilent
  logs := fun h => absurd h hsilent
  waiting := hs.waiting
  posted := hs.posted

/-- A report that begins names its transition, which is the next one to be reported. -/
theorem Kept.report {agent : Agent} {s : State} (hs : Kept agent s) {event : ℕ}
    {trade : TradeReport} {rest : List Task} (htasks : s.tasks = .report event trade :: rest)
    (now : ℤ) : Kept agent ({ s with tasks := rest }.report_trade agent event trade now) := by
  obtain ⟨hagent, hid⟩ := hs.reporter event trade (by simp [htasks])
  by_cases henabled : agent.hub_enabled = true
  · have hreporting : agent.reporting := ⟨hid, henabled⟩
    obtain ⟨hle, hreports⟩ := hs.reports hreporting
    have hlogs := hs.logs hreporting
    rw [htasks] at hreports hlogs
    obtain ⟨rfl, hless, hrest⟩ := List.range'_eq_cons_iff.mp hreports.symm
    have hlonger : ∀ i, i < s.named.length → ∀ new, i < (s.named ++ [new]).length := by
      intro i hi new
      rw [List.length_append]
      exact Nat.lt_add_right _ hi
    simp only [State.report_trade, if_pos henabled]
    exact {
      named := hs.named_append hagent now
      last := by simp [name_trade, hagent]
      opened := by
        intro id at_ hopen
        simp only [name_trade, hagent, Function.update_self] at hopen
        simp only [List.getLast?_append, List.getLast?_singleton]
        cases hexit : trade.exit_price <;> simp_all [trade_entry]
      reporter := hs.reporter_rest htasks
      quiet := fun h => absurd hreporting h
      reports := by
        intro _
        refine ⟨by simp only [List.length_append, List.length_singleton]; omega, ?_⟩
        simpa [Nat.sub_sub] using hrest
      logs := by
        intro _
        rw [List.length_append]
        exact hlogs
      waiting := fun h event' hmem => hlonger event' (hs.waiting h event' hmem) _
      posted := fun post hpost => hlonger post.event (hs.posted post hpost) _ }
  · simp only [State.report_trade, if_neg henabled]
    exact hs.without_hub (fun h => henabled h.2) htasks

theorem Kept.log {agent : Agent} {s : State} (hs : Kept agent s) {event : ℕ} {rest : List Task}
    (htasks : s.tasks = .log event :: rest) :
    Kept agent { s with
      tasks := rest
      waiting := if agent.logger_enabled then event :: s.waiting else s.waiting } where
  named := hs.named
  last := hs.last
  opened := hs.opened
  reporter := hs.reporter_rest htasks
  quiet := hs.quiet
  reports := by
    intro hreporting
    have hreports := hs.reports hreporting
    rw [htasks] at hreports
    exact hreports
  logs := by
    intro hreporting
    have hlogs := hs.logs hreporting
    rw [htasks] at hlogs
    exact hlogs.2
  waiting := by
    intro hreporting event' hmem
    have hlogs := hs.logs hreporting
    rw [htasks] at hlogs
    split at hmem
    · rcases List.mem_cons.mp hmem with rfl | hmem
      · exact hlogs.1
      · exact hs.waiting hreporting event' hmem
    · exact hs.waiting hreporting event' hmem
  posted := hs.posted

theorem mem_report_onchain_trade {agent : Agent} {trades : Trades ℕ} {event : ℕ}
    {tx_hash : Option Text} {post : Post}
    (h : post ∈ report_onchain_trade agent trades event tx_hash) :
    agent.reporting ∧ truthy tx_hash = true ∧ post.event = event ∧
      trades.last_trade_id agent.agent_id = some post.trade_id := by
  unfold report_onchain_trade patch_trade_tx_hash at h
  split_ifs at h with hhash henabled
  · cases hlast : trades.last_trade_id agent.agent_id with
    | none => simp [hlast] at h
    | some trade_id =>
        simp only [hlast, List.mem_singleton] at h
        subst h
        exact ⟨⟨hhash.2, henabled⟩, hhash.1, rfl, rfl⟩
  · cases h
  · cases h

theorem report_onchain_trade_eq {agent : Agent} (hreporting : agent.reporting) {trades : Trades ℕ}
    {trade_id : ℕ} (hlast : trades.last_trade_id agent.agent_id = some trade_id) (event : ℕ)
    {tx_hash : Option Text} (hhash : truthy tx_hash = true) :
    report_onchain_trade agent trades event tx_hash =
      [{ trade_id, tx_hash := tx_hash.getD [], event }] := by
  rw [report_onchain_trade, if_pos ⟨hhash, hreporting.1⟩, patch_trade_tx_hash,
    if_pos hreporting.2, hlast]

theorem Kept.log_trade {agent : Agent} {s : State} (hs : Kept agent s) {event : ℕ}
    (hwaiting : event ∈ s.waiting) (tx_hash : Option Text) :
    Kept agent (s.log_trade_onchain agent event tx_hash) where
  named := hs.named
  last := hs.last
  opened := hs.opened
  reporter := hs.reporter
  quiet := hs.quiet
  reports := hs.reports
  logs := hs.logs
  waiting := by
    intro hreporting event' hmem
    exact hs.waiting hreporting event' (List.mem_filter.mp hmem).1
  posted := by
    intro post hpost
    rcases List.mem_append.mp hpost with hpost | hpost
    · exact hs.posted post hpost
    · obtain ⟨hreporting, -, hevent, -⟩ := mem_report_onchain_trade hpost
      rw [hevent]
      exact hs.waiting hreporting event hwaiting

/-- A hash that returns goes to its own trade exactly if no other has been reported since. -/
theorem Kept.posted_iff {agent : Agent} {s : State} (hs : Kept agent s) {event : ℕ}
    (hwaiting : event ∈ s.waiting) (tx_hash : Option Text) :
    (∀ post ∈ report_onchain_trade agent s.trades event tx_hash,
        s.named[post.event]? = some post.trade_id) ↔ Current s (.log_trade event tx_hash) := by
  by_cases hreporting : agent.reporting
  · have hevent : event < s.named.length := hs.waiting hreporting event hwaiting
    obtain ⟨last, hlast⟩ : ∃ last, s.named.getLast? = some last :=
      ⟨_, List.getLast?_eq_some_getLast (List.ne_nil_of_length_pos (by omega))⟩
    constructor
    · intro hposts hhash
      apply (hs.named.last_iff hlast hevent).mp
      apply hposts { trade_id := last, tx_hash := tx_hash.getD [], event }
      rw [report_onchain_trade_eq hreporting (hs.last.trans hlast) event hhash]
      exact .head _
    · intro hcurrent post hpost
      obtain ⟨-, hhash, rfl, hid⟩ := mem_report_onchain_trade hpost
      rw [hs.last] at hid
      exact (hs.named.last_iff hid hevent).mpr (hcurrent hhash)
  · constructor
    · intro _ _ later id _ hid
      simp [hs.quiet hreporting] at hid
    · intro _ post hpost
      exact absurd (mem_report_onchain_trade hpost).1 hreporting

/-- What a step can do. -/
inductive Moved (agent : Agent) (s : State) : Step → State → Prop where
  | transition {trade : TradeReport} (hagent : trade.agent_id = agent.agent_id) :
      Moved agent s (.transition trade)
        { s with tasks := s.tasks ++ scheduled agent s.events trade, events := s.events + 1 }
  | reports {event : ℕ} {trade : TradeReport} {rest : List Task} (now : ℤ)
      (htasks : s.tasks = .report event trade :: rest) :
      Moved agent s (.begin_task now)
        ({ s with tasks := rest }.report_trade agent event trade now)
  | logs {event : ℕ} {rest : List Task} (now : ℤ) (htasks : s.tasks = .log event :: rest) :
      Moved agent s (.begin_task now)
        { s with
          tasks := rest
          waiting := if agent.logger_enabled then event :: s.waiting else s.waiting }
  | returns {event : ℕ} (tx_hash : Option Text) (hwaiting : event ∈ s.waiting) :
      Moved agent s (.log_trade event tx_hash) (s.log_trade_onchain agent event tx_hash)

theorem step_moved {agent : Agent} {s s' : State} {e : Step} (h : step agent s e = some s') :
    Moved agent s e s' := by
  cases e with
  | transition trade =>
      simp only [step] at h
      split_ifs at h with hagent
      cases h
      exact .transition hagent
  | begin_task now =>
      cases htasks : s.tasks with
      | nil => simp [step, htasks] at h
      | cons task rest =>
          cases task with
          | report event trade =>
              simp only [step, htasks, Option.some.injEq] at h
              subst h
              exact .reports now htasks
          | log event =>
              simp only [step, htasks, Option.some.injEq] at h
              subst h
              exact .logs now htasks
  | log_trade event tx_hash =>
      simp only [step] at h
      split_ifs at h with hwaiting
      cases h
      exact .returns tx_hash hwaiting

theorem step_kept {agent : Agent} {s s' : State} {e : Step} (hs : Kept agent s)
    (h : step agent s e = some s') : Kept agent s' := by
  cases step_moved h with
  | transition hagent => exact hs.transition hagent
  | reports now htasks => exact hs.report htasks now
  | logs now htasks => exact hs.log htasks
  | returns tx_hash hwaiting => exact hs.log_trade hwaiting tx_hash

/-- A transition keeps the name it has been reported under. -/
theorem OwnTrades.report_iff {agent : Agent} {s : State} (hs : Kept agent s) (tasks : List Task)
    (event : ℕ) (trade : TradeReport) (now : ℤ) :
    OwnTrades ({ s with tasks }.report_trade agent event trade now) ↔ OwnTrades s := by
  unfold State.report_trade
  split
  · have hkeep : ∀ post ∈ s.posts, ∀ new : ℕ,
        (s.named ++ [new])[post.event]? = s.named[post.event]? :=
      fun post hpost new => List.getElem?_append_left (hs.posted post hpost)
    constructor
    · intro hown post hpost
      rw [← hkeep post hpost]
      exact hown post hpost
    · intro hown post hpost
      rw [← hown post hpost]
      exact hkeep post hpost _
  · exact Iff.rfl

theorem step_own {agent : Agent} {s s' : State} {e : Step} (hs : Kept agent s)
    (h : step agent s e = some s') : OwnTrades s' ↔ OwnTrades s ∧ Current s e := by
  cases step_moved h with
  | transition hagent => exact (and_iff_left trivial).symm
  | reports now htasks =>
      exact (OwnTrades.report_iff hs _ _ _ now).trans (and_iff_left trivial).symm
  | logs now htasks => exact (and_iff_left trivial).symm
  | returns tx_hash hwaiting =>
      rw [← hs.posted_iff hwaiting tx_hash]
      exact List.forall_mem_append

/-- Every posted hash goes to the trade whose transition was logged exactly if each returns
before the report of another trade has begun. -/
theorem hash_goes_to_own_trade {agent : Agent} {es : List Step} {t : State}
    (hrun : run (step agent) initial es = some t) :
    OwnTrades t ↔ AllSteps (step agent) Current initial es := by
  have hiff := final_iff_allSteps (I := OwnTrades) (C := Current)
    (fun _ _ _ hs h => step_kept hs h) (fun _ _ _ hs h => step_own hs h) hrun (initial_kept agent)
  rw [hiff]
  exact and_iff_right fun _ h => by cases h

instance (s : State) : Decidable (OwnTrades s) :=
  inferInstanceAs (Decidable (∀ post ∈ s.posts, s.named[post.event]? = some post.trade_id))

def demo_agent : Agent where
  agent_id := "a1".toList
  hub_enabled := true
  logger_enabled := true

def open_long : TradeReport where
  agent_id := "a1".toList
  side := "long".toList
  entry_price := some 100
  exit_price := none
  pnl := none
  size_usdt := some 100
  leverage := some 5
  strategy := some "momentum".toList
  close_reason := none

def close_long : TradeReport :=
  { open_long with
    exit_price := some 110
    pnl := some 50
    close_reason := some "take profit".toList }

/-- The hash of the open returns after the report of the close has begun. -/
def slow_open : List Step :=
  [.transition open_long, .begin_task 10, .begin_task 10, .transition close_long, .begin_task 20,
    .log_trade 0 (some "0xaa".toList), .begin_task 20, .log_trade 1 (some "0xcc".toList)]

theorem slow_open_hashes :
    ∃ t, run (step demo_agent) initial slow_open = some t ∧ t.posts.length = 2 ∧ OwnTrades t ∧
      AllSteps (step demo_agent) Current initial slow_open := by
  have hrun : run (step demo_agent) initial slow_open = some _ := rfl
  refine ⟨_, hrun, rfl, by decide, (hash_goes_to_own_trade hrun).mp (by decide)⟩

/-- The hash of a trade's open returns after the next trade has been reported. -/
def next_trade : List Step :=
  [.transition open_long, .transition close_long, .transition open_long, .begin_task 10,
    .begin_task 10, .begin_task 20, .begin_task 20, .begin_task 30,
    .log_trade 0 (some "0xaa".toList)]

theorem next_trade_takes_hash :
    ¬ ∀ (agent : Agent) (es : List Step) (t : State),
      run (step agent) initial es = some t → OwnTrades t := by
  intro h
  exact absurd (h demo_agent next_trade _ rfl) (by decide)

end ArticTrader.TxHashPatching
