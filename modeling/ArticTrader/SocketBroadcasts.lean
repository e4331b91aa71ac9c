import Mathlib.Data.Finset.Dedup
import Mathlib.Data.Finset.Erase
import Mathlib.Data.Finset.Insert
import ArticTrader.LabelledRuns
import ArticTrader.PythonText

/-!
The sockets that the hub streams to, and broadcasts to them while sockets come and go. A lock
is never held while a task waits, so that between two sends everything is done at once.
-/

namespace ArticTrader.SocketBroadcasts

open ArticTrader.LabelledRuns
open ArticTrader.PythonText (Text)

/-- What a socket is subscribed to, by its endpoint: the status and the logs of an agent go by
the same name. -/
inductive Topic where
  | agent (agent_id : Text)
  | prices
  deriving DecidableEq, Repr

variable {ω β : Type*} [DecidableEq ω] [DecidableEq β]

/-- The two tables of sockets, `_subscribers` being a dict of sets. -/
structure Manager (ω : Type*) where
  subscribers : Text → Option (Finset ω)
  price_subscribers : Finset ω

def Manager.subscribe (m : Manager ω) (agent_id : Text) (ws : ω) : Manager ω :=
  let subs := insert ws ((m.subscribers agent_id).getD ∅)
  { m with subscribers := Function.update m.subscribers agent_id (some subs) }

def Manager.unsubscribe (m : Manager ω) (agent_id : Text) (ws : ω) : Manager ω :=
  let subs := ((m.subscribers agent_id).getD ∅).erase ws
  { m with
    subscribers := Function.update m.subscribers agent_id (if subs = ∅ then none else some subs) }

def Manager.subscribe_prices (m : Manager ω) (ws : ω) : Manager ω :=
  { m with price_subscribers := insert ws m.price_subscribers }

def Manager.unsubscribe_prices (m : Manager ω) (ws : ω) : Manager ω :=
  { m with price_subscribers := m.price_subscribers.erase ws }

def Manager.members (m : Manager ω) : Topic → Finset ω
  | .agent agent_id => (m.subscribers agent_id).getD ∅
  | .prices => m.price_subscribers

def Manager.enter (m : Manager ω) (ws : ω) : Topic → Manager ω
  | .agent agent_id => m.subscribe agent_id ws
  | .prices => m.subscribe_prices ws

def Manager.leave (m : Manager ω) (ws : ω) : Topic → Manager ω
  | .agent agent_id => m.unsubscribe agent_id ws
  | .prices => m.unsubscribe_prices ws

/-- No agent without sockets has a set of them. -/
def Manager.Swept (m : Manager ω) : Prop := ∀ agent_id, m.subscribers agent_id ≠ some ∅

theorem Manager.mem_enter {m : Manager ω} {w v : ω} {k j : Topic} :
    w ∈ (m.enter v k).members j ↔ w = v ∧ j = k ∨ w ∈ m.members j := by
  cases k with
  | agent agent_id =>
      cases j with
      | agent id =>
          by_cases hid : id = agent_id
          · subst hid
            simp [enter, subscribe, members]
          · simp [enter, subscribe, members, hid]
      | prices => simp [enter, subscribe, members]
  | prices => cases j <;> simp [enter, subscribe_prices, members]

theorem Manager.mem_leave {m : Manager ω} {w v : ω} {k j : Topic} :
    w ∈ (m.leave v k).members j ↔ w ∈ m.members j ∧ ¬ (w = v ∧ j = k) := by
  cases k with
  | agent agent_id =>
      cases j with
      | agent id =>
          by_cases hid : id = agent_id
          · subst hid
            have hsubs : ((m.unsubscribe id v).subscribers id).getD ∅ =
                ((m.subscribers id).getD ∅).erase v := by
              simp only [unsubscribe, Function.update_self]
              split_ifs with hempty
              · exact hempty.symm
              · rfl
            simp only [leave, members, hsubs, Finset.mem_erase, and_true]
            exact and_comm
          · simp [leave, unsubscribe, members, hid]
      | prices => simp [leave, unsubscribe, members]
  | prices => cases j <;> simp [leave, unsubscribe_prices, members, and_comm]

theorem Manager.Swept.enter {m : Manager ω} (h : m.Swept) (v : ω) (k : Topic) :
    (m.enter v k).Swept := by
  cases k with
  | agent agent_id =>
      intro id
      by_cases hid : id = agent_id
      · subst hid
        simp [Manager.enter, Manager.subscribe]
      · simpa [Manager.enter, Manager.subscribe, hid] using h id
  | prices => exact h

theorem Manager.Swept.leave {m : Manager ω} (h : m.Swept) (v : ω) (k : Topic) :
    (m.leave v k).Swept := by
  cases k with
  | agent agent_id =>
      intro id
      by_cases hid : id = agent_id
      · subst hid
        simp only [Manager.leave, Manager.unsubscribe, Function.update_self]
        split_ifs with hempty
        · exact nofun
        · exact fun hsome => hempty (Option.some.inj hsome)
      · simpa [Manager.leave, Manager.unsubscribe, hid] using h id
  | prices => exact h

/-- A socket is `up` while its endpoint waits for texts. -/
inductive Connection where
  | idle
  | up
  | closed
  deriving DecidableEq, Repr

/-- Where a broadcast stands: the sockets it took, those it has not come to, those whose send
has raised, and those of them that it has not unsubscribed. -/
inductive Phase (ω : Type*) where
  | idle
  | sending (subs unsent dead : List ω)
  | dropping (subs dead undropped : List ω)
  | done (subs dead : List ω)
  deriving DecidableEq, Repr

/-- `sent` has the sends that returned, in their order. -/
structure State (ω β : Type*) where
  manager : Manager ω
  connections : ω → Connection
  calls : β → Phase ω
  sent : List (ω × β)

inductive Step (ω β : Type*) where
  | connect (w : ω)
  | disconnect (w : ω)
  | snapshot (b : β) (order : List ω)
  | send (b : β) (delivered : Bool)
  | drop (b : β)
  deriving DecidableEq, Repr

def initial : State ω β := ⟨⟨fun _ => none, ∅⟩, fun _ => .idle, fun _ => .idle, []⟩

def State.set (s : State ω β) (b : β) (p : Phase ω) : State ω β :=
  { s with calls := Function.update s.calls b p }

/-- Nothing is sent where there are no prices to send to. -/
def begun (k : Topic) (order : List ω) : Phase ω :=
  if k = .prices ∧ order = [] then .done [] [] else .sending order order []

/-- The endpoints, the broadcasts with what they are broadcast to, and the order in which a set
is listed. -/
def step (endpoint : ω → Topic) (topic : β → Topic) (s : State ω β) :
    Step ω β → Option (State ω β)
  | .connect w =>
      if s.connections w = .idle then
        some { s with
          manager := s.manager.enter w (endpoint w)
          connections := Function.update s.connections w .up }
      else none
  | .disconnect w =>
      if s.connections w = .up then
        some { s with
          manager := s.manager.leave w (endpoint w)
          connections := Function.update s.connections w .closed }
      else none
  | .snapshot b order =>
      if s.calls b = .idle ∧ order.Nodup ∧ order.toFinset = s.manager.members (topic b) then
        some (s.set b (begun (topic b) order))
      else none
  | .send b delivered =>
      match s.calls b with
      | .sending subs (w :: unsent) dead =>
          if delivered then
            some { s.set b (.sending subs unsent dead) with sent := s.sent ++ [(w, b)] }
          else some (s.set b (.sending subs unsent (dead ++ [w])))
      | _ => none
  | .drop b =>
      match s.calls b with
      | .sending subs [] dead => some (s.set b (.dropping subs dead dead))
      | .dropping subs dead (w :: undropped) =>
          some { s.set b (.dropping subs dead undropped) with
            manager := s.manager.leave w (topic b) }
      | .dropping subs dead [] => some (s.set b (.done subs dead))
      | _ => none

def Phase.subs : Phase ω → List ω
  | .idle => []
  | .sending subs _ _ | .dropping subs _ _ | .done subs _ => subs

def Phase.unsent : Phase ω → List ω
  | .sending _ unsent _ => unsent
  | _ => []

def Phase.dead : Phase ω → List ω
  | .idle => []
  | .sending _ _ dead | .dropping _ dead _ | .done _ dead => dead

def Phase.undropped : Phase ω → List ω
  | .sending _ _ dead => dead
  | .dropping _ _ undropped => undropped
  | _ => []

/-- The broadcast has unsubscribed the socket. -/
def Phase.Dropped (p : Phase ω) (w : ω) : Prop := w ∈ p.dead ∧ w ∉ p.undropped

/-- What a step does, with the broadcast that moves. -/
inductive Move (endpoint : ω → Topic) (topic : β → Topic) (s : State ω β) :
    Step ω β → State ω β → Prop where
  | connect {w : ω} (hidle : s.connections w = .idle) :
      Move endpoint topic s (.connect w)
        { s with
          manager := s.manager.enter w (endpoint w)
          connections := Function.update s.connections w .up }
  | disconnect {w : ω} (hup : s.connections w = .up) :
      Move endpoint topic s (.disconnect w)
        { s with
          manager := s.manager.leave w (endpoint w)
          connections := Function.update s.connections w .closed }
  | snapshot {b : β} {order : List ω} (hcall : s.calls b = .idle) (hnodup : order.Nodup)
      (horder : order.toFinset = s.manager.members (topic b)) :
      Move endpoint topic s (.snapshot b order) (s.set b (begun (topic b) order))
  | deliver {b : β} {subs unsent dead : List ω} {w : ω}
      (hcall : s.calls b = .sending subs (w :: unsent) dead) :
      Move endpoint topic s (.send b true)
        { s.set b (.sending subs unsent dead) with sent := s.sent ++ [(w, b)] }
  | fail {b : β} {subs unsent dead : List ω} {w : ω}
      (hcall : s.calls b = .sending subs (w :: unsent) dead) :
      Move endpoint topic s (.send b false) (s.set b (.sending subs unsent (dead ++ [w])))
  | finish {b : β} {subs dead : List ω} (hcall : s.calls b = .sending subs [] dead) :
      Move endpoint topic s (.drop b) (s.set b (.dropping subs dead dead))
  | drop {b : β} {subs dead undropped : List ω} {w : ω}
      (hcall : s.calls b = .dropping subs dead (w :: undropped)) :
      Move endpoint topic s (.drop b)
        { s.set b (.dropping subs dead undropped) with
          manager := s.manager.leave w (topic b) }
  | done {b : β} {subs dead : List ω} (hcall : s.calls b = .dropping subs dead []) :
      Move endpoint topic s (.drop b) (s.set b (.done subs dead))

variable {endpoint : ω → Topic} {topic : β → Topic} {s s' : State ω β}

theorem step_move {e : Step ω β} (h : step endpoint topic s e = some s') :
    Move endpoint topic s e s' := by
  cases e with
  | connect w =>
      obtain ⟨hidle, rfl⟩ := Option.ite_none_right_eq_some.mp h |>.imp_right Option.some.inj
      exact .connect hidle
  | disconnect w =>
      obtain ⟨hup, rfl⟩ := Option.ite_none_right_eq_some.mp h |>.imp_right Option.some.inj
      exact .disconnect hup
  | snapshot b order =>
      obtain ⟨⟨hcall, hnodup, horder⟩, rfl⟩ :=
        Option.ite_none_right_eq_some.mp h |>.imp_right Option.some.inj
      exact .snapshot hcall hnodup horder
  | send b delivered =>
      rw [step] at h
      split at h
      next hcall =>
          cases delivered with
          | true =>
              obtain rfl := Option.some.inj h
              exact .deliver hcall
          | false =>
              obtain rfl := Option.some.inj h
              exact .fail hcall
      next => nomatch h
  | drop b =>
      rw [step] at h
      split at h
      next hcall =>
          obtain rfl := Option.some.inj h
          exact .finish hcall
      next hcall =>
          obtain rfl := Option.some.inj h
          exact .drop hcall
      next hcall =>
          obtain rfl := Option.some.inj h
          exact .done hcall
      next => nomatch h

/-- A broadcast has sent to each socket it took once, but for those it has still to come to and
those whose send has raised. -/
structure CallSound (endpoint : ω → Topic) (k : Topic) (s : State ω β) (b : β) (p : Phase ω) :
    Prop where
  nodup : p.subs.Nodup
  unsent : p.unsent <:+ p.subs
  dead : ∀ w ∈ p.dead, w ∈ p.subs ∧ w ∉ p.unsent
  dead_nodup : p.dead.Nodup
  undropped : p.undropped <:+ p.dead
  entered : ∀ w ∈ p.subs, endpoint w = k ∧ s.connections w ≠ .idle
  counted : ∀ w, s.sent.count (w, b) = if w ∈ p.subs ∧ w ∉ p.unsent ∧ w ∉ p.dead then 1 else 0

/-- A socket is subscribed while its endpoint runs and no broadcast has unsubscribed it. -/
structure Sound (endpoint : ω → Topic) (topic : β → Topic) (s : State ω β) : Prop where
  swept : s.manager.Swept
  subscribed : ∀ k w, w ∈ s.manager.members k ↔
    endpoint w = k ∧ s.connections w = .up ∧ ∀ b, ¬ (s.calls b).Dropped w
  calls : ∀ b, CallSound endpoint (topic b) s b (s.calls b)

theorem initial_sound : Sound endpoint topic (initial : State ω β) where
  swept := fun _ => nofun
  subscribed := by
    intro k w
    cases k <;> simp [initial, Manager.members]
  calls := by
    intro b
    constructor <;> simp [initial, Phase.subs, Phase.unsent, Phase.dead, Phase.undropped]

theorem CallSound.frame {k : Topic} {b : β} {p : Phase ω} (h : CallSound endpoint k s b p)
    (hconnections : ∀ w, s.connections w ≠ .idle → s'.connections w ≠ .idle)
    (hsent : ∀ w, s'.sent.count (w, b) = s.sent.count (w, b)) :
    CallSound endpoint k s' b p where
  nodup := h.nodup
  unsent := h.unsent
  dead := h.dead
  dead_nodup := h.dead_nodup
  undropped := h.undropped
  entered := fun w hw => ⟨(h.entered w hw).1, hconnections w (h.entered w hw).2⟩
  counted := fun w => (hsent w).trans (h.counted w)

omit [DecidableEq ω] in
theorem State.set_calls (b : β) (p : Phase ω) : (s.set b p).calls b = p :=
  Function.update_self ..

omit [DecidableEq ω] in
theorem State.set_of_ne {b c : β} (h : c ≠ b) (p : Phase ω) : (s.set b p).calls c = s.calls c :=
  Function.update_of_ne h ..

/-- The sends of the broadcast that moves are its own. -/
theorem Sound.moved {b : β} {p : Phase ω} (h : Sound endpoint topic s)
    (hcalls : s'.calls = Function.update s.calls b p)
    (hconnections : s'.connections = s.connections)
    (hp : CallSound endpoint (topic b) s' b p)
    (hsent : ∀ c ≠ b, ∀ w, s'.sent.count (w, c) = s.sent.count (w, c)) (c : β) :
    CallSound endpoint (topic c) s' c (s'.calls c) := by
  rw [hcalls]
  by_cases hc : c = b
  · rw [hc, Function.update_self]
    exact hp
  · rw [Function.update_of_ne hc]
    exact (h.calls c).frame (fun w => hconnections ▸ id) (hsent c hc)

omit [DecidableEq ω] in
theorem dropped_iff {calls : β → Phase ω} {b : β} {p : Phase ω} {w : ω}
    (h : p.Dropped w ↔ (calls b).Dropped w) :
    (∀ c, ¬ (Function.update calls b p c).Dropped w) ↔ ∀ c, ¬ (calls c).Dropped w := by
  refine forall_congr' fun c => not_congr ?_
  by_cases hc : c = b
  · rw [hc, Function.update_self, h]
  · rw [Function.update_of_ne hc]

theorem Sound.connect {w : ω} (h : Sound endpoint topic s) (hidle : s.connections w = .idle) :
    Sound endpoint topic { s with
      manager := s.manager.enter w (endpoint w)
      connections := Function.update s.connections w .up } where
  swept := h.swept.enter w (endpoint w)
  subscribed := by
    intro k v
    rw [Manager.mem_enter]
    by_cases hv : v = w
    · subst hv
      have hfresh : ∀ b, ¬ (s.calls b).Dropped v :=
        fun b hdropped => ((h.calls b).entered v ((h.calls b).dead v hdropped.1).1).2 hidle
      have hout : v ∉ s.manager.members k := by
        rw [h.subscribed, hidle]
        exact fun hmem => nomatch hmem.2.1
      simp only [Function.update_self, true_and, hout, or_false, hfresh, not_false_eq_true,
        implies_true, and_true]
      exact eq_comm
    · simp only [hv, false_and, false_or, Function.update_of_ne hv]
      exact h.subscribed k v
  calls := by
    intro b
    refine (h.calls b).frame (fun v hv => ?_) fun _ => rfl
    by_cases hvw : v = w
    · simp [hvw]
    · simpa [hvw] using hv

theorem Sound.disconnect {w : ω} (h : Sound endpoint topic s) :
    Sound endpoint topic { s with
      manager := s.manager.leave w (endpoint w)
      connections := Function.update s.connections w .closed } where
  swept := h.swept.leave w (endpoint w)
  subscribed := by
    intro k v
    rw [Manager.mem_leave, h.subscribed]
    by_cases hv : v = w
    · subst hv
      simp only [Function.update_self, true_and, reduceCtorEq, false_and, and_false, iff_false]
      exact fun hmem => hmem.2 hmem.1.1.symm
    · simp only [hv, false_and, not_false_eq_true, and_true, Function.update_of_ne hv]
  calls := by
    intro b
    refine (h.calls b).frame (fun v hv => ?_) fun _ => rfl
    by_cases hvw : v = w
    · simp [hvw]
    · simpa [hvw] using hv

omit [DecidableEq ω] in
theorem begun_eq (k : Topic) (order : List ω) :
    (begun k order).subs = order ∧ (begun k order).unsent = order ∧ (begun k order).dead = [] ∧
      (begun k order).undropped = [] := by
  unfold begun
  split_ifs with hempty
  · rw [hempty.2]
    exact ⟨rfl, rfl, rfl, rfl⟩
  · exact ⟨rfl, rfl, rfl, rfl⟩

theorem Sound.snapshot {b : β} {order : List ω} (h : Sound endpoint topic s)
    (hcall : s.calls b = .idle) (hnodup : order.Nodup)
    (horder : order.toFinset = s.manager.members (topic b)) :
    Sound endpoint topic (s.set b (begun (topic b) order)) where
  swept := h.swept
  subscribed := by
    intro k w
    rw [State.set, dropped_iff]
    · exact h.subscribed k w
    · rw [Phase.Dropped, Phase.Dropped, (begun_eq (topic b) order).2.2.1, hcall]
      exact iff_of_false (fun hw => List.not_mem_nil hw.1) fun hw => List.not_mem_nil hw.1
  calls := by
    obtain ⟨hsubs, hunsent, hdead, hundropped⟩ := begun_eq (topic b) order
    refine h.moved rfl rfl ?_ fun _ _ _ => rfl
    constructor
    · rwa [hsubs]
    · rw [hsubs, hunsent]
    · simp [hdead]
    · simp [hdead]
    · simp [hdead, hundropped]
    · intro w hw
      rw [hsubs, ← List.mem_toFinset, horder, h.subscribed] at hw
      exact ⟨hw.1, fun hidle => nomatch hidle.symm.trans hw.2.1⟩
    · intro w
      have hnone := (h.calls b).counted w
      rw [hcall] at hnone
      rw [hsubs, hunsent, if_neg fun hw => hw.2.1 hw.1]
      exact hnone

theorem Sound.deliver {b : β} {subs unsent dead : List ω} {w : ω} (h : Sound endpoint topic s)
    (hcall : s.calls b = .sending subs (w :: unsent) dead) :
    Sound endpoint topic
      { s.set b (.sending subs unsent dead) with sent := s.sent ++ [(w, b)] } where
  swept := h.swept
  subscribed := by
    intro k v
    rw [State.set, dropped_iff (by rw [hcall]; rfl)]
    exact h.subscribed k v
  calls := by
    have hb := h.calls b
    rw [hcall] at hb
    have hunsent : (w :: unsent).Nodup := hb.nodup.sublist hb.unsent.sublist
    have hw : w ∈ subs := hb.unsent.mem (List.mem_cons_self ..)
    have hdead : w ∉ dead := fun hw' => (hb.dead w hw').2 (List.mem_cons_self ..)
    refine h.moved rfl rfl ?_ fun c hc v => ?_
    · refine ⟨hb.nodup, (List.suffix_cons w unsent).trans hb.unsent, ?_, hb.dead_nodup,
        hb.undropped, hb.entered, ?_⟩
      · intro v hv
        exact ⟨(hb.dead v hv).1, fun hv' => (hb.dead v hv).2 (List.mem_cons_of_mem _ hv')⟩
      · intro v
        have hcounted := hb.counted v
        rw [List.count_append, List.count_singleton, hcounted]
        by_cases hv : v = w
        · subst hv
          simp [Phase.subs, Phase.unsent, Phase.dead, hw, hdead, (List.nodup_cons.mp hunsent).1]
        · simp only [Phase.subs, Phase.unsent, Phase.dead, List.mem_cons, hv, false_or, beq_iff_eq,
            Prod.mk.injEq, Ne.symm hv, false_and, if_false, Nat.add_zero]
          exact if_congr Iff.rfl rfl rfl
    · simp [List.count_append, Ne.symm hc]

theorem Sound.fail {b : β} {subs unsent dead : List ω} {w : ω} (h : Sound endpoint topic s)
    (hcall : s.calls b = .sending subs (w :: unsent) dead) :
    Sound endpoint topic (s.set b (.sending subs unsent (dead ++ [w]))) where
  swept := h.swept
  subscribed := by
    intro k v
    rw [State.set, dropped_iff]
    · exact h.subscribed k v
    · rw [hcall]
      exact iff_of_false (fun hv => hv.2 hv.1) fun hv => hv.2 hv.1
  calls := by
    have hb := h.calls b
    rw [hcall] at hb
    have hunsent : (w :: unsent).Nodup := hb.nodup.sublist hb.unsent.sublist
    have hw : w ∈ subs := hb.unsent.mem (List.mem_cons_self ..)
    have hdead : w ∉ dead := fun hw' => (hb.dead w hw').2 (List.mem_cons_self ..)
    refine h.moved rfl rfl ?_ fun _ _ _ => rfl
    refine ⟨hb.nodup, (List.suffix_cons w unsent).trans hb.unsent, ?_, ?_, List.suffix_refl _,
      hb.entered, ?_⟩
    · intro v hv
      rcases List.mem_append.mp hv with hv | hv
      · exact ⟨(hb.dead v hv).1, fun hv' => (hb.dead v hv).2 (List.mem_cons_of_mem _ hv')⟩
      · rw [List.mem_singleton.mp hv]
        exact ⟨hw, (List.nodup_cons.mp hunsent).1⟩
    · exact hb.dead_nodup.append (List.nodup_singleton w) (List.disjoint_singleton.mpr hdead)
    · intro v
      refine (hb.counted v).trans ?_
      simp only [Phase.subs, Phase.unsent, Phase.dead, List.mem_cons, List.mem_append,
        List.not_mem_nil, or_false, not_or]
      congr 1
      exact propext ⟨fun hv => ⟨hv.1, hv.2.1.2, hv.2.2, hv.2.1.1⟩,
        fun hv => ⟨hv.1, ⟨hv.2.2.2, hv.2.1⟩, hv.2.2.1⟩⟩

theorem Sound.finish {b : β} {subs dead : List ω} (h : Sound endpoint topic s)
    (hcall : s.calls b = .sending subs [] dead) :
    Sound endpoint topic (s.set b (.dropping subs dead dead)) where
  swept := h.swept
  subscribed := by
    intro k v
    rw [State.set, dropped_iff (by rw [hcall]; rfl)]
    exact h.subscribed k v
  calls := by
    have hb := h.calls b
    rw [hcall] at hb
    exact h.moved rfl rfl ⟨hb.nodup, hb.unsent, hb.dead, hb.dead_nodup, hb.undropped, hb.entered,
      hb.counted⟩ fun _ _ _ => rfl

theorem Sound.drop {b : β} {subs dead undropped : List ω} {w : ω} (h : Sound endpoint topic s)
    (hcall : s.calls b = .dropping subs dead (w :: undropped)) :
    Sound endpoint topic
      { s.set b (.dropping subs dead undropped) with
        manager := s.manager.leave w (topic b) } where
  swept := h.swept.leave w (topic b)
  subscribed := by
    intro k v
    have hb := h.calls b
    rw [hcall] at hb
    have hundropped : (w :: undropped).Nodup := hb.dead_nodup.sublist hb.undropped.sublist
    have hw : w ∈ dead := hb.undropped.mem (List.mem_cons_self ..)
    rw [Manager.mem_leave, State.set]
    by_cases hv : v = w
    · subst hv
      have hendpoint : endpoint v = topic b := (hb.entered v (hb.dead v hw).1).1
      refine iff_of_false ?_ ?_
      · rintro ⟨hmem, hnot⟩
        exact hnot ⟨rfl, ((h.subscribed k v).mp hmem).1.symm.trans hendpoint⟩
      · rintro ⟨-, -, hkept⟩
        have hdropped : ¬ (Function.update s.calls b (.dropping subs dead undropped) b).Dropped v :=
          hkept b
        rw [Function.update_self] at hdropped
        exact hdropped ⟨hw, (List.nodup_cons.mp hundropped).1⟩
    · rw [dropped_iff, h.subscribed]
      · simp [hv]
      · rw [hcall]
        simp [Phase.Dropped, Phase.dead, Phase.undropped, hv]
  calls := by
    have hb := h.calls b
    rw [hcall] at hb
    exact h.moved rfl rfl ⟨hb.nodup, hb.unsent, hb.dead, hb.dead_nodup,
      (List.suffix_cons w undropped).trans hb.undropped, hb.entered, hb.counted⟩ fun _ _ _ => rfl

theorem Sound.done {b : β} {subs dead : List ω} (h : Sound endpoint topic s)
    (hcall : s.calls b = .dropping subs dead []) :
    Sound endpoint topic (s.set b (.done subs dead)) where
  swept := h.swept
  subscribed := by
    intro k v
    rw [State.set, dropped_iff (by rw [hcall]; rfl)]
    exact h.subscribed k v
  calls := by
    have hb := h.calls b
    rw [hcall] at hb
    exact h.moved rfl rfl ⟨hb.nodup, hb.unsent, hb.dead, hb.dead_nodup, hb.undropped, hb.entered,
      hb.counted⟩ fun _ _ _ => rfl

theorem Sound.step {e : Step ω β} (h : Sound endpoint topic s)
    (hmove : Move endpoint topic s e s') : Sound endpoint topic s' := by
  cases hmove with
  | connect hidle => exact h.connect hidle
  | disconnect => exact h.disconnect
  | snapshot hcall hnodup horder => exact h.snapshot hcall hnodup horder
  | deliver hcall => exact h.deliver hcall
  | fail hcall => exact h.fail hcall
  | finish hcall => exact h.finish hcall
  | drop hcall => exact h.drop hcall
  | done hcall => exact h.done hcall

theorem run_sound {es : List (Step ω β)} (hrun : run (step endpoint topic) initial es = some s) :
    Sound endpoint topic s :=
  run_invariant (fun _ _ _ h hstep => h.step (step_move hstep)) hrun initial_sound

def Phase.Done : Phase ω → Prop
  | .done .. => True
  | _ => False

/-- The sockets of a broadcast are taken when it begins. -/
theorem Move.began {e : Step ω β} (h : Move endpoint topic s e s') (b : β) :
    (s'.calls b).subs = (s.calls b).subs ∧ (s'.calls b = .idle ↔ s.calls b = .idle) ∨
      s.calls b = .idle ∧ ∃ order, e = .snapshot b order ∧
        (s'.calls b).subs.toFinset = s.manager.members (topic b) := by
  have hset {c : β} {p : Phase ω} (hsubs : p.subs = (s.calls c).subs) (hp : p ≠ .idle)
      (hc : s.calls c ≠ .idle) : ((s.set c p).calls b).subs = (s.calls b).subs ∧
        ((s.set c p).calls b = .idle ↔ s.calls b = .idle) := by
    by_cases hb : b = c
    · rw [hb, State.set_calls]
      exact ⟨hsubs, iff_of_false hp hc⟩
    · rw [State.set_of_ne hb]
      exact ⟨rfl, Iff.rfl⟩
  cases h with
  | connect => exact .inl ⟨rfl, Iff.rfl⟩
  | disconnect => exact .inl ⟨rfl, Iff.rfl⟩
  | @snapshot c order hcall hnodup horder =>
      by_cases hb : b = c
      · subst hb
        refine .inr ⟨hcall, order, rfl, ?_⟩
        rw [State.set_calls, (begun_eq (topic b) order).1, horder]
      · exact .inl (by rw [State.set_of_ne hb]; exact ⟨rfl, Iff.rfl⟩)
  | deliver hcall => exact .inl (hset (by rw [hcall]; rfl) nofun (by rw [hcall]; exact nofun))
  | fail hcall => exact .inl (hset (by rw [hcall]; rfl) nofun (by rw [hcall]; exact nofun))
  | finish hcall => exact .inl (hset (by rw [hcall]; rfl) nofun (by rw [hcall]; exact nofun))
  | drop hcall => exact .inl (hset (by rw [hcall]; rfl) nofun (by rw [hcall]; exact nofun))
  | done hcall => exact .inl (hset (by rw [hcall]; rfl) nofun (by rw [hcall]; exact nofun))

theorem run_began {es : List (Step ω β)} (hrun : run (step endpoint topic) initial es = some s)
    {b : β} (hb : s.calls b ≠ .idle) :
    ∃ before order after s₁, es = before ++ .snapshot b order :: after ∧
      run (step endpoint topic) initial before = some s₁ ∧
      (s.calls b).subs.toFinset = s₁.manager.members (topic b) := by
  induction es using List.reverseRecOn generalizing s with
  | nil =>
      cases hrun
      exact absurd rfl hb
  | append_singleton es e ih =>
      obtain ⟨s₀, hrun₀, hlast⟩ := run_append_iff.mp hrun
      obtain ⟨s', hstep, hend⟩ := run_cons_iff.mp hlast
      cases hend
      rcases (step_move hstep).began b with ⟨hsubs, hidle⟩ | ⟨-, order, rfl, hsubs⟩
      · obtain ⟨before, order, after, s₁, rfl, hbefore, htaken⟩ :=
          ih hrun₀ fun hidle₀ => hb (hidle.mpr hidle₀)
        exact ⟨before, order, after ++ [e], s₁, by simp, hbefore, hsubs ▸ htaken⟩
      · exact ⟨es, order, [], s₀, rfl, hrun₀, hsubs⟩

/-- The sockets that a broadcast drops are those whose send has raised. -/
theorem Move.dead {e : Step ω β} (h : Move endpoint topic s e s') (b : β) :
    (s'.calls b).dead = (s.calls b).dead ∨ e = .send b false := by
  have hset {c : β} {p : Phase ω} (hdead : p.dead = (s.calls c).dead) :
      ((s.set c p).calls b).dead = (s.calls b).dead := by
    by_cases hb : b = c
    · rw [hb, State.set_calls, hdead]
    · rw [State.set_of_ne hb]
  cases h with
  | connect => exact .inl rfl
  | disconnect => exact .inl rfl
  | snapshot hcall => exact .inl (hset (by rw [(begun_eq _ _).2.2.1, hcall]; rfl))
  | deliver hcall => exact .inl (hset (by rw [hcall]; rfl))
  | @fail c subs unsent dead w hcall =>
      by_cases hb : b = c
      · exact .inr (hb ▸ rfl)
      · exact .inl (by rw [State.set_of_ne hb])
  | finish hcall => exact .inl (hset (by rw [hcall]; rfl))
  | drop hcall => exact .inl (hset (by rw [hcall]; rfl))
  | done hcall => exact .inl (hset (by rw [hcall]; rfl))

theorem run_dead {es : List (Step ω β)} (hrun : run (step endpoint topic) s es = some s') {b : β}
    (hes : Step.send b false ∉ es) : (s'.calls b).dead = (s.calls b).dead := by
  induction es generalizing s with
  | nil =>
      cases hrun
      rfl
  | cons e es ih =>
      obtain ⟨m, hstep, hrun⟩ := run_cons_iff.mp hrun
      rw [List.mem_cons, not_or] at hes
      rw [ih hrun hes.2]
      exact ((step_move hstep).dead b).resolve_right (Ne.symm hes.1)

/-- A broadcast that has ended sends no more. -/
theorem Move.ended {e : Step ω β} (h : Move endpoint topic s e s') {b : β}
    (hb : (s.calls b).Done) :
    s'.calls b = s.calls b ∧ ∃ later, s'.sent = s.sent ++ later ∧ ∀ w, (w, b) ∉ later := by
  have hset {c : β} (p : Phase ω) (hc : ¬ (s.calls c).Done) :
      (s.set c p).calls b = s.calls b ∧ c ≠ b := by
    have hne : b ≠ c := fun hbc => hc (hbc ▸ hb)
    exact ⟨State.set_of_ne hne p, hne.symm⟩
  have hnone : ∃ later, s.sent = s.sent ++ later ∧ ∀ w, (w, b) ∉ later :=
    ⟨[], (List.append_nil _).symm, fun _ => List.not_mem_nil⟩
  cases h with
  | connect => exact ⟨rfl, hnone⟩
  | disconnect => exact ⟨rfl, hnone⟩
  | snapshot hcall => exact ⟨(hset _ (by rw [hcall]; exact id)).1, hnone⟩
  | deliver hcall =>
      obtain ⟨hkept, hne⟩ := hset _ (by rw [hcall]; exact id)
      refine ⟨hkept, _, rfl, fun w hw => hne ?_⟩
      exact (congrArg Prod.snd (List.mem_singleton.mp hw)).symm
  | fail hcall => exact ⟨(hset _ (by rw [hcall]; exact id)).1, hnone⟩
  | finish hcall => exact ⟨(hset _ (by rw [hcall]; exact id)).1, hnone⟩
  | drop hcall => exact ⟨(hset _ (by rw [hcall]; exact id)).1, hnone⟩
  | done hcall => exact ⟨(hset _ (by rw [hcall]; exact id)).1, hnone⟩

theorem run_ended {es : List (Step ω β)} (hrun : run (step endpoint topic) s es = some s') {b : β}
    (hb : (s.calls b).Done) : ∃ later, s'.sent = s.sent ++ later ∧ ∀ w, (w, b) ∉ later := by
  induction es generalizing s with
  | nil =>
      cases hrun
      exact ⟨[], (List.append_nil _).symm, fun _ => List.not_mem_nil⟩
  | cons e es ih =>
      obtain ⟨m, hstep, hrun⟩ := run_cons_iff.mp hrun
      obtain ⟨hkept, first, hfirst, hfree⟩ := (step_move hstep).ended hb
      obtain ⟨later, hlater, hfree'⟩ := ih hrun (hkept ▸ hb)
      refine ⟨first ++ later, by rw [hlater, hfirst, List.append_assoc], fun w hw => ?_⟩
      exact (List.mem_append.mp hw).elim (hfree w) (hfree' w)

/-- However sockets come and go, a broadcast that has ended was sent once to each socket that
was subscribed when it began, but for those whose send has raised, and to no other; what is
broadcast after its end comes after it. -/
theorem fan_out {es : List (Step ω β)} (hrun : run (step endpoint topic) initial es = some s) :
    s.manager.Swept ∧
      (∀ k w, w ∈ s.manager.members k ↔
        endpoint w = k ∧ s.connections w = .up ∧ ∀ b, ¬ (s.calls b).Dropped w) ∧
      (∀ b subs dead, s.calls b = .done subs dead →
        ∃ before order after s₁, es = before ++ .snapshot b order :: after ∧
          run (step endpoint topic) initial before = some s₁ ∧
          (.send b false ∉ es → dead = []) ∧
          ∀ w, s.sent.count (w, b) =
            if w ∈ s₁.manager.members (topic b) ∧ w ∉ dead then 1 else 0) ∧
      ∀ first rest s₁, es = first ++ rest → run (step endpoint topic) initial first = some s₁ →
        ∀ b c, (s₁.calls b).Done → s₁.calls c = .idle → ∃ later, s.sent = s₁.sent ++ later ∧
          (∀ w, (w, b) ∉ later) ∧ ∀ w, (w, c) ∉ s₁.sent := by
  have hsound := run_sound hrun
  refine ⟨hsound.swept, hsound.subscribed, ?_, ?_⟩
  · intro b subs dead hdone
    obtain ⟨before, order, after, s₁, hes, hbefore, htaken⟩ := run_began hrun (b := b)
      (by rw [hdone]; exact nofun)
    refine ⟨before, order, after, s₁, hes, hbefore, fun hnone => ?_, fun w => ?_⟩
    · have hdead := run_dead hrun hnone
      rwa [hdone] at hdead
    · have hcounted := (hsound.calls b).counted w
      rw [hdone] at hcounted htaken
      have hmem : w ∈ subs ↔ w ∈ s₁.manager.members (topic b) := by
        rw [← htaken]
        exact List.mem_toFinset.symm
      rw [hcounted]
      exact if_congr (and_congr hmem (and_iff_right List.not_mem_nil)) rfl rfl
  · intro first rest s₁ hes hfirst b c hdone hidle
    rw [hes] at hrun
    obtain ⟨m, hm, hrest⟩ := run_append_iff.mp hrun
    obtain rfl := Option.some.inj (hm.symm.trans hfirst)
    obtain ⟨later, hlater, hfree⟩ := run_ended hrest hdone
    refine ⟨later, hlater, hfree, fun w hw => ?_⟩
    have hcounted := ((run_sound hfirst).calls c).counted w
    rw [hidle, if_neg fun h => List.not_mem_nil h.1] at hcounted
    exact List.count_eq_zero.mp hcounted hw

/-- A socket comes while a broadcast is under way, whose send to another raises. -/
def coming_and_going : List (Step ℕ ℕ) :=
  [.connect 0, .connect 1, .snapshot 0 [1, 0], .send 0 true, .connect 2, .disconnect 1,
    .send 0 false, .drop 0, .drop 0, .drop 0, .snapshot 1 [2], .send 1 true]

theorem fan_out_coming_and_going :
    ∃ s, run (step (fun _ => .prices) fun _ => .prices) initial coming_and_going = some s ∧
      s.sent = [(1, 0), (2, 1)] ∧
      ∀ k w, w ∈ s.manager.members k ↔ Topic.prices = k ∧ s.connections w = .up ∧
        ∀ b, ¬ (s.calls b).Dropped w := by
  have hrun : run (step (fun _ => .prices) fun _ => .prices) initial coming_and_going = some _ :=
    rfl
  exact ⟨_, hrun, rfl, (fan_out hrun).2.1⟩

end ArticTrader.SocketBroadcasts
