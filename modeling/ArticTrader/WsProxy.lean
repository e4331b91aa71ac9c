import ArticTrader.VmHub
import ArticTrader.WakeProxy

/-!
The hub's WebSocket proxy for the logs of an agent, against the middleware that
forwards requests to the same VM.
-/

namespace ArticTrader.WsProxy

open ArticTrader.LabelledRuns
open ArticTrader.PythonText
open ArticTrader.VmHub
open ArticTrader.VmRegistry
open ArticTrader.WakeProxy

/-- `WakeResult` as a class: its attributes. -/
def members : List (Text × WakeResult) :=
  [("RUNNING".toList, .RUNNING), ("PENDING".toList, .PENDING), ("FAILED".toList, .FAILED)]

/-- What the proxy does, in its order. -/
inductive Event where
  | wake
  | accept
  | send_json (code : Text)
  | close (code : ℕ)
  | connect (url x_hub_secret : Text)
  | bridge
  deriving DecidableEq, Repr

inductive Outcome where
  | returned
  | attribute_error (name : Text)
  deriving DecidableEq, Repr

def WS_1000_NORMAL_CLOSURE : ℕ := 1000
def WS_1008_POLICY_VIOLATION : ℕ := 1008
def WS_1011_INTERNAL_ERROR : ℕ := 1011

def refuse (code : Text) : List Event × Outcome :=
  ([.accept, .send_json code, .close WS_1011_INTERNAL_ERROR], .returned)

def upstream_url (endpoint agent_id : Text) : Text :=
  replace (replace (rstrip endpoint '/') "https://".toList "wss://".toList) "http://".toList
    "ws://".toList ++ "/hub/ws/agents/".toList ++ agent_id ++ "/logs".toList

/-- `connected` says whether the upstream can be opened and the frames are piped until
one side ends. -/
def pipe (endpoint agent_id INTERNAL_SECRET : Text) (connected : Bool) : List Event × Outcome :=
  let opened := [.accept, .connect (upstream_url endpoint agent_id) INTERNAL_SECRET]
  if connected then (opened ++ [.bridge, .close WS_1000_NORMAL_CLOSURE], .returned)
  else
    (opened ++ [.send_json "UPSTREAM_FAILED".toList, .close WS_1000_NORMAL_CLOSURE], .returned)

def woken_first (r : List Event × Outcome) : List Event × Outcome := (.wake :: r.1, r.2)

def ws_agent_logs (a : Answers) (agent_id INTERNAL_SECRET : Text) (connected : Bool) :
    List Event × Outcome :=
  if truthy a.user_id = false then ([.close WS_1008_POLICY_VIOLATION], .returned)
  else
    match a.state with
    | none => refuse "VM_NOT_PROVISIONED".toList
    | some state =>
        if state.status = .running ∧ truthy state.endpoint then
          pipe (state.endpoint.getD []) agent_id INTERNAL_SECRET connected
        else woken_first <|
          match members.lookup "OK".toList with
          | none => ([], .attribute_error "OK".toList)
          | some ok =>
              if a.wake ≠ ok then refuse "VM_NOT_READY".toList
              else
                match a.state_after_wake with
                | none => refuse "VM_ENDPOINT_MISSING".toList
                | some state' =>
                    if truthy state'.endpoint then
                      pipe (state'.endpoint.getD []) agent_id INTERNAL_SECRET connected
                    else refuse "VM_ENDPOINT_MISSING".toList

/-- A request for the user server that the gate on starts lets through. -/
def Plain (path : Text) : Prop := startswith path PREFIX = true ∧ is_start_path path = false

def Opens (r : List Event × Outcome) : Prop := ∃ url secret, Event.connect url secret ∈ r.1

/-- The socket is opened upstream exactly when requests are forwarded, is else refused
with an error frame and a close, and nothing is raised. -/
structure Agree (a : Answers) (r : List Event × Outcome) : Prop where
  opens : ∀ path, Plain path → (Opens r ↔ ∃ target, .forward target ∈ (dispatch a path).1)
  refuses : ¬ Opens r → ∃ before code closing, r.1 = before ++ [.send_json code, .close closing]
  returns : r.2 = .returned

theorem forward_iff {a : Answers} (huser : truthy a.user_id = true) {path : Text}
    (hpath : Plain path) : (∃ target, .forward target ∈ (dispatch a path).1) ↔
      ∃ endpoint, (resolve_endpoint a).2 = .ok endpoint := by
  constructor
  · rintro ⟨target, htarget⟩
    obtain ⟨-, endpoint, hendpoint, -⟩ := dispatch_forward htarget
    exact ⟨endpoint, hendpoint⟩
  · rintro ⟨endpoint, hendpoint⟩
    refine ⟨target_url endpoint path, ?_⟩
    have hgate : start_gate a path = ([], none) := by
      rw [start_gate, hpath.2]
      rfl
    rw [dispatch, if_pos hpath.1, if_pos huser, hgate]
    cases hresolved : resolve_endpoint a with
    | mk calls result =>
        rw [hresolved] at hendpoint
        simp only at hendpoint
        rw [hendpoint]
        simp only [List.nil_append, forward_request]
        split <;> simp

theorem opens_pipe (endpoint agent_id secret : Text) (connected : Bool) :
    Opens (pipe endpoint agent_id secret connected) := by
  refine ⟨upstream_url endpoint agent_id, secret, ?_⟩
  cases connected <;> simp [pipe]

theorem returned_pipe (endpoint agent_id secret : Text) (connected : Bool) :
    (pipe endpoint agent_id secret connected).2 = .returned := by
  cases connected <;> rfl

theorem not_opens_refuse (code : Text) : ¬ Opens (refuse code) := by
  rintro ⟨url, secret, h⟩
  simp [refuse] at h

theorem proxies_agree_iff (a : Answers) (huser : truthy a.user_id = true)
    (agent_id INTERNAL_SECRET : Text) (connected : Bool) :
    Agree a (ws_agent_logs a agent_id INTERNAL_SECRET connected) ↔
      ∀ state ∈ a.state, state.status = .running ∧ truthy state.endpoint = true := by
  rw [ws_agent_logs, if_neg (by rw [huser]; decide)]
  cases hstate : a.state with
  | none =>
      refine iff_of_true ⟨fun path hpath => ?_, fun _ => ?_, rfl⟩ nofun
      · rw [forward_iff huser hpath]
        refine iff_of_false (not_opens_refuse _) ?_
        rintro ⟨endpoint, hendpoint⟩
        rw [resolve_endpoint, hstate] at hendpoint
        nomatch hendpoint
      · exact ⟨[.accept], _, _, rfl⟩
  | some state =>
      simp only
      split
      next hready =>
          refine iff_of_true ⟨fun path hpath => ?_, fun h => ?_, returned_pipe ..⟩ ?_
          · rw [forward_iff huser hpath]
            refine iff_of_true (opens_pipe ..) ⟨state.endpoint.getD [], ?_⟩
            rw [resolve_endpoint, hstate]
            simp only [if_pos hready]
          · exact absurd (opens_pipe ..) h
          · intro state' hstate'
            rwa [← Option.some.inj hstate']
      next hcold =>
          refine iff_of_false (fun h => ?_) fun h => hcold (h state rfl)
          nomatch h.returns

def logs_user : Answers where
  user_id := some "u".toList
  user_row := none
  balance_og := 0
  balance_text := []
  state := some (VmService.provisioned "u".toList).entry
  wake := .RUNNING
  state_after_wake := some ⟨"u".toList, some "morphvm_1".toList, some "http://vm".toList, .running,
    some 4⟩
  upstream_status := 200

theorem logs_user_proxies_agree :
    Agree { logs_user with state := logs_user.state_after_wake }
        (ws_agent_logs { logs_user with state := logs_user.state_after_wake } "a".toList [] true) ↔
      ∀ state ∈ logs_user.state_after_wake,
        state.status = .running ∧ truthy state.endpoint = true :=
  proxies_agree_iff { logs_user with state := logs_user.state_after_wake } (by decide) "a".toList []
    true

/-- The socket of a user whose VM is stopped, with the wake that its request makes. -/
theorem cold_socket_raises :
    ¬ ∀ (golden : Option Text) (user : VmService.Op → Unit) (op : VmService.Op → VmService.Op)
      (users : Unit → Option Text) (es later : List (VmService.Op × VmService.Input))
      (s t : VmHub.State Unit VmService.Op) (a : Answers),
      run (VmHub.step golden user op) (VmHub.initial users) es = some s →
      run (VmHub.step golden user op) s later = some t → truthy a.user_id = true →
      a.state = (s.shared.cells ()).map (·.entry) →
      a.state_after_wake = (t.shared.cells ()).map (·.entry) →
      ∀ agent_id INTERNAL_SECRET connected,
        Agree a (ws_agent_logs a agent_id INTERNAL_SECRET connected) := by
  intro h
  have hwoken : (run (VmHub.step golden_snapshot hub_user id) (VmHub.initial hub_users)
      woken).map (fun t => (t.shared.cells ()).map (·.entry)) =
        some logs_user.state_after_wake := by
    decide
  obtain ⟨t, hrun, hentry⟩ := Option.map_eq_some_iff.mp hwoken
  nomatch (h golden_snapshot hub_user id hub_users [] woken _ t logs_user rfl hrun (by decide) rfl
    hentry.symm "a".toList [] true).returns

end ArticTrader.WsProxy
