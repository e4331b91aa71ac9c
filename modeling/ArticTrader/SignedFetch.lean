import ArticTrader.JsonTexts
import ArticTrader.Multimaps
import ArticTrader.WakeProxy

/-!
The web client's calls of the hub: how a response is read, and what becomes of the
envelope with which the hub answers while it wakes a machine.
-/

namespace ArticTrader.SignedFetch

open ArticTrader.PythonText (Text startswith)
open ArticTrader.JsonTexts
open ArticTrader.Multimaps (dict setitem)

structure Request where
  url : Text
  method : Option Text
  headers : List (Text × Text)
  body : Option Text
  deriving DecidableEq, Repr

def build_request (hub_url path : Text) (method : Option Text) (headers : List (Text × Text))
    (body access_token : Option Text) : Request :=
  let headers := dict (("Content-Type".toList, "application/json".toList) :: headers)
  { url := if startswith path "http".toList then path else hub_url ++ path
    method
    headers :=
      match access_token with
      | some token =>
          if token = [] then headers
          else setitem headers "Authorization".toList ("Bearer ".toList ++ token)
      | none => headers
    body }

structure Response where
  status : ℕ
  statusText : Text
  text : Text
  retry_after : Option Text
  deriving DecidableEq, Repr

/-- `Response.ok` of the platform. -/
def Response.ok (res : Response) : Bool := 200 ≤ res.status && res.status ≤ 299

def parsed (res : Response) : Json :=
  if res.text = [] then .null
  else (loads false res.text).getD (.string (code_points res.text))

/-- `v?.name`, where nothing but an object has a property of the name. -/
def property (name : Text) : Option Json → Option Json
  | some (.object ms) => member name ms
  | _ => none

/-- `v ?? fallback`. -/
def coalesce : Option Json → Json → Json
  | none, fallback => fallback
  | some .null, fallback => fallback
  | some v, _ => v

def code (res : Response) : Json :=
  coalesce (property "code".toList (property "error".toList (some (parsed res))))
    (.string (code_points ("HTTP_".toList ++ (toString res.status).toList)))

def message (res : Response) : Json :=
  coalesce (property "message".toList (property "error".toList (some (parsed res))))
    (.string (code_points res.statusText))

/-- `v === s`. -/
def equals (s : Text) : Json → Bool
  | .string codes => codes = code_points s
  | _ => false

inductive Effect where
  | clearJwt
  | connect (next : Text)
  | wait (retry_after : Text)
  deriving DecidableEq, Repr

/-- `none` is `undefined`. -/
inductive Result where
  | returned (data : Option Json)
  | thrown (status : ℕ) (code message body : Json)

structure Run where
  sent : List Request
  effects : List Effect
  result : Result

def hub_error (res : Response) : Result :=
  .thrown res.status (code res) (message res) (parsed res)

/-- Clears the token and leaves for the page of its own path, where there is a window that
is not there already. -/
def bounce (location : Option (Text × Text)) : List Effect :=
  .clearJwt ::
    match location with
    | some (pathname, search) =>
        if startswith pathname "/connect".toList then [] else [.connect (pathname ++ search)]
    | none => []

/-- The session has expired, or there is none. -/
def SessionOver (res : Response) : Prop :=
  res.status = 401 ∨ equals "UNAUTHENTICATED".toList (code res) = true ∨
    equals "TOKEN_EXPIRED".toList (code res) = true

/-- The envelope that says that the machine is waking. -/
def Waking (res : Response) : Prop :=
  res.status = 202 ∧ equals "VM_WAKING".toList (code res) = true

instance (res : Response) : Decidable (SessionOver res) :=
  inferInstanceAs (Decidable (_ ∨ _ ∨ _))

instance (res : Response) : Decidable (Waking res) := inferInstanceAs (Decidable (_ ∧ _))

def Run.retried (request : Request) (res : Response) (run : Run) : Run where
  sent := request :: run.sent
  effects := .wait (res.retry_after.getD "3".toList) :: run.effects
  result := run.result

/-- The loop from one attempt on, with what is left of the retries. The error behind the
loop is out of reach: the last attempt does not continue. -/
def attempts (location : Option (Text × Text)) (request : Request) (responses : ℕ → Response) :
    ℕ → ℕ → Run
  | left, attempt =>
      if (responses attempt).status = 204 then ⟨[request], [], .returned none⟩
      else if (responses attempt).ok then
        ⟨[request], [], .returned (some (parsed (responses attempt)))⟩
      else if SessionOver (responses attempt) then
        ⟨[request], bounce location, hub_error (responses attempt)⟩
      else
        match left with
        | 0 => ⟨[request], [], hub_error (responses attempt)⟩
        | left + 1 =>
            if Waking (responses attempt) then
              (attempts location request responses left (attempt + 1)).retried request
                (responses attempt)
            else ⟨[request], [], hub_error (responses attempt)⟩

def signedFetch (location : Option (Text × Text)) (request : Request)
    (responses : ℕ → Response) (wakeRetries : ℕ) : Run :=
  attempts location request responses wakeRetries 0

/-- What a response holds for the caller. -/
def content (res : Response) : Option Json :=
  if res.status = 204 then none else some (parsed res)

/-- A call with `n` retries, and the responses to it. -/
structure WakeLaw (request : Request) (responses : ℕ → Response) (n : ℕ) (run : Run) : Prop where
  data : ∀ d, run.result = .returned d →
    ∃ i, run.sent.length = i + 1 ∧ ¬ Waking (responses i) ∧ d = content (responses i)
  repeats : ∃ i, i ≤ n ∧ run.sent = List.replicate (i + 1) request ∧
    (∀ j, j < i → Waking (responses j)) ∧ (i = n ∨ ¬ Waking (responses i))
  exhausted : (∀ i, i ≤ n → Waking (responses i)) → ∃ status code message body,
    run.result = .thrown status code message body ∧ equals "VM_WAKING".toList code = true

variable {location : Option (Text × Text)} {request : Request} {responses : ℕ → Response}

/-- The status that announces a wake is one of those that are returned. -/
theorem Waking.ok {res : Response} (h : Waking res) : res.ok = true := by
  simp [Response.ok, h.1]

theorem ok_of_no_content {res : Response} (h : res.status = 204) : res.ok = true := by
  simp [Response.ok, h]

/-- The first response decides: none leads to a second request. -/
theorem attempts_eq (left attempt : ℕ) :
    attempts location request responses left attempt =
      if (responses attempt).ok then ⟨[request], [], .returned (content (responses attempt))⟩
      else
        ⟨[request], if SessionOver (responses attempt) then bounce location else [],
          hub_error (responses attempt)⟩ := by
  unfold attempts content
  by_cases hempty : (responses attempt).status = 204
  · rw [if_pos hempty, if_pos (ok_of_no_content hempty), if_pos hempty]
  · rw [if_neg hempty, if_neg hempty]
    by_cases hok : (responses attempt).ok = true
    · rw [if_pos hok, if_pos hok]
    · rw [if_neg hok, if_neg hok]
      by_cases hsession : SessionOver (responses attempt)
      · rw [if_pos hsession, if_pos hsession]
      · have hwaking : ¬ Waking (responses attempt) := fun h => hok h.ok
        rw [if_neg hsession, if_neg hsession]
        rcases left with _ | left
        · rfl
        · exact if_neg hwaking

/-- One request keeps the law where the machine is awake. -/
theorem wake_law_single {n : ℕ} {effects : List Effect} {result : Result}
    (hnot : ¬ Waking (responses 0))
    (hdata : ∀ d, result = .returned d → d = content (responses 0)) :
    WakeLaw request responses n ⟨[request], effects, result⟩ where
  data := fun d hd => ⟨0, rfl, hnot, hdata d hd⟩
  repeats := ⟨0, Nat.zero_le _, rfl, fun j hj => absurd hj (Nat.not_lt_zero j), .inr hnot⟩
  exhausted := fun hall => absurd (hall 0 (Nat.zero_le _)) hnot

/-- A call keeps its law where it does not meet a waking machine at all. -/
theorem wake_law_iff (location : Option (Text × Text)) (request : Request)
    (responses : ℕ → Response) (wakeRetries : ℕ) :
    WakeLaw request responses wakeRetries
        (signedFetch location request responses wakeRetries) ↔
      ¬ Waking (responses 0) := by
  rw [signedFetch, attempts_eq]
  constructor
  · intro law hwaking
    rw [if_pos hwaking.ok] at law
    obtain ⟨i, hlength, hnot, -⟩ := law.data _ rfl
    obtain rfl : i = 0 := by simpa using hlength.symm
    exact hnot hwaking
  · intro hnot
    rcases hok : (responses 0).ok with _ | _
    · rw [if_neg Bool.false_ne_true]
      apply wake_law_single hnot
      rintro d ⟨⟩
    · rw [if_pos rfl]
      apply wake_law_single hnot
      rintro d ⟨⟩
      rfl

/-- The text that the middleware's `_error` writes, for a code and a message that JSON
leaves as they are. -/
def error_body (code message : Text) : Text :=
  "\x7b\"error\": \x7b\"code\": \"".toList ++ code ++ "\", \"message\": \"".toList ++ message ++
    "\"\x7d\x7d".toList

/-- A response of the middleware's own. -/
def sent_by_proxy : WakeProxy.Response → Option Response
  | .error status code message retry_after =>
      some
        { status
          statusText := []
          text := error_body code message
          retry_after := retry_after.map fun n => (toString n).toList }
  | _ => none

theorem status_of_error {status : ℕ} {code message : Text} {retry_after : Option ℕ}
    {res : Response} (h : sent_by_proxy (.error status code message retry_after) = some res) :
    res.status = status := by
  obtain rfl := Option.some.inj h
  rfl

theorem status_of_error_ne {status : ℕ} {code message : Text} {retry_after : Option ℕ}
    {res : Response} (h : sent_by_proxy (.error status code message retry_after) = some res)
    (hne : status ≠ 202) : res.status ≠ 202 := (status_of_error h).trans_ne hne

theorem start_gate_status {a : WakeProxy.Answers} {path : Text} {r : WakeProxy.Response}
    {res : Response} (hgate : (WakeProxy.start_gate a path).2 = some r)
    (h : sent_by_proxy r = some res) : res.status ≠ 202 := by
  unfold WakeProxy.start_gate at hgate
  split at hgate
  next =>
      split at hgate
      next =>
          obtain rfl := Option.some.inj hgate
          exact status_of_error_ne h (by decide)
      next =>
          dsimp only at hgate
          split_ifs at hgate
          obtain rfl := Option.some.inj hgate
          exact status_of_error_ne h (by decide)
  next => cases hgate

theorem resolve_endpoint_waking {a : WakeProxy.Answers} {r : WakeProxy.Response} {res : Response}
    (hresolve : (WakeProxy.resolve_endpoint a).2 = .error r) (h : sent_by_proxy r = some res)
    (hstatus : res.status = 202) : Waking res := by
  unfold WakeProxy.resolve_endpoint at hresolve
  split at hresolve
  next =>
      obtain rfl := Except.error.inj hresolve
      exact absurd hstatus (status_of_error_ne h (by decide))
  next =>
      split_ifs at hresolve
      split at hresolve
      next =>
          obtain rfl := Except.error.inj hresolve
          obtain rfl := Option.some.inj h
          exact ⟨rfl, by decide +kernel⟩
      next =>
          obtain rfl := Except.error.inj hresolve
          exact absurd hstatus (status_of_error_ne h (by decide))
      next =>
          split at hresolve
          next =>
              split_ifs at hresolve
              obtain rfl := Except.error.inj hresolve
              exact absurd hstatus (status_of_error_ne h (by decide))
          next =>
              obtain rfl := Except.error.inj hresolve
              exact absurd hstatus (status_of_error_ne h (by decide))

/-- What the proxy sends of its own with the status 202 is the envelope. -/
theorem dispatch_waking {a : WakeProxy.Answers} {path : Text} {res : Response}
    (h : sent_by_proxy (WakeProxy.dispatch a path).2 = some res) (hstatus : res.status = 202) :
    Waking res := by
  unfold WakeProxy.dispatch at h
  split_ifs at h
  · split at h
    next gated r hgate => exact absurd hstatus (start_gate_status (by rw [hgate]) h)
    next =>
        split at h
        next resolved r hresolve => exact resolve_endpoint_waking (by rw [hresolve]) h hstatus
        next =>
            dsimp only [WakeProxy.forward_request] at h
            split_ifs at h
            all_goals simp [sent_by_proxy] at h
  · exact absurd hstatus (status_of_error_ne h (by decide))
  · simp [sent_by_proxy] at h

def stopped_machine : VmRegistry.VMState where
  user_id := "u1".toList
  provider_vm_id := none
  endpoint := none
  status := .stopped
  last_active_at := none

/-- A request for a machine that does not wake in time. -/
def pending_answers : WakeProxy.Answers where
  user_id := some "u1".toList
  user_row := none
  balance_og := 0
  balance_text := []
  state := some stopped_machine
  wake := .PENDING
  state_after_wake := none
  upstream_status := 200

def agents_request : Request :=
  build_request "http://localhost:9000".toList "/api/v1/u/agents".toList none [] none none

/-- The machine does not wake, and the caller is handed the envelope as what it asked for. -/
theorem envelope_returned_as_data :
    ∃ res, sent_by_proxy (WakeProxy.dispatch pending_answers "/api/v1/u/agents".toList).2 =
        some res ∧ Waking res ∧
      (signedFetch none agents_request (fun _ => res) 4).result = .returned (content res) ∧
      ¬ WakeLaw agents_request (fun _ => res) 4
        (signedFetch none agents_request (fun _ => res) 4) := by
  refine ⟨_, rfl, by decide +kernel, rfl, ?_⟩
  intro law
  obtain ⟨i, -, hnot, -⟩ := law.data _ rfl
  exact hnot (by decide +kernel)

end ArticTrader.SignedFetch
