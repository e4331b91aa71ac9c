import ArticTrader.LabelledRuns
import ArticTrader.MorphProvider

/-!
What becomes of a wake or a drain in which a call to the provider fails. An
operation runs alone here, from one call to the provider to the next; the wallet's
environment comes without failure.
-/

namespace ArticTrader.VmFailures

open ArticTrader.LabelledRuns
open ArticTrader.MorphProvider
open ArticTrader.PythonText
open ArticTrader.VmRegistry
open ArticTrader.VmService

/-- The registry entry of a user and his row of `user_vms`. -/
structure Vm where
  entry : VMState
  row : UserVM
  deriving DecidableEq, Repr

def persist_status (v : Vm) (status : VMStatus) : Vm where
  entry := { v.entry with status }
  row := { v.row with status }

def persist_vm_id (v : Vm) (vm_id : Option Text) : Vm where
  entry := { v.entry with status := .waking, provider_vm_id := vm_id }
  row := { v.row with provider_vm_id := vm_id }

def persist_endpoint (v : Vm) (endpoint : Text) : Vm where
  entry := { v.entry with status := .waking, endpoint := some endpoint }
  row := { v.row with endpoint := some endpoint }

def clear_vm_mapping (v : Vm) : Vm where
  entry := { v.entry with status := .waking, provider_vm_id := none, endpoint := none }
  row := { v.row with provider_vm_id := none, endpoint := none }

def persist_running (v : Vm) (vm_id : Option Text) (endpoint : Text) (now : ℕ) : Vm where
  entry :=
    { v.entry with
      status := .running
      provider_vm_id := vm_id
      endpoint := some endpoint
      last_active_at := some now }
  row :=
    { v.row with
      status := .running
      provider_vm_id := vm_id
      endpoint := some endpoint
      last_active_at := some now }

def persist_stopped (v : Vm) (new_snapshot : Option Text) : Vm where
  entry := { v.entry with status := .stopped, provider_vm_id := none, endpoint := none }
  row :=
    { v.row with
      status := .stopped
      snapshot_id := new_snapshot
      endpoint := none
      provider_vm_id := none }

inductive Result where
  | woke (result : WakeResult)
  | drained (success : Bool)
  deriving DecidableEq, Repr

/-- The call an operation awaits, or how it ended. `start` may have named no id. -/
inductive Stage where
  | checking (vm_id endpoint : Text) (snapshot_id : Option Text)
  | stopping (vm_id : Text) (snapshot_id : Option Text)
  | starting (snapshot_id : Option Text)
  | configuring (vm_id : Option Text)
  | executing (vm_id : Option Text) (script : Script)
  | exposing (vm_id : Option Text)
  | polling (vm_id : Option Text) (endpoint : Text)
  | cleaning
  | snapshotting (vm_id : Text)
  | halting (vm_id : Text) (new_snapshot : Option Text)
  | returned (result : Result)
  | raised
  deriving DecidableEq, Repr

/-- What is answered to a call; `deadline` ends the polls of a wake. -/
inductive Input where
  | reply (r : Reply)
  | started (r : Http Instance)
  | configured (r : Http Unit)
  | executed (r : Http Exit)
  | exposed (r : Http Networking)
  | polled (r : Http Unit) (now : ℕ)
  | deadline
  deriving DecidableEq, Repr

/-- The handler of a `VMProviderError` in `wake`. -/
def wake_failed (v : Vm) : Vm × Stage :=
  if truthy v.entry.provider_vm_id then (v, .cleaning)
  else (persist_status v .error, .returned (.woke .FAILED))

/-- From the place where `_start_or_resume` looks at the snapshot. -/
def start_fresh (v : Vm) (snapshot_id : Option Text) : Vm × Stage :=
  if truthy snapshot_id then (v, .starting snapshot_id) else wake_failed v

def start_or_resume (golden : Option Text) (v : Vm) : Vm × Stage :=
  let snapshot_id := if truthy v.row.snapshot_id then v.row.snapshot_id else golden
  if truthy v.row.provider_vm_id ∧ truthy v.row.endpoint then
    (v, .checking (v.row.provider_vm_id.getD []) (v.row.endpoint.getD []) snapshot_id)
  else if truthy v.row.provider_vm_id then
    (v, .stopping (v.row.provider_vm_id.getD []) snapshot_id)
  else start_fresh v snapshot_id

def wake (golden : Option Text) (v : Vm) : Vm × Stage :=
  if v.entry.status = .running ∧ truthy v.entry.endpoint then (v, .returned (.woke .RUNNING))
  else start_or_resume golden (persist_status v .waking)

def drain_failed (v : Vm) : Vm × Stage := (persist_status v .error, .returned (.drained false))

def drain (v : Vm) : Vm × Stage :=
  match v.entry.provider_vm_id with
  | none => (v, .returned (.drained false))
  | some vm_id => (persist_status v .draining, .snapshotting vm_id)

/-- A call in the body of a `try` that handles a `VMProviderError` only. -/
def attempt {α : Type} (v : Vm) (failed : Vm × Stage) (a : Answer α) (k : α → Vm × Stage) :
    Vm × Stage :=
  match a with
  | .ok value => k value
  | .provider_error => failed
  | .raised => (v, .raised)

def status_answered (v : Vm) (vm_id endpoint : Text) (snapshot_id : Option Text) (r : Reply) :
    Vm × Stage :=
  match get_status r with
  | none => (v, .raised)
  | some provider_status =>
      if provider_status = some "ready".toList ∨ provider_status = some "paused".toList then
        (v, .polling (some vm_id) endpoint)
      else start_fresh (clear_vm_mapping v) snapshot_id

def executed (v : Vm) (vm_id : Option Text) : Script → Vm × Stage
  | .migrate => (v, .executing vm_id .network)
  | .network => (v, .executing vm_id .run)
  | .run => (v, .executing vm_id .health)
  | .health => (v, .exposing vm_id)

/-- One step of an operation, from one call to the next. -/
def step : Vm × Stage → Input → Option (Vm × Stage)
  | (v, .checking vm_id endpoint snapshot_id), .reply r =>
      some (status_answered v vm_id endpoint snapshot_id r)
  | (v, .stopping _ snapshot_id), .reply r =>
      let cleared := start_fresh (clear_vm_mapping v) snapshot_id
      some (attempt v cleared (stop r) fun _ => cleared)
  | (v, .starting _), .started r =>
      some (attempt v (wake_failed v) (start r) fun vm_id =>
        (persist_vm_id v vm_id, .configuring vm_id))
  | (v, .configuring vm_id), .configured r =>
      some (attempt v (wake_failed v) (configure_wake_on_http r) fun _ =>
        (v, .executing vm_id .migrate))
  | (v, .executing vm_id script), .executed r =>
      some (attempt v (wake_failed v) (exec r) fun _ => executed v vm_id script)
  | (v, .exposing vm_id), .exposed r =>
      some (attempt v (wake_failed v) (expose_http_service r) fun endpoint =>
        (persist_endpoint v endpoint, .polling vm_id endpoint))
  | (v, .polling vm_id endpoint), .polled r now =>
      some (if health r then
          (persist_running v vm_id endpoint now, .returned (.woke .RUNNING))
        else (v, .polling vm_id endpoint))
  | (v, .polling _ _), .deadline => some (v, .returned (.woke .PENDING))
  | (v, .cleaning), .reply _ =>
      some (persist_status (clear_vm_mapping v) .error, .returned (.woke .FAILED))
  | (v, .snapshotting vm_id), .reply r =>
      some (attempt v (drain_failed v) (snapshot r) fun new_snapshot =>
        (v, .halting vm_id new_snapshot))
  | (v, .halting _ new_snapshot), .reply r =>
      some (attempt v (drain_failed v) (stop r) fun _ =>
        (persist_stopped v new_snapshot, .returned (.drained true)))
  | _, _ => none

def Raises {α : Type} (a : Answer α) : Prop := a = .provider_error ∨ a = .raised

instance {α : Type} [DecidableEq α] (a : Answer α) : Decidable (Raises a) :=
  inferInstanceAs (Decidable (_ ∨ _))

/-- The call that is answered raises an exception. -/
def Fails : Stage → Input → Prop
  | .checking _ _ _, .reply r => get_status r = none
  | .stopping _ _, .reply r | .cleaning, .reply r | .halting _ _, .reply r => Raises (stop r)
  | .starting _, .started r => Raises (start r)
  | .configuring _, .configured r => Raises (configure_wake_on_http r)
  | .executing _ _, .executed r => Raises (exec r)
  | .exposing _, .exposed r => Raises (expose_http_service r)
  | .snapshotting _, .reply r => Raises (snapshot r)
  | _, _ => False

/-- What the operation that awaits the call returns when it fails. -/
def failure : Stage → Result
  | .snapshotting _ | .halting _ _ => .drained false
  | _ => .woke .FAILED

/-- The operation has returned `result`, with the error in the entry and the row. -/
structure Closed (result : Result) (q : Vm × Stage) : Prop where
  stage : q.2 = .returned result
  entry : q.1.entry.status = .error
  row : q.1.row.status = .error

/-- The exception is one that a handler turns into the failure of the operation. -/
def Handled : Stage → Input → Prop
  | .cleaning, .reply _ => True
  | .stopping _ snapshot_id, .reply r => stop r = .provider_error ∧ truthy snapshot_id = false
  | .halting _ _, .reply r => stop r = .provider_error
  | .starting _, .started r => start r = .provider_error
  | .executing _ _, .executed r => exec r = .provider_error
  | .exposing _, .exposed r => expose_http_service r = .provider_error
  | .snapshotting _, .reply r => snapshot r = .provider_error
  | _, _ => False

theorem closed_stopped {result : Result} {q : Vm × Stage} (h : Closed result q) (x : Input) :
    step q x = none := by
  obtain ⟨v, s⟩ := q
  cases h.stage
  rfl

theorem not_inevitable_raised (v : Vm) (result : Result) :
    ¬ Inevitable step (Closed result) (v, .raised) := by
  rw [inevitable_iff_of_stopped fun _ => rfl]
  intro h
  cases h.stage

/-- A wake in which a `VMProviderError` was raised ends in the error. -/
theorem wake_failed_closes (v : Vm) :
    Inevitable step (Closed (.woke .FAILED)) (wake_failed v) := by
  unfold wake_failed
  split
  · refine .later ⟨.reply .transport_error, _, rfl⟩ ?_
    intro x q hq
    cases x with
    | reply r =>
        cases hq
        exact .now ⟨rfl, rfl, rfl⟩
    | started r => cases hq
    | configured r => cases hq
    | executed r => cases hq
    | exposed r => cases hq
    | polled r now => cases hq
    | deadline => cases hq
  · exact .now ⟨rfl, rfl, rfl⟩

theorem drain_failed_closes (v : Vm) :
    Inevitable step (Closed (.drained false)) (drain_failed v) :=
  .now ⟨rfl, rfl, rfl⟩

/-- The answers with which a fresh start comes to a running VM. -/
def good_start : List Input :=
  [.started (.response 200 (some ⟨some "vm".toList, none⟩)),
    .configured (.response 200 none),
    .executed (.response 200 (some ⟨none⟩)),
    .executed (.response 200 (some ⟨none⟩)),
    .executed (.response 200 (some ⟨none⟩)),
    .executed (.response 200 (some ⟨none⟩)),
    .exposed (.response 200 (some ⟨[⟨some "user-server".toList, some "url".toList⟩]⟩)),
    .polled (.response 200 none) 0]

theorem run_good_start (v : Vm) (snapshot_id : Option Text) :
    ∃ v', run step (v, .starting snapshot_id) good_start = some (v', .returned (.woke .RUNNING)) :=
  ⟨_, rfl⟩

/-- A fresh start is bound to fail only where there is no snapshot to start from. -/
theorem start_fresh_closes_iff (v : Vm) (snapshot_id : Option Text) :
    Inevitable step (Closed (.woke .FAILED)) (start_fresh v snapshot_id) ↔
      truthy snapshot_id = false := by
  unfold start_fresh
  split
  next htruthy =>
      refine iff_of_false ?_ (by simp [htruthy])
      intro h
      obtain ⟨v', hrun⟩ := run_good_start v snapshot_id
      have hlast := h.of_run (fun _ => closed_stopped) hrun
      rw [inevitable_iff_of_stopped fun _ => rfl] at hlast
      cases hlast.stage
  next hnot =>
      exact iff_of_true (wake_failed_closes v) (by simpa using hnot)

theorem attempt_closes_iff {α : Type} {v : Vm} {failed : Vm × Stage} {a : Answer α}
    {k : α → Vm × Stage} {result : Result} (hfail : Raises a) :
    Inevitable step (Closed result) (attempt v failed a k) ↔
      a = .provider_error ∧ Inevitable step (Closed result) failed := by
  rcases hfail with rfl | rfl
  · exact (and_iff_right rfl).symm
  · refine iff_of_false (not_inevitable_raised v result) ?_
    rintro ⟨h, -⟩
    cases h

theorem configure_wake_on_http_ne (r : Http Unit) :
    configure_wake_on_http r ≠ .provider_error := by
  cases r <;> exact nofun

/-- After a call that failed, the operation is bound to return its failure and leave the
error exactly if a handler has the exception. -/
theorem failure_closed_iff {v : Vm} {s : Stage} {x : Input} {q : Vm × Stage}
    (hfail : Fails s x) (hstep : step (v, s) x = some q) :
    Inevitable step (Closed (failure s)) q ↔ Handled s x := by
  unfold Fails at hfail
  split at hfail
  case h_1 vm_id endpoint snapshot_id r =>
      cases hstep
      simp only [status_answered, hfail]
      exact iff_of_false (not_inevitable_raised v _) id
  case h_2 vm_id snapshot_id r =>
      cases hstep
      exact (attempt_closes_iff hfail).trans
        (and_congr_right fun _ => start_fresh_closes_iff _ snapshot_id)
  case h_3 r =>
      cases hstep
      exact iff_of_true (.now ⟨rfl, rfl, rfl⟩) trivial
  case h_4 vm_id new_snapshot r =>
      cases hstep
      exact (attempt_closes_iff hfail).trans (and_iff_left (drain_failed_closes v))
  case h_5 snapshot_id r =>
      cases hstep
      exact (attempt_closes_iff hfail).trans (and_iff_left (wake_failed_closes v))
  case h_6 vm_id r =>
      cases hstep
      refine (attempt_closes_iff hfail).trans (iff_of_false ?_ id)
      intro h
      exact configure_wake_on_http_ne r h.1
  case h_7 vm_id script r =>
      cases hstep
      exact (attempt_closes_iff hfail).trans (and_iff_left (wake_failed_closes v))
  case h_8 vm_id r =>
      cases hstep
      exact (attempt_closes_iff hfail).trans (and_iff_left (wake_failed_closes v))
  case h_9 vm_id r =>
      cases hstep
      exact (attempt_closes_iff hfail).trans (and_iff_left (drain_failed_closes v))
  case h_10 => exact hfail.elim

def golden_snapshot : Option Text := some "snapshot_golden".toList

def provisioned_vm : Vm := ⟨(provisioned "u".toList).entry, (provisioned "u".toList).row⟩

theorem failure_closed_refused : Inevitable step (Closed (.woke .FAILED))
    (wake_failed (wake golden_snapshot provisioned_vm).1) :=
  (failure_closed_iff (v := (wake golden_snapshot provisioned_vm).1)
    (s := .starting golden_snapshot) (x := .started (.response 503 none)) (.inl rfl) rfl).mpr rfl

/-- The provider cannot be reached when a first wake starts the VM. -/
theorem unreachable_provider_raises :
    ¬ ∀ (golden : Option Text) (v : Vm) (es : List Input) (v' : Vm) (s : Stage) (x : Input)
      (q : Vm × Stage), run step (wake golden v) es = some (v', s) → Fails s x →
        step (v', s) x = some q → Inevitable step (Closed (failure s)) q := by
  intro h
  have hstart : wake golden_snapshot provisioned_vm =
      (persist_status provisioned_vm .waking, .starting golden_snapshot) := rfl
  have hbound := h golden_snapshot provisioned_vm [] _ _ (.started .transport_error)
    (persist_status provisioned_vm .waking, .raised) (congrArg some hstart) (.inr rfl) rfl
  exact not_inevitable_raised _ _ hbound

end ArticTrader.VmFailures
