import ArticTrader.VmRegistry

/-!
The VM of one user, in the registry of the hub, in its row of `user_vms` and at
the provider. An operation is resumed with the answer it awaits and runs up to
its next await. The wallet's environment and `configure_wake_on_http` are part of
the launch.
-/

namespace ArticTrader.VmService

open ArticTrader.PythonText
open ArticTrader.VmRegistry

theorem truthy_iff {v : Option Text} : truthy v = true ↔ ∃ text, v = some text ∧ text ≠ [] := by
  cases v <;> simp [truthy]

/-- What a call to the provider comes to: `provider_error` is a `VMProviderError`,
`raised` any other exception. -/
inductive Answer (α : Type) where
  | ok (value : α)
  | provider_error
  | raised
  deriving DecidableEq, Repr

/-- The one field that is read from the body of an answer. -/
inductive Body where
  | not_json
  | absent
  | null
  | text (value : Text)
  deriving DecidableEq, Repr

/-- What the provider's REST endpoint answers. -/
inductive Reply where
  | transport_error
  | response (status_code : ℕ) (body : Body)
  deriving DecidableEq, Repr

/-- `none` for the exception of a body that is not JSON. -/
def get_status : Reply → Option (Option Text)
  | .transport_error => some none
  | .response status_code body =>
      if status_code = 404 then some none
      else if 400 ≤ status_code then some none
      else
        match body with
        | .not_json => none
        | .absent | .null => some none
        | .text status => some (some status)

def stop : Reply → Answer Unit
  | .transport_error => .raised
  | .response status_code _ =>
      if 400 ≤ status_code ∧ status_code ≠ 404 then .provider_error else .ok ()

def snapshot : Reply → Answer (Option Text)
  | .transport_error => .raised
  | .response status_code body =>
      if 400 ≤ status_code then .provider_error
      else
        match body with
        | .not_json | .absent => .raised
        | .null => .ok none
        | .text id => .ok (some id)

/-- `exposed` is what the last call of the launch answers if all went well. -/
def launch_user_server : Answer Text → Answer Text
  | .ok [] => .provider_error
  | exposed => exposed

theorem launch_user_server_ok {a : Answer Text} {endpoint : Text}
    (h : launch_user_server a = .ok endpoint) : endpoint ≠ [] := by
  rintro rfl
  cases a with
  | ok value => cases value <;> cases h
  | provider_error => cases h
  | raised => cases h

def NotFound : Reply → Prop
  | .transport_error => False
  | .response status_code _ => status_code = 404

instance (r : Reply) : Decidable (NotFound r) := by
  cases r <;> unfold NotFound <;> infer_instance

structure UserVM where
  provider_vm_id : Option Text
  endpoint : Option Text
  status : VMStatus
  last_active_at : Option ℕ
  snapshot_id : Option Text
  deriving DecidableEq, Repr

/-- The keyword arguments of `set_status`. -/
structure Overrides where
  provider_vm_id : Option (Option Text) := none
  endpoint : Option (Option Text) := none
  last_active_at : Option (Option ℕ) := none

/-- What one user has at the hub, and what became of his instances: the ids that
`start` returned, those stopped successfully, those found not to exist. -/
structure Cell where
  entry : VMState
  row : UserVM
  locked : Bool
  started : List Text
  stopped : List Text
  gone : List Text
  deriving DecidableEq, Repr

def Cell.set_status (c : Cell) (status : VMStatus) (o : Overrides) : Cell :=
  { c with
    entry := { c.entry with
      status
      provider_vm_id := o.provider_vm_id.getD c.entry.provider_vm_id
      endpoint := o.endpoint.getD c.entry.endpoint
      last_active_at := o.last_active_at.getD c.entry.last_active_at } }

@[simp] theorem set_status_vm_id (c : Cell) (status : VMStatus) (o : Overrides) :
    (c.set_status status o).entry.provider_vm_id =
      o.provider_vm_id.getD c.entry.provider_vm_id := rfl

def Cell.lock (c : Cell) : Cell := { c with locked := true }

def Cell.release (c : Cell) : Cell := { c with locked := false }

def Cell.start (c : Cell) (vm_id : Text) : Cell := { c with started := vm_id :: c.started }

def Cell.stop (c : Cell) (vm_id : Text) (r : Reply) : Cell :=
  { c with stopped := if VmService.stop r = .ok () then vm_id :: c.stopped else c.stopped }

def Cell.observe (c : Cell) (vm_id : Text) (r : Reply) : Cell :=
  { c with gone := if NotFound r then vm_id :: c.gone else c.gone }

theorem mem_stop_iff {c : Cell} {vm_id vm : Text} {r : Reply} :
    vm ∈ (c.stop vm_id r).stopped ↔
      (vm = vm_id ∧ VmService.stop r = .ok ()) ∨ vm ∈ c.stopped := by
  unfold Cell.stop
  split <;> simp_all

theorem mem_observe_iff {c : Cell} {vm_id vm : Text} {r : Reply} :
    vm ∈ (c.observe vm_id r).gone ↔ (vm = vm_id ∧ NotFound r) ∨ vm ∈ c.gone := by
  unfold Cell.observe
  split <;> simp_all

/-- The places at which an operation writes the row. -/
inductive Write where
  | waking
  | stale (snapshot_id : Option Text)
  | started (vm_id : Text)
  | launched (vm_id endpoint : Text)
  | ran (vm_id endpoint : Text) (now : ℕ)
  | cleaned
  | failed
  | draining (vm_id : Text)
  | drained (new_snapshot : Option Text)
  | undrained
  | touched (now : ℕ)
  deriving DecidableEq, Repr

/-- What is assigned to the row that was loaded. -/
def Write.assign : Write → UserVM → UserVM
  | .waking, row => { row with status := .waking }
  | .stale _, row | .cleaned, row => { row with provider_vm_id := none, endpoint := none }
  | .started vm_id, row => { row with provider_vm_id := some vm_id }
  | .launched _ endpoint, row => { row with endpoint := some endpoint }
  | .ran vm_id endpoint now, row =>
      { row with
        status := .running
        provider_vm_id := some vm_id
        endpoint := some endpoint
        last_active_at := some now }
  | .failed, row | .undrained, row => { row with status := .error }
  | .draining _, row => { row with status := .draining }
  | .drained new_snapshot, row =>
      { row with
        status := .stopped
        snapshot_id := new_snapshot
        endpoint := none
        provider_vm_id := none }
  | .touched now, row => { row with last_active_at := some now }

def changed {α : Type} [DecidableEq α] (loaded assigned current : α) : α :=
  if assigned = loaded then current else assigned

theorem changed_of_eq {α : Type} [DecidableEq α] {loaded current : α} (assigned : α)
    (h : loaded = current) : changed loaded assigned current = assigned := by
  unfold changed
  split
  · rename_i heq
    exact h.symm.trans heq.symm
  · rfl

theorem changed_self {α : Type} [DecidableEq α] (loaded current : α) :
    changed loaded loaded current = current := if_pos rfl

/-- The `UPDATE` of a commit writes the columns whose value differs from the one
loaded. -/
def flush (loaded assigned row : UserVM) : UserVM where
  provider_vm_id :=
    changed loaded.provider_vm_id assigned.provider_vm_id row.provider_vm_id
  endpoint := changed loaded.endpoint assigned.endpoint row.endpoint
  status := changed loaded.status assigned.status row.status
  last_active_at :=
    changed loaded.last_active_at assigned.last_active_at row.last_active_at
  snapshot_id := changed loaded.snapshot_id assigned.snapshot_id row.snapshot_id

theorem flush_self (row assigned : UserVM) : flush row assigned row = assigned := by
  simp only [flush, changed_of_eq]

inductive Op where
  | wake
  | drain
  | touch
  | request
  deriving DecidableEq, Repr

/-- What an operation awaits. `select` and `commit` are those of a write of the
row, `reading` the row of `_start_or_resume`, `locking` the wake lock. -/
inductive Phase where
  | called
  | locking
  | select (w : Write)
  | commit (w : Write) (loaded : UserVM)
  | reading
  | checking (vm_id endpoint : Text) (snapshot_id : Option Text)
  | stopping (vm_id : Text) (snapshot_id : Option Text)
  | starting (snapshot_id : Option Text)
  | launching (vm_id : Text)
  | polling (vm_id endpoint : Text)
  | pushing (vm_id endpoint : Text)
  | cleaning (vm_id : Text)
  | failing
  | returning (result : WakeResult)
  | snapshotting (vm_id : Text)
  | halting (vm_id : Text) (new_snapshot : Option Text)
  | halted
  | forwarding
  | done
  deriving DecidableEq, Repr

inductive Input where
  | go (now : ℕ)
  | reply (r : Reply)
  | started (a : Answer Text)
  | launched (a : Answer Text)
  | healthy (up : Bool)
  | deadline
  | upstream (status_code : Option ℕ) (now : ℕ)
  deriving DecidableEq, Repr

/-- Where an operation goes on once its write is committed. -/
def Write.next : Write → Phase
  | .waking => .reading
  | .stale snapshot_id => .starting snapshot_id
  | .started vm_id => .launching vm_id
  | .launched vm_id endpoint => .polling vm_id endpoint
  | .ran _ _ _ => .returning .RUNNING
  | .cleaned => .failing
  | .failed => .returning .FAILED
  | .draining vm_id => .snapshotting vm_id
  | .drained _ => .halted
  | .undrained => .done
  | .touched _ => .done

def Cell.is_running (c : Cell) : Prop :=
  c.entry.status = .running ∧ truthy c.entry.endpoint = true

instance (c : Cell) : Decidable c.is_running := inferInstanceAs (Decidable (_ ∧ _))

/-- A wake ends; a request looks the endpoint up again before it is forwarded. -/
def after_wake (op : Op) (c : Cell) (result : WakeResult) : Phase :=
  if op = .request ∧ result = .RUNNING ∧ truthy c.entry.endpoint = true then .forwarding
  else .done

/-- The first steps of `wake` once it has the lock. -/
def wake (op : Op) (c : Cell) : Cell × Phase :=
  if c.is_running then (c, after_wake op c .RUNNING)
  else (c.lock.set_status .waking {}, .select .waking)

/-- The handler of a `VMProviderError` in `wake`. -/
def wake_failed (c : Cell) : Cell × Phase :=
  if truthy c.entry.provider_vm_id then (c, .cleaning (c.entry.provider_vm_id.getD []))
  else (c.set_status .error {}, .select .failed)

def start_or_resume (golden : Option Text) (row : UserVM) : Phase :=
  let snapshot_id := if truthy row.snapshot_id then row.snapshot_id else golden
  if truthy row.provider_vm_id ∧ truthy row.endpoint then
    .checking (row.provider_vm_id.getD []) (row.endpoint.getD []) snapshot_id
  else if truthy row.provider_vm_id then
    .stopping (row.provider_vm_id.getD []) snapshot_id
  else .starting snapshot_id

def clear_vm_mapping (c : Cell) (w : Write) : Cell × Phase :=
  (c.set_status .waking { provider_vm_id := some none, endpoint := some none }, .select w)

def touch (c : Cell) (now : ℕ) : Cell × Phase :=
  (c.set_status .running { last_active_at := some (some now) }, .select (.touched now))

def drain (c : Cell) : Cell × Phase :=
  match c.entry.provider_vm_id with
  | none => (c, .done)
  | some vm_id => (c.set_status .draining {}, .select (.draining vm_id))

def drain_failed (c : Cell) : Cell × Phase := (c.set_status .error {}, .select .undrained)

def call (op : Op) (c : Cell) (now : ℕ) : Cell × Phase :=
  match op with
  | .wake => (c, .locking)
  | .drain => drain c
  | .touch => touch c now
  | .request => if c.is_running then (c, .forwarding) else (c, .locking)

/-- What `start` answers, where the provider names each instance anew. -/
def start_answered (c : Cell) : Answer Text → Option (Cell × Phase)
  | .ok vm_id =>
      if vm_id ≠ [] ∧ c.started.contains vm_id = false then
        some ((c.start vm_id).set_status .waking { provider_vm_id := some (some vm_id) },
          .select (.started vm_id))
      else none
  | .provider_error => some (wake_failed c)
  | .raised => some (c.release, .done)

theorem start_answered_ok {c : Cell} {vm_id : Text} {r : Cell × Phase}
    (h : start_answered c (.ok vm_id) = some r) :
    vm_id ≠ [] ∧ vm_id ∉ c.started ∧
      r = ((c.start vm_id).set_status .waking { provider_vm_id := some (some vm_id) },
        .select (.started vm_id)) := by
  simp only [start_answered, Option.ite_none_right_eq_some, Option.some.injEq] at h
  obtain ⟨⟨hne, hfresh⟩, rfl⟩ := h
  exact ⟨hne, by simpa using hfresh, rfl⟩

def launch_answered (c : Cell) (vm_id : Text) (a : Answer Text) : Cell × Phase :=
  match launch_user_server a with
  | .ok endpoint =>
      (c.set_status .waking { endpoint := some (some endpoint) },
        .select (.launched vm_id endpoint))
  | .provider_error => wake_failed c
  | .raised => (c.release, .done)

def status_answered (c : Cell) (vm_id endpoint : Text) (snapshot_id : Option Text) (r : Reply) :
    Cell × Phase :=
  match get_status r with
  | none => (c.release, .done)
  | some provider_status =>
      if provider_status = some "ready".toList ∨ provider_status = some "paused".toList then
        (c, .polling vm_id endpoint)
      else clear_vm_mapping (c.observe vm_id r) (.stale snapshot_id)

def orphan_stopped (c : Cell) (vm_id : Text) (snapshot_id : Option Text) (r : Reply) :
    Cell × Phase :=
  match stop r with
  | .ok _ | .provider_error => clear_vm_mapping (c.stop vm_id r) (.stale snapshot_id)
  | .raised => (c.release, .done)

def snapshot_answered (c : Cell) (vm_id : Text) (r : Reply) : Cell × Phase :=
  match snapshot r with
  | .ok new_snapshot => (c, .halting vm_id new_snapshot)
  | .provider_error => drain_failed c
  | .raised => (c, .done)

def drain_stopped (c : Cell) (vm_id : Text) (new_snapshot : Option Text) (r : Reply) :
    Cell × Phase :=
  match stop r with
  | .ok _ => (c.stop vm_id r, .select (.drained new_snapshot))
  | .provider_error => drain_failed c
  | .raised => (c, .done)

def success (status_code : Option ℕ) : Prop := ∃ code ∈ status_code, 200 ≤ code ∧ code < 400

instance (status_code : Option ℕ) : Decidable (success status_code) :=
  inferInstanceAs (Decidable (∃ _ ∈ _, _))

def forwarded (c : Cell) (status_code : Option ℕ) (now : ℕ) : Cell × Phase :=
  if success status_code then touch c now else (c, .done)

/-- One step of an operation, from what it awaits to its next await. -/
def resume (golden : Option Text) (op : Op) (c : Cell) : Phase → Input → Option (Cell × Phase)
  | .called, .go now => some (call op c now)
  | .locking, .go _ => if c.locked then none else some (wake op c)
  | .select w, .go _ => some (c, .commit w c.row)
  | .commit w loaded, .go _ =>
      some ({ c with row := flush loaded (w.assign loaded) c.row }, w.next)
  | .reading, .go _ => some (c, start_or_resume golden c.row)
  | .checking vm_id endpoint snapshot_id, .reply r =>
      some (status_answered c vm_id endpoint snapshot_id r)
  | .stopping vm_id snapshot_id, .reply r => some (orphan_stopped c vm_id snapshot_id r)
  | .starting snapshot_id, .started a => if truthy snapshot_id then start_answered c a else none
  | .starting snapshot_id, .go _ => if truthy snapshot_id then none else some (wake_failed c)
  | .launching vm_id, .launched a => some (launch_answered c vm_id a)
  | .polling vm_id endpoint, .healthy up =>
      some (c, if up then .pushing vm_id endpoint else .polling vm_id endpoint)
  | .polling _ _, .deadline => some (c.release, after_wake op c .PENDING)
  | .pushing vm_id endpoint, .go now =>
      some (c.set_status .running
        { provider_vm_id := some (some vm_id)
          endpoint := some (some endpoint)
          last_active_at := some (some now) }, .select (.ran vm_id endpoint now))
  | .cleaning vm_id, .reply r => some (clear_vm_mapping (c.stop vm_id r) .cleaned)
  | .failing, .go _ => some (c.set_status .error {}, .select .failed)
  | .returning result, .go _ => some (c.release, after_wake op c result)
  | .snapshotting vm_id, .reply r => some (snapshot_answered c vm_id r)
  | .halting vm_id new_snapshot, .reply r => some (drain_stopped c vm_id new_snapshot r)
  | .halted, .go _ =>
      some (c.set_status .stopped { provider_vm_id := some none, endpoint := some none }, .done)
  | .forwarding, .upstream status_code now => some (forwarded c status_code now)
  | _, _ => none

/-- The steps there are, by what is awaited. -/
inductive Resumed (golden : Option Text) (op : Op) (c : Cell) :
    Phase → Input → Cell × Phase → Prop
  | called (now : ℕ) : Resumed golden op c .called (.go now) (call op c now)
  | locked (now : ℕ) (hfree : c.locked = false) :
      Resumed golden op c .locking (.go now) (wake op c)
  | selected (w : Write) (now : ℕ) :
      Resumed golden op c (.select w) (.go now) (c, .commit w c.row)
  | committed (w : Write) (loaded : UserVM) (now : ℕ) :
      Resumed golden op c (.commit w loaded) (.go now)
        ({ c with row := flush loaded (w.assign loaded) c.row }, w.next)
  | read (now : ℕ) :
      Resumed golden op c .reading (.go now) (c, start_or_resume golden c.row)
  | checked (vm_id endpoint : Text) (snapshot_id : Option Text) (r : Reply) :
      Resumed golden op c (.checking vm_id endpoint snapshot_id) (.reply r)
        (status_answered c vm_id endpoint snapshot_id r)
  | orphan (vm_id : Text) (snapshot_id : Option Text) (r : Reply) :
      Resumed golden op c (.stopping vm_id snapshot_id) (.reply r)
        (orphan_stopped c vm_id snapshot_id r)
  | started (snapshot_id : Option Text) (a : Answer Text) (r : Cell × Phase)
      (hr : start_answered c a = some r) :
      Resumed golden op c (.starting snapshot_id) (.started a) r
  | no_snapshot (snapshot_id : Option Text) (now : ℕ) :
      Resumed golden op c (.starting snapshot_id) (.go now) (wake_failed c)
  | launched (vm_id : Text) (a : Answer Text) :
      Resumed golden op c (.launching vm_id) (.launched a) (launch_answered c vm_id a)
  | polled (vm_id endpoint : Text) (up : Bool) :
      Resumed golden op c (.polling vm_id endpoint) (.healthy up)
        (c, if up then .pushing vm_id endpoint else .polling vm_id endpoint)
  | timed_out (vm_id endpoint : Text) :
      Resumed golden op c (.polling vm_id endpoint) .deadline
        (c.release, after_wake op c .PENDING)
  | pushed (vm_id endpoint : Text) (now : ℕ) :
      Resumed golden op c (.pushing vm_id endpoint) (.go now)
        (c.set_status .running
          { provider_vm_id := some (some vm_id)
            endpoint := some (some endpoint)
            last_active_at := some (some now) }, .select (.ran vm_id endpoint now))
  | cleaned (vm_id : Text) (r : Reply) :
      Resumed golden op c (.cleaning vm_id) (.reply r)
        (clear_vm_mapping (c.stop vm_id r) .cleaned)
  | failed (now : ℕ) :
      Resumed golden op c .failing (.go now) (c.set_status .error {}, .select .failed)
  | returned (result : WakeResult) (now : ℕ) :
      Resumed golden op c (.returning result) (.go now) (c.release, after_wake op c result)
  | snapshotted (vm_id : Text) (r : Reply) :
      Resumed golden op c (.snapshotting vm_id) (.reply r) (snapshot_answered c vm_id r)
  | stopped (vm_id : Text) (new_snapshot : Option Text) (r : Reply) :
      Resumed golden op c (.halting vm_id new_snapshot) (.reply r)
        (drain_stopped c vm_id new_snapshot r)
  | drained (now : ℕ) :
      Resumed golden op c .halted (.go now)
        (c.set_status .stopped { provider_vm_id := some none, endpoint := some none }, .done)
  | forwarded (status_code : Option ℕ) (now : ℕ) :
      Resumed golden op c .forwarding (.upstream status_code now) (forwarded c status_code now)

theorem resumed_of_resume {golden : Option Text} {op : Op} {c : Cell} {p : Phase} {x : Input}
    {r : Cell × Phase} (h : resume golden op c p x = some r) : Resumed golden op c p x r := by
  unfold resume at h
  split at h
  case h_2 =>
      rw [Option.ite_none_left_eq_some, Bool.not_eq_true] at h
      cases h.2
      exact .locked _ h.1
  case h_8 =>
      rw [Option.ite_none_right_eq_some] at h
      exact .started _ _ _ h.2
  case h_9 =>
      rw [Option.ite_none_left_eq_some] at h
      cases h.2
      exact .no_snapshot _ _
  all_goals cases h <;> constructor

/-- `provision_for_user`. -/
def provisioned (user_id : Text) : Cell where
  entry :=
    { user_id, provider_vm_id := none, endpoint := none, status := .stopped,
      last_active_at := none }
  row :=
    { provider_vm_id := none, endpoint := none, status := .stopped, last_active_at := none,
      snapshot_id := none }
  locked := false
  started := []
  stopped := []
  gone := []

end ArticTrader.VmService
