import ArticTrader.VmService

/-!
What one operation on a VM does to it, with no other wake or drain about for a wake
and with no wake about for a drain.
-/

namespace ArticTrader.VmLifecycle

open ArticTrader.PythonText
open ArticTrader.VmRegistry
open ArticTrader.VmService

def Agrees (c : Cell) : Prop :=
  c.row.status = c.entry.status ∧ c.row.provider_vm_id = c.entry.provider_vm_id ∧
    c.row.endpoint = c.entry.endpoint

def by_wake : Write → Bool
  | .waking | .stale _ | .started _ | .launched _ _ | .ran _ _ _ | .cleaned | .failed => true
  | _ => false

def by_drain : Write → Bool
  | .draining _ | .drained _ | .undrained => true
  | _ => false

/-- Inside the wake lock. -/
def waking : Phase → Bool
  | .select w | .commit w _ => by_wake w
  | .reading | .checking _ _ _ | .stopping _ _ | .starting _ | .launching _ | .polling _ _
  | .pushing _ _ | .cleaning _ | .failing | .returning _ => true
  | _ => false

def draining : Phase → Bool
  | .select w | .commit w _ => by_drain w
  | .snapshotting _ | .halting _ _ | .halted => true
  | _ => false

def busy (p : Phase) : Bool := waking p || draining p

/-- The row still names an instance whose stop has succeeded. -/
def clearing : Phase → Bool
  | .select (.stale _) | .commit (.stale _) _ | .select .cleaned | .commit .cleaned _
  | .select (.drained _) | .commit (.drained _) _ => true
  | _ => false

def Idle (c : Cell) : Prop := c.entry.status ≠ .running

structure Serves (c : Cell) (vm endpoint : Text) : Prop where
  endpoint : endpoint ≠ []
  unstopped : vm ∉ c.stopped

structure OnDuty (c : Cell) (vm endpoint : Text) : Prop where
  vm_id : c.entry.provider_vm_id = some vm
  serving : c.entry.endpoint = some endpoint
  serves : Serves c vm endpoint

/-- If the VM is running, all there is of it fits together. -/
def Settled (c : Cell) : Prop :=
  c.entry.status = .running → Agrees c ∧ ∃ vm endpoint, OnDuty c vm endpoint

def RowLive (c : Cell) : Prop := ∀ vm, c.row.provider_vm_id = some vm → vm ∉ c.stopped

structure SameColumns (loaded row : UserVM) : Prop where
  status : loaded.status = row.status
  vm_id : loaded.provider_vm_id = row.provider_vm_id
  endpoint : loaded.endpoint = row.endpoint

def Writing (c : Cell) : Write → Prop
  | .started vm => Idle c ∧ vm ∉ c.stopped
  | .launched vm endpoint => Idle c ∧ Serves c vm endpoint
  | .ran vm endpoint _ => c.entry.status = .running ∧ OnDuty c vm endpoint
  | .touched _ => True
  | _ => Idle c

/-- What an `UPDATE` may rely on of the row it was made for. -/
def Loaded (loaded row : UserVM) : Write → Prop
  | .drained _ => loaded.provider_vm_id = none → row.provider_vm_id = none
  | .draining _ | .undrained | .touched _ => True
  | _ => SameColumns loaded row

def Known (c : Cell) : Phase → Prop
  | .select w => Writing c w
  | .commit w loaded => Loaded loaded c.row w ∧ Writing c w
  | .checking vm endpoint _ | .polling vm endpoint | .pushing vm endpoint =>
      Idle c ∧ Serves c vm endpoint
  | .launching vm => Idle c ∧ vm ∉ c.stopped
  | .returning _ => Settled c
  | .called | .locking | .forwarding | .done => True
  | _ => Idle c

/-- What is known of the user's VM while no other operation on it is busy. -/
structure Alone (c : Cell) (p : Phase) : Prop where
  locked : waking p = true → c.locked = true
  known : Known c p
  live : clearing p = false → RowLive c
  settled : busy p = false → Settled c

/-- Two cells that differ in times, in the lock, in the snapshot or in the ids of the
past alone. -/
structure Unmoved (c c' : Cell) : Prop where
  status : c'.entry.status = c.entry.status
  vm_id : c'.entry.provider_vm_id = c.entry.provider_vm_id
  endpoint : c'.entry.endpoint = c.entry.endpoint
  row : SameColumns c'.row c.row
  stopped : c'.stopped = c.stopped

section Unmoved

variable {c c' : Cell}

theorem Unmoved.idle (h : Unmoved c c') (hidle : Idle c) : Idle c' := by
  rw [Idle, h.status]
  exact hidle

theorem Unmoved.serves (h : Unmoved c c') {vm endpoint : Text} (hserves : Serves c vm endpoint) :
    Serves c' vm endpoint :=
  ⟨hserves.endpoint, h.stopped ▸ hserves.unstopped⟩

theorem Unmoved.onDuty (h : Unmoved c c') {vm endpoint : Text} (hduty : OnDuty c vm endpoint) :
    OnDuty c' vm endpoint :=
  ⟨h.vm_id.trans hduty.vm_id, h.endpoint.trans hduty.serving, h.serves hduty.serves⟩

theorem Unmoved.settled (h : Unmoved c c') (hsettled : Settled c) : Settled c' := by
  intro hrunning
  obtain ⟨⟨hstatus, hvm, hendpoint⟩, vm, endpoint, hduty⟩ := hsettled (h.status ▸ hrunning)
  refine ⟨⟨?_, ?_, ?_⟩, vm, endpoint, h.onDuty hduty⟩
  · rw [h.row.status, h.status, hstatus]
  · rw [h.row.vm_id, h.vm_id, hvm]
  · rw [h.row.endpoint, h.endpoint, hendpoint]

theorem Unmoved.rowLive (h : Unmoved c c') (hlive : RowLive c) : RowLive c' := by
  intro vm hvm
  rw [h.stopped]
  exact hlive vm (h.row.vm_id ▸ hvm)

theorem Unmoved.loaded (h : Unmoved c c') {w : Write} {loaded : UserVM}
    (hloaded : Loaded loaded c.row w) : Loaded loaded c'.row w := by
  have hsame : SameColumns loaded c.row → SameColumns loaded c'.row := by
    intro hl
    exact ⟨hl.status.trans h.row.status.symm, hl.vm_id.trans h.row.vm_id.symm,
      hl.endpoint.trans h.row.endpoint.symm⟩
  cases w with
  | drained _ =>
      intro hnone
      exact h.row.vm_id.trans (hloaded hnone)
  | draining _ => trivial
  | undrained => trivial
  | touched _ => trivial
  | _ => exact hsame hloaded

theorem Unmoved.writing (h : Unmoved c c') {w : Write} (hwriting : Writing c w) :
    Writing c' w := by
  cases w with
  | started vm => exact ⟨h.idle hwriting.1, h.stopped ▸ hwriting.2⟩
  | launched vm endpoint => exact ⟨h.idle hwriting.1, h.serves hwriting.2⟩
  | ran vm endpoint now => exact ⟨h.status.trans hwriting.1, h.onDuty hwriting.2⟩
  | touched now => trivial
  | _ => exact h.idle hwriting

theorem Unmoved.known (h : Unmoved c c') {p : Phase} (hknown : Known c p) : Known c' p := by
  cases p with
  | select w => exact h.writing hknown
  | commit w loaded => exact ⟨h.loaded hknown.1, h.writing hknown.2⟩
  | checking vm endpoint _ => exact ⟨h.idle hknown.1, h.serves hknown.2⟩
  | polling vm endpoint => exact ⟨h.idle hknown.1, h.serves hknown.2⟩
  | pushing vm endpoint => exact ⟨h.idle hknown.1, h.serves hknown.2⟩
  | launching vm => exact ⟨h.idle hknown.1, h.stopped ▸ hknown.2⟩
  | returning _ => exact h.settled hknown
  | called => trivial
  | locking => trivial
  | forwarding => trivial
  | done => trivial
  | _ => exact h.idle hknown

end Unmoved

theorem Idle.settled {c : Cell} (h : Idle c) : Settled c := fun hrunning => absurd hrunning h

theorem idle_set_status (c : Cell) {status : VMStatus} (h : status ≠ .running) (o : Overrides) :
    Idle (c.set_status status o) := h

theorem alone_of_busy {c : Cell} {p : Phase} (hlocked : c.locked = true) (hbusy : busy p = true)
    (hknown : Known c p) (hlive : clearing p = false → RowLive c) : Alone c p where
  locked := fun _ => hlocked
  known := hknown
  live := hlive
  settled := by
    intro hnot
    rw [hbusy] at hnot
    cases hnot

theorem unmoved_release (c : Cell) : Unmoved c c.release :=
  ⟨rfl, rfl, rfl, ⟨rfl, rfl, rfl⟩, rfl⟩

theorem alone_clear {c : Cell} {w : Write} (hlocked : c.locked = true)
    (hw : w = .cleaned ∨ ∃ snapshot_id, w = .stale snapshot_id) :
    Alone (clear_vm_mapping c w).1 (clear_vm_mapping c w).2 := by
  rcases hw with rfl | ⟨snapshot_id, rfl⟩
  · exact ⟨fun _ => hlocked, nofun, nofun, nofun⟩
  · exact ⟨fun _ => hlocked, nofun, nofun, nofun⟩

theorem alone_released {c : Cell} (h : Settled c) (hlive : RowLive c) (op : Op)
    (result : WakeResult) : Alone c.release (after_wake op c result) := by
  unfold after_wake
  split
  · exact ⟨nofun, trivial, fun _ => hlive, fun _ => (unmoved_release c).settled h⟩
  · exact ⟨nofun, trivial, fun _ => hlive, fun _ => (unmoved_release c).settled h⟩

theorem alone_ended {c : Cell} (h : Settled c) (hlive : RowLive c) : Alone c.release .done :=
  ⟨nofun, trivial, fun _ => hlive, fun _ => (unmoved_release c).settled h⟩

theorem alone_wake_failed {c : Cell} (hlocked : c.locked = true) (hidle : Idle c)
    (hlive : RowLive c) : Alone (wake_failed c).1 (wake_failed c).2 := by
  unfold wake_failed
  split
  · exact alone_of_busy hlocked rfl hidle fun _ => hlive
  · exact alone_of_busy hlocked rfl nofun fun _ => hlive

section Waking

variable {c : Cell} (hlocked : c.locked = true)
include hlocked

theorem alone_status_answered {vm endpoint : Text} (hidle : Idle c) (hserves : Serves c vm endpoint)
    (hlive : RowLive c) (snapshot_id : Option Text) (r : Reply) :
    Alone (status_answered c vm endpoint snapshot_id r).1
      (status_answered c vm endpoint snapshot_id r).2 := by
  unfold status_answered
  split
  · exact alone_ended hidle.settled hlive
  · split
    · exact alone_of_busy hlocked rfl ⟨hidle, hserves⟩ fun _ => hlive
    · exact alone_clear hlocked (.inr ⟨snapshot_id, rfl⟩)

theorem alone_orphan_stopped (hidle : Idle c) (hlive : RowLive c) (vm : Text)
    (snapshot_id : Option Text) (r : Reply) :
    Alone (orphan_stopped c vm snapshot_id r).1 (orphan_stopped c vm snapshot_id r).2 := by
  unfold orphan_stopped
  split
  · exact alone_clear hlocked (.inr ⟨snapshot_id, rfl⟩)
  · exact alone_clear hlocked (.inr ⟨snapshot_id, rfl⟩)
  · exact alone_ended hidle.settled hlive

theorem alone_start_answered (hstopped : ∀ vm ∈ c.stopped, vm ∈ c.started) (hidle : Idle c)
    (hlive : RowLive c) {a : Answer Text} {r : Cell × Phase} (hr : start_answered c a = some r) :
    Alone r.1 r.2 := by
  cases a with
  | ok vm =>
      obtain ⟨-, hfresh, rfl⟩ := start_answered_ok hr
      exact alone_of_busy hlocked rfl ⟨nofun, fun hvm => hfresh (hstopped vm hvm)⟩ fun _ => hlive
  | provider_error =>
      cases hr
      exact alone_wake_failed hlocked hidle hlive
  | raised =>
      cases hr
      exact alone_ended hidle.settled hlive

theorem alone_launch_answered (hidle : Idle c) (hlive : RowLive c) {vm : Text}
    (hvm : vm ∉ c.stopped) (a : Answer Text) :
    Alone (launch_answered c vm a).1 (launch_answered c vm a).2 := by
  unfold launch_answered
  split
  · rename_i endpoint hlaunch
    have hendpoint : endpoint ≠ [] := launch_user_server_ok hlaunch
    exact alone_of_busy hlocked rfl ⟨nofun, hendpoint, hvm⟩ fun _ => hlive
  · exact alone_wake_failed hlocked hidle hlive
  · exact alone_ended hidle.settled hlive

theorem alone_read (hidle : Idle c) (hlive : RowLive c) (golden : Option Text) :
    Alone c (start_or_resume golden c.row) := by
  unfold start_or_resume
  dsimp only
  split
  · rename_i htruthy
    obtain ⟨vm, hvm, -⟩ := truthy_iff.mp htruthy.1
    obtain ⟨endpoint, hendpoint, hne⟩ := truthy_iff.mp htruthy.2
    rw [hvm, hendpoint]
    exact alone_of_busy hlocked rfl ⟨hidle, hne, hlive vm hvm⟩ fun _ => hlive
  · split
    · exact alone_of_busy hlocked rfl hidle fun _ => hlive
    · exact alone_of_busy hlocked rfl hidle fun _ => hlive

theorem alone_selected {w : Write} (h : Alone c (.select w)) (hw : by_wake w = true) :
    Alone c (.commit w c.row) := by
  have hloaded : Loaded c.row c.row w := by
    cases w with
    | drained _ => exact id
    | draining _ => trivial
    | undrained => trivial
    | touched _ => trivial
    | _ => exact ⟨rfl, rfl, rfl⟩
  refine ⟨fun _ => hlocked, ⟨hloaded, h.known⟩, ?_, ?_⟩
  · intro hnot
    apply h.live
    cases w <;> first | rfl | cases hnot
  · simp [busy, waking, hw]

end Waking

theorem alone_committed {c : Cell} {w : Write} {loaded : UserVM} (h : Alone c (.commit w loaded))
    (hw : by_wake w = true) :
    Alone { c with row := flush loaded (w.assign loaded) c.row } w.next := by
  obtain ⟨hloaded, hwriting⟩ := h.known
  have hlocked : c.locked = true := h.locked hw
  -- either the id in the row stays, or the write sets it to one of which this is known
  have hkept (hclearing : clearing (.commit w loaded) = false)
      (hvm : (w.assign loaded).provider_vm_id = loaded.provider_vm_id) :
      RowLive { c with row := flush loaded (w.assign loaded) c.row } := by
    intro vm hrow
    apply h.live hclearing vm
    rw [← hrow]
    exact (if_pos hvm).symm
  have hset (hsame : loaded.provider_vm_id = c.row.provider_vm_id)
      (hvm : ∀ vm, (w.assign loaded).provider_vm_id = some vm → vm ∉ c.stopped) :
      RowLive { c with row := flush loaded (w.assign loaded) c.row } := by
    intro vm hrow
    apply hvm vm
    rw [← hrow]
    exact (changed_of_eq _ hsame).symm
  cases w with
  | waking => exact alone_of_busy hlocked rfl hwriting fun _ => hkept rfl rfl
  | stale snapshot_id =>
      exact alone_of_busy hlocked rfl hwriting fun _ => hset hloaded.vm_id nofun
  | started vm =>
      refine alone_of_busy hlocked rfl hwriting fun _ => hset hloaded.vm_id ?_
      rintro v ⟨⟩
      exact hwriting.2
  | launched vm endpoint =>
      obtain ⟨hidle, hendpoint, hvm⟩ := hwriting
      exact alone_of_busy hlocked rfl ⟨hidle, hendpoint, hvm⟩ fun _ => hkept rfl rfl
  | ran vm endpoint now =>
      obtain ⟨hrunning, hduty⟩ := hwriting
      refine alone_of_busy hlocked rfl ?_ fun _ => hset hloaded.vm_id ?_
      · intro _
        obtain ⟨hvm, hserving, hendpoint, hunstopped⟩ := hduty
        refine ⟨⟨?_, ?_, ?_⟩, vm, endpoint, hvm, hserving, hendpoint, hunstopped⟩
        · exact (changed_of_eq _ hloaded.status).trans hrunning.symm
        · exact (changed_of_eq _ hloaded.vm_id).trans hvm.symm
        · exact (changed_of_eq _ hloaded.endpoint).trans hserving.symm
      · rintro v ⟨⟩
        exact hduty.serves.unstopped
  | cleaned => exact alone_of_busy hlocked rfl hwriting fun _ => hset hloaded.vm_id nofun
  | failed =>
      exact alone_of_busy hlocked rfl (Idle.settled hwriting) fun _ => hkept rfl rfl
  | draining vm => cases hw
  | drained new_snapshot => cases hw
  | undrained => cases hw
  | touched now => cases hw

/-- A wake on its own takes the user's VM from one sound state to the next. -/
theorem alone_resumed {golden : Option Text} {op : Op} {c : Cell} {p : Phase} {x : Input}
    {r : Cell × Phase} (h : Resumed golden op c p x r) (hp : waking p = true) (ha : Alone c p)
    (hstopped : ∀ vm ∈ c.stopped, vm ∈ c.started) : Alone r.1 r.2 := by
  have hlocked : c.locked = true := ha.locked hp
  have hknown := ha.known
  cases h with
  | called now => cases hp
  | locked now hfree => cases hp
  | selected w now => exact alone_selected hlocked ha hp
  | committed w loaded now => exact alone_committed ha hp
  | read now => exact alone_read hlocked hknown (ha.live rfl) golden
  | checked vm endpoint snapshot_id r =>
      exact alone_status_answered hlocked hknown.1 hknown.2 (ha.live rfl) snapshot_id r
  | orphan vm snapshot_id r =>
      exact alone_orphan_stopped hlocked hknown (ha.live rfl) vm snapshot_id r
  | started snapshot_id a r hr =>
      exact alone_start_answered hlocked hstopped hknown (ha.live rfl) hr
  | no_snapshot snapshot_id now => exact alone_wake_failed hlocked hknown (ha.live rfl)
  | launched vm a => exact alone_launch_answered hlocked hknown.1 (ha.live rfl) hknown.2 a
  | polled vm endpoint up =>
      cases up with
      | false => exact alone_of_busy hlocked rfl hknown fun _ => ha.live rfl
      | true => exact alone_of_busy hlocked rfl hknown fun _ => ha.live rfl
  | timed_out vm endpoint => exact alone_released (Idle.settled hknown.1) (ha.live rfl) op .PENDING
  | pushed vm endpoint now =>
      obtain ⟨-, hendpoint, hunstopped⟩ := hknown
      exact alone_of_busy hlocked rfl ⟨rfl, rfl, rfl, hendpoint, hunstopped⟩ fun _ => ha.live rfl
  | cleaned vm r => exact alone_clear hlocked (.inl rfl)
  | failed now => exact alone_of_busy hlocked rfl nofun fun _ => ha.live rfl
  | returned result now => exact alone_released hknown (ha.live rfl) op result
  | snapshotted vm r => cases hp
  | stopped vm new_snapshot r => cases hp
  | drained now => cases hp
  | forwarded status_code now => cases hp

/-- What a step of a drain does, whatever other drains there are. -/
structure Drains (c : Cell) (p : Phase) (r : Cell × Phase) : Prop where
  idle : Idle r.1
  row : r.1.row.provider_vm_id = c.row.provider_vm_id ∨ r.1.row.provider_vm_id = none
  known : Known r.1 r.2
  waking : waking r.2 = false
  live : clearing r.2 = true ∨ r.1.row.provider_vm_id = none ∨
    clearing p = false ∧ r.1.stopped = c.stopped

section Draining

variable {c : Cell} {p : Phase} (hp : clearing p = false)
include hp

theorem drains_begun (vm : Text) :
    Drains c p (c.set_status .draining {}, .select (.draining vm)) :=
  ⟨nofun, .inl rfl, nofun, rfl, .inr (.inr ⟨hp, rfl⟩)⟩

theorem drains_failed : Drains c p (drain_failed c) :=
  ⟨nofun, .inl rfl, nofun, rfl, .inr (.inr ⟨hp, rfl⟩)⟩

theorem drains_ended (hidle : Idle c) : Drains c p (c, .done) :=
  ⟨hidle, .inl rfl, trivial, rfl, .inr (.inr ⟨hp, rfl⟩)⟩

theorem drains_snapshot_answered (hidle : Idle c) (vm : Text) (r : Reply) :
    Drains c p (snapshot_answered c vm r) := by
  unfold snapshot_answered
  split
  · exact ⟨hidle, .inl rfl, hidle, rfl, .inr (.inr ⟨hp, rfl⟩)⟩
  · exact drains_failed hp
  · exact drains_ended hp hidle

theorem drains_stopped (hidle : Idle c) (vm : Text) (new_snapshot : Option Text) (r : Reply) :
    Drains c p (drain_stopped c vm new_snapshot r) := by
  unfold drain_stopped
  split
  · exact ⟨hidle, .inl rfl, hidle, rfl, .inl rfl⟩
  · exact drains_failed hp
  · exact drains_ended hp hidle

end Draining

theorem drains_selected {c : Cell} {w : Write} (hw : by_drain w = true) (h : Writing c w) :
    Drains c (.select w) (c, .commit w c.row) := by
  cases w with
  | draining vm => exact ⟨h, .inl rfl, ⟨trivial, h⟩, rfl, .inr (.inr ⟨rfl, rfl⟩)⟩
  | drained new_snapshot => exact ⟨h, .inl rfl, ⟨id, h⟩, rfl, .inl rfl⟩
  | undrained => exact ⟨h, .inl rfl, ⟨trivial, h⟩, rfl, .inr (.inr ⟨rfl, rfl⟩)⟩
  | _ => cases hw

theorem drains_committed {c : Cell} {w : Write} {loaded : UserVM} (hw : by_drain w = true)
    (hloaded : Loaded loaded c.row w) (h : Writing c w) :
    Drains c (.commit w loaded)
      ({ c with row := flush loaded (w.assign loaded) c.row }, w.next) := by
  cases w with
  | draining vm =>
      exact ⟨h, .inl (changed_self _ _), h, rfl, .inr (.inr ⟨rfl, rfl⟩)⟩
  | drained new_snapshot =>
      have hnone : changed loaded.provider_vm_id none c.row.provider_vm_id = none := by
        unfold changed
        split
        · exact hloaded (Eq.symm ‹_›)
        · rfl
      exact ⟨h, .inr hnone, h, rfl, .inr (.inl hnone)⟩
  | undrained =>
      exact ⟨h, .inl (changed_self _ _), trivial, rfl, .inr (.inr ⟨rfl, rfl⟩)⟩
  | _ => cases hw

theorem drains_resumed {golden : Option Text} {op : Op} {c : Cell} {p : Phase} {x : Input}
    {r : Cell × Phase} (h : Resumed golden op c p x r) (hp : draining p = true)
    (hknown : Known c p) : Drains c p r := by
  cases h with
  | selected w now => exact drains_selected hp hknown
  | committed w loaded now => exact drains_committed hp hknown.1 hknown.2
  | snapshotted vm r => exact drains_snapshot_answered rfl hknown vm r
  | stopped vm new_snapshot r => exact drains_stopped rfl hknown vm new_snapshot r
  | drained now => exact ⟨nofun, .inl rfl, trivial, rfl, .inr (.inr ⟨rfl, rfl⟩)⟩
  | _ => cases hp

/-- What another operation that is not a wake knows survives the step of a drain. -/
theorem Drains.known_other {c : Cell} {p q : Phase} {r : Cell × Phase} (h : Drains c p r)
    (hq : VmLifecycle.waking q = false) (hknown : Known c q) : Known r.1 q := by
  cases q with
  | select w =>
      cases w with
      | draining vm => exact h.idle
      | drained new_snapshot => exact h.idle
      | undrained => exact h.idle
      | touched now => trivial
      | _ => cases hq
  | commit w loaded =>
      cases w with
      | draining vm => exact ⟨trivial, h.idle⟩
      | drained new_snapshot =>
          refine ⟨fun hnone => ?_, h.idle⟩
          rcases h.row with hrow | hrow
          · exact hrow.trans (hknown.1 hnone)
          · exact hrow
      | undrained => exact ⟨trivial, h.idle⟩
      | touched now => exact ⟨trivial, trivial⟩
      | _ => cases hq
  | snapshotting vm => exact h.idle
  | halting vm new_snapshot => exact h.idle
  | halted => exact h.idle
  | called => trivial
  | locking => trivial
  | forwarding => trivial
  | done => trivial
  | _ => cases hq

theorem clearing_of_not_busy {p : Phase} (h : busy p = false) : clearing p = false := by
  cases p with
  | select w => cases w <;> first | rfl | cases h
  | commit w loaded => cases w <;> first | rfl | cases h
  | _ => rfl

theorem known_of_not_busy {c : Cell} {p : Phase} (h : busy p = false) : Known c p := by
  cases p with
  | select w => cases w <;> trivial
  | commit w loaded => cases w <;> first | exact ⟨trivial, trivial⟩ | cases h
  | _ => trivial

theorem not_busy_iff {p : Phase} : busy p = false ↔ waking p = false ∧ draining p = false := by
  rw [busy, Bool.or_eq_false_iff]

theorem onDuty_of_known {c : Cell} {p : Phase} (hknown : Known c p) (hbusy : busy p = true)
    (hrunning : c.entry.status = .running) : ∃ vm endpoint, OnDuty c vm endpoint := by
  have hidle : Idle c → ∃ vm endpoint, OnDuty c vm endpoint := fun h => absurd hrunning h
  have hwriting (w : Write) (hw : Writing c w) (hb : busy (.select w) = true) :
      ∃ vm endpoint, OnDuty c vm endpoint := by
    cases w with
    | started vm => exact hidle hw.1
    | launched vm endpoint => exact hidle hw.1
    | ran vm endpoint now => exact ⟨vm, endpoint, hw.2⟩
    | touched now => cases hb
    | _ => exact hidle hw
  cases p with
  | select w => exact hwriting w hknown hbusy
  | commit w loaded => exact hwriting w hknown.2 hbusy
  | checking vm endpoint snapshot_id => exact hidle hknown.1
  | polling vm endpoint => exact hidle hknown.1
  | pushing vm endpoint => exact hidle hknown.1
  | launching vm => exact hidle hknown.1
  | returning result => exact (hknown hrunning).2
  | called => cases hbusy
  | locking => cases hbusy
  | forwarding => cases hbusy
  | done => cases hbusy
  | _ => exact hidle hknown

end ArticTrader.VmLifecycle
