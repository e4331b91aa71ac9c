import ArticTrader.LabelledRuns
import ArticTrader.VmService

/-!
The instances of one user over his operations, one after the other: which of
those that `start` ever returned are still looked after.
-/

namespace ArticTrader.VmLeaks

open ArticTrader.LabelledRuns
open ArticTrader.PythonText
open ArticTrader.VmRegistry
open ArticTrader.VmService

structure Session where
  cell : Cell
  op : Op
  phase : Phase
  deriving DecidableEq, Repr

inductive Event where
  | call (op : Op)
  | input (x : Input)
  deriving DecidableEq, Repr

def initial (user_id : Text) : Session where
  cell := provisioned user_id
  op := .wake
  phase := .done

def step (golden : Option Text) (s : Session) : Event → Option Session
  | .call op => if s.phase = .done then some { s with op, phase := .called } else none
  | .input x =>
      (resume golden s.op s.cell s.phase x).map fun r => { s with cell := r.1, phase := r.2 }

def Accounted (c : Cell) : Prop :=
  ∀ vm ∈ c.started, c.row.provider_vm_id = some vm ∨ vm ∈ c.stopped ∨ vm ∈ c.gone

instance (c : Cell) : Decidable (Accounted c) := inferInstanceAs (Decidable (∀ _ ∈ _, _))

/-- Where the service is to drop the id it holds, the answer says that the instance
is gone or stopped. -/
def Confirms : Phase → Input → Prop
  | .checking _ _ _, .reply r =>
      ∀ status ∈ get_status r, status ≠ some "ready".toList → status ≠ some "paused".toList →
        NotFound r
  | .stopping _ _, .reply r => stop r ≠ .provider_error
  | .cleaning _, .reply r => stop r = .ok ()
  | _, _ => True

instance : ∀ p x, Decidable (Confirms p x) := by
  intro p x
  cases p <;> cases x <;> unfold Confirms <;> infer_instance

def Confirmed (s : Session) : Event → Prop
  | .call _ => True
  | .input x => Confirms s.phase x

instance (s : Session) : DecidablePred (Confirmed s) := by
  intro e
  cases e <;> unfold Confirmed <;> infer_instance

def Closed (c : Cell) (vm : Text) : Prop := vm ∈ c.stopped ∨ vm ∈ c.gone

/-- Every instance is closed or in the registry. -/
def Kept (c : Cell) : Prop :=
  ∀ vm ∈ c.started, c.entry.provider_vm_id = some vm ∨ Closed c vm

structure Live (c : Cell) (vm : Text) : Prop where
  entry : c.entry.provider_vm_id = some vm
  ne_nil : vm ≠ []
  started : vm ∈ c.started
  not_closed : ¬ Closed c vm

/-- The registry and the row name the same instance, and it lives. -/
structure Holds (c : Cell) (vm : Text) : Prop where
  live : Live c vm
  row : c.row.provider_vm_id = some vm

structure Mirrored (c : Cell) : Prop where
  row : c.row.provider_vm_id = c.entry.provider_vm_id
  live : ∀ vm, c.entry.provider_vm_id = some vm → Live c vm

structure Empty (c : Cell) : Prop where
  entry : c.entry.provider_vm_id = none
  row : c.row.provider_vm_id = none

def Ended (c : Cell) : Prop := ∀ vm, c.entry.provider_vm_id = some vm → Closed c vm

def Writing (c : Cell) : Write → Prop
  | .stale _ | .cleaned => c.entry.provider_vm_id = none
  | .started vm => Live c vm
  | .launched vm _ | .ran vm _ _ | .draining vm => Holds c vm
  | .drained _ => Ended c
  | .waking | .failed | .undrained | .touched _ => Mirrored c

/-- What is known of the user's VM while his only operation awaits. -/
def Known (c : Cell) : Phase → Prop
  | .select w => Writing c w
  | .commit w loaded => loaded = c.row ∧ Writing c w
  | .checking vm _ _ | .stopping vm _ | .launching vm | .polling vm _ | .pushing vm _
  | .cleaning vm | .snapshotting vm | .halting vm _ => Holds c vm
  | .starting _ | .failing => Empty c
  | .halted => c.row.provider_vm_id = none ∧ Ended c
  | _ => Mirrored c

def ClosedStarted (c : Cell) : Prop := ∀ vm, Closed c vm → vm ∈ c.started

/-- A step to `r` that keeps what is known and loses no instance if it is `good`. -/
structure Advances (good : Prop) (c : Cell) (r : Cell × Phase) : Prop where
  known : Known r.1 r.2
  closed : ClosedStarted r.1
  kept : Kept r.1 ↔ Kept c ∧ good

/-- Two cells that have the same instances and name the same one. -/
structure Same (c c' : Cell) : Prop where
  entry : c'.entry.provider_vm_id = c.entry.provider_vm_id
  row : c'.row.provider_vm_id = c.row.provider_vm_id
  started : c'.started = c.started
  stopped : c'.stopped = c.stopped
  gone : c'.gone = c.gone

theorem Holds.mirrored {c : Cell} {vm : Text} (h : Holds c vm) : Mirrored c where
  row := h.row.trans h.live.entry.symm
  live := by
    intro vm' hvm'
    have heq : vm' = vm := Option.some.inj (hvm'.symm.trans h.live.entry)
    exact heq ▸ h.live

theorem Empty.mirrored {c : Cell} (h : Empty c) : Mirrored c where
  row := h.row.trans h.entry.symm
  live := by
    intro vm hvm
    rw [h.entry] at hvm
    cases hvm

theorem Mirrored.holds {c : Cell} (h : Mirrored c) {vm : Text}
    (hvm : c.entry.provider_vm_id = some vm) : Holds c vm :=
  ⟨h.live vm hvm, h.row.trans hvm⟩

theorem Mirrored.empty {c : Cell} (h : Mirrored c) (hvm : c.entry.provider_vm_id = none) :
    Empty c :=
  ⟨hvm, h.row.trans hvm⟩

section Same

variable {c c' : Cell}

theorem Same.closed_iff (h : Same c c') (vm : Text) : Closed c' vm ↔ Closed c vm := by
  rw [Closed, Closed, h.stopped, h.gone]

theorem Same.live (h : Same c c') {vm : Text} (hlive : Live c vm) : Live c' vm where
  entry := h.entry.trans hlive.entry
  ne_nil := hlive.ne_nil
  started := h.started ▸ hlive.started
  not_closed := mt (h.closed_iff vm).mp hlive.not_closed

theorem Same.holds (h : Same c c') {vm : Text} (hholds : Holds c vm) : Holds c' vm :=
  ⟨h.live hholds.live, h.row.trans hholds.row⟩

theorem Same.mirrored (h : Same c c') (hm : Mirrored c) : Mirrored c' where
  row := (h.row.trans hm.row).trans h.entry.symm
  live := fun vm hvm => h.live (hm.live vm (h.entry.symm.trans hvm))

theorem Same.advances (h : Same c c') {p : Phase} (hclosed : ClosedStarted c)
    (hknown : Known c' p) : Advances True c (c', p) where
  known := hknown
  closed := by
    intro vm hvm
    rw [h.started]
    exact hclosed vm ((h.closed_iff vm).mp hvm)
  kept := by
    simp only [Kept, h.started, h.entry, h.closed_iff, and_true]

/-- A status that is set with no new id. -/
theorem same_of_set_status (status : VMStatus) {o : Overrides} (ho : o.provider_vm_id = none) :
    Same c (c.set_status status o) where
  entry := by rw [set_status_vm_id, ho, Option.getD_none]
  row := rfl
  started := rfl
  stopped := rfl
  gone := rfl

end Same

theorem wake_failed_advances {c : Cell} (hclosed : ClosedStarted c) (h : Mirrored c) :
    Advances True c (wake_failed c) := by
  unfold wake_failed
  cases hvm : c.entry.provider_vm_id with
  | none =>
      have hsame : Same c (c.set_status .error {}) := same_of_set_status .error rfl
      exact hsame.advances hclosed (hsame.mirrored h)
  | some vm =>
      have hholds : Holds c vm := h.holds hvm
      have htruthy : truthy (some vm) = true := truthy_iff.mpr ⟨vm, rfl, hholds.live.ne_nil⟩
      rw [if_pos htruthy]
      exact Same.advances ⟨rfl, rfl, rfl, rfl, rfl⟩ hclosed hholds

/-- The mapping is cleared of the one instance it holds, whatever has become of it. -/
theorem clear_advances {c c' : Cell} {vm : Text} {good : Prop} {w : Write} (h : Live c vm)
    (hclosed : ClosedStarted c) (hstarted : c'.started = c.started)
    (hiff : ∀ v, Closed c' v ↔ (v = vm ∧ good) ∨ Closed c v)
    (hw : ∀ c : Cell, c.entry.provider_vm_id = none → Writing c w) :
    Advances good c (clear_vm_mapping c' w) where
  known := hw _ rfl
  closed := by
    intro v hv
    change v ∈ c'.started
    rw [hstarted]
    rcases (hiff v).mp hv with ⟨rfl, -⟩ | hv
    · exact h.started
    · exact hclosed v hv
  kept := by
    have hkept : Kept (clear_vm_mapping c' w).1 ↔ ∀ v ∈ c.started, Closed c' v := by
      rw [← hstarted]
      exact forall₂_congr fun v _ => ⟨fun hv => hv.resolve_left nofun, .inr⟩
    rw [hkept]
    constructor
    · intro hall
      constructor
      · intro v hv
        rcases (hiff v).mp (hall v hv) with ⟨rfl, -⟩ | hv
        · exact .inl h.entry
        · exact .inr hv
      · exact (((hiff vm).mp (hall vm h.started)).resolve_right h.not_closed).2
    · rintro ⟨hkeeps, hgood⟩ v hv
      rcases hkeeps v hv with heq | hv
      · exact (hiff v).mpr (.inl ⟨Option.some.inj (heq.symm.trans h.entry), hgood⟩)
      · exact (hiff v).mpr (.inr hv)

theorem closed_stop_iff {c : Cell} {vm v : Text} {r : Reply} :
    Closed (c.stop vm r) v ↔ (v = vm ∧ stop r = .ok ()) ∨ Closed c v := by
  rw [Closed, mem_stop_iff, or_assoc]
  exact Iff.rfl

theorem closed_observe_iff {c : Cell} {vm v : Text} {r : Reply} :
    Closed (c.observe vm r) v ↔ (v = vm ∧ NotFound r) ∨ Closed c v := by
  rw [Closed, mem_observe_iff, or_left_comm]
  exact Iff.rfl

theorem Advances.of_iff {good good' : Prop} {c : Cell} {r : Cell × Phase}
    (h : Advances good c r) (hiff : good ↔ good') : Advances good' c r where
  known := h.known
  closed := h.closed
  kept := h.kept.trans (and_congr_right fun _ => hiff)

section Operations

variable {c : Cell} (hclosed : ClosedStarted c)
include hclosed

theorem stay_advances {p : Phase} (h : Known c p) : Advances True c (c, p) :=
  Same.advances ⟨rfl, rfl, rfl, rfl, rfl⟩ hclosed h

theorem release_advances (h : Mirrored c) : Advances True c (c.release, .done) := by
  have hsame : Same c c.release := ⟨rfl, rfl, rfl, rfl, rfl⟩
  exact hsame.advances hclosed (hsame.mirrored h)

theorem status_answered_advances {vm : Text} (h : Holds c vm) (endpoint : Text)
    (snapshot_id : Option Text) (r : Reply) :
    Advances (Confirms (.checking vm endpoint snapshot_id) (.reply r)) c
      (status_answered c vm endpoint snapshot_id r) := by
  have hgood : Confirms (.checking vm endpoint snapshot_id) (.reply r) ↔
      ∀ status ∈ get_status r, status ≠ some "ready".toList → status ≠ some "paused".toList →
        NotFound r := Iff.rfl
  unfold status_answered
  rw [hgood]
  cases hstatus : get_status r with
  | none => exact (release_advances hclosed h.mirrored).of_iff (by simp)
  | some status =>
      simp only [Option.mem_some_iff, forall_eq']
      split
      · rename_i hfine
        have hstay : Advances True c (c, .polling vm endpoint) := stay_advances hclosed h
        refine hstay.of_iff ⟨fun _ hready hpaused => ?_, fun _ => trivial⟩
        exact absurd hfine (not_or.mpr ⟨hready, hpaused⟩)
      · rename_i hother
        have hclear : Advances (NotFound r) c
            (clear_vm_mapping (c.observe vm r) (.stale snapshot_id)) :=
          clear_advances h.live hclosed rfl (fun _ => closed_observe_iff) fun _ hnone => hnone
        rw [not_or] at hother
        exact hclear.of_iff ⟨fun hgone _ _ => hgone, fun hgone => hgone hother.1 hother.2⟩

theorem orphan_stopped_advances {vm : Text} (h : Holds c vm) (snapshot_id : Option Text)
    (r : Reply) : Advances (Confirms (.stopping vm snapshot_id) (.reply r)) c
      (orphan_stopped c vm snapshot_id r) := by
  have hclear : Advances (stop r = .ok ()) c
      (clear_vm_mapping (c.stop vm r) (.stale snapshot_id)) :=
    clear_advances h.live hclosed rfl (fun _ => closed_stop_iff) fun _ hnone => hnone
  have hgood : Confirms (.stopping vm snapshot_id) (.reply r) ↔ stop r ≠ .provider_error :=
    Iff.rfl
  unfold orphan_stopped
  rw [hgood]
  cases hstop : stop r with
  | ok _ => exact hclear.of_iff (by simp [hstop])
  | provider_error => exact hclear.of_iff (by simp [hstop])
  | raised => exact (release_advances hclosed h.mirrored).of_iff (by simp)

theorem start_answered_advances (h : Empty c) {a : Answer Text} {r : Cell × Phase}
    (hr : start_answered c a = some r) : Advances True c r := by
  cases a with
  | ok vm =>
      obtain ⟨hne, hfresh, rfl⟩ := start_answered_ok hr
      refine ⟨⟨rfl, hne, .head _, fun hc => hfresh (hclosed vm hc)⟩, ?_, ?_⟩
      · intro v hv
        exact .tail _ (hclosed v hv)
      · rw [and_true]
        constructor
        · intro hall v hv
          refine .inr ((hall v (.tail _ hv)).resolve_left ?_)
          rintro ⟨⟩
          exact hfresh hv
        · intro hall v hv
          rcases List.mem_cons.mp hv with rfl | hv
          · exact .inl rfl
          · refine .inr ((hall v hv).resolve_left ?_)
            rw [h.entry]
            exact nofun
  | provider_error =>
      cases hr
      exact wake_failed_advances hclosed h.mirrored
  | raised =>
      cases hr
      exact release_advances hclosed h.mirrored

theorem launch_answered_advances {vm : Text} (h : Holds c vm) (a : Answer Text) :
    Advances True c (launch_answered c vm a) := by
  unfold launch_answered
  split
  · rename_i endpoint _
    have hsame : Same c (c.set_status .waking { endpoint := some (some endpoint) }) :=
      same_of_set_status .waking rfl
    exact hsame.advances hclosed (hsame.holds h)
  · exact wake_failed_advances hclosed h.mirrored
  · exact release_advances hclosed h.mirrored

theorem drain_failed_advances (h : Mirrored c) : Advances True c (drain_failed c) := by
  have hsame : Same c (c.set_status .error {}) := same_of_set_status .error rfl
  exact hsame.advances hclosed (hsame.mirrored h)

theorem snapshot_answered_advances {vm : Text} (h : Holds c vm) (r : Reply) :
    Advances True c (snapshot_answered c vm r) := by
  unfold snapshot_answered
  split
  · exact stay_advances hclosed h
  · exact drain_failed_advances hclosed h.mirrored
  · exact stay_advances hclosed h.mirrored

theorem drain_stopped_advances {vm : Text} (h : Holds c vm) (new_snapshot : Option Text)
    (r : Reply) : Advances True c (drain_stopped c vm new_snapshot r) := by
  unfold drain_stopped
  split
  · rename_i hstop
    have hiff : ∀ v, Closed (c.stop vm r) v ↔ v = vm ∨ Closed c v := by
      intro v
      rw [closed_stop_iff, and_iff_left hstop]
    refine ⟨?_, ?_, ?_⟩
    · intro v hv
      exact (hiff v).mpr (.inl (Option.some.inj (hv.symm.trans h.live.entry)))
    · intro v hv
      rcases (hiff v).mp hv with rfl | hv
      · exact h.live.started
      · exact hclosed v hv
    · rw [and_true]
      refine forall₂_congr fun v _ => ?_
      change c.entry.provider_vm_id = some v ∨ Closed (c.stop vm r) v ↔ _
      rw [hiff, h.live.entry, Option.some.injEq, or_left_comm, @eq_comm _ v vm, or_self_left]
  · exact drain_failed_advances hclosed h.mirrored
  · exact stay_advances hclosed h.mirrored

theorem touch_advances (h : Mirrored c) (now : ℕ) : Advances True c (touch c now) := by
  have hsame : Same c (c.set_status .running { last_active_at := some (some now) }) :=
    same_of_set_status .running rfl
  exact hsame.advances hclosed (hsame.mirrored h)

theorem call_advances (h : Mirrored c) (op : Op) (now : ℕ) : Advances True c (call op c now) := by
  cases op with
  | wake => exact stay_advances hclosed h
  | drain =>
      change Advances True c (drain c)
      unfold drain
      cases hvm : c.entry.provider_vm_id with
      | none => exact stay_advances hclosed h
      | some vm =>
          have hsame : Same c (c.set_status .draining {}) := same_of_set_status .draining rfl
          exact hsame.advances hclosed (hsame.holds (h.holds hvm))
  | touch => exact touch_advances hclosed h now
  | request =>
      change Advances True c (if c.is_running then _ else _)
      split
      · exact stay_advances hclosed h
      · exact stay_advances hclosed h

theorem wake_advances (h : Mirrored c) (op : Op) : Advances True c (wake op c) := by
  unfold wake
  split
  · refine stay_advances hclosed ?_
    unfold after_wake
    split <;> exact h
  · have hsame : Same c (c.lock.set_status .waking {}) := ⟨rfl, rfl, rfl, rfl, rfl⟩
    exact hsame.advances hclosed (hsame.mirrored h)

theorem return_advances (h : Mirrored c) (op : Op) (result : WakeResult) :
    Advances True c (c.release, after_wake op c result) := by
  have hsame : Same c c.release := ⟨rfl, rfl, rfl, rfl, rfl⟩
  refine hsame.advances hclosed ?_
  unfold after_wake
  split <;> exact hsame.mirrored h

theorem read_advances (h : Mirrored c) (golden : Option Text) :
    Advances True c (c, start_or_resume golden c.row) := by
  refine stay_advances hclosed ?_
  unfold start_or_resume
  cases hvm : c.row.provider_vm_id with
  | none => exact ⟨h.row.symm.trans hvm, hvm⟩
  | some vm =>
      have hholds : Holds c vm := h.holds (h.row.symm.trans hvm)
      have htruthy : truthy (some vm) = true := truthy_iff.mpr ⟨vm, rfl, hholds.live.ne_nil⟩
      simp only [htruthy, true_and, if_true, Option.getD_some]
      split <;> exact hholds

theorem commit_advances {w : Write} (h : Writing c w) :
    Advances True c ({ c with row := w.assign c.row }, w.next) := by
  have hsame (hrow : (w.assign c.row).provider_vm_id = c.row.provider_vm_id) :
      Same c { c with row := w.assign c.row } := ⟨rfl, hrow, rfl, rfl, rfl⟩
  have hkept (hknown : Known { c with row := w.assign c.row } w.next) :
      Advances True c ({ c with row := w.assign c.row }, w.next) :=
    ⟨hknown, hclosed, (and_iff_left trivial).symm⟩
  cases w with
  | waking => exact (hsame rfl).advances hclosed ((hsame rfl).mirrored h)
  | stale snapshot_id => exact hkept ⟨h, rfl⟩
  | started vm => exact hkept ⟨⟨h.entry, h.ne_nil, h.started, h.not_closed⟩, rfl⟩
  | launched vm endpoint => exact (hsame rfl).advances hclosed ((hsame rfl).holds h)
  | ran vm endpoint now =>
      have hrow : some vm = c.row.provider_vm_id := h.row.symm
      exact (hsame hrow).advances hclosed ((hsame hrow).mirrored h.mirrored)
  | cleaned => exact hkept ⟨h, rfl⟩
  | failed => exact (hsame rfl).advances hclosed ((hsame rfl).mirrored h)
  | draining vm => exact (hsame rfl).advances hclosed ((hsame rfl).holds h)
  | drained new_snapshot => exact hkept ⟨rfl, h⟩
  | undrained => exact (hsame rfl).advances hclosed ((hsame rfl).mirrored h)
  | touched now => exact (hsame rfl).advances hclosed ((hsame rfl).mirrored h)

theorem pushed_advances {vm : Text} (h : Holds c vm) (endpoint : Text) (now : ℕ) :
    Advances True c (c.set_status .running
      { provider_vm_id := some (some vm)
        endpoint := some (some endpoint)
        last_active_at := some (some now) }, .select (.ran vm endpoint now)) := by
  have hsame : Same c (c.set_status .running
      { provider_vm_id := some (some vm)
        endpoint := some (some endpoint)
        last_active_at := some (some now) }) := ⟨h.live.entry.symm, rfl, rfl, rfl, rfl⟩
  exact hsame.advances hclosed (hsame.holds h)

theorem drained_advances (hrow : c.row.provider_vm_id = none) (h : Ended c) :
    Advances True c (c.set_status .stopped
      { provider_vm_id := some none, endpoint := some none }, .done) where
  known := Empty.mirrored ⟨rfl, hrow⟩
  closed := hclosed
  kept := by
    rw [and_true]
    refine forall₂_congr fun vm _ => ⟨?_, ?_⟩
    · intro hvm
      exact .inr (hvm.resolve_left nofun)
    · rintro (hvm | hvm)
      · exact .inr (h vm hvm)
      · exact .inr hvm

theorem forwarded_advances (h : Mirrored c) (status_code : Option ℕ) (now : ℕ) :
    Advances True c (forwarded c status_code now) := by
  unfold forwarded
  split
  · exact touch_advances hclosed h now
  · exact stay_advances hclosed h

theorem resumed_advances {golden : Option Text} {op : Op} {p : Phase} {x : Input}
    {r : Cell × Phase} (h : Resumed golden op c p x r) (hknown : Known c p) :
    Advances (Confirms p x) c r := by
  cases h with
  | called now => exact call_advances hclosed hknown op now
  | locked now hfree => exact wake_advances hclosed hknown op
  | selected w now => exact stay_advances hclosed ⟨rfl, hknown⟩
  | committed w loaded now =>
      obtain ⟨rfl, hwriting⟩ := hknown
      rw [flush_self]
      exact commit_advances hclosed hwriting
  | read now => exact read_advances hclosed hknown golden
  | checked vm endpoint snapshot_id r =>
      exact status_answered_advances hclosed hknown endpoint snapshot_id r
  | orphan vm snapshot_id r => exact orphan_stopped_advances hclosed hknown snapshot_id r
  | started snapshot_id a r hr => exact start_answered_advances hclosed hknown hr
  | no_snapshot snapshot_id now => exact wake_failed_advances hclosed (Empty.mirrored hknown)
  | launched vm a => exact launch_answered_advances hclosed hknown a
  | polled vm endpoint up =>
      refine stay_advances hclosed ?_
      cases up <;> exact hknown
  | timed_out vm endpoint => exact return_advances hclosed (Holds.mirrored hknown) op .PENDING
  | pushed vm endpoint now => exact pushed_advances hclosed hknown endpoint now
  | cleaned vm r =>
      exact clear_advances hknown.live hclosed rfl (fun _ => closed_stop_iff) fun _ hnone => hnone
  | failed now =>
      have hsame : Same c (c.set_status .error {}) := same_of_set_status .error rfl
      exact hsame.advances hclosed (hsame.mirrored (Empty.mirrored hknown))
  | returned result now => exact return_advances hclosed hknown op result
  | snapshotted vm r => exact snapshot_answered_advances hclosed hknown r
  | stopped vm new_snapshot r => exact drain_stopped_advances hclosed hknown new_snapshot r
  | drained now => exact drained_advances hclosed hknown.1 hknown.2
  | forwarded status_code now => exact forwarded_advances hclosed hknown status_code now

end Operations

structure Tracked (s : Session) : Prop where
  known : Known s.cell s.phase
  closed : ClosedStarted s.cell

theorem initial_tracked (user_id : Text) : Tracked (initial user_id) where
  known := Empty.mirrored ⟨rfl, rfl⟩
  closed := fun _ h => h.elim (nomatch ·) (nomatch ·)

theorem step_tracked {golden : Option Text} {s s' : Session} {e : Event} (hs : Tracked s)
    (h : step golden s e = some s') :
    Tracked s' ∧ (Kept s'.cell ↔ Kept s.cell ∧ Confirmed s e) := by
  cases e with
  | call op =>
      simp only [step, Option.ite_none_right_eq_some, Option.some.injEq] at h
      obtain ⟨hdone, rfl⟩ := h
      have hknown := hs.known
      rw [hdone] at hknown
      exact ⟨⟨hknown, hs.closed⟩, (and_iff_left trivial).symm⟩
  | input x =>
      simp only [step, Option.map_eq_some_iff] at h
      obtain ⟨r, hr, rfl⟩ := h
      have hadvances := resumed_advances hs.closed (resumed_of_resume hr) hs.known
      exact ⟨⟨hadvances.known, hadvances.closed⟩, hadvances.kept⟩

theorem accounted_iff_kept {s : Session} (hs : Tracked s) (hrest : s.phase = .done) :
    Accounted s.cell ↔ Kept s.cell := by
  have hknown := hs.known
  rw [hrest] at hknown
  unfold Accounted Kept
  rw [show s.cell.row.provider_vm_id = s.cell.entry.provider_vm_id from hknown.row]
  exact Iff.rfl

/-- Between the operations no instance is lost exactly if no id was dropped without
the provider's word. -/
theorem accounted_iff {golden : Option Text} {user_id : Text} {es : List Event} {t : Session}
    (hrun : run (step golden) (initial user_id) es = some t) (hrest : t.phase = .done) :
    Accounted t.cell ↔ AllSteps (step golden) Confirmed (initial user_id) es := by
  have hstep : ∀ s e s', Tracked s → step golden s e = some s' → Tracked s' :=
    fun s e s' hs h => (step_tracked hs h).1
  have htracked : Tracked t := run_invariant hstep hrun (initial_tracked user_id)
  have hkept : Kept (initial user_id).cell := fun _ h => nomatch h
  rw [accounted_iff_kept htracked hrest,
    final_iff_allSteps (I := fun s => Kept s.cell) hstep (fun s e s' hs h => (step_tracked hs h).2)
      hrun (initial_tracked user_id)]
  exact and_iff_right hkept

def golden_snapshot : Option Text := some "snapshot_golden".toList

/-- A wake up to its first poll, in which the VM is not healthy in time. -/
def pending_wake : List Event :=
  [.call .wake, .input (.go 0), .input (.go 0), .input (.go 0), .input (.go 0), .input (.go 0),
    .input (.started (.ok "morphvm_1".toList)), .input (.go 0), .input (.go 0),
    .input (.launched (.ok "http://vm".toList)), .input (.go 0), .input (.go 0),
    .input .deadline]

/-- The client retries. `r` is what the provider answers to `get_status`, and a new
start fails. -/
def retried_wake (r : Reply) : List Event :=
  [.call .wake, .input (.go 9), .input (.go 9), .input (.go 9), .input (.go 9), .input (.go 9),
    .input (.reply r), .input (.go 9), .input (.go 9), .input (.started .provider_error),
    .input (.go 9), .input (.go 9), .input (.go 9)]

theorem accounted_not_found : ∃ t, run (step golden_snapshot) (initial "u".toList)
      (pending_wake ++ retried_wake (.response 404 .not_json)) = some t ∧ Accounted t.cell := by
  obtain ⟨t, hrun, hrest⟩ := Option.map_eq_some_iff.mp (show
    (run (step golden_snapshot) (initial "u".toList)
      (pending_wake ++ retried_wake (.response 404 .not_json))).map Session.phase = some .done by
    decide)
  exact ⟨t, hrun, (accounted_iff hrun hrest).mpr (by decide)⟩

theorem live_vm_forgotten :
    ¬ ∀ (golden : Option Text) (user_id : Text) (es : List Event) (t : Session),
      run (step golden) (initial user_id) es = some t → t.phase = .done → Accounted t.cell := by
  intro h
  have hend : (run (step golden_snapshot) (initial "u".toList)
      (pending_wake ++ retried_wake .transport_error)).map
      (fun t => (t.phase, decide (Accounted t.cell))) = some (.done, false) := by
    decide
  obtain ⟨t, hrun, hlast⟩ := Option.map_eq_some_iff.mp hend
  obtain ⟨hrest, hnot⟩ := Prod.mk.inj hlast
  exact of_decide_eq_false hnot (h _ _ _ t hrun hrest)

end ArticTrader.VmLeaks
