import ArticTrader.VmService

/-!
The ids of instances an operation knows, and those it is told of.
-/

namespace ArticTrader.VmInstances

open ArticTrader.PythonText
open ArticTrader.VmRegistry
open ArticTrader.VmService

/-- The ids that an answer gives out. -/
def named : Input → List Text
  | .started (.ok vm_id) => [vm_id]
  | _ => []

def write_vm_id : Write → Option Text
  | .started vm | .launched vm _ | .ran vm _ _ | .draining vm => some vm
  | _ => none

def phase_vm_id : Phase → Option Text
  | .select w | .commit w _ => write_vm_id w
  | .checking vm _ _ | .stopping vm _ | .launching vm | .polling vm _ | .pushing vm _
  | .cleaning vm | .snapshotting vm | .halting vm _ => some vm
  | _ => none

/-- Every instance id there is in the cell and in the phase has `owned`. -/
structure Within (owned : Text → Prop) (r : Cell × Phase) : Prop where
  entry : ∀ vm, r.1.entry.provider_vm_id = some vm → owned vm
  row : ∀ vm, r.1.row.provider_vm_id = some vm → owned vm
  stopped : ∀ vm ∈ r.1.stopped, owned vm
  phase : ∀ vm, phase_vm_id r.2 = some vm → owned vm

theorem owned_some {owned : Text → Prop} {vm : Text} (h : owned vm) :
    ∀ v, some vm = some v → owned v := by
  rintro v ⟨⟩
  exact h

theorem owned_of_next {owned : Text → Prop} {w : Write}
    (h : ∀ vm, write_vm_id w = some vm → owned vm)
    {vm : Text} (hvm : phase_vm_id w.next = some vm) : owned vm := by
  apply h
  cases w <;> first | exact hvm | cases hvm

theorem owned_of_flush {owned : Text → Prop} {w : Write} {loaded row : UserVM} {vm : Text}
    (hrow : ∀ vm, row.provider_vm_id = some vm → owned vm)
    (hw : ∀ vm, write_vm_id w = some vm → owned vm)
    (h : (flush loaded (w.assign loaded) row).provider_vm_id = some vm) : owned vm := by
  simp only [flush, changed] at h
  split at h
  · exact hrow vm h
  · rename_i hne
    apply hw
    cases w <;> first | exact h | exact absurd rfl hne

theorem Within.mono {owned owned' : Text → Prop} {r : Cell × Phase} (h : Within owned r)
    (himp : ∀ vm, owned vm → owned' vm) : Within owned' r :=
  ⟨fun vm hvm => himp vm (h.entry vm hvm), fun vm hvm => himp vm (h.row vm hvm),
    fun vm hvm => himp vm (h.stopped vm hvm), fun vm hvm => himp vm (h.phase vm hvm)⟩

section Within

variable {owned : Text → Prop} {c : Cell} {p : Phase} (h : Within owned (c, p))
include h

theorem Within.stay {q : Phase} (hq : ∀ vm, phase_vm_id q = some vm → owned vm) :
    Within owned (c, q) :=
  ⟨h.entry, h.row, h.stopped, hq⟩

theorem Within.mark (status : VMStatus) {q : Phase}
    (hq : ∀ vm, phase_vm_id q = some vm → owned vm) :
    Within owned (c.set_status status {}, q) :=
  ⟨h.entry, h.row, h.stopped, hq⟩

theorem Within.mem_stop {vm v : Text} (hvm : owned vm) {r : Reply}
    (hv : v ∈ (c.stop vm r).stopped) : owned v := by
  rcases mem_stop_iff.mp hv with ⟨rfl, -⟩ | hv
  · exact hvm
  · exact h.stopped v hv

theorem Within.clear {c' : Cell} {w : Write} (hw : write_vm_id w = none) (hrow : c'.row = c.row)
    (hstopped : ∀ vm ∈ c'.stopped, owned vm) : Within owned (clear_vm_mapping c' w) where
  entry := nofun
  row := hrow ▸ h.row
  stopped := hstopped
  phase := by
    intro vm hvm
    have hnone : none = some vm := hw.symm.trans hvm
    cases hnone

theorem Within.wake_failed : Within owned (wake_failed c) := by
  unfold VmService.wake_failed
  split
  · rename_i htruthy
    obtain ⟨vm, hvm, -⟩ := truthy_iff.mp htruthy
    refine h.stay ?_
    rw [hvm]
    exact owned_some (h.entry vm hvm)
  · exact h.mark .error nofun

theorem Within.ended (op : Op) (result : WakeResult) :
    Within owned (c.release, after_wake op c result) := by
  refine ⟨h.entry, h.row, h.stopped, ?_⟩
  unfold after_wake
  split <;> exact nofun

theorem Within.call (op : Op) (now : ℕ) : Within owned (call op c now) := by
  cases op with
  | wake => exact h.stay nofun
  | drain =>
      change Within owned (drain c)
      unfold drain
      cases hvm : c.entry.provider_vm_id with
      | none => exact h.stay nofun
      | some vm => exact h.mark .draining (owned_some (h.entry vm hvm))
  | touch => exact ⟨h.entry, h.row, h.stopped, nofun⟩
  | request =>
      change Within owned (if c.is_running then _ else _)
      split
      · exact h.stay nofun
      · exact h.stay nofun

theorem Within.wake (op : Op) : Within owned (wake op c) := by
  unfold VmService.wake
  split
  · refine h.stay ?_
    unfold after_wake
    split <;> exact nofun
  · exact ⟨h.entry, h.row, h.stopped, nofun⟩

theorem Within.read (golden : Option Text) : Within owned (c, start_or_resume golden c.row) := by
  have hrow (htruthy : truthy c.row.provider_vm_id = true) :
      ∀ v, some (c.row.provider_vm_id.getD []) = some v → owned v := by
    obtain ⟨vm, hvm, -⟩ := truthy_iff.mp htruthy
    rw [hvm]
    exact owned_some (h.row vm hvm)
  refine h.stay ?_
  unfold start_or_resume
  dsimp only
  split
  · rename_i htruthy
    exact hrow htruthy.1
  · split
    · rename_i htruthy
      exact hrow htruthy
    · exact nofun

theorem Within.start_answered {a : Answer Text} {r : Cell × Phase}
    (hr : start_answered c a = some r) (hnamed : ∀ vm ∈ named (.started a), owned vm) :
    Within owned r := by
  cases a with
  | ok vm =>
      obtain ⟨-, -, rfl⟩ := start_answered_ok hr
      have hvm : ∀ v, some vm = some v → owned v := owned_some (hnamed vm (.head _))
      exact ⟨hvm, h.row, h.stopped, hvm⟩
  | provider_error =>
      cases hr
      exact h.wake_failed
  | raised =>
      cases hr
      exact h.ended .wake .FAILED

/-- A step brings in no id but the one it is told. -/
theorem Within.resumed {golden : Option Text} {op : Op} {x : Input} {r : Cell × Phase}
    (hr : Resumed golden op c p x r) (hx : ∀ vm ∈ named x, owned vm) : Within owned r := by
  have hp := h.phase
  cases hr with
  | called now => exact h.call op now
  | locked now hfree => exact h.wake op
  | selected w now => exact h.stay hp
  | committed w loaded now =>
      exact ⟨h.entry, fun _ => owned_of_flush h.row hp, h.stopped, fun _ => owned_of_next hp⟩
  | read now => exact h.read golden
  | checked vm endpoint snapshot_id r =>
      unfold status_answered
      split
      · exact h.ended .wake .FAILED
      · split
        · exact h.stay hp
        · exact h.clear rfl rfl h.stopped
  | orphan vm snapshot_id r =>
      have hclear : Within owned (clear_vm_mapping (c.stop vm r) (.stale snapshot_id)) :=
        h.clear rfl rfl fun _ => h.mem_stop (hp vm rfl)
      unfold orphan_stopped
      split
      · exact hclear
      · exact hclear
      · exact h.ended .wake .FAILED
  | started snapshot_id a r hr => exact h.start_answered hr hx
  | no_snapshot snapshot_id now => exact h.wake_failed
  | launched vm a =>
      unfold launch_answered
      split
      · exact ⟨h.entry, h.row, h.stopped, hp⟩
      · exact h.wake_failed
      · exact h.ended .wake .FAILED
  | polled vm endpoint up =>
      cases up with
      | false => exact h.stay hp
      | true => exact h.stay hp
  | timed_out vm endpoint => exact h.ended op .PENDING
  | pushed vm endpoint now => exact ⟨hp, h.row, h.stopped, hp⟩
  | cleaned vm r => exact h.clear rfl rfl fun _ => h.mem_stop (hp vm rfl)
  | failed now => exact h.mark .error nofun
  | returned result now => exact h.ended op result
  | snapshotted vm r =>
      unfold snapshot_answered
      split
      · exact h.stay hp
      · exact h.mark .error nofun
      · exact h.stay nofun
  | stopped vm new_snapshot r =>
      unfold drain_stopped
      split
      · exact ⟨h.entry, h.row, fun _ => h.mem_stop (hp vm rfl), nofun⟩
      · exact h.mark .error nofun
      · exact h.stay nofun
  | drained now => exact ⟨nofun, h.row, h.stopped, nofun⟩
  | forwarded status_code now =>
      unfold VmService.forwarded
      split
      · exact ⟨h.entry, h.row, h.stopped, nofun⟩
      · exact h.stay nofun

end Within

theorem wake_failed_started (c : Cell) : (wake_failed c).1.started = c.started := by
  unfold wake_failed
  split <;> rfl

theorem started_resumed {golden : Option Text} {op : Op} {c : Cell} {p : Phase} {x : Input}
    {r : Cell × Phase} (h : Resumed golden op c p x r) :
    r.1.started = named x ++ c.started := by
  cases h with
  | called now =>
      cases op with
      | drain =>
          change (drain c).1.started = c.started
          unfold drain
          split <;> rfl
      | request =>
          change (if c.is_running then _ else _ : Cell × Phase).1.started = c.started
          split <;> rfl
      | _ => rfl
  | locked now hfree =>
      unfold VmService.wake
      split <;> rfl
  | checked vm endpoint snapshot_id r =>
      unfold status_answered
      split
      · rfl
      · split <;> rfl
  | orphan vm snapshot_id r =>
      unfold orphan_stopped
      split <;> rfl
  | started snapshot_id a r hr =>
      cases a with
      | ok vm =>
          obtain ⟨-, -, rfl⟩ := start_answered_ok hr
          rfl
      | provider_error =>
          cases hr
          exact wake_failed_started c
      | raised =>
          cases hr
          rfl
  | no_snapshot snapshot_id now => exact wake_failed_started c
  | launched vm a =>
      unfold launch_answered
      split
      · cases a <;> rfl
      · cases a <;> exact wake_failed_started c
      · cases a <;> rfl
  | snapshotted vm r =>
      unfold snapshot_answered
      split <;> rfl
  | stopped vm new_snapshot r =>
      unfold drain_stopped
      split <;> rfl
  | forwarded status_code now =>
      unfold VmService.forwarded
      split <;> rfl
  | _ => rfl

end ArticTrader.VmInstances
