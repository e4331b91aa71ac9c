import Mathlib.Data.Fintype.Basic
import ArticTrader.ConcurrentCalls
import ArticTrader.LabelledRuns
import ArticTrader.VmInstances
import ArticTrader.VmLifecycle

/-!
The operations on any number of VMs in one process, interleaved at their awaits:
what the registry says of a running VM against what was done to it.
-/

namespace ArticTrader.VmHub

open ArticTrader.ConcurrentCalls
open ArticTrader.LabelledRuns
open ArticTrader.PythonText
open ArticTrader.VmRegistry
open ArticTrader.VmInstances
open ArticTrader.VmLifecycle
open ArticTrader.VmService

/-- The VMs of the provisioned users, and the ids the provider has given out. -/
structure Hub (υ : Type*) where
  cells : υ → Option Cell
  issued : List Text

variable {υ ι : Type*}

abbrev State (υ ι : Type*) := System ι (Hub υ) Phase

def initial (users : υ → Option Text) : State υ ι where
  shared := { cells := fun u => (users u).map provisioned, issued := [] }
  calls := fun _ => .called

def Hub.put [DecidableEq υ] (hub : Hub υ) (u : υ) (c : Cell) (x : Input) : Hub υ where
  cells := Function.update hub.cells u (some c)
  issued := named x ++ hub.issued

/-- A call by `user i` of the operation `op i`, resumed with `x`. A user who is not
provisioned is answered at once. -/
def step [DecidableEq υ] [DecidableEq ι] (golden : Option Text) (user : ι → υ) (op : ι → Op)
    (s : State υ ι) : ι × Input → Option (State υ ι)
  | (i, x) =>
      match s.shared.cells (user i) with
      | none => if s.calls i = .called then some (s.set i .done) else none
      | some c =>
          if ∀ vm ∈ named x, s.shared.issued.contains vm = false then
            (resume golden (op i) c (s.calls i) x).map fun r =>
              (s.write (s.shared.put (user i) r.1 x)).set i r.2
          else none

/-- The call is not in progress. -/
def AtRest (p : Phase) : Prop := p = .called ∨ p = .done

/-- What the registry's word that a VM is running is worth. -/
structure Runs (user : ι → υ) (s : State υ ι) (u : υ) (c : Cell) : Prop where
  served : ∃ vm endpoint, c.entry.provider_vm_id = some vm ∧ c.entry.endpoint = some endpoint ∧
    ∀ u' c', s.shared.cells u' = some c' → vm ∉ c'.stopped
  agrees : (∀ i, user i = u → AtRest (s.calls i)) → Agrees c

def RegistrySound (user : ι → υ) (s : State υ ι) : Prop :=
  ∀ u c, s.shared.cells u = some c → c.entry.status = .running → Runs user s u c

/-- The drain of a VM is called. -/
def begins_drain (op : Op) (c : Cell) : Phase → Input → Bool
  | .called, .go _ => op = .drain && c.entry.provider_vm_id.isSome
  | _, _ => false

/-- A wake gets past its first look. -/
def begins_wake (c : Cell) : Phase → Input → Bool
  | .locking, .go _ => !decide c.is_running
  | _, _ => false

/-- The registry is told that the VM is running, by `touch`. -/
def touches (op : Op) : Phase → Input → Bool
  | .called, .go _ => op = .touch
  | .forwarding, .upstream status_code _ => decide (success status_code)
  | _, _ => false

/-- A drain begins while no wake of the user is in progress, a wake while no drain
is, and a VM is touched while it is running. -/
def Apart (user : ι → υ) (u : υ) (calls : ι → Phase) (op : Op) (c : Cell) (p : Phase)
    (x : Input) : Prop :=
  (begins_drain op c p x = true → ∀ j, user j = u → waking (calls j) = false) ∧
    (begins_wake c p x = true → ∀ j, user j = u → draining (calls j) = false) ∧
      (touches op p x = true → c.entry.status = .running)

def StepsApart (user : ι → υ) (op : ι → Op) (s : State υ ι) : ι × Input → Prop
  | (i, x) => ∀ c ∈ s.shared.cells (user i),
      Apart user (user i) s.calls (op i) c (s.calls i) x

section Decidable

variable [Fintype ι] [DecidableEq υ] (user : ι → υ)

instance (u : υ) (calls : ι → Phase) (op : Op) (c : Cell) (p : Phase) (x : Input) :
    Decidable (Apart user u calls op c p x) := inferInstanceAs (Decidable (_ ∧ _ ∧ _))

instance (op : ι → Op) (s : State υ ι) : DecidablePred (StepsApart user op s) :=
  fun e => inferInstanceAs (Decidable (∀ c ∈ s.shared.cells (user e.1),
    Apart user (user e.1) s.calls (op e.1) c (s.calls e.1) e.2))

end Decidable

/-- What is known of a user's VM, whichever operations on it there are. -/
structure UserSound (user : ι → υ) (u : υ) (c : Cell) (calls : ι → Phase) : Prop where
  alone : ∀ i j, user i = u → user j = u → waking (calls i) = true → busy (calls j) = true → j = i
  locked : ∀ i, user i = u → waking (calls i) = true → c.locked = true
  known : ∀ i, user i = u → Known c (calls i)
  live : (∀ i, user i = u → clearing (calls i) = false) → RowLive c
  settled : (∀ i, user i = u → busy (calls i) = false) → Settled c

theorem UserSound.onDuty {user : ι → υ} {u : υ} {c : Cell} {calls : ι → Phase}
    (h : UserSound user u c calls) (hrunning : c.entry.status = .running) :
    ∃ vm endpoint, OnDuty c vm endpoint := by
  by_cases hbusy : ∃ j, user j = u ∧ busy (calls j) = true
  · obtain ⟨j, hj, hb⟩ := hbusy
    exact onDuty_of_known (h.known j hj) hb hrunning
  · refine (h.settled (fun j hj => ?_) hrunning).2
    by_contra hb
    exact hbusy ⟨j, hj, by simpa using hb⟩

section UserSound

variable [DecidableEq ι] {ρ : Type*} {user : ι → υ} {u : υ} {c : Cell} {s : System ι ρ Phase}
  {i : ι}

/-- While no other operation on the VM is busy, the one that moves decides. -/
theorem userSound_set_of_alone {p : Phase} (ha : Alone c p)
    (hothers : ∀ j, j ≠ i → user j = u → busy (s.calls j) = false) (hi : user i = u) :
    UserSound user u c (s.set i p).calls where
  alone := by
    intro j k hj hk hwaking hbusy
    have hself (l : ι) (hl : user l = u) (hb : busy ((s.set i p).calls l) = true) : l = i := by
      by_contra hne
      rw [s.set_of_ne p hne, hothers l hne hl] at hb
      cases hb
    exact (hself k hk hbusy).trans (hself j hj (by simp [busy, hwaking])).symm
  locked := by
    refine System.forall_set (P := fun j q => user j = u → waking q = true → c.locked = true) ?_ ?_
    · intro _
      exact ha.locked
    · intro j hne hj hwaking
      rw [(not_busy_iff.mp (hothers j hne hj)).1] at hwaking
      cases hwaking
  known := by
    refine System.forall_set (P := fun j q => user j = u → Known c q) ?_ ?_
    · intro _
      exact ha.known
    · intro j hne hj
      exact known_of_not_busy (hothers j hne hj)
  live := by
    intro hclearing
    apply ha.live
    simpa using hclearing i hi
  settled := by
    intro hbusy
    apply ha.settled
    simpa using hbusy i hi

theorem UserSound.alone_of_others (h : UserSound user u c s.calls) (hi : user i = u)
    (hothers : ∀ j, j ≠ i → user j = u → busy (s.calls j) = false) : Alone c (s.calls i) where
  locked := h.locked i hi
  known := h.known i hi
  live := by
    intro hclearing
    apply h.live
    intro j hj
    by_cases hne : j = i
    · rw [hne]
      exact hclearing
    · exact clearing_of_not_busy (hothers j hne hj)
  settled := by
    intro hbusy
    apply h.settled
    intro j hj
    by_cases hne : j = i
    · rw [hne]
      exact hbusy
    · exact hothers j hne hj

theorem UserSound.quiet {c' : Cell} {p : Phase} (h : UserSound user u c s.calls)
    (hc : Unmoved c c') (hlocked : c'.locked = c.locked) (hi : user i = u)
    (hbefore : busy (s.calls i) = false) (hafter : busy p = false) :
    UserSound user u c' (s.set i p).calls where
  alone := by
    intro j k hj hk hwaking hbusy
    have hother (l : ι) (hb : busy ((s.set i p).calls l) = true) : l ≠ i := by
      rintro rfl
      rw [s.set_self, hafter] at hb
      cases hb
    have hne : j ≠ i := hother j (by simp [busy, hwaking])
    have hne' : k ≠ i := hother k hbusy
    rw [s.set_of_ne p hne] at hwaking
    rw [s.set_of_ne p hne'] at hbusy
    exact h.alone j k hj hk hwaking hbusy
  locked := by
    rw [hlocked]
    refine System.forall_set (P := fun j q => user j = u → waking q = true → c.locked = true) ?_ ?_
    · intro _ hwaking
      rw [(not_busy_iff.mp hafter).1] at hwaking
      cases hwaking
    · intro j _
      exact h.locked j
  known := by
    refine System.forall_set (P := fun j q => user j = u → Known c' q) ?_ ?_
    · intro _
      exact known_of_not_busy hafter
    · intro j _ hj
      exact hc.known (h.known j hj)
  live := by
    intro hclearing
    apply hc.rowLive
    apply h.live
    intro j hj
    by_cases hne : j = i
    · rw [hne]
      exact clearing_of_not_busy hbefore
    · simpa [s.set_of_ne p hne] using hclearing j hj
  settled := by
    intro hbusy
    apply hc.settled
    apply h.settled
    intro j hj
    by_cases hne : j = i
    · rw [hne]
      exact hbefore
    · simpa [s.set_of_ne p hne] using hbusy j hj

theorem UserSound.drains {r : Cell × Phase} (h : UserSound user u c s.calls)
    (hd : Drains c (s.calls i) r) (hi : user i = u)
    (hnone : ∀ j, user j = u → waking (s.calls j) = false) :
    UserSound user u r.1 (s.set i r.2).calls := by
  have hwaking : ∀ j, user j = u → waking ((s.set i r.2).calls j) = false := by
    refine System.forall_set (P := fun j q => user j = u → waking q = false) ?_ ?_
    · intro _
      exact hd.waking
    · intro j _
      exact hnone j
  refine ⟨?_, ?_, ?_, ?_, ?_⟩
  · intro j k hj _ hj'
    rw [hwaking j hj] at hj'
    cases hj'
  · intro j hj hj'
    rw [hwaking j hj] at hj'
    cases hj'
  · refine System.forall_set (P := fun j q => user j = u → Known r.1 q) ?_ ?_
    · intro _
      exact hd.known
    · intro j _ hj
      exact hd.known_other (hnone j hj) (h.known j hj)
  · intro hclearing vm hvm
    have hself : clearing r.2 = false := by simpa using hclearing i hi
    rcases hd.live with hlive | hlive | ⟨hbefore, hstopped⟩
    · rw [hself] at hlive
      cases hlive
    · rw [hlive] at hvm
      cases hvm
    · have hold : RowLive c := by
        apply h.live
        intro j hj
        by_cases hne : j = i
        · rw [hne]
          exact hbefore
        · simpa [s.set_of_ne r.2 hne] using hclearing j hj
      rw [hstopped]
      rcases hd.row with hrow | hrow
      · exact hold vm (hrow ▸ hvm)
      · rw [hrow] at hvm
        cases hvm
  · intro _
    exact hd.idle.settled

theorem unmoved_touch (h : c.entry.status = .running) (now : ℕ) : Unmoved c (touch c now).1 :=
  ⟨h.symm, rfl, rfl, ⟨rfl, rfl, rfl⟩, rfl⟩

theorem UserSound.touch (h : UserSound user u c s.calls) (hi : user i = u)
    (hbusy : busy (s.calls i) = false) (hrunning : c.entry.status = .running) (now : ℕ) :
    UserSound user u (touch c now).1 (s.set i (touch c now).2).calls :=
  h.quiet (unmoved_touch hrunning now) rfl hi hbusy rfl

theorem UserSound.stay (h : UserSound user u c s.calls) (hi : user i = u)
    (hbusy : busy (s.calls i) = false) {p : Phase} (hp : busy p = false) :
    UserSound user u c (s.set i p).calls :=
  h.quiet ⟨rfl, rfl, rfl, ⟨rfl, rfl, rfl⟩, rfl⟩ rfl hi hbusy hp

theorem UserSound.call (h : UserSound user u c s.calls) (hi : user i = u)
    (hcalled : s.calls i = .called) {op : Op} {now : ℕ}
    (hapart : Apart user u s.calls op c .called (.go now)) :
    UserSound user u (call op c now).1 (s.set i (call op c now).2).calls := by
  have hbusy : busy (s.calls i) = false := by rw [hcalled, busy]; rfl
  cases op with
  | wake => exact h.stay hi hbusy rfl
  | drain =>
      change UserSound user u (drain c).1 (s.set i (drain c).2).calls
      unfold drain
      cases hvm : c.entry.provider_vm_id with
      | none => exact h.stay hi hbusy rfl
      | some vm =>
          refine h.drains (drains_begun (clearing_of_not_busy hbusy) vm) hi (hapart.1 ?_)
          change (true && c.entry.provider_vm_id.isSome) = true
          rw [hvm]
          rfl
  | touch => exact h.touch hi hbusy (hapart.2.2 rfl) now
  | request =>
      have hcall : VmService.call .request c now = (c, .forwarding) ∨
          VmService.call .request c now = (c, .locking) := ite_eq_or_eq ..
      rcases hcall with heq | heq
      · rw [heq]
        exact h.stay hi hbusy rfl
      · rw [heq]
        exact h.stay hi hbusy rfl

theorem UserSound.wake (h : UserSound user u c s.calls) (hi : user i = u)
    (hlocking : s.calls i = .locking) {op : Op} {now : ℕ} (hfree : c.locked = false)
    (hapart : Apart user u s.calls op c .locking (.go now)) :
    UserSound user u (wake op c).1 (s.set i (wake op c).2).calls := by
  have hbusy : busy (s.calls i) = false := by rw [hlocking, busy]; rfl
  unfold VmService.wake
  split
  · refine h.stay hi hbusy ?_
    unfold after_wake
    split <;> rfl
  · rename_i hnot
    have hbegins : begins_wake c .locking (.go now) = true := by
      rw [begins_wake, decide_eq_false hnot]
      rfl
    have hothers : ∀ j, j ≠ i → user j = u → busy (s.calls j) = false := by
      intro j _ hj
      rw [not_busy_iff]
      refine ⟨?_, hapart.2.1 hbegins j hj⟩
      by_contra hwaking
      have hlocked := h.locked j hj (by simpa using hwaking)
      rw [hfree] at hlocked
      cases hlocked
    have ha := h.alone_of_others hi hothers
    rw [hlocking] at ha
    have hidle : Idle (c.lock.set_status .waking {}) := idle_set_status c.lock (by decide) {}
    exact userSound_set_of_alone (alone_of_busy rfl rfl hidle fun _ => ha.live rfl) hothers hi

theorem UserSound.resumed (h : UserSound user u c s.calls) (hi : user i = u)
    {golden : Option Text} {op : Op} {x : Input} {r : Cell × Phase}
    (hr : Resumed golden op c (s.calls i) x r)
    (hapart : Apart user u s.calls op c (s.calls i) x)
    (hstopped : ∀ vm ∈ c.stopped, vm ∈ c.started) :
    UserSound user u r.1 (s.set i r.2).calls := by
  by_cases hwaking : waking (s.calls i) = true
  · have hothers : ∀ j, j ≠ i → user j = u → busy (s.calls j) = false := by
      intro j hne hj
      by_contra hbusy
      exact hne (h.alone i j hi hj hwaking (by simpa using hbusy))
    exact userSound_set_of_alone (alone_resumed hr hwaking (h.alone_of_others hi hothers) hstopped)
      hothers hi
  by_cases hdraining : draining (s.calls i) = true
  · refine h.drains (drains_resumed hr hdraining (h.known i hi)) hi ?_
    intro j hj
    by_contra hj'
    have heq : i = j := h.alone j i hj hi (by simpa using hj') (by simp [busy, hdraining])
    exact hwaking (heq ▸ by simpa using hj')
  have hbusy : busy (s.calls i) = false := by
    rw [not_busy_iff]
    exact ⟨by simpa using hwaking, by simpa using hdraining⟩
  generalize hp : s.calls i = p at hr hapart
  rw [hp] at hbusy
  cases hr with
  | called now => exact h.call hi hp hapart
  | locked now hfree => exact h.wake hi hp hfree hapart
  | selected w now =>
      cases w with
      | touched _ => exact h.stay hi (by rw [hp]; rfl) rfl
      | _ => cases hbusy
  | committed w loaded now =>
      cases w with
      | touched now =>
          have hrow : SameColumns (flush loaded ((Write.touched now).assign loaded) c.row) c.row :=
            ⟨changed_self _ _, changed_self _ _, changed_self _ _⟩
          exact h.quiet ⟨rfl, rfl, rfl, hrow, rfl⟩ rfl hi (by rw [hp]; rfl) rfl
      | _ => cases hbusy
  | forwarded status_code now =>
      unfold VmService.forwarded
      split
      · rename_i hsuccess
        exact h.touch hi (by rw [hp]; rfl) (hapart.2.2 (decide_eq_true hsuccess)) now
      · exact h.stay hi (by rw [hp]; rfl) rfl
  | _ => cases hbusy

theorem UserSound.other {p : Phase} (h : UserSound user u c s.calls) (hne : user i ≠ u) :
    UserSound user u c (s.set i p).calls := by
  have hcalls : ∀ j, user j = u → (s.set i p).calls j = s.calls j := by
    intro j hj
    refine s.set_of_ne p ?_
    rintro rfl
    exact hne hj
  refine ⟨?_, ?_, ?_, ?_, ?_⟩
  · intro j k hj hk
    rw [hcalls j hj, hcalls k hk]
    exact h.alone j k hj hk
  · intro j hj
    rw [hcalls j hj]
    exact h.locked j hj
  · intro j hj
    rw [hcalls j hj]
    exact h.known j hj
  · intro hclearing
    apply h.live
    intro j hj
    rw [← hcalls j hj]
    exact hclearing j hj
  · intro hbusy
    apply h.settled
    intro j hj
    rw [← hcalls j hj]
    exact hbusy j hj

end UserSound

/-- The ids a user's VM and its operations know were given out for it, to nobody else. -/
structure Ledger (user : ι → υ) (s : State υ ι) : Prop where
  within : ∀ u c, s.shared.cells u = some c → Within (· ∈ c.started) (c, .done)
  phase : ∀ i c, s.shared.cells (user i) = some c →
    ∀ vm, phase_vm_id (s.calls i) = some vm → vm ∈ c.started
  issued : ∀ u c, s.shared.cells u = some c → ∀ vm ∈ c.started, vm ∈ s.shared.issued
  distinct : ∀ u v c d, s.shared.cells u = some c → s.shared.cells v = some d → u ≠ v →
    ∀ vm ∈ c.started, vm ∉ d.started

structure Sound (user : ι → υ) (s : State υ ι) : Prop where
  users : ∀ u c, s.shared.cells u = some c → UserSound user u c s.calls
  ledger : Ledger user s

theorem initial_cell {users : υ → Option Text} {u : υ} {c : Cell}
    (h : (initial users : State υ ι).shared.cells u = some c) :
    ∃ user_id, c = provisioned user_id := by
  obtain ⟨user_id, -, rfl⟩ := Option.map_eq_some_iff.mp h
  exact ⟨user_id, rfl⟩

theorem initial_sound (user : ι → υ) (users : υ → Option Text) :
    Sound user (initial users : State υ ι) where
  users := by
    intro u c hc
    obtain ⟨user_id, rfl⟩ := initial_cell hc
    exact ⟨nofun, nofun, fun _ _ => trivial, fun _ => nofun, fun _ => nofun⟩
  ledger := by
    refine ⟨?_, fun _ _ _ => nofun, ?_, ?_⟩
    · intro u c hc
      obtain ⟨user_id, rfl⟩ := initial_cell hc
      exact ⟨nofun, nofun, nofun, nofun⟩
    · intro u c hc
      obtain ⟨user_id, rfl⟩ := initial_cell hc
      exact nofun
    · intro u v c d hc
      obtain ⟨user_id, rfl⟩ := initial_cell hc
      exact fun _ _ => nofun

theorem Ledger.within_call {user : ι → υ} {s : State υ ι} (h : Ledger user s) {i : ι} {c : Cell}
    (hc : s.shared.cells (user i) = some c) : Within (· ∈ c.started) (c, s.calls i) :=
  (h.within _ c hc).stay (h.phase i c hc)

theorem Ledger.answered [DecidableEq ι] {user : ι → υ} {s : State υ ι} (h : Ledger user s) (i : ι) :
    Ledger user (s.set i .done) where
  within := h.within
  phase := by
    refine System.forall_set (P := fun j q => ∀ c, s.shared.cells (user j) = some c →
      ∀ vm, phase_vm_id q = some vm → vm ∈ c.started) ?_ ?_
    · exact fun _ _ => nofun
    · exact fun j _ => h.phase j
  issued := h.issued
  distinct := h.distinct

theorem Sound.registrySound {user : ι → υ} {s : State υ ι} (hs : Sound user s) :
    RegistrySound user s := by
  intro u c hc hrunning
  obtain ⟨vm, endpoint, hduty⟩ := (hs.users u c hc).onDuty hrunning
  refine ⟨⟨vm, endpoint, hduty.vm_id, hduty.serving, ?_⟩, ?_⟩
  · intro v d hd hstopped
    by_cases hne : u = v
    · subst hne
      cases hc.symm.trans hd
      exact hduty.serves.unstopped hstopped
    · exact hs.ledger.distinct u v c d hc hd hne vm
        ((hs.ledger.within u c hc).entry vm hduty.vm_id)
        ((hs.ledger.within v d hd).stopped vm hstopped)
  · intro hrest
    refine ((hs.users u c hc).settled (fun j hj => ?_) hrunning).1
    rcases hrest j hj with hcalled | hdone
    · rw [hcalled]
      rfl
    · rw [hdone]
      rfl

variable [DecidableEq υ]

theorem Hub.put_cases {hub : Hub υ} {u v : υ} {c d : Cell} {x : Input}
    (h : (hub.put u c x).cells v = some d) :
    (v = u ∧ d = c) ∨ (v ≠ u ∧ hub.cells v = some d) := by
  change Function.update hub.cells u (some c) v = some d at h
  by_cases hne : v = u
  · subst hne
    rw [Function.update_self] at h
    exact .inl ⟨rfl, (Option.some.inj h).symm⟩
  · rw [Function.update_of_ne hne] at h
    exact .inr ⟨hne, h⟩

variable [DecidableEq ι] {golden : Option Text} {user : ι → υ} {op : ι → Op} {s s' : State υ ι}
  {i : ι} {x : Input}

theorem step_cases (h : step golden user op s (i, x) = some s') :
    (s.shared.cells (user i) = none ∧ s' = s.set i .done) ∨
      ∃ c r, s.shared.cells (user i) = some c ∧ (∀ vm ∈ named x, vm ∉ s.shared.issued) ∧
        Resumed golden (op i) c (s.calls i) x r ∧
        s' = (s.write (s.shared.put (user i) r.1 x)).set i r.2 := by
  unfold step at h
  dsimp only at h
  cases hcell : s.shared.cells (user i) with
  | none =>
      rw [hcell, Option.ite_none_right_eq_some] at h
      exact .inl ⟨rfl, (Option.some.inj h.2).symm⟩
  | some c =>
      simp only [hcell, Option.ite_none_right_eq_some, Option.map_eq_some_iff] at h
      obtain ⟨hfresh, r, hr, rfl⟩ := h
      refine .inr ⟨c, r, rfl, ?_, resumed_of_resume hr, rfl⟩
      intro vm hvm
      simpa using hfresh vm hvm

theorem Ledger.resumed (h : Ledger user s) {c : Cell} {r : Cell × Phase}
    (hc : s.shared.cells (user i) = some c) (hfresh : ∀ vm ∈ named x, vm ∉ s.shared.issued)
    (hr : Resumed golden (op i) c (s.calls i) x r) :
    Ledger user ((s.write (s.shared.put (user i) r.1 x)).set i r.2) := by
  have hstarted : ∀ vm, vm ∈ r.1.started ↔ vm ∈ named x ∨ vm ∈ c.started := by
    intro vm
    rw [started_resumed hr, List.mem_append]
  have hkept : ∀ vm ∈ c.started, vm ∈ r.1.started := fun vm hvm => (hstarted vm).mpr (.inr hvm)
  have hwithin : Within (· ∈ r.1.started) r :=
    ((h.within_call hc).mono hkept).resumed hr fun vm hvm => (hstarted vm).mpr (.inl hvm)
  refine ⟨?_, ?_, ?_, ?_⟩
  · intro u d hd
    rcases Hub.put_cases hd with ⟨rfl, rfl⟩ | ⟨-, hd⟩
    · exact Within.stay (p := r.2) hwithin nofun
    · exact h.within u d hd
  · refine System.forall_set (P := fun j q =>
      ∀ d, (s.shared.put (user i) r.1 x).cells (user j) = some d →
        ∀ vm, phase_vm_id q = some vm → vm ∈ d.started) ?_ ?_
    · intro d hd
      rcases Hub.put_cases hd with ⟨-, rfl⟩ | ⟨hne, -⟩
      · exact hwithin.phase
      · exact absurd rfl hne
    · intro j _ d hd vm hvm
      rcases Hub.put_cases hd with ⟨hj, rfl⟩ | ⟨-, hd⟩
      · exact hkept vm (h.phase j c (hj ▸ hc) vm hvm)
      · exact h.phase j d hd vm hvm
  · intro u d hd vm hvm
    rw [show ((s.write (s.shared.put (user i) r.1 x)).set i r.2).shared.issued =
      named x ++ s.shared.issued from rfl, List.mem_append]
    rcases Hub.put_cases hd with ⟨rfl, rfl⟩ | ⟨-, hd⟩
    · exact ((hstarted vm).mp hvm).imp_right (h.issued _ c hc vm)
    · exact .inr (h.issued u d hd vm hvm)
  · intro u v d e hd he huv vm hvm
    rcases Hub.put_cases hd with ⟨rfl, rfl⟩ | ⟨hu, hd⟩
    · rcases Hub.put_cases he with ⟨rfl, rfl⟩ | ⟨hv, he⟩
      · exact absurd rfl huv
      · rcases (hstarted vm).mp hvm with hnew | hold
        · exact fun hmem => hfresh vm hnew (h.issued v e he vm hmem)
        · exact h.distinct _ v c e hc he huv vm hold
    · rcases Hub.put_cases he with ⟨rfl, rfl⟩ | ⟨hv, he⟩
      · intro hmem
        rcases (hstarted vm).mp hmem with hnew | hold
        · exact hfresh vm hnew (h.issued u d hd vm hvm)
        · exact h.distinct u _ d c hd hc hu vm hvm hold
      · exact h.distinct u v d e hd he huv vm hvm

theorem step_sound (hs : Sound user s) (hapart : StepsApart user op s (i, x))
    (h : step golden user op s (i, x) = some s') : Sound user s' := by
  rcases step_cases h with ⟨hnone, rfl⟩ | ⟨c, r, hc, hfresh, hr, rfl⟩
  · refine ⟨?_, hs.ledger.answered i⟩
    intro u d hd
    refine (hs.users u d hd).other ?_
    rintro rfl
    rw [System.set_shared, hnone] at hd
    cases hd
  · refine ⟨?_, hs.ledger.resumed hc hfresh hr⟩
    intro u d hd
    rcases Hub.put_cases hd with ⟨rfl, rfl⟩ | ⟨hne, hd⟩
    · exact UserSound.resumed (s := s) (hs.users _ c hc) rfl hr (hapart c hc)
        (hs.ledger.within _ c hc).stopped
    · exact UserSound.other (s := s) (hs.users u d hd) (Ne.symm hne)

/-- In a run whose steps keep apart, what the registry says of a running VM holds. -/
theorem registry_sound {users : υ → Option Text} {es : List (ι × Input)} {t : State υ ι}
    (hrun : run (step golden user op) (initial users) es = some t)
    (hapart : AllSteps (step golden user op) (StepsApart user op) (initial users) es) :
    RegistrySound user t := by
  have hsound : Sound user t :=
    run_invariant_of_allSteps (fun _ _ _ hs hC h => step_sound hs hC h) hrun hapart
      (initial_sound user users)
  exact hsound.registrySound

instance : Fintype Op := ⟨{.wake, .drain, .touch, .request}, fun op => by cases op <;> simp⟩

def hub_user (_ : Op) : Unit := ()

def hub_users (_ : Unit) : Option Text := some "u".toList

def golden_snapshot : Option Text := some "snapshot_golden".toList

/-- One call of each operation. The VM is woken, and the request is forwarded to it. -/
def woken : List (Op × Input) :=
  [(.wake, .go 1), (.wake, .go 1), (.wake, .go 1), (.wake, .go 1), (.wake, .go 1),
    (.wake, .started (.ok "morphvm_1".toList)), (.wake, .go 2), (.wake, .go 2),
    (.wake, .launched (.ok "http://vm".toList)), (.wake, .go 3), (.wake, .go 3),
    (.wake, .healthy true), (.wake, .go 4), (.wake, .go 4), (.wake, .go 4), (.wake, .go 4),
    (.request, .go 5)]

def drained : List (Op × Input) :=
  [(.drain, .go 6), (.drain, .go 6), (.drain, .go 6),
    (.drain, .reply (.response 200 (.text "snapshot_2".toList))),
    (.drain, .reply (.response 204 .not_json)), (.drain, .go 7), (.drain, .go 7), (.drain, .go 7)]

def answered : List (Op × Input) :=
  [(.request, .upstream (some 200) 8), (.request, .go 8), (.request, .go 8)]

theorem registry_sound_request_first :
    ∃ t, run (step golden_snapshot hub_user id) (initial hub_users)
      (woken ++ answered ++ drained) = some t ∧ RegistrySound hub_user t := by
  obtain ⟨t, hrun⟩ : ∃ t, run (step golden_snapshot hub_user id) (initial hub_users)
      (woken ++ answered ++ drained) = some t :=
    Option.isSome_iff_exists.mp (by decide)
  exact ⟨t, hrun, registry_sound hrun (by decide)⟩

/-- The request is answered when the VM is already stopped. -/
theorem stopped_vm_running :
    ¬ ∀ (golden : Option Text) (user : Op → Unit) (op : Op → Op) (users : Unit → Option Text)
      (es : List (Op × Input)) (t : State Unit Op),
      run (step golden user op) (initial users) es = some t → RegistrySound user t := by
  intro h
  have hend : (run (step golden_snapshot hub_user id) (initial hub_users)
      (woken ++ drained ++ answered)).map (fun t => (t.shared.cells ()).map fun c =>
        (c.entry.status, c.entry.provider_vm_id)) = some (some (.running, none)) := by
    decide
  obtain ⟨t, hrun, hcell⟩ := Option.map_eq_some_iff.mp hend
  obtain ⟨c, hc, hentry⟩ := Option.map_eq_some_iff.mp hcell
  obtain ⟨hrunning, hnone⟩ := Prod.mk.inj hentry
  obtain ⟨vm, -, hvm, -, -⟩ := (h _ _ _ _ _ t hrun () c hc hrunning).served
  cases hnone.symm.trans hvm

end ArticTrader.VmHub
