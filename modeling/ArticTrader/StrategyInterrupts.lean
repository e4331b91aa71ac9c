import ArticTrader.LabelledRuns
import ArticTrader.StrategyRunner

/-!
When the user's code can be stopped: the steps after which it never runs
without an alarm, and how long a call can then take.
-/

namespace ArticTrader.StrategyInterrupts

open ArticTrader.LabelledRuns
open ArticTrader.PythonText (Text)
open ArticTrader.TreeWalk
open ArticTrader.PythonGrammar
open ArticTrader.SandboxValidator
open ArticTrader.BacktestEngine
open ArticTrader.StrategyRunner

variable {η π ω : Type}

def is_call : Label ω → Bool
  | .call _ => true
  | _ => false

def AtRest (s : Thread η π ω) : Prop := (∃ outcome, s.activity = .idle outcome) ∧ s.alarm = .off

/-- Where the user's code is about to run, an alarm is armed. -/
def Interruptible (s : Thread η π ω) : Prop :=
  ∀ p frame, s.activity = .user p frame → s.alarm.is_armed = true

/-- Where the user's code is about to run, no alarm of this call has gone off. -/
def Unfired (s : Thread η π ω) : Prop :=
  ∀ p frame, s.activity = .user p frame → s.fired = false

def is_load : Frame η ω → Bool
  | .load _ _ => true
  | _ => false

def bars_left : Frame η ω → List Phase
  | .bar _ _ b => b.rest.filter (· ≠ .force_close)
  | _ => []

variable (py : Python η π ω)

/-- The source of a call is rejected, or its module has been loaded before, or
`on_tick` is called with time to spend; where the alarm goes off, no statement
of the user's code stands around it that takes over. -/
def Guarded (s : Thread η π ω) : Label ω → Prop
  | .call (.load_strategy source) => ∀ tree, parse_and_validate py.parse source ≠ .ok tree
  | .call (.get_or_load source) =>
      cache_get s.cache (py.sha256 source) = none →
        ∀ tree, parse_and_validate py.parse source ≠ .ok tree
  | .call (.tick _ _ timeout_s) => timeout_s ≠ 0
  | .alarm => ∀ p frame, s.activity = .user p frame → py.handlers p = []
  | _ => True

/-- The alarm goes off in the last bar of a backtest only. -/
def InLastBar (s : Thread η π ω) : Label ω → Prop
  | .alarm =>
      match s.activity with
      | .idle _ => True
      | .user _ frame | .finishing _ _ frame => bars_left frame = []
  | _ => True

def bar_steps : ℕ := TIMEOUT_S * py.steps_per_second + 4

def later_steps : Frame η ω → ℕ
  | .bar _ _ b => b.rest.length * bar_steps py
  | _ => 0

def remaining (s : Thread η π ω) : ℕ :=
  match s.activity with
  | .idle _ => 0
  | .user _ frame => s.alarm.left + 3 + later_steps py frame
  | .finishing _ _ frame => (if s.alarm.is_armed then 2 else 1) + later_steps py frame

/-- The call that is running goes on until it has ended, and ends in time. -/
structure Ends (s : Thread η π ω) (later : List (Label ω)) : Prop where
  goes_on : (∀ outcome, s.activity ≠ .idle outcome) →
    ∃ l s', is_call l = false ∧ step py s l = some s'
  bounded : (∀ l ∈ later, is_call l = false) → later.length ≤ remaining py s

def Sound (s : Thread η π ω) : Prop :=
  match s.activity with
  | .idle _ => s.alarm = .off
  | .user _ frame => s.alarm.is_armed = true ∧ is_load frame = false
  | .finishing _ _ frame => is_load frame = false

variable {py : Python η π ω}

/-- In an accepted module only `except*` and its `finally` take over. -/
theorem handlers_tryStar {p : π} (hok : validate_ast (py.tree p) = .ok ()) {a : Ast}
    (ha : a ∈ py.handlers p) : ∃ fields, a = .node .TryStar fields := by
  obtain ⟨hwithin, type, fields, rfl, htype⟩ := py.handlers_enclose p a ha
  have hallowed : type ∉ BANNED_NODES :=
    (check_node_none (validate_ast_ok_iff.mp hok _ hwithin)).1
  have hstar : ∀ type ∈ HANDLER_NODES, type ∉ BANNED_NODES → type = .TryStar := by decide
  exact ⟨fields, by rw [hstar type htype hallowed]⟩

theorem signal_alarm_armed_iff (py : Python η π ω) (seconds : ℕ) :
    (signal_alarm py seconds).is_armed = true ↔ seconds ≠ 0 := by
  unfold signal_alarm
  split_ifs with h <;> simp [h, Alarm.is_armed]

theorem next_call_rest_lt {fee_bps : ℚ} {st : State η} {phases : List Phase} {b : Bar η}
    (h : next_call py fee_bps st phases = .inr b) : b.rest.length < phases.length := by
  fun_induction next_call with
  | case1 => cases h
  | case6 =>
      cases h
      exact Nat.lt_succ_self _
  | _ =>
      rename_i ih
      exact Nat.lt_succ_of_lt (ih h)

theorem next_call_of_no_bar (py : Python η π ω) (fee_bps : ℚ) (st : State η)
    {phases : List Phase} (h : phases.filter (· ≠ .force_close) = []) :
    ∃ st', next_call py fee_bps st phases = .inl st' := by
  have hclose : ∀ phase ∈ phases, phase = .force_close := by simpa using h
  clear h
  fun_induction next_call with
  | case1 => exact ⟨_, rfl⟩
  | case5 =>
      have := hclose _ (.head _)
      cases this
  | case6 =>
      have := hclose _ (.head _)
      cases this
  | _ =>
      rename_i ih
      exact ih fun phase hphase => hclose phase (.tail _ hphase)

theorem elapse_armed {alarm alarm' : Alarm} (h : alarm.elapse = some alarm')
    (harmed : alarm.is_armed = true) : alarm'.is_armed = true ∧ alarm'.left + 1 = alarm.left := by
  cases alarm with
  | off => cases harmed
  | armed steps =>
      cases steps with
      | zero => cases h
      | succ steps =>
          cases h
          exact ⟨rfl, rfl⟩

variable {s s' : Thread η π ω}

theorem sound_resume (hs : s.alarm = .off) (handle : StrategyHandle ω) (fee_bps : ℚ)
    (engine : State η ⊕ Bar η) : Sound (s.resume py handle fee_bps engine) := by
  cases engine with
  | inl st => exact hs
  | inr b =>
      refine ⟨?_, rfl⟩
      exact (signal_alarm_armed_iff py TIMEOUT_S).mpr (by decide)

theorem interruptible_of_sound (hs : Sound s) : Interruptible s := by
  intro p frame hactivity
  simp only [Sound, hactivity] at hs
  exact hs.1

theorem load_of_rejected {source : Text} {violation : ASTViolation} (cached : Bool)
    (h : parse_and_validate py.parse source = .error violation) :
    s.load py source cached =
      { s with activity := .idle (some (.loaded (.error (.ASTViolation violation)))) } := by
  simp only [Thread.load, h]

theorem load_of_accepted {source : Text} {tree : Ast} (cached : Bool)
    (h : parse_and_validate py.parse source = .ok tree) :
    s.load py source cached =
      { s with activity := .user (py.module_body s.heap tree) (.load source cached) } := by
  simp only [Thread.load, h]

theorem load_interruptible_iff (hs : s.alarm = .off) (source : Text) (cached : Bool) :
    Interruptible (s.load py source cached) ↔
      ∀ tree, parse_and_validate py.parse source ≠ .ok tree := by
  cases h : parse_and_validate py.parse source with
  | error violation =>
      rw [load_of_rejected cached h]
      constructor
      · rintro - tree ⟨⟩
      · rintro - p frame ⟨⟩
  | ok tree =>
      rw [load_of_accepted cached h]
      constructor
      · intro hi
        have harmed := hi _ _ rfl
        rw [hs] at harmed
        cases harmed
      · intro hne
        exact absurd rfl (hne tree)

theorem sound_load (hs : s.alarm = .off) {source : Text} (cached : Bool)
    (h : ∀ tree, parse_and_validate py.parse source ≠ .ok tree) :
    Sound (s.load py source cached) := by
  cases hparse : parse_and_validate py.parse source with
  | error violation =>
      rw [load_of_rejected cached hparse]
      exact hs
  | ok tree => exact absurd hparse (h tree)

theorem get_or_load_of_cached {source : Text} {handle : StrategyHandle ω}
    (h : cache_get s.cache (py.sha256 source) = some handle) :
    s.get_or_load py source =
      { s with
        cache := move_to_end s.cache (py.sha256 source) handle
        activity := .idle (some (.loaded (.ok handle))) } := by
  simp only [Thread.get_or_load, h]

theorem get_or_load_of_missing {source : Text}
    (h : cache_get s.cache (py.sha256 source) = none) :
    s.get_or_load py source = s.load py source true := by
  simp only [Thread.get_or_load, h]

/-- A call is guarded exactly if its first state has an alarm where it needs one. -/
theorem guarded_call_iff (hs : s.alarm = .off) (entry : Entry ω) :
    Guarded py s (.call entry) ↔ Interruptible (s.enter py entry) := by
  cases entry with
  | load_strategy source => exact (load_interruptible_iff hs source false).symm
  | get_or_load source =>
      show (_ → _) ↔ Interruptible (s.get_or_load py source)
      cases h : cache_get s.cache (py.sha256 source) with
      | none =>
          rw [get_or_load_of_missing h, load_interruptible_iff hs]
          exact ⟨fun hg => hg rfl, fun hne _ => hne⟩
      | some handle =>
          rw [get_or_load_of_cached h]
          constructor
          · rintro - p frame ⟨⟩
          · rintro - ⟨⟩
  | tick handle ctx timeout_s =>
      rw [Guarded, ← signal_alarm_armed_iff py]
      constructor
      · rintro harmed p frame -
        exact harmed
      · intro hi
        exact hi _ _ rfl
  | backtest handle candles initial_usdt fee_bps =>
      constructor
      · rintro -
        exact interruptible_of_sound (sound_resume hs handle fee_bps _)
      · rintro -
        trivial

theorem sound_enter (hs : s.alarm = .off) {entry : Entry ω}
    (hg : Guarded py s (.call entry)) : Sound (s.enter py entry) := by
  cases entry with
  | load_strategy source => exact sound_load hs false hg
  | get_or_load source =>
      show Sound (s.get_or_load py source)
      cases h : cache_get s.cache (py.sha256 source) with
      | none =>
          rw [get_or_load_of_missing h]
          exact sound_load hs true (hg h)
      | some handle =>
          rw [get_or_load_of_cached h]
          exact hs
  | tick handle ctx timeout_s => exact ⟨(signal_alarm_armed_iff py timeout_s).mpr hg, rfl⟩
  | backtest handle candles initial_usdt fee_bps => exact sound_resume hs handle fee_bps _

theorem sound_finish {frame : Frame η ω} (hload : is_load frame = false) (p : π)
    (result : Except Raised ω) : Sound (s.finish py p result frame) := by
  cases frame with
  | load source cached => cases hload
  | tick => rfl
  | bar handle fee_bps b => exact sound_resume rfl handle fee_bps _

inductive Stepped (py : Python η π ω) (s : Thread η π ω) : Label ω → Thread η π ω → Prop
  | call {entry : Entry ω} {outcome : Option (Outcome ω)} (hactivity : s.activity = .idle outcome) :
      Stepped py s (.call entry) ({ s with fired := false }.enter py entry)
  | user_step {p : π} {frame : Frame η ω} {alarm : Alarm} (hactivity : s.activity = .user p frame)
      (halarm : s.alarm.elapse = some alarm) :
      Stepped py s .user_step { s with alarm, activity := advanced py p frame }
  | interrupt {p : π} {frame : Frame η ω} (hactivity : s.activity = .user p frame)
      (harmed : s.alarm.is_armed = true) :
      Stepped py s .alarm
        { s with alarm := .off, fired := true, activity := interrupted py p frame }
  | late {p : π} {result : Except Raised ω} {frame : Frame η ω}
      (hactivity : s.activity = .finishing p result frame) (harmed : s.alarm.is_armed = true) :
      Stepped py s .alarm
        { s with
          alarm := .off
          fired := true
          activity := .finishing p (.error .TimeoutViolation) frame }
  | finish {p : π} {result : Except Raised ω} {frame : Frame η ω}
      (hactivity : s.activity = .finishing p result frame) :
      Stepped py s .finish (s.finish py p result frame)

theorem stepped {l : Label ω} (h : step py s l = some s') : Stepped py s l s' := by
  cases l with
  | call entry =>
      simp only [step] at h
      split at h
      · rename_i hactivity
        cases h
        exact .call hactivity
      · cases h
  | user_step =>
      simp only [step] at h
      split at h
      · rename_i hactivity
        obtain ⟨alarm, halarm, rfl⟩ := Option.map_eq_some_iff.mp h
        exact .user_step hactivity halarm
      · cases h
  | alarm =>
      simp only [step] at h
      split_ifs at h with harmed
      split at h
      · cases h
      · rename_i hactivity
        cases h
        exact .interrupt hactivity harmed
      · rename_i hactivity
        cases h
        exact .late hactivity harmed
  | finish =>
      simp only [step] at h
      split at h
      · rename_i hactivity
        cases h
        exact .finish hactivity
      · cases h

theorem sound_advanced {alarm : Alarm} (harmed : alarm.is_armed = true) {frame : Frame η ω}
    (hload : is_load frame = false) (p : π) :
    Sound { s with alarm, activity := advanced py p frame } := by
  unfold advanced
  cases py.step p with
  | running p' => exact ⟨harmed, hload⟩
  | ended p' result => exact hload

theorem sound_step {l : Label ω} (hs : Sound s) (hg : Guarded py s l)
    (h : step py s l = some s') : Sound s' := by
  cases stepped h with
  | call hactivity =>
      simp only [Sound, hactivity] at hs
      exact sound_enter (s := { s with fired := false }) hs hg
  | user_step hactivity halarm =>
      simp only [Sound, hactivity] at hs
      exact sound_advanced (elapse_armed halarm hs.1).1 hs.2 _
  | interrupt hactivity harmed =>
      simp only [Sound, hactivity] at hs
      rw [interrupted, if_pos (hg _ _ hactivity)]
      exact hs.2
  | late hactivity harmed =>
      simp only [Sound, hactivity] at hs
      exact hs
  | finish hactivity =>
      simp only [Sound, hactivity] at hs
      exact sound_finish hs _ _

/-- A step is guarded exactly if it leads to a state with an alarm where one is
needed. -/
theorem guarded_iff_interruptible {l : Label ω} (hs : Sound s) (h : step py s l = some s') :
    Guarded py s l ↔ Interruptible s' := by
  cases stepped h with
  | call hactivity =>
      simp only [Sound, hactivity] at hs
      exact guarded_call_iff (s := { s with fired := false }) hs _
  | interrupt hactivity harmed =>
      rename_i p frame
      constructor
      · intro hg
        exact interruptible_of_sound (sound_step hs hg h)
      · intro hi p' frame' hactivity'
        by_contra hhandlers
        cases hactivity.symm.trans hactivity'
        have hfalse := hi (py.enter_handler p) frame (if_neg hhandlers)
        cases hfalse
  | late hactivity harmed =>
      constructor
      · intro hg
        exact interruptible_of_sound (sound_step hs hg h)
      · rintro - p frame hactivity'
        cases hactivity.symm.trans hactivity'
  | _ =>
      constructor
      · intro hg
        exact interruptible_of_sound (sound_step hs hg h)
      · rintro -
        trivial

theorem remaining_resume_lt {fee_bps : ℚ} {st : State η} {phases : List Phase}
    (handle : StrategyHandle ω) :
    remaining py (s.resume py handle fee_bps (next_call py fee_bps st phases)) <
      1 + phases.length * bar_steps py := by
  cases h : next_call py fee_bps st phases with
  | inl st' => 
      show 0 < _
      omega
  | inr b =>
      have hrest : b.rest.length + 1 ≤ phases.length := next_call_rest_lt h
      have hbars : (b.rest.length + 1) * bar_steps py ≤ phases.length * bar_steps py :=
        Nat.mul_le_mul_right _ hrest
      have halarm : (signal_alarm py TIMEOUT_S).left + 4 = bar_steps py := rfl
      show (signal_alarm py TIMEOUT_S).left + 3 + b.rest.length * bar_steps py < _
      rw [Nat.add_mul, Nat.one_mul] at hbars
      omega

theorem remaining_advanced_lt (py : Python η π ω) (s : Thread η π ω) (alarm : Alarm)
    (frame : Frame η ω) (p : π) :
    remaining py { s with alarm, activity := advanced py p frame } <
      alarm.left + 4 + later_steps py frame := by
  unfold advanced
  cases py.step p with
  | running p' =>
      show alarm.left + 3 + later_steps py frame < _
      omega
  | ended p' result =>
      show (if alarm.is_armed then 2 else 1) + later_steps py frame < _
      split_ifs <;> omega

theorem remaining_finish_lt (py : Python η π ω) (s : Thread η π ω) {frame : Frame η ω}
    (hload : is_load frame = false) (p : π) (result : Except Raised ω) :
    remaining py (s.finish py p result frame) < 1 + later_steps py frame := by
  cases frame with
  | load source cached => cases hload
  | tick => exact Nat.succ_pos _
  | bar handle fee_bps b => exact remaining_resume_lt handle

theorem remaining_lt {l : Label ω} (hs : Sound s) (hg : Guarded py s l) (hcall : is_call l = false)
    (h : step py s l = some s') : remaining py s' < remaining py s := by
  cases stepped h with
  | call hactivity => cases hcall
  | @user_step p frame alarm hactivity halarm =>
      simp only [Sound, hactivity] at hs
      have hleft : alarm.left + 1 = s.alarm.left := (elapse_armed halarm hs.1).2
      have hlt := remaining_advanced_lt py s alarm frame p
      have hnow : remaining py s = s.alarm.left + 3 + later_steps py frame := by
        simp only [remaining, hactivity]
      omega
  | @interrupt p frame hactivity harmed =>
      rw [interrupted, if_pos (hg p frame hactivity)]
      have hnow : remaining py s = s.alarm.left + 3 + later_steps py frame := by
        simp only [remaining, hactivity]
      show 1 + later_steps py frame < _
      omega
  | @late p result frame hactivity harmed =>
      have hnow : remaining py s = 2 + later_steps py frame := by
        simp only [remaining, hactivity, harmed, if_true]
      show 1 + later_steps py frame < _
      omega
  | @finish p result frame hactivity =>
      simp only [Sound, hactivity] at hs
      have hlt := remaining_finish_lt py s hs p result
      have hnow : 1 + later_steps py frame ≤ remaining py s := by
        simp only [remaining, hactivity]
        split_ifs <;> omega
      omega

theorem goes_on (hs : Sound s) (hbusy : ∀ outcome, s.activity ≠ .idle outcome) :
    ∃ l s', is_call l = false ∧ step py s l = some s' := by
  cases hactivity : s.activity with
  | idle outcome => exact absurd hactivity (hbusy outcome)
  | user p frame =>
      simp only [Sound, hactivity] at hs
      refine ⟨.alarm, ⟨s.cache, .off, true, s.heap, interrupted py p frame⟩, rfl, ?_⟩
      simp only [step, hactivity, hs.1, if_true]
  | finishing p result frame =>
      refine ⟨.finish, s.finish py p result frame, rfl, ?_⟩
      simp only [step, hactivity]

/-- What the alarms of a call leave behind as long as they go off in last bars. -/
def Late (s : Thread η π ω) : Prop :=
  s.fired = true →
    match s.activity with
    | .idle _ => True
    | .user _ _ => False
    | .finishing _ _ frame => bars_left frame = []

theorem unfired_of_late (hs : Late s) : Unfired s := by
  intro p frame hactivity
  cases hfired : s.fired with
  | false => rfl
  | true =>
      have hlate := hs hfired
      simp only [hactivity] at hlate

theorem fired_load (source : Text) (cached : Bool) :
    (s.load py source cached).fired = s.fired := by
  unfold Thread.load
  split <;> rfl

theorem fired_resume (handle : StrategyHandle ω) (fee_bps : ℚ) (engine : State η ⊕ Bar η) :
    (s.resume py handle fee_bps engine).fired = s.fired := by
  cases engine <;> rfl

theorem fired_enter (entry : Entry ω) : (s.enter py entry).fired = s.fired := by
  cases entry with
  | load_strategy source => exact fired_load source false
  | get_or_load source =>
      show (s.get_or_load py source).fired = _
      unfold Thread.get_or_load
      split
      · rfl
      · exact fired_load source true
  | tick handle ctx timeout_s => rfl
  | backtest handle candles initial_usdt fee_bps => exact fired_resume handle fee_bps _

theorem late_finish {frame : Frame η ω} (p : π) (result : Except Raised ω)
    (h : s.fired = true → bars_left frame = []) : Late (s.finish py p result frame) := by
  intro hfired
  cases frame with
  | load source cached => trivial
  | tick => trivial
  | bar handle fee_bps b =>
      simp only [Thread.finish, fired_resume] at hfired ⊢
      obtain ⟨st, hst⟩ := next_call_of_no_bar py fee_bps (b.answer py fee_bps _) (h hfired)
      rw [hst]
      trivial

theorem late_step {l : Label ω} (hs : Sound s ∧ Late s) (hg : Guarded py s l ∧ InLastBar s l)
    (h : step py s l = some s') : Late s' := by
  cases stepped h with
  | call hactivity =>
      intro hfired
      rw [fired_enter] at hfired
      cases hfired
  | @user_step p frame alarm hactivity halarm =>
      intro hfired
      have hfalse := unfired_of_late hs.2 p frame hactivity
      cases hfired.symm.trans hfalse
  | @interrupt p frame hactivity harmed =>
      rintro -
      rw [interrupted, if_pos (hg.1 p frame hactivity)]
      simpa only [InLastBar, hactivity] using hg.2
  | late hactivity harmed =>
      rintro -
      simpa only [InLastBar, hactivity] using hg.2
  | finish hactivity =>
      apply late_finish
      intro hfired
      have hlate := hs.2 hfired
      simpa only [hactivity] using hlate

theorem sound_of_atRest (hs : AtRest s) : Sound s := by
  obtain ⟨⟨outcome, hactivity⟩, halarm⟩ := hs
  simp only [Sound, hactivity]
  exact halarm

/-- `while True: pass` -/
def while_true : Ast :=
  .node .Module
    [.list [.node .While [.node .Constant [.constant .other, .none], .list [.node .Pass []],
      .list []]], .list []]

/-- A language in which every function and module is `while True: pass`. -/
def spinning : Python Unit Unit Unit where
  parse source := if source = "while True: pass".toList then some while_true else none
  parse_float _ := none
  sha256 source := source
  steps_per_second := 2
  module_body _ _ := ()
  call_on_tick _ _ _ := ()
  step _ := .running ()
  tree _ := while_true
  handlers _ := []
  handlers_enclose := by simp
  enter_handler p := p
  heap _ := ()
  namespace_get _ _ := none
  callable _ := true
  reply _ _ := .object []
  touch _ _ candle := candle
  tamper _ position := position

def asleep : Thread Unit Unit Unit := ⟨[], .off, false, (), .idle none⟩

def tick_labels : List (Label Unit) :=
  [.call (.tick ⟨(), none, none, none, []⟩ ⟨[], none⟩ TIMEOUT_S), .user_step, .user_step, .alarm,
    .finish]

def load_labels (n : ℕ) : List (Label Unit) :=
  .call (.load_strategy "while True: pass".toList) :: List.replicate n .user_step

end ArticTrader.StrategyInterrupts
