import Mathlib.Data.List.Nodup
import Mathlib.Data.List.Range
import Mathlib.Logic.Function.Basic
import ArticTrader.LabelledRuns

/-!
Transactions that one process sends from one account. Every send function asks
the node for the number of mined transactions of the account and signs with
that number; nothing orders the threads in which they run.
-/

namespace ArticTrader.NonceSubmission

open ArticTrader.LabelledRuns

/-- The send functions, which take their nonce in the same way. -/
inductive Submission where
  | publish_strategy
  | attest_backtest
  | mint
  | authorize_usage
  | log_trade
  | log_decision
  deriving DecidableEq, Repr

def publish_request : List Submission := [.publish_strategy, .attest_backtest]

variable {ι : Type*}

structure Transaction (ι : Type*) where
  task : ι
  submission : Submission
  nonce : ℕ
  deriving DecidableEq

/-- A task submits one transaction after another. `nonce` is the count it has
read for the first of them. -/
structure Task where
  submissions : List Submission
  nonce : Option ℕ
  deriving DecidableEq, Repr

structure State (ι : Type*) where
  tasks : ι → Task
  signed : List (Transaction ι)
  pending : List (Transaction ι)
  mined : List (Transaction ι)

def State.transaction_count (base : ℕ) (s : State ι) : ℕ := base + s.mined.length

def start (programs : ι → List Submission) : State ι where
  tasks := fun i => { submissions := programs i, nonce := none }
  signed := []
  pending := []
  mined := []

/-- `sign i sent`: the task signs, and `sent` says whether the node takes the
transaction. `fail i`: the submission raises before it signs. -/
inductive Step (ι : Type*) where
  | get_transaction_count (i : ι)
  | sign (i : ι) (sent : Bool)
  | fail (i : ι)
  | mine (tx : Transaction ι)
  deriving DecidableEq

def State.add_signed (s : State ι) (tx : Transaction ι) (sent : Bool) : State ι :=
  { s with
    signed := s.signed ++ [tx]
    pending := if sent then s.pending ++ [tx] else s.pending }

def State.nonces (s : State ι) : List ℕ := s.signed.map (·.nonce)

/-- The mined transactions carry the counts in order, and every nonce that is
signed or held is one of them or the next. -/
structure Counted (base : ℕ) (s : State ι) : Prop where
  mined : s.mined.map (·.nonce) = List.range' base s.mined.length
  mined_signed : ∀ tx ∈ s.mined, tx ∈ s.signed
  pending_signed : ∀ tx ∈ s.pending, tx ∈ s.signed
  signed : ∀ tx ∈ s.signed, base ≤ tx.nonce ∧ tx.nonce ≤ s.transaction_count base
  held : ∀ i nonce, (s.tasks i).nonce = some nonce →
    base ≤ nonce ∧ nonce ≤ s.transaction_count base

theorem Counted.add_signed {base : ℕ} {s : State ι} (h : Counted base s) (tx : Transaction ι)
    (hnonce : base ≤ tx.nonce ∧ tx.nonce ≤ s.transaction_count base) (sent : Bool) :
    Counted base (s.add_signed tx sent) where
  mined := h.mined
  mined_signed := fun t ht => List.mem_append_left _ (h.mined_signed t ht)
  pending_signed := by
    intro t ht
    cases sent with
    | false => exact List.mem_append_left _ (h.pending_signed t ht)
    | true =>
        rcases List.mem_append.mp ht with hold | hnew
        · exact List.mem_append_left _ (h.pending_signed t hold)
        · exact List.mem_append_right _ hnew
  signed := by
    intro t ht
    rcases List.mem_append.mp ht with hold | hnew
    · exact h.signed t hold
    · rw [List.mem_singleton.mp hnew]
      exact hnonce
  held := h.held

theorem counted_start (base : ℕ) (programs : ι → List Submission) :
    Counted base (start programs) := by
  constructor <;> simp [start]

theorem Counted.nonce_lt_of_mined {base : ℕ} {s : State ι} (h : Counted base s)
    {tx : Transaction ι} (hmined : tx ∈ s.mined) : tx.nonce < s.transaction_count base := by
  have hmem : tx.nonce ∈ s.mined.map (·.nonce) := List.mem_map_of_mem hmined
  rw [h.mined, List.mem_range'_1] at hmem
  exact hmem.2

theorem Counted.exists_mined {base : ℕ} {s : State ι} (h : Counted base s) {nonce : ℕ}
    (hbase : base ≤ nonce) (hlt : nonce < s.transaction_count base) :
    ∃ tx ∈ s.mined, tx.nonce = nonce := by
  have hmem : nonce ∈ s.mined.map (·.nonce) := by
    rw [h.mined, List.mem_range'_1]
    exact ⟨hbase, hlt⟩
  obtain ⟨tx, htx, hnonce⟩ := List.mem_map.mp hmem
  exact ⟨tx, htx, hnonce⟩

theorem eq_of_nodup_nonces {s : State ι} (h : s.nonces.Nodup) {tx tx' : Transaction ι}
    (htx : tx ∈ s.signed) (htx' : tx' ∈ s.signed) (hnonce : tx.nonce = tx'.nonce) : tx = tx' :=
  List.inj_on_of_nodup_map (f := fun t : Transaction ι => t.nonce) h htx htx' hnonce

variable [DecidableEq ι]

def State.set_task (s : State ι) (i : ι) (task : Task) : State ι :=
  { s with tasks := Function.update s.tasks i task }

def step (base : ℕ) (s : State ι) : Step ι → Option (State ι)
  | .get_transaction_count i =>
      match s.tasks i with
      | ⟨submission :: rest, none⟩ =>
          some (s.set_task i ⟨submission :: rest, some (s.transaction_count base)⟩)
      | _ => none
  | .sign i sent =>
      match s.tasks i with
      | ⟨submission :: rest, some nonce⟩ =>
          some ((s.add_signed ⟨i, submission, nonce⟩ sent).set_task i ⟨rest, none⟩)
      | _ => none
  | .fail i =>
      match s.tasks i with
      | ⟨_ :: rest, _⟩ => some (s.set_task i ⟨rest, none⟩)
      | _ => none
  | .mine tx =>
      if tx ∈ s.pending ∧ tx.nonce = s.transaction_count base then
        some { s with
          mined := s.mined ++ [tx]
          pending := s.pending.filter fun p => p.nonce ≠ tx.nonce }
      else none

/-- A task signs while the count it has read is still the account's, and all
transactions signed before are mined. -/
def SignsAlone (base : ℕ) (s : State ι) : Step ι → Prop
  | .sign i _ =>
      ∀ nonce, (s.tasks i).nonce = some nonce →
        nonce = s.transaction_count base ∧ ∀ tx ∈ s.signed, tx ∈ s.mined
  | _ => True

theorem step_cases {base : ℕ} {s s' : State ι} {e : Step ι} (h : step base s e = some s') :
    (∃ i submission rest, e = .get_transaction_count i ∧
      s' = s.set_task i ⟨submission :: rest, some (s.transaction_count base)⟩) ∨
    (∃ i sent submission rest nonce, e = .sign i sent ∧
      s.tasks i = ⟨submission :: rest, some nonce⟩ ∧
      s' = (s.add_signed ⟨i, submission, nonce⟩ sent).set_task i ⟨rest, none⟩) ∨
    (∃ i rest, e = .fail i ∧ s' = s.set_task i ⟨rest, none⟩) ∨
    (∃ tx, e = .mine tx ∧ tx ∈ s.pending ∧ tx.nonce = s.transaction_count base ∧
      s' = { s with
        mined := s.mined ++ [tx]
        pending := s.pending.filter fun p => p.nonce ≠ tx.nonce }) := by
  cases e with
  | get_transaction_count i =>
      simp only [step] at h
      split at h
      · rename_i submission rest _
        exact .inl ⟨i, submission, rest, rfl, (Option.some.inj h).symm⟩
      · cases h
  | sign i sent =>
      simp only [step] at h
      split at h
      · rename_i submission rest nonce htask
        exact .inr (.inl ⟨i, sent, submission, rest, nonce, rfl, htask, (Option.some.inj h).symm⟩)
      · cases h
  | fail i =>
      simp only [step] at h
      split at h
      · rename_i rest _ _
        exact .inr (.inr (.inl ⟨i, rest, rfl, (Option.some.inj h).symm⟩))
      · cases h
  | mine tx =>
      obtain ⟨⟨hpending, hnonce⟩, h⟩ := Option.ite_none_right_eq_some.mp h
      exact .inr (.inr (.inr ⟨tx, rfl, hpending, hnonce, (Option.some.inj h).symm⟩))

theorem nonce_set_task {s : State ι} {i j : ι} {task : Task} {nonce : ℕ}
    (h : ((s.set_task i task).tasks j).nonce = some nonce) :
    task.nonce = some nonce ∨ (s.tasks j).nonce = some nonce := by
  rcases eq_or_ne j i with rfl | hne
  · left
    simpa only [State.set_task, Function.update_self] using h
  · right
    simpa only [State.set_task, Function.update_of_ne hne] using h

theorem Counted.set_task {base : ℕ} {s : State ι} (h : Counted base s) (i : ι) {task : Task}
    (hheld : ∀ nonce, task.nonce = some nonce →
      base ≤ nonce ∧ nonce ≤ s.transaction_count base) : Counted base (s.set_task i task) where
  mined := h.mined
  mined_signed := h.mined_signed
  pending_signed := h.pending_signed
  signed := h.signed
  held := by
    intro j nonce hj
    rcases nonce_set_task hj with hnew | hold
    · exact hheld nonce hnew
    · exact h.held j nonce hold

theorem counted_step {base : ℕ} {s s' : State ι} {e : Step ι} (hs : Counted base s)
    (h : step base s e = some s') : Counted base s' := by
  rcases step_cases h with ⟨i, submission, rest, -, rfl⟩ |
    ⟨i, sent, submission, rest, nonce, -, htask, rfl⟩ | ⟨i, rest, -, rfl⟩ |
    ⟨tx, -, hpending, hnonce, rfl⟩
  · refine hs.set_task i ?_
    intro nonce hread
    cases hread
    exact ⟨Nat.le_add_right _ _, le_rfl⟩
  · have hheld := hs.held i nonce (by rw [htask])
    exact (hs.add_signed ⟨i, submission, nonce⟩ hheld sent).set_task i (by simp)
  · exact hs.set_task i (by simp)
  · have hcount : base + (s.mined ++ [tx]).length = s.transaction_count base + 1 := by
      rw [State.transaction_count, List.length_append, List.length_singleton, Nat.add_assoc]
    refine ⟨?_, ?_, ?_, ?_, ?_⟩
    · rw [List.map_append, hs.mined, List.length_append, List.length_singleton,
        List.range'_concat, List.map_singleton, hnonce, State.transaction_count, Nat.one_mul]
    · intro t ht
      rcases List.mem_append.mp ht with hold | hnew
      · exact hs.mined_signed t hold
      · rw [List.mem_singleton.mp hnew]
        exact hs.pending_signed tx hpending
    · intro t ht
      exact hs.pending_signed t (List.mem_of_mem_filter ht)
    · intro t ht
      have hle := hs.signed t ht
      change base ≤ t.nonce ∧ t.nonce ≤ base + (s.mined ++ [tx]).length
      omega
    · intro i nonce hi
      have hle := hs.held i nonce hi
      change base ≤ nonce ∧ nonce ≤ base + (s.mined ++ [tx]).length
      omega

theorem nonces_sign (s : State ι) (tx : Transaction ι) (sent : Bool) (i : ι) (task : Task) :
    ((s.add_signed tx sent).set_task i task).nonces = s.nonces ++ [tx.nonce] := by
  simp [State.nonces, State.add_signed, State.set_task]

theorem nodup_step {base : ℕ} {s s' : State ι} {e : Step ι}
    (hs : Counted base s ∧ s.nonces.Nodup) (halone : SignsAlone base s e)
    (h : step base s e = some s') : Counted base s' ∧ s'.nonces.Nodup := by
  refine ⟨counted_step hs.1 h, ?_⟩
  rcases step_cases h with ⟨i, submission, rest, -, rfl⟩ |
    ⟨i, sent, submission, rest, nonce, rfl, htask, rfl⟩ | ⟨i, rest, -, rfl⟩ |
    ⟨tx, -, hpending, hnonce, rfl⟩
  · exact hs.2
  · obtain ⟨hcurrent, hmined⟩ := halone nonce (by rw [htask])
    rw [nonces_sign]
    refine List.Nodup.append hs.2 (List.nodup_singleton _) ?_
    rw [List.disjoint_singleton]
    intro hmem
    obtain ⟨tx, htx, hsame⟩ := List.mem_map.mp hmem
    have hlt := hs.1.nonce_lt_of_mined (hmined tx htx)
    change tx.nonce = nonce at hsame
    omega
  · exact hs.2
  · exact hs.2

theorem duplicate_step {base : ℕ} {s s' : State ι} {e : Step ι} (hs : ¬ s.nonces.Nodup)
    (h : step base s e = some s') : ¬ s'.nonces.Nodup := by
  rcases step_cases h with ⟨i, submission, rest, -, rfl⟩ |
    ⟨i, sent, submission, rest, nonce, rfl, htask, rfl⟩ | ⟨i, rest, -, rfl⟩ |
    ⟨tx, -, hpending, hnonce, rfl⟩
  · exact hs
  · rw [nonces_sign]
    intro hnodup
    exact hs (List.Nodup.of_append_left hnodup)
  · exact hs
  · exact hs

theorem duplicate_of_not_alone {base : ℕ} {s s' : State ι} {e : Step ι} (hs : Counted base s)
    (hnot : ¬ SignsAlone base s e) (h : step base s e = some s') : ¬ s'.nonces.Nodup := by
  rcases step_cases h with ⟨i, submission, rest, rfl, rfl⟩ |
    ⟨i, sent, submission, rest, nonce, rfl, htask, rfl⟩ | ⟨i, rest, rfl, rfl⟩ |
    ⟨tx, rfl, hpending, hnonce, rfl⟩
  · exact absurd trivial hnot
  · rw [nonces_sign]
    intro hnodup
    have hfresh : nonce ∉ s.nonces := by
      intro hmem
      exact List.disjoint_of_nodup_append hnodup hmem (List.mem_singleton_self _)
    have hsigned : ∀ tx ∈ s.signed, tx.nonce ≠ nonce := by
      intro tx htx hsame
      exact hfresh (hsame ▸ List.mem_map_of_mem htx)
    obtain ⟨hbase, hle⟩ := hs.held i nonce (by rw [htask])
    apply hnot
    intro read hread
    obtain rfl : nonce = read := by simpa [htask] using hread
    have hcurrent : nonce = s.transaction_count base := by
      by_contra hne
      obtain ⟨tx, htx, hsame⟩ := hs.exists_mined hbase (lt_of_le_of_ne hle hne)
      exact hsigned tx (hs.mined_signed tx htx) hsame
    refine ⟨hcurrent, ?_⟩
    intro tx htx
    obtain ⟨htxbase, htxle⟩ := hs.signed tx htx
    have htxne := hsigned tx htx
    obtain ⟨tx', htx', hsame⟩ := hs.exists_mined htxbase (by omega)
    have heq := eq_of_nodup_nonces (List.Nodup.of_append_left hnodup) htx
      (hs.mined_signed tx' htx') hsame.symm
    exact heq ▸ htx'
  · exact absurd trivial hnot
  · exact absurd trivial hnot

/-- The signed nonces are distinct exactly when every transaction is signed
alone. -/
theorem nonces_nodup_iff {base : ℕ} {programs : ι → List Submission} {es : List (Step ι)}
    {s : State ι} (hrun : run (step base) (start programs) es = some s) :
    s.nonces.Nodup ↔ AllSteps (step base) (SignsAlone base) (start programs) es := by
  constructor
  · intro hnodup
    by_contra hnot
    obtain ⟨before, e, after, m, m', -, hbefore, hviolates, hstep, hafter⟩ :=
      exists_violation hrun hnot
    have hm := run_invariant (fun s e s' => counted_step) hbefore (counted_start base programs)
    have hduplicate := duplicate_of_not_alone hm hviolates hstep
    exact run_invariant (fun s e s' => duplicate_step) hafter hduplicate hnodup
  · intro hall
    exact (run_invariant_of_allSteps (fun s e s' => nodup_step) hrun hall
      ⟨counted_start base programs, by simp [start, State.nonces]⟩).2

def one_publish : Unit → List Submission := fun _ => publish_request

theorem nonces_nodup_mined_between :
    ∃ s, run (step 7) (start one_publish) [.get_transaction_count (), .sign () true,
        .mine ⟨(), .publish_strategy, 7⟩, .get_transaction_count (), .sign () true] = some s ∧
      (s.nonces.Nodup ↔ AllSteps (step 7) (SignsAlone 7) (start one_publish)
        [.get_transaction_count (), .sign () true, .mine ⟨(), .publish_strategy, 7⟩,
          .get_transaction_count (), .sign () true]) :=
  ⟨_, rfl, nonces_nodup_iff rfl⟩

/-- The attestation is signed before the publication is mined. -/
theorem publish_request_repeats_nonce :
    ¬ ∀ (base : ℕ) (es : List (Step Unit)) (s : State Unit),
      run (step base) (start one_publish) es = some s → s.nonces.Nodup := by
  intro h
  have hnodup := h 7 [.get_transaction_count (), .sign () true, .get_transaction_count (),
    .sign () true] _ rfl
  exact absurd hnodup (by decide)

end ArticTrader.NonceSubmission
