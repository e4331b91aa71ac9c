import Mathlib.Algebra.Order.Ring.Rat
import ArticTrader.PythonNumbers
import ArticTrader.PythonText
import ArticTrader.SignificantDigits

/-!
The helper that sends a transaction again with more gas, against a node that includes at
most one of the transactions of a nonce.
-/

namespace ArticTrader.GasBump

open ArticTrader.PythonNumbers (int)
open ArticTrader.PythonText (Text)
open ArticTrader.SignificantDigits (double)

/-- The `status` of a receipt, as a node or a test writes it. -/
inductive Status where
  | int (n : ℤ)
  | text (t : Text)
  deriving DecidableEq, Repr

/-- `receipt.get("status")` is what the helper reads of a receipt. -/
structure Receipt where
  status : Option Status
  deriving DecidableEq, Repr

/-- `status in (1, "0x1")`. -/
def success (status : Option Status) : Prop :=
  status = some (.int 1) ∨ status = some (.text "0x1".toList)

instance (status : Option Status) : Decidable (success status) :=
  inferInstanceAs (Decidable (_ ∨ _))

def status_text : Option Status → Text
  | none => "None".toList
  | some (.int n) => (toString n).toList
  | some (.text t) => t

structure RetryOutcome where
  attempts : ℕ
  gas_prices : List ℤ
  tx_hash : Option Text
  receipt : Option Receipt
  error : Option Text
  deriving DecidableEq, Repr

structure Settings where
  initial_gas_price : ℤ
  bump_pct : ℚ
  max_attempts : ℕ
  total_budget_sec : ℚ

/-- What an attempt meets: the clock when the loop's condition reads it, what `send` comes
to, the clock when the rest of the budget is computed, and after what time `wait_receipt`
comes to what. -/
structure Attempt where
  checked_at : ℚ
  sent : Except Text Text
  sent_at : ℚ
  delay : ℚ
  reply : Except Text (Option Receipt)

structure World where
  start : ℚ
  attempt : ℕ → Attempt

inductive Wait where
  | received (receipt : Option Receipt)
  | timed_out
  | raised (exc : Text)

section Loop

variable (s : Settings) (w : World)

def InBudget (i : ℕ) : Prop := (w.attempt i).checked_at - w.start < s.total_budget_sec

instance (i : ℕ) : Decidable (InBudget s w i) := inferInstanceAs (Decidable (_ < _))

def timeout (i : ℕ) : ℚ := max 1 (s.total_budget_sec - ((w.attempt i).sent_at - w.start))

/-- `asyncio.wait_for(wait_receipt(tx_hash), timeout)`. -/
def wait_for (i : ℕ) : Wait :=
  if (w.attempt i).delay < timeout s w i then
    match (w.attempt i).reply with
    | .ok receipt => .received receipt
    | .error exc => .raised exc
  else .timed_out

/-- `int(gas * (1 + bump_pct))`, where the sum and the product are doubles. -/
def bump (gas : ℤ) : ℤ := int (double (double gas * double (1 + s.bump_pct)))

/-- The prices that have been tried, and how the call ends. -/
structure Run where
  tried : List ℤ
  result : Except Text RetryOutcome
  deriving DecidableEq

def exhausted (attempts : ℕ) (gas_prices : List ℤ) (last_err : Option Text) : Run where
  tried := gas_prices
  result := .ok
    { attempts, gas_prices, tx_hash := none, receipt := none,
      error := some (last_err.getD "exhausted".toList) }

/-- The loop with what is left of the attempts. -/
def loop : ℕ → ℕ → ℤ → List ℤ → Option Text → Run
  | 0, attempts, _, gas_prices, last_err => exhausted attempts gas_prices last_err
  | left + 1, attempts, gas, gas_prices, last_err =>
      if InBudget s w attempts then
        match (w.attempt attempts).sent with
        | .error exc =>
            loop left (attempts + 1) (bump s gas) (gas_prices ++ [gas])
              (some ("send: ".toList ++ exc))
        | .ok tx_hash =>
            match wait_for s w attempts with
            | .timed_out =>
                loop left (attempts + 1) (bump s gas) (gas_prices ++ [gas])
                  (some "receipt timeout".toList)
            | .raised exc => { tried := gas_prices ++ [gas], result := .error exc }
            | .received receipt =>
                if success (receipt.bind (·.status)) then
                  { tried := gas_prices ++ [gas]
                    result := .ok
                      { attempts := attempts + 1, gas_prices := gas_prices ++ [gas],
                        tx_hash := some tx_hash, receipt, error := none } }
                else
                  loop left (attempts + 1) (bump s gas) (gas_prices ++ [gas])
                    (some ("receipt status ".toList ++ status_text (receipt.bind (·.status))))
      else exhausted attempts gas_prices last_err

def with_gas_bump : Run := loop s w s.max_attempts 0 s.initial_gas_price [] none

def gas_at (i : ℕ) : ℤ := (bump s)^[i] s.initial_gas_price

/-- The attempt neither returns nor raises. -/
def GoesOn (i : ℕ) : Prop :=
  match (w.attempt i).sent with
  | .error _ => True
  | .ok _ =>
      match wait_for s w i with
      | .timed_out => True
      | .raised _ => False
      | .received receipt => ¬ success (receipt.bind (·.status))

/-- From one attempt the loop comes to another. -/
inductive Reaches : ℕ → ℕ → Prop where
  | here {i : ℕ} (hleft : i < s.max_attempts) (hbudget : InBudget s w i) : Reaches i i
  | next {i k : ℕ} (hleft : i < s.max_attempts) (hbudget : InBudget s w i) (h : GoesOn s w i)
      (hk : Reaches (i + 1) k) : Reaches i k

/-- The call makes the attempt. -/
def Makes (i : ℕ) : Prop := Reaches s w 0 i

/-- The attempt finds its transaction included. -/
def Finds (i : ℕ) (tx_hash : Text) : Prop :=
  (w.attempt i).sent = .ok tx_hash ∧ ∃ receipt, wait_for s w i = .received receipt ∧
    success (receipt.bind (·.status))

end Loop

/-- A transaction in the chain. -/
structure Inclusion where
  tx_hash : Text
  time : ℚ
  status : Option Status

/-- What becomes of the nonce: the hash of the transaction that is signed for a price, and
the one transaction that is included, if any. -/
structure Chain where
  hash_of : ℤ → Text
  included : Option Inclusion

def answered_at (w : World) (i : ℕ) : ℚ := (w.attempt i).sent_at + (w.attempt i).delay

/-- The node names the transaction that it is sent, and gives out the receipt of what is
included from its inclusion on. -/
structure Honest (s : Settings) (w : World) (chain : Chain) : Prop where
  sent : ∀ i tx_hash, (w.attempt i).sent = .ok tx_hash → tx_hash = chain.hash_of (gas_at s i)
  receipt : ∀ i tx_hash r, (w.attempt i).sent = .ok tx_hash → (w.attempt i).reply = .ok (some r) →
    ∃ x, chain.included = some x ∧ x.tx_hash = tx_hash ∧ x.status = r.status ∧
      x.time ≤ answered_at w i
  pending : ∀ i tx_hash x, (w.attempt i).sent = .ok tx_hash → (w.attempt i).reply = .ok none →
    chain.included = some x → x.tx_hash = tx_hash → answered_at w i < x.time

/-- A transaction of the call has been included with status 1 within the budget. -/
structure Succeeded (s : Settings) (w : World) (chain : Chain) (tried : List ℤ)
    (x : Inclusion) : Prop where
  included : chain.included = some x
  submitted : x.tx_hash ∈ tried.map chain.hash_of
  status : success x.status
  in_time : x.time - w.start ≤ s.total_budget_sec

structure Truthful (s : Settings) (w : World) (chain : Chain) (run : Run) : Prop where
  reported : ∀ x, Succeeded s w chain run.tried x →
    ∃ o, run.result = .ok o ∧ o.tx_hash = some x.tx_hash
  included : ∀ o tx_hash, run.result = .ok o → o.tx_hash = some tx_hash →
    ∃ x, chain.included = some x ∧ x.tx_hash = tx_hash ∧ success x.status

/-- What the node lets the call see: where one of its transactions succeeds, one of its
attempts has that hash for an answer, and asks for the receipt late enough. -/
def SeenInTime (s : Settings) (w : World) (chain : Chain) : Prop :=
  ∀ x, chain.included = some x → success x.status → x.time - w.start ≤ s.total_budget_sec →
    (∃ i, Makes s w i ∧ chain.hash_of (gas_at s i) = x.tx_hash) →
      ∃ i, Makes s w i ∧ (w.attempt i).sent = .ok x.tx_hash ∧
        (w.attempt i).delay < timeout s w i ∧ (∃ receipt, (w.attempt i).reply = .ok receipt) ∧
          x.time ≤ answered_at w i

section Runs

variable {s : Settings} {w : World}

theorem gas_at_succ (s : Settings) (i : ℕ) : gas_at s (i + 1) = bump s (gas_at s i) :=
  Function.iterate_succ_apply' _ _ _

theorem reaches_iff {i k : ℕ} :
    Reaches s w i k ↔
      i < s.max_attempts ∧ InBudget s w i ∧ (k = i ∨ GoesOn s w i ∧ Reaches s w (i + 1) k) := by
  constructor
  · rintro (⟨hleft, hbudget⟩ | ⟨hleft, hbudget, h, hk⟩)
    · exact ⟨hleft, hbudget, .inl rfl⟩
    · exact ⟨hleft, hbudget, .inr ⟨h, hk⟩⟩
  · rintro ⟨hleft, hbudget, rfl | ⟨h, hk⟩⟩
    · exact .here hleft hbudget
    · exact .next hleft hbudget h hk

theorem wait_for_received {i : ℕ} {receipt : Option Receipt} :
    wait_for s w i = .received receipt ↔
      (w.attempt i).delay < timeout s w i ∧ (w.attempt i).reply = .ok receipt := by
  unfold wait_for
  split_ifs with hdelay
  · rcases (w.attempt i).reply with exc | r
    · simp
    · simp [hdelay]
  · simp [hdelay]

theorem Finds.not_goes_on {i : ℕ} {tx_hash : Text} (h : Finds s w i tx_hash) :
    ¬ GoesOn s w i := by
  obtain ⟨hsent, receipt, hwait, hsuccess⟩ := h
  unfold GoesOn
  rw [hsent]
  simpa only [hwait, not_not] using hsuccess

/-- What the loop tries and finds from an attempt on. -/
structure LoopSpec (s : Settings) (w : World) (i : ℕ) (gas_prices : List ℤ) (run : Run) :
    Prop where
  tried : ∀ g, g ∈ run.tried ↔ g ∈ gas_prices ∨ ∃ k, Reaches s w i k ∧ gas_at s k = g
  found : ∀ tx_hash, (∃ o, run.result = .ok o ∧ o.tx_hash = some tx_hash) ↔
    ∃ k, Reaches s w i k ∧ Finds s w k tx_hash

theorem loopSpec_exhausted {i attempts : ℕ} (h : ∀ k, ¬ Reaches s w i k) (gas_prices : List ℤ)
    (last_err : Option Text) :
    LoopSpec s w i gas_prices (exhausted attempts gas_prices last_err) := by
  refine ⟨?_, ?_⟩
  · simp [exhausted, h]
  · simp [exhausted, h]

theorem LoopSpec.goes_on {i : ℕ} {gas_prices : List ℤ} {run : Run} (hleft : i < s.max_attempts)
    (hbudget : InBudget s w i) (h : GoesOn s w i)
    (hrun : LoopSpec s w (i + 1) (gas_prices ++ [gas_at s i]) run) :
    LoopSpec s w i gas_prices run := by
  have hreaches (k : ℕ) : Reaches s w i k ↔ k = i ∨ Reaches s w (i + 1) k := by
    rw [reaches_iff]
    simp [hleft, hbudget, h]
  refine ⟨?_, ?_⟩
  · intro g
    rw [hrun.tried, List.mem_append, List.mem_singleton, or_assoc]
    refine or_congr_right ?_
    constructor
    · rintro (rfl | ⟨k, hk, rfl⟩)
      · exact ⟨i, .here hleft hbudget, rfl⟩
      · exact ⟨k, .next hleft hbudget h hk, rfl⟩
    · rintro ⟨k, hk, rfl⟩
      rcases (hreaches k).mp hk with rfl | hk
      · exact .inl rfl
      · exact .inr ⟨k, hk, rfl⟩
  · intro tx_hash
    rw [hrun.found]
    constructor
    · rintro ⟨k, hk, hfinds⟩
      exact ⟨k, .next hleft hbudget h hk, hfinds⟩
    · rintro ⟨k, hk, hfinds⟩
      rcases (hreaches k).mp hk with rfl | hk
      · exact absurd h hfinds.not_goes_on
      · exact ⟨k, hk, hfinds⟩

/-- An attempt that does not go on is the last one. -/
theorem loopSpec_ends {i : ℕ} {gas_prices : List ℤ} {result : Except Text RetryOutcome}
    (hleft : i < s.max_attempts) (hbudget : InBudget s w i) (h : ¬ GoesOn s w i)
    (hfound : ∀ tx_hash, (∃ o, result = .ok o ∧ o.tx_hash = some tx_hash) ↔
      Finds s w i tx_hash) :
    LoopSpec s w i gas_prices { tried := gas_prices ++ [gas_at s i], result } := by
  have hreaches (k : ℕ) : Reaches s w i k ↔ k = i := by
    rw [reaches_iff]
    simp [hleft, hbudget, h]
  refine ⟨?_, ?_⟩
  · intro g
    simp [hreaches, eq_comm]
  · intro tx_hash
    rw [hfound]
    simp [hreaches]

/-- What the loop makes of an attempt: each way on bumps the price once. -/
inductive Attempted (s : Settings) (w : World) (left i : ℕ) (gas : ℤ) (gas_prices : List ℤ) :
    Run → Prop where
  | goes_on (h : GoesOn s w i) (err : Text) :
      Attempted s w left i gas gas_prices
        (loop s w left (i + 1) (bump s gas) (gas_prices ++ [gas]) (some err))
  | ends (h : ¬ GoesOn s w i) (result : Except Text RetryOutcome)
      (found : ∀ tx_hash, (∃ o, result = .ok o ∧ o.tx_hash = some tx_hash) ↔
        Finds s w i tx_hash) :
      Attempted s w left i gas gas_prices { tried := gas_prices ++ [gas], result }

theorem loop_attempted {i : ℕ} (hbudget : InBudget s w i) (left : ℕ) (gas : ℤ)
    (gas_prices : List ℤ) (last_err : Option Text) :
    Attempted s w left i gas gas_prices (loop s w (left + 1) i gas gas_prices last_err) := by
  rw [loop, if_pos hbudget]
  rcases hsent : (w.attempt i).sent with exc | tx_hash
  · exact .goes_on (by simp [GoesOn, hsent]) _
  · rcases hwait : wait_for s w i with receipt | _ | exc
    · by_cases hsuccess : success (receipt.bind (·.status))
      · have hstop : ¬ GoesOn s w i := by simpa [GoesOn, hsent, hwait] using hsuccess
        simp only [if_pos hsuccess]
        apply Attempted.ends hstop
        intro h'
        simp [Finds, hsent, hwait, hsuccess]
      · simp only [if_neg hsuccess]
        exact .goes_on (by simpa [GoesOn, hsent, hwait] using hsuccess) _
    · exact .goes_on (by simp [GoesOn, hsent, hwait]) _
    · have hstop : ¬ GoesOn s w i := by simp [GoesOn, hsent, hwait]
      apply Attempted.ends hstop
      intro h'
      simp [Finds, hwait]

theorem loop_spec {left i : ℕ} (h : i + left = s.max_attempts) (gas_prices : List ℤ)
    (last_err : Option Text) :
    LoopSpec s w i gas_prices (loop s w left i (gas_at s i) gas_prices last_err) := by
  induction left generalizing i gas_prices last_err with
  | zero =>
      refine loopSpec_exhausted ?_ gas_prices last_err
      intro k hk
      have hleft := (reaches_iff.mp hk).1
      omega
  | succ left ih =>
      have hleft : i < s.max_attempts := by omega
      by_cases hbudget : InBudget s w i
      · have hattempted := loop_attempted hbudget left (gas_at s i) gas_prices last_err
        generalize loop s w (left + 1) i (gas_at s i) gas_prices last_err = run at hattempted ⊢
        rcases hattempted with ⟨hgoes, err⟩ | ⟨hstop, result, hfound⟩
        · rw [← gas_at_succ]
          exact (ih (by omega) _ _).goes_on hleft hbudget hgoes
        · exact loopSpec_ends hleft hbudget hstop hfound
      · rw [loop, if_neg hbudget]
        refine loopSpec_exhausted ?_ gas_prices last_err
        intro k hk
        exact hbudget (reaches_iff.mp hk).2.1

theorem run_spec (s : Settings) (w : World) : LoopSpec s w 0 [] (with_gas_bump s w) :=
  loop_spec (Nat.zero_add _) [] none

end Runs

section Truth

variable {s : Settings} {w : World} {chain : Chain}

/-- What an attempt finds has been included before the answer. -/
theorem Honest.included_of_finds (h : Honest s w chain) {i : ℕ} {tx_hash : Text}
    (hfinds : Finds s w i tx_hash) :
    ∃ x, chain.included = some x ∧ x.tx_hash = tx_hash ∧ success x.status ∧
      x.time ≤ answered_at w i ∧ (w.attempt i).delay < timeout s w i := by
  obtain ⟨hsent, receipt, hwait, hsuccess⟩ := hfinds
  obtain ⟨hdelay, hreply⟩ := wait_for_received.mp hwait
  rcases receipt with _ | r
  · simp [success] at hsuccess
  · obtain ⟨x, hx, hhash, hstatus, htime⟩ := h.receipt i tx_hash r hsent hreply
    exact ⟨x, hx, hhash, hstatus ▸ hsuccess, htime, hdelay⟩

theorem Honest.finds_of_answered (h : Honest s w chain) {i : ℕ} {x : Inclusion}
    {receipt : Option Receipt} (hx : chain.included = some x) (hstatus : success x.status)
    (hsent : (w.attempt i).sent = .ok x.tx_hash) (hdelay : (w.attempt i).delay < timeout s w i)
    (hreply : (w.attempt i).reply = .ok receipt) (htime : x.time ≤ answered_at w i) :
    Finds s w i x.tx_hash := by
  refine ⟨hsent, receipt, wait_for_received.mpr ⟨hdelay, hreply⟩, ?_⟩
  rcases receipt with _ | r
  · have hlate := h.pending i _ x hsent hreply hx rfl
    exact absurd htime (not_le.mpr hlate)
  · obtain ⟨y, hy, -, hr, -⟩ := h.receipt i _ r hsent hreply
    obtain rfl : x = y := Option.some.inj (hx.symm.trans hy)
    have hsuccess : success r.status := hr ▸ hstatus
    exact hsuccess

/-- The outcome is truthful where the node lets the call see its transaction in time. -/
theorem outcome_truthful_iff (h : Honest s w chain) :
    Truthful s w chain (with_gas_bump s w) ↔ SeenInTime s w chain := by
  have hspec := run_spec s w
  constructor
  · intro htruth x hx hstatus htime ⟨i, hi, hhash⟩
    have hsubmitted : x.tx_hash ∈ (with_gas_bump s w).tried.map chain.hash_of :=
      List.mem_map.mpr ⟨gas_at s i, (hspec.tried _).mpr (.inr ⟨i, hi, rfl⟩), hhash⟩
    obtain ⟨k, hk, hfinds⟩ :=
      (hspec.found _).mp (htruth.reported x ⟨hx, hsubmitted, hstatus, htime⟩)
    obtain ⟨y, hy, -, -, hanswered, hdelay⟩ := h.included_of_finds hfinds
    obtain rfl : x = y := Option.some.inj (hx.symm.trans hy)
    obtain ⟨receipt, hwait, -⟩ := hfinds.2
    exact ⟨k, hk, hfinds.1, hdelay, ⟨receipt, (wait_for_received.mp hwait).2⟩, hanswered⟩
  · intro hseen
    refine ⟨?_, ?_⟩
    · intro x hx
      obtain ⟨g, hg, hhash⟩ := List.mem_map.mp hx.submitted
      have hmade : ∃ i, Makes s w i ∧ chain.hash_of (gas_at s i) = x.tx_hash := by
        rcases (hspec.tried g).mp hg with hnil | ⟨k, hk, rfl⟩
        · simp at hnil
        · exact ⟨k, hk, hhash⟩
      obtain ⟨i, hi, hsent, hdelay, ⟨receipt, hreply⟩, htime⟩ :=
        hseen x hx.included hx.status hx.in_time hmade
      exact (hspec.found _).mpr
        ⟨i, hi, h.finds_of_answered hx.included hx.status hsent hdelay hreply htime⟩
    · intro o tx_hash ho hhash
      obtain ⟨k, -, hfinds⟩ := (hspec.found tx_hash).mp ⟨o, ho, hhash⟩
      obtain ⟨x, hx, hhash', hstatus, -, -⟩ := h.included_of_finds hfinds
      exact ⟨x, hx, hhash', hstatus⟩

/-- The settings of `log_decision`. -/
def log_decision_settings (base_gas_price : ℤ) : Settings where
  initial_gas_price := base_gas_price
  bump_pct := double (1 / 5)
  max_attempts := 3
  total_budget_sec := 120

def price_hash (gas : ℤ) : Text := "0x".toList ++ (toString gas).toList

/-- One attempt a second: the node takes every transaction and answers each query at once,
with a receipt if the transaction is the included one and the time has come. -/
def prompt_world (included : Inclusion) : World where
  start := 0
  attempt i :=
    { checked_at := i
      sent := .ok (price_hash (gas_at (log_decision_settings 100) i))
      sent_at := i
      delay := 1 / 2
      reply :=
        .ok (if price_hash (gas_at (log_decision_settings 100) i) = included.tx_hash ∧
            included.time ≤ i + 1 / 2 then
          some { status := included.status }
        else none) }

def prompt_chain (included : Inclusion) : Chain where
  hash_of := price_hash
  included := some included

theorem prompt_honest (included : Inclusion) :
    Honest (log_decision_settings 100) (prompt_world included) (prompt_chain included) := by
  refine ⟨?_, ?_, ?_⟩
  · intro i tx_hash hsent
    exact (Except.ok.inj hsent).symm
  · intro i tx_hash r hsent hreply
    obtain rfl := Except.ok.inj hsent
    have hr := Except.ok.inj hreply
    split_ifs at hr with hincluded
    obtain rfl := Option.some.inj hr
    exact ⟨included, rfl, hincluded.1.symm, rfl, hincluded.2⟩
  · intro i tx_hash x hsent hreply hx hhash
    obtain rfl := Except.ok.inj hsent
    obtain rfl := Option.some.inj hx
    have hr := Except.ok.inj hreply
    split_ifs at hr with hincluded
    exact not_le.mp fun htime => hincluded ⟨hhash.symm, htime⟩

/-- The first transaction, included at once. -/
def at_once : Inclusion := ⟨price_hash 100, 1 / 4, some (.text "0x1".toList)⟩

/-- The first transaction, included in the fifth second. -/
def in_five_seconds : Inclusion := ⟨price_hash 100, 5, some (.text "0x1".toList)⟩

theorem outcome_truthful_iff_at_once :
    Truthful (log_decision_settings 100) (prompt_world at_once) (prompt_chain at_once)
        (with_gas_bump (log_decision_settings 100) (prompt_world at_once)) ↔
      SeenInTime (log_decision_settings 100) (prompt_world at_once) (prompt_chain at_once) :=
  outcome_truthful_iff (prompt_honest at_once)

theorem late_run :
    with_gas_bump (log_decision_settings 100) (prompt_world in_five_seconds) =
      { tried := [100, 120, 144]
        result := .ok
          { attempts := 3, gas_prices := [100, 120, 144], tx_hash := none, receipt := none,
            error := some "receipt status None".toList } } := by
  decide +kernel

/-- All three attempts are over within three seconds, and the transaction that is included
two seconds later, long within the budget, is reported as failed. -/
theorem late_inclusion_not_reported :
    Honest (log_decision_settings 100) (prompt_world in_five_seconds)
        (prompt_chain in_five_seconds) ∧
      Succeeded (log_decision_settings 100) (prompt_world in_five_seconds)
        (prompt_chain in_five_seconds) [100, 120, 144] in_five_seconds ∧
      ¬ Truthful (log_decision_settings 100) (prompt_world in_five_seconds)
        (prompt_chain in_five_seconds)
        (with_gas_bump (log_decision_settings 100) (prompt_world in_five_seconds)) := by
  have hsucceeded : Succeeded (log_decision_settings 100) (prompt_world in_five_seconds)
      (prompt_chain in_five_seconds) [100, 120, 144] in_five_seconds := by
    refine ⟨rfl, by simp [prompt_chain, in_five_seconds], .inr rfl, ?_⟩
    norm_num [in_five_seconds, prompt_world, log_decision_settings]
  refine ⟨prompt_honest _, hsucceeded, ?_⟩
  rw [late_run]
  intro htruth
  obtain ⟨o, ho, hhash⟩ := htruth.reported _ hsucceeded
  obtain rfl := Except.ok.inj ho
  simp at hhash

end Truth

end ArticTrader.GasBump
