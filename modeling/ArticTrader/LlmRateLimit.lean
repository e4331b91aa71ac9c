import ArticTrader.LabelledRuns
import ArticTrader.PythonText
import ArticTrader.TokenBuckets
import Mathlib.Data.Rat.Cast.Order

/-!
The rate limit of the LLM proxy of a user server: one token bucket for all
agents of the VM, and per agent counters of the calls that passed it.
-/

namespace ArticTrader.LlmRateLimit

open LabelledRuns
open PythonText
open TokenBuckets

structure TokenBucket where
  capacity : ℕ
  refill_per_sec : ℚ
  tokens : ℚ
  last : ℚ
  refill_nonneg : 0 ≤ refill_per_sec

def TokenBucket.init (capacity : ℕ) (refill_per_sec : ℚ) (hrefill : 0 ≤ refill_per_sec)
    (now : ℚ) : TokenBucket :=
  { capacity, refill_per_sec, tokens := capacity, last := now, refill_nonneg := hrefill }

def TokenBucket.refilled (self : TokenBucket) (now : ℚ) : ℚ :=
  min (self.capacity : ℚ) (self.tokens + (now - self.last) * self.refill_per_sec)

def TokenBucket.take (self : TokenBucket) (now cost : ℚ) : Bool × TokenBucket :=
  if cost ≤ self.refilled now then
    (true, { self with tokens := self.refilled now - cost, last := now })
  else (false, { self with tokens := self.refilled now, last := now })

structure RateLimited where
  message : String
  deriving DecidableEq

structure State where
  _bucket : TokenBucket
  _agent_counts : Text → ℕ

/-- A call, and what the monotonic clock shows when it is made. -/
structure Call where
  now : ℚ
  agent_id : Option Text

def counted (counts : Text → ℕ) (agent_id : Option Text) : Text → ℕ :=
  if truthy agent_id then
    fun agent => if agent_id = some agent then counts agent + 1 else counts agent
  else counts

def check_and_count (s : State) (call : Call) : Except RateLimited Unit × State :=
  let (taken, bucket) := s._bucket.take call.now 1
  if taken then
    (.ok (), { _bucket := bucket, _agent_counts := counted s._agent_counts call.agent_id })
  else (.error ⟨"LLM proxy: 60/min per VM exceeded"⟩, { s with _bucket := bucket })

/-- The module with a bucket made at `now`; it has `60` and `60 / 60`. -/
def fresh (capacity : ℕ) (refill_per_sec : ℚ) (hrefill : 0 ≤ refill_per_sec) (now : ℚ) : State :=
  { _bucket := .init capacity refill_per_sec hrefill now, _agent_counts := fun _ => 0 }

def called (s : State) (call : Call) : State :=
  (check_and_count s call).2

def admitted (s : State) (call : Call) : ℚ × Bool :=
  (call.now, (check_and_count s call).1.isOk)

def Filled (s : State) : Prop :=
  0 ≤ s._bucket.tokens ∧ s._bucket.tokens ≤ s._bucket.capacity

theorem check_and_count_of_le {s : State} {call : Call}
    (hcost : 1 ≤ s._bucket.refilled call.now) :
    check_and_count s call = (.ok (),
      { _bucket := { s._bucket with tokens := s._bucket.refilled call.now - 1, last := call.now }
        _agent_counts := counted s._agent_counts call.agent_id }) := by
  simp only [check_and_count, TokenBucket.take, if_pos hcost, if_true]

theorem check_and_count_of_lt {s : State} {call : Call}
    (hcost : s._bucket.refilled call.now < 1) :
    check_and_count s call = (.error ⟨"LLM proxy: 60/min per VM exceeded"⟩,
      { s with _bucket :=
          { s._bucket with tokens := s._bucket.refilled call.now, last := call.now } }) := by
  simp only [check_and_count, TokenBucket.take, if_neg (not_le.mpr hcost), Bool.false_eq_true,
    if_false]

theorem refilled_le (b : TokenBucket) (now : ℚ) : b.refilled now ≤ b.capacity :=
  min_le_left _ _

theorem refilled_le_gain (b : TokenBucket) (now : ℚ) :
    b.refilled now ≤ b.tokens + (now - b.last) * b.refill_per_sec :=
  min_le_right _ _

theorem refilled_nonneg {s : State} (hs : Filled s) {now : ℚ} (hclock : s._bucket.last ≤ now) :
    0 ≤ s._bucket.refilled now := by
  have hgain := mul_nonneg (sub_nonneg.mpr hclock) s._bucket.refill_nonneg
  exact le_min (Nat.cast_nonneg _) (add_nonneg hs.1 hgain)

theorem filled_called {s : State} (hs : Filled s) {call : Call}
    (hclock : s._bucket.last ≤ call.now) : Filled (called s call) := by
  have hhigh := refilled_le s._bucket call.now
  rcases le_or_gt 1 (s._bucket.refilled call.now) with hcost | hcost
  · rw [called, check_and_count_of_le hcost]
    exact ⟨sub_nonneg.mpr hcost, le_trans (sub_le_self _ zero_le_one) hhigh⟩
  · rw [called, check_and_count_of_lt hcost]
    exact ⟨refilled_nonneg hs hclock, hhigh⟩

@[simp] theorem called_last (s : State) (call : Call) :
    (called s call)._bucket.last = call.now := by
  rcases le_or_gt 1 (s._bucket.refilled call.now) with hcost | hcost
  · rw [called, check_and_count_of_le hcost]
  · rw [called, check_and_count_of_lt hcost]

@[simp] theorem called_capacity (s : State) (call : Call) :
    (called s call)._bucket.capacity = s._bucket.capacity := by
  rcases le_or_gt 1 (s._bucket.refilled call.now) with hcost | hcost
  · rw [called, check_and_count_of_le hcost]
  · rw [called, check_and_count_of_lt hcost]

@[simp] theorem called_refill_per_sec (s : State) (call : Call) :
    (called s call)._bucket.refill_per_sec = s._bucket.refill_per_sec := by
  rcases le_or_gt 1 (s._bucket.refilled call.now) with hcost | hcost
  · rw [called, check_and_count_of_le hcost]
  · rw [called, check_and_count_of_lt hcost]

/-- The clock never runs back, from the bucket's last reading on. -/
def Ticks (s : State) (calls : List Call) : Prop :=
  (s._bucket.last :: calls.map Call.now).Pairwise (· ≤ ·)

theorem Ticks.head {s : State} {call : Call} {calls : List Call}
    (h : Ticks s (call :: calls)) : s._bucket.last ≤ call.now :=
  List.rel_of_pairwise_cons h (List.mem_cons_self ..)

theorem Ticks.tail {s : State} {call : Call} {calls : List Call}
    (h : Ticks s (call :: calls)) : Ticks (called s call) calls := by
  rw [Ticks, called_last]
  exact (List.pairwise_cons.mp h).2

theorem filled_after {s : State} {past later : List Call} (h : Ticks s (past ++ later))
    (hs : Filled s) : Filled (past.foldl called s) := by
  induction past generalizing s with
  | nil => exact hs
  | cons call past ih => exact ih h.tail (filled_called hs h.head)

theorem explains_log {s : State} {calls : List Call} (h : Ticks s calls) (hs : Filled s) :
    Explains (s._bucket.capacity : ℚ) s._bucket.refill_per_sec s._bucket.tokens s._bucket.last
      (record called admitted s calls) := by
  induction calls generalizing s with
  | nil => exact .nil _ _
  | cons call calls ih =>
      have hrest := ih h.tail (filled_called hs h.head)
      rw [called_capacity, called_refill_per_sec, called_last] at hrest
      have hgain := refilled_le_gain s._bucket call.now
      rw [record]
      rcases le_or_gt 1 (s._bucket.refilled call.now) with hcost | hcost
      · have hadmitted : admitted s call = (call.now, true) := by
          rw [admitted, check_and_count_of_le hcost]
          rfl
        have htokens : (called s call)._bucket.tokens = s._bucket.refilled call.now - 1 := by
          rw [called, check_and_count_of_le hcost]
        rw [hadmitted]
        rw [htokens] at hrest
        exact .grant h.head (refilled_le _ _) hgain hcost hrest
      · have hadmitted : admitted s call = (call.now, false) := by
          rw [admitted, check_and_count_of_lt hcost]
          rfl
        have htokens : (called s call)._bucket.tokens = s._bucket.refilled call.now := by
          rw [called, check_and_count_of_lt hcost]
        rw [hadmitted]
        rw [htokens] at hrest
        exact .refuse h.head (refilled_le _ _) hgain (refilled_nonneg hs h.head) hrest

theorem filled_fresh (capacity : ℕ) (refill_per_sec : ℚ) (hrefill : 0 ≤ refill_per_sec)
    (now : ℚ) : Filled (fresh capacity refill_per_sec hrefill now) :=
  ⟨Nat.cast_nonneg capacity, le_refl (capacity : ℚ)⟩

/-- A refused call counts for no agent and only refills the bucket. -/
theorem refused_only_refills {s : State} {call : Call} {e : RateLimited}
    (h : (check_and_count s call).1 = .error e) :
    (called s call)._agent_counts = s._agent_counts ∧
      (called s call)._bucket.tokens = s._bucket.refilled call.now := by
  rcases le_or_gt 1 (s._bucket.refilled call.now) with hcost | hcost
  · rw [check_and_count_of_le hcost] at h
    nomatch h
  · rw [called, check_and_count_of_lt hcost]
    exact ⟨rfl, rfl⟩

theorem rate_limit_in_every_window (capacity : ℕ) (refill_per_sec : ℚ)
    (hrefill : 0 ≤ refill_per_sec) (start : ℚ) (calls : List Call)
    (hclock : (start :: calls.map Call.now).Pairwise (· ≤ ·)) :
    let s := fresh capacity refill_per_sec hrefill start
    (∀ past later, calls = past ++ later →
      0 ≤ (past.foldl called s)._bucket.tokens ∧
        (past.foldl called s)._bucket.tokens ≤ capacity) ∧
    (∀ t T : ℚ, 0 ≤ T →
      (admittedIn t T (record called admitted s calls) : ℚ) ≤ capacity + refill_per_sec * T) ∧
    ∀ past call later e, calls = past ++ call :: later →
      (check_and_count (past.foldl called s) call).1 = .error e →
      (called (past.foldl called s) call)._agent_counts = (past.foldl called s)._agent_counts ∧
        (called (past.foldl called s) call)._bucket.tokens =
          min (capacity : ℚ) ((past.foldl called s)._bucket.tokens +
            (call.now - (past.foldl called s)._bucket.last) * refill_per_sec) := by
  intro s
  have hfilled := filled_fresh capacity refill_per_sec hrefill start
  have hsame (past : List Call) : (past.foldl called s)._bucket.capacity = capacity ∧
      (past.foldl called s)._bucket.refill_per_sec = refill_per_sec := by
    induction past using List.reverseRecOn with
    | nil => exact ⟨rfl, rfl⟩
    | append_singleton past call ih => simpa [List.foldl_append] using ih
  refine ⟨?_, ?_, ?_⟩
  · rintro past later rfl
    have hafter := filled_after (s := s) hclock hfilled
    rw [Filled, (hsame past).1] at hafter
    exact hafter
  · exact (explains_log (s := s) hclock hfilled).conforms hrefill (Nat.cast_nonneg capacity)
  · rintro past call later e rfl herror
    obtain ⟨hcounts, htokens⟩ := refused_only_refills herror
    rw [TokenBucket.refilled, (hsame past).1, (hsame past).2] at htokens
    exact ⟨hcounts, htokens⟩

def burst : List Call :=
  [⟨0, some "a".toList⟩, ⟨1 / 2, none⟩, ⟨1 / 2, some "a".toList⟩, ⟨2, some "b".toList⟩]

theorem per_second_nonneg : (0 : ℚ) ≤ 60 / 60 := by norm_num

theorem burst_in_every_window :
    (0 :: burst.map Call.now).Pairwise (· ≤ ·) ∧
      ∀ t T : ℚ, 0 ≤ T →
        (admittedIn t T
          (record called admitted (fresh 60 (60 / 60) per_second_nonneg 0) burst) : ℚ) ≤
          60 + 60 / 60 * T :=
  have hclock : (0 :: burst.map Call.now).Pairwise (· ≤ ·) := by decide +kernel
  ⟨hclock, (rate_limit_in_every_window 60 (60 / 60) per_second_nonneg 0 burst hclock).2.1⟩

end ArticTrader.LlmRateLimit
