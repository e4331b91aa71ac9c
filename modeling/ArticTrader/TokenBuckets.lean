import Mathlib.Algebra.Order.Field.Basic
import Mathlib.Tactic.Linarith
import Mathlib.Tactic.Ring

/-!
Logs of rate limited calls: when each call was made and whether it was
admitted. A log is explained by a bucket that holds at most `capacity` units,
gains at most `rate` of them a time unit and gives one to each admitted call.
-/

namespace ArticTrader.TokenBuckets

variable {K : Type*} [Field K] [LinearOrder K] [IsStrictOrderedRing K]

inductive Explains (capacity rate : K) : K → K → List (K × Bool) → Prop
  | nil (level time : K) : Explains capacity rate level time []
  | grant {level time filled now : K} {log : List (K × Bool)} (hclock : time ≤ now)
      (hcapacity : filled ≤ capacity) (hgain : filled ≤ level + (now - time) * rate)
      (hcost : 1 ≤ filled) (hrest : Explains capacity rate (filled - 1) now log) :
      Explains capacity rate level time ((now, true) :: log)
  | refuse {level time filled now : K} {log : List (K × Bool)} (hclock : time ≤ now)
      (hcapacity : filled ≤ capacity) (hgain : filled ≤ level + (now - time) * rate)
      (hlevel : 0 ≤ filled) (hrest : Explains capacity rate filled now log) :
      Explains capacity rate level time ((now, false) :: log)

def admittedUntil (b : K) (log : List (K × Bool)) : ℕ :=
  log.countP fun call => call.2 && decide (call.1 ≤ b)

def admittedIn (t T : K) (log : List (K × Bool)) : ℕ :=
  log.countP fun call => call.2 && (decide (t ≤ call.1) && decide (call.1 ≤ t + T))

/-- No window of any length admits more than a full bucket and what it gains
in that length. -/
def Conforms (capacity rate : K) (log : List (K × Bool)) : Prop :=
  ∀ t T : K, 0 ≤ T → (admittedIn t T log : K) ≤ capacity + rate * T

variable {capacity rate level time b : K} {log : List (K × Bool)}

omit [IsStrictOrderedRing K] in
theorem Explains.admittedUntil_eq_zero (h : Explains capacity rate level time log)
    (hb : b < time) : admittedUntil b log = 0 := by
  induction h with
  | nil => rfl
  | grant hclock _ _ _ _ ih =>
      have hnow := lt_of_lt_of_le hb hclock
      simpa [admittedUntil, not_le.mpr hnow] using ih hnow
  | refuse hclock _ _ _ _ ih =>
      simpa [admittedUntil] using ih (lt_of_lt_of_le hb hclock)

theorem Explains.admittedUntil_le (h : Explains capacity rate level time log)
    (hrate : 0 ≤ rate) (hlevel : 0 ≤ level) (hb : time ≤ b) :
    (admittedUntil b log : K) ≤ level + rate * (b - time) := by
  induction h with
  | nil level time =>
      have hgain : 0 ≤ rate * (b - time) := mul_nonneg hrate (sub_nonneg.mpr hb)
      simpa [admittedUntil] using add_nonneg hlevel hgain
  | @grant level time filled now log hclock _ hgain hcost hrest ih =>
      by_cases hnow : now ≤ b
      · have hlater := ih (sub_nonneg.mpr hcost) hnow
        have hcount : admittedUntil b ((now, true) :: log) = admittedUntil b log + 1 := by
          simp [admittedUntil, hnow]
        rw [hcount, Nat.cast_add, Nat.cast_one]
        linarith
      · have hnone : admittedUntil b ((now, true) :: log) = 0 := by
          have hrest' := hrest.admittedUntil_eq_zero (not_le.mp hnow)
          simpa [admittedUntil, hnow] using hrest'
        rw [hnone, Nat.cast_zero]
        exact add_nonneg hlevel (mul_nonneg hrate (sub_nonneg.mpr hb))
  | @refuse level time filled now log hclock _ hgain hfilled hrest ih =>
      have hcount : admittedUntil b ((now, false) :: log) = admittedUntil b log := by
        simp [admittedUntil]
      rw [hcount]
      by_cases hnow : now ≤ b
      · have hlater := ih hfilled hnow
        linarith
      · rw [hrest.admittedUntil_eq_zero (not_le.mp hnow), Nat.cast_zero]
        exact add_nonneg hlevel (mul_nonneg hrate (sub_nonneg.mpr hb))

omit [IsStrictOrderedRing K] in
theorem Explains.admittedIn_eq {t T : K} (h : Explains capacity rate level time log)
    (ht : t ≤ time) : admittedIn t T log = admittedUntil (t + T) log := by
  induction h with
  | nil => rfl
  | grant hclock _ _ _ _ ih =>
      have hnow := le_trans ht hclock
      have hrest := ih hnow
      simp only [admittedIn, admittedUntil] at hrest ⊢
      rw [List.countP_cons, List.countP_cons, hrest]
      simp [hnow]
  | refuse hclock _ _ _ _ ih =>
      simpa [admittedIn, admittedUntil] using ih (le_trans ht hclock)

theorem Explains.conforms (h : Explains capacity rate level time log)
    (hrate : 0 ≤ rate) (hcapacity : 0 ≤ capacity) : Conforms capacity rate log := by
  intro t T hT
  induction h with
  | nil => simpa [admittedIn] using add_nonneg hcapacity (mul_nonneg hrate hT)
  | @grant level time filled now log hclock hfull hgain hcost hrest ih =>
      by_cases ht : t ≤ now
      · by_cases hend : now ≤ t + T
        · have hcount : admittedIn t T ((now, true) :: log) = admittedUntil (t + T) log + 1 := by
            rw [← hrest.admittedIn_eq ht]
            simp [admittedIn, ht, hend]
          have hlater := hrest.admittedUntil_le hrate (sub_nonneg.mpr hcost) hend
          have hspan : rate * (t + T - now) ≤ rate * T :=
            mul_le_mul_of_nonneg_left (by linarith) hrate
          rw [hcount, Nat.cast_add, Nat.cast_one]
          linarith
        · have hcount : admittedIn t T ((now, true) :: log) = admittedIn t T log := by
            simp [admittedIn, hend]
          rw [hcount]
          exact ih
      · have hcount : admittedIn t T ((now, true) :: log) = admittedIn t T log := by
          simp [admittedIn, ht]
        rw [hcount]
        exact ih
  | @refuse level time filled now log _ _ _ _ _ ih =>
      have hcount : admittedIn t T ((now, false) :: log) = admittedIn t T log := by
        simp [admittedIn]
      rw [hcount]
      exact ih

end ArticTrader.TokenBuckets
