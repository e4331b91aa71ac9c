import Mathlib.Data.Option.Basic
import Mathlib.Data.List.Basic
import Mathlib.Logic.Function.Iterate

/-!
Runs of a partial transition function over a list of labels. A label may stand
for a message, a call or one step of one of several interleaved parties; the
order of the list is the order of the interleaving.
-/

namespace ArticTrader.LabelledRuns

variable {σ ε : Type*}

def run (step : σ → ε → Option σ) : σ → List ε → Option σ
  | s, [] => some s
  | s, e :: es => (step s e).bind fun s' => run step s' es

/-- Every step of the run is taken in a state in which `C` allows it. -/
def AllSteps (step : σ → ε → Option σ) (C : σ → ε → Prop) : σ → List ε → Prop
  | _, [] => True
  | s, e :: es => C s e ∧ ∀ s' ∈ step s e, AllSteps step C s' es

variable {step : σ → ε → Option σ} {C : σ → ε → Prop} {P : σ → Prop}

@[simp] theorem run_nil (s : σ) : run step s [] = some s := rfl

theorem run_cons_iff {s t : σ} {e : ε} {es : List ε} :
    run step s (e :: es) = some t ↔
      ∃ s', step s e = some s' ∧ run step s' es = some t := by
  simp [run, Option.bind_eq_some_iff]

theorem run_append_iff {s t : σ} {es fs : List ε} :
    run step s (es ++ fs) = some t ↔
      ∃ m, run step s es = some m ∧ run step m fs = some t := by
  induction es generalizing s with
  | nil => simp
  | cons e es ih =>
      rw [List.cons_append, run_cons_iff]
      constructor
      · rintro ⟨s', hstep, hrun⟩
        obtain ⟨m, hfirst, hsecond⟩ := ih.mp hrun
        exact ⟨m, run_cons_iff.mpr ⟨s', hstep, hfirst⟩, hsecond⟩
      · rintro ⟨m, hfirst, hsecond⟩
        obtain ⟨s', hstep, hrest⟩ := run_cons_iff.mp hfirst
        exact ⟨s', hstep, ih.mpr ⟨m, hrest, hsecond⟩⟩

theorem forall_step_iff {Q : σ → Prop} {s s' : σ} {e : ε} (h : step s e = some s') :
    (∀ s'' ∈ step s e, Q s'') ↔ Q s' := by
  constructor
  · intro hall
    exact hall s' h
  · intro hQ s'' hs''
    rw [h] at hs''
    exact Option.some.inj hs'' ▸ hQ

theorem allSteps_cons_iff {s s' : σ} {e : ε} {es : List ε} (h : step s e = some s') :
    AllSteps step C s (e :: es) ↔ C s e ∧ AllSteps step C s' es :=
  and_congr_right fun _ => forall_step_iff h

/-- A property that every allowed step preserves holds at the end of a run all
of whose steps are allowed. -/
theorem run_invariant_of_allSteps {s t : σ} {es : List ε}
    (hstep : ∀ s e s', P s → C s e → step s e = some s' → P s')
    (hrun : run step s es = some t) (hall : AllSteps step C s es) (hs : P s) :
    P t := by
  induction es generalizing s with
  | nil =>
      cases hrun
      exact hs
  | cons e es ih =>
      obtain ⟨s', hs', hrest⟩ := run_cons_iff.mp hrun
      exact ih hrest (hall.2 s' hs') (hstep s e s' hs hall.1 hs')

/-- Steps allowed by `C` are allowed by `D` where an invariant of theirs says so. -/
theorem AllSteps.of_invariant {D : σ → ε → Prop} {s : σ} {es : List ε}
    (h : AllSteps step C s es) (hstep : ∀ s e s', P s → C s e → step s e = some s' → P s')
    (hCD : ∀ s e, P s → C s e → D s e) (hs : P s) : AllSteps step D s es := by
  induction es generalizing s with
  | nil => trivial
  | cons e es ih =>
      exact ⟨hCD s e hs h.1, fun s' hs' => ih (h.2 s' hs') (hstep s e s' hs h.1 hs')⟩

theorem AllSteps.mono {D : σ → ε → Prop} {s : σ} {es : List ε} (h : AllSteps step C s es)
    (hCD : ∀ s e, C s e → D s e) : AllSteps step D s es :=
  h.of_invariant (P := fun _ => True) (fun _ _ _ _ _ _ => trivial) (fun s e _ => hCD s e) trivial

theorem allSteps_true (s : σ) (es : List ε) : AllSteps step (fun _ _ => True) s es := by
  induction es generalizing s with
  | nil => trivial
  | cons e es ih => exact ⟨trivial, fun s' _ => ih s'⟩

theorem AllSteps.and {D : σ → ε → Prop} {s : σ} {es : List ε} (hC : AllSteps step C s es)
    (hD : AllSteps step D s es) : AllSteps step (fun s e => C s e ∧ D s e) s es := by
  induction es generalizing s with
  | nil => trivial
  | cons e es ih => exact ⟨⟨hC.1, hD.1⟩, fun s' hs' => ih (hC.2 s' hs') (hD.2 s' hs')⟩

theorem allSteps_of_forall_mem {Q : ε → Prop} {es : List ε} (h : ∀ e ∈ es, Q e) (s : σ) :
    AllSteps step (fun _ e => Q e) s es := by
  induction es generalizing s with
  | nil => trivial
  | cons e es ih =>
      obtain ⟨hfirst, hrest⟩ := List.forall_mem_cons.mp h
      exact ⟨hfirst, fun s' _ => ih hrest s'⟩

theorem allSteps_iff_forall_mem {Q : ε → Prop} {s t : σ} {es : List ε}
    (hrun : run step s es = some t) : AllSteps step (fun _ e => Q e) s es ↔ ∀ e ∈ es, Q e := by
  refine ⟨?_, fun h => allSteps_of_forall_mem h s⟩
  induction es generalizing s with
  | nil => exact fun _ => nofun
  | cons e es ih =>
      intro hall
      obtain ⟨s', hs', hrest⟩ := run_cons_iff.mp hrun
      exact List.forall_mem_cons.mpr ⟨hall.1, ih hrest (hall.2 s' hs')⟩

theorem allSteps_of_invariant {s : σ} {es : List ε} (hC : ∀ s e, P s → C s e)
    (hstep : ∀ s e s', P s → step s e = some s' → P s') (hs : P s) : AllSteps step C s es := by
  induction es generalizing s with
  | nil => trivial
  | cons e es ih => exact ⟨hC s e hs, fun s' hs' => ih (hstep s e s' hs hs')⟩

theorem allSteps_append_iff {s : σ} {es fs : List ε} :
    AllSteps step C s (es ++ fs) ↔
      AllSteps step C s es ∧ ∀ m, run step s es = some m → AllSteps step C m fs := by
  induction es generalizing s with
  | nil => simp [AllSteps]
  | cons e es ih =>
      simp only [List.cons_append, AllSteps, ih, run_cons_iff]
      constructor
      · rintro ⟨hC, hrest⟩
        refine ⟨⟨hC, fun s' hs' => (hrest s' hs').1⟩, ?_⟩
        rintro m ⟨s', hs', hrun⟩
        exact (hrest s' hs').2 m hrun
      · rintro ⟨⟨hC, hrest⟩, hlater⟩
        exact ⟨hC, fun s' hs' => ⟨hrest s' hs', fun m hm => hlater m ⟨s', hs', hm⟩⟩⟩

theorem run_total (f : σ → ε → σ) (s : σ) (es : List ε) :
    run (fun s e => some (f s e)) s es = some (es.foldl f s) := by
  induction es generalizing s with
  | nil => rfl
  | cons e es ih => exact ih (f s e)

theorem run_invariant {s t : σ} {es : List ε}
    (hstep : ∀ s e s', P s → step s e = some s' → P s')
    (hrun : run step s es = some t) (hs : P s) : P t :=
  run_invariant_of_allSteps (fun s e s' hP _ => hstep s e s' hP) hrun
    (allSteps_true s es) hs

/-- The transition function with the labels so far kept beside the state. -/
def recorded (step : σ → ε → Option σ) (w : σ × List ε) (e : ε) : Option (σ × List ε) :=
  (step w.1 e).map fun s => (s, w.2 ++ [e])

theorem recorded_some_iff {w w' : σ × List ε} {e : ε} :
    recorded step w e = some w' ↔ step w.1 e = some w'.1 ∧ w'.2 = w.2 ++ [e] := by
  constructor
  · intro h
    obtain ⟨s, hs, rfl⟩ := Option.map_eq_some_iff.mp h
    exact ⟨hs, rfl⟩
  · rintro ⟨hs, hpast⟩
    exact Option.map_eq_some_iff.mpr ⟨w'.1, hs, Prod.ext rfl hpast.symm⟩

theorem run_recorded {s t : σ} {es : List ε} (hrun : run step s es = some t) (past : List ε) :
    run (recorded step) (s, past) es = some (t, past ++ es) := by
  induction es generalizing s past with
  | nil =>
      cases hrun
      rw [run_nil, List.append_nil]
  | cons e es ih =>
      obtain ⟨s', hs', hrest⟩ := run_cons_iff.mp hrun
      refine run_cons_iff.mpr ⟨(s', past ++ [e]), recorded_some_iff.mpr ⟨hs', rfl⟩, ?_⟩
      rw [ih hrest, List.append_assoc, List.singleton_append]

/-- Two systems that stay related under every label have related runs. -/
theorem run_rel {τ : Type*} {step' : τ → ε → Option τ} {R : σ → τ → Prop}
    (hstep : ∀ s s' e, R s s' → Option.Rel R (step s e) (step' s' e)) {s : σ} {s' : τ}
    (h : R s s') (es : List ε) : Option.Rel R (run step s es) (run step' s' es) := by
  induction es generalizing s s' with
  | nil => exact .some h
  | cons e es ih =>
      have hfirst := hstep s s' e h
      cases h₁ : step s e with
      | none =>
          cases h₂ : step' s' e with
          | none => simp [run, h₁, h₂]
          | some t' =>
              rw [h₁, h₂] at hfirst
              cases hfirst
      | some t =>
          cases h₂ : step' s' e with
          | none =>
              rw [h₁, h₂] at hfirst
              cases hfirst
          | some t' =>
              rw [h₁, h₂] at hfirst
              cases hfirst with
              | some ht => simpa [run, h₁, h₂] using ih ht

theorem run_map_eq {τ α : Type*} {step' : τ → ε → Option τ} {R : σ → τ → Prop} {f : σ → α}
    {g : τ → α} (hstep : ∀ s s' e, R s s' → Option.Rel R (step s e) (step' s' e))
    (hend : ∀ s s', R s s' → f s = g s') {s : σ} {s' : τ} (h : R s s') (es : List ε) :
    (run step s es).map f = (run step' s' es).map g := by
  have hrel := run_rel hstep h es
  generalize run step s es = r at hrel ⊢
  generalize run step' s' es = r' at hrel ⊢
  cases hrel with
  | some ht => exact congrArg some (hend _ _ ht)
  | none => rfl

/-- Two conditions that agree on the steps from states with `P` allow the same runs. -/
theorem allSteps_congr {D : σ → ε → Prop} {s t : σ} {es : List ε}
    (hstep : ∀ s e s', P s → step s e = some s' → P s')
    (hiff : ∀ s e s', P s → step s e = some s' → (C s e ↔ D s e))
    (hrun : run step s es = some t) (hs : P s) :
    AllSteps step C s es ↔ AllSteps step D s es := by
  induction es generalizing s with
  | nil => exact Iff.rfl
  | cons e es ih =>
      obtain ⟨s', hs', hrest⟩ := run_cons_iff.mp hrun
      rw [allSteps_cons_iff hs', allSteps_cons_iff hs', hiff s e s' hs hs',
        ih hrest (hstep s e s' hs hs')]

/-- Where each step adds its condition to what holds of the state, so does a run of
allowed steps. -/
theorem final_iff_of_allSteps {I : σ → Prop} {D : σ → ε → Prop} {s t : σ} {es : List ε}
    (hstep : ∀ s e s', P s → C s e → step s e = some s' → P s')
    (hiff : ∀ s e s', P s → step s e = some s' → (I s' ↔ I s ∧ D s e))
    (hrun : run step s es = some t) (hall : AllSteps step C s es) (hs : P s) :
    I t ↔ I s ∧ AllSteps step D s es := by
  induction es generalizing s with
  | nil =>
      cases hrun
      simp [AllSteps]
  | cons e es ih =>
      obtain ⟨s', hs', hrest⟩ := run_cons_iff.mp hrun
      have hlater := (allSteps_cons_iff hs').mp hall
      rw [ih hrest hlater.2 (hstep s e s' hs hlater.1 hs'), hiff s e s' hs hs',
        allSteps_cons_iff hs', and_assoc]

theorem final_iff_allSteps {I : σ → Prop} {s t : σ} {es : List ε}
    (hstep : ∀ s e s', P s → step s e = some s' → P s')
    (hiff : ∀ s e s', P s → step s e = some s' → (I s' ↔ I s ∧ C s e))
    (hrun : run step s es = some t) (hs : P s) : I t ↔ I s ∧ AllSteps step C s es :=
  final_iff_of_allSteps (fun s e s' hP _ => hstep s e s' hP) hiff hrun (allSteps_true s es) hs

/-- A run with a step that is not allowed reaches a state in which it takes it. -/
theorem exists_violation {s t : σ} {es : List ε} (hrun : run step s es = some t)
    (hnot : ¬ AllSteps step C s es) :
    ∃ before e after m m', es = before ++ e :: after ∧
      run step s before = some m ∧ ¬ C m e ∧ step m e = some m' ∧
      run step m' after = some t := by
  induction es generalizing s with
  | nil => exact absurd trivial hnot
  | cons e es ih =>
      obtain ⟨s', hs', hrest⟩ := run_cons_iff.mp hrun
      by_cases hC : C s e
      · have hlater : ¬ AllSteps step C s' es := by
          intro hall
          exact hnot ((allSteps_cons_iff hs').mpr ⟨hC, hall⟩)
        obtain ⟨before, f, after, m, m', rfl, hbefore, hf, hstep, hafter⟩ :=
          ih hrest hlater
        exact ⟨e :: before, f, after, m, m', rfl,
          run_cons_iff.mpr ⟨s', hs', hbefore⟩, hf, hstep, hafter⟩
      · exact ⟨[], e, es, s, s', rfl, rfl, hC, hs', hrest⟩

def Passes (step : σ → ε → Option σ) (s : σ) (es : List ε) (m : σ) (later : List ε) : Prop :=
  ∃ before, es = before ++ later ∧ run step s before = some m

theorem passes_cons {s s' m : σ} {e : ε} {es later : List ε} (hstep : step s e = some s')
    (h : Passes step s' es m later) : Passes step s (e :: es) m later := by
  obtain ⟨before, rfl, hrun⟩ := h
  exact ⟨e :: before, rfl, run_cons_iff.mpr ⟨s', hstep, hrun⟩⟩

theorem Passes.run_later {s t m : σ} {es later : List ε} (h : Passes step s es m later)
    (hrun : run step s es = some t) : run step m later = some t := by
  obtain ⟨before, rfl, hbefore⟩ := h
  obtain ⟨m', hm', hlater⟩ := run_append_iff.mp hrun
  have heq : m' = m := Option.some.inj (hm'.symm.trans hbefore)
  exact heq ▸ hlater

theorem Passes.allSteps {s m : σ} {es later : List ε} (h : Passes step s es m later)
    (hall : AllSteps step C s es) : AllSteps step C m later := by
  obtain ⟨before, rfl, hbefore⟩ := h
  exact (allSteps_append_iff.mp hall).2 m hbefore

theorem Passes.invariant {s m : σ} {es later : List ε} (h : Passes step s es m later)
    (hstep : ∀ s e s', P s → C s e → step s e = some s' → P s')
    (hall : AllSteps step C s es) (hs : P s) : P m := by
  obtain ⟨before, rfl, hbefore⟩ := h
  exact run_invariant_of_allSteps hstep hbefore (allSteps_append_iff.mp hall).1 hs

/-- Whatever is done next, a state with `P` comes about. -/
inductive Inevitable (step : σ → ε → Option σ) (P : σ → Prop) : σ → Prop
  | now {s : σ} (h : P s) : Inevitable step P s
  | later {s : σ} (hlive : ∃ e s', step s e = some s')
      (h : ∀ e s', step s e = some s' → Inevitable step P s') : Inevitable step P s

theorem Inevitable.of_run {s t : σ} {es : List ε} (h : Inevitable step P s)
    (hstop : ∀ s, P s → ∀ e, step s e = none) (hrun : run step s es = some t) :
    Inevitable step P t := by
  induction es generalizing s with
  | nil =>
      cases hrun
      exact h
  | cons e es ih =>
      obtain ⟨s', hs', hrest⟩ := run_cons_iff.mp hrun
      cases h with
      | now hP =>
          rw [hstop s hP e] at hs'
          cases hs'
      | later _ hnext => exact ih (hnext e s' hs') hrest

theorem inevitable_iff_of_stopped {s : σ} (hstop : ∀ e, step s e = none) :
    Inevitable step P s ↔ P s := by
  constructor
  · intro h
    cases h with
    | now hP => exact hP
    | later hlive =>
        obtain ⟨e, s', hs'⟩ := hlive
        rw [hstop e] at hs'
        cases hs'
  · exact .now

/-- Where a step from a state with `P` is allowed exactly if it leads to a state
with `I`, a run from there is allowed exactly if it comes through such states. -/
theorem allSteps_iff_passes_of_allSteps {I : σ → Prop} {D : σ → ε → Prop} {s t : σ} {es : List ε}
    (hstep : ∀ s e s', P s → D s e → C s e → step s e = some s' → P s')
    (hiff : ∀ s e s', P s → D s e → step s e = some s' → (C s e ↔ I s'))
    (hP : ∀ s, P s → I s) (hrun : run step s es = some t) (hD : AllSteps step D s es) (hs : P s) :
    AllSteps step C s es ↔ ∀ m later, Passes step s es m later → I m := by
  constructor
  · intro hall m later hpass
    obtain ⟨before, rfl, hbefore⟩ := hpass
    refine hP m (run_invariant_of_allSteps (C := fun s e => D s e ∧ C s e) ?_ hbefore ?_ hs)
    · intro s e s' hs hboth
      exact hstep s e s' hs hboth.1 hboth.2
    · exact (allSteps_append_iff.mp hD).1.and (allSteps_append_iff.mp hall).1
  · intro hpasses
    induction es generalizing s with
    | nil => trivial
    | cons e es ih =>
        obtain ⟨s', hs', hrest⟩ := run_cons_iff.mp hrun
        have hI : I s' := hpasses s' es (passes_cons hs' ⟨[], rfl, rfl⟩)
        have hC : C s e := (hiff s e s' hs hD.1 hs').mpr hI
        refine (allSteps_cons_iff hs').mpr
          ⟨hC, ih hrest (hD.2 s' hs') (hstep s e s' hs hD.1 hC hs') ?_⟩
        intro m later hpass
        exact hpasses m later (passes_cons hs' hpass)

theorem allSteps_iff_passes {I : σ → Prop} {s t : σ} {es : List ε}
    (hstep : ∀ s e s', P s → C s e → step s e = some s' → P s')
    (hiff : ∀ s e s', P s → step s e = some s' → (C s e ↔ I s')) (hP : ∀ s, P s → I s)
    (hrun : run step s es = some t) (hs : P s) :
    AllSteps step C s es ↔ ∀ m later, Passes step s es m later → I m :=
  allSteps_iff_passes_of_allSteps (fun s e s' hP _ => hstep s e s' hP)
    (fun s e s' hP _ => hiff s e s' hP) hP hrun (allSteps_true s es) hs

/-- Allowed steps that use up a measure are no more than there is of it. -/
theorem length_add_measure_le {s t : σ} {es : List ε} (μ : σ → ℕ) (D : ε → Prop)
    (hstep : ∀ s e s', P s → C s e → step s e = some s' → P s')
    (hless : ∀ s e s', P s → C s e → D e → step s e = some s' → μ s' < μ s)
    (hrun : run step s es = some t) (hall : AllSteps step C s es) (hs : P s)
    (hD : ∀ e ∈ es, D e) : es.length + μ t ≤ μ s := by
  induction es generalizing s with
  | nil =>
      cases hrun
      simp
  | cons e es ih =>
      obtain ⟨s', hs', hrest⟩ := run_cons_iff.mp hrun
      have hfirst : μ s' < μ s := hless s e s' hs hall.1 (hD e (.head es)) hs'
      have hlater : es.length + μ t ≤ μ s' := by
        apply ih hrest (hall.2 s' hs') (hstep s e s' hs hall.1 hs')
        intro e' he'
        exact hD e' (.tail e he')
      simp only [List.length_cons]
      omega

instance decidableAllSteps [∀ s e, Decidable (C s e)] :
    ∀ (s : σ) (es : List ε), Decidable (AllSteps step C s es)
  | _, [] => .isTrue trivial
  | s, e :: es =>
      match h : step s e with
      | none =>
          decidable_of_iff (C s e) (by simp [AllSteps, h])
      | some s' =>
          have := decidableAllSteps s' es
          decidable_of_iff (C s e ∧ AllSteps step C s' es) (by simp [AllSteps, h])

theorem iterate_of_fixed {f : σ → σ} {s t : σ} {n m : ℕ} (hn : f^[n] s = t) (ht : f t = t)
    (hle : n ≤ m) : f^[m] s = t := by
  obtain ⟨k, rfl⟩ := Nat.exists_eq_add_of_le' hle
  rw [Function.iterate_add_apply, hn]
  exact Function.iterate_fixed ht k

theorem eq_of_iterate_fixed {f : σ → σ} {s t t' : σ} {n m : ℕ} (hn : f^[n] s = t)
    (ht : f t = t) (hm : f^[m] s = t') (ht' : f t' = t') : t = t' := by
  rcases Nat.le_total n m with hle | hle
  · exact (iterate_of_fixed hn ht hle).symm.trans hm
  · exact hn.symm.trans (iterate_of_fixed hm ht' hle)

variable {τ ω : Type*}

/-- What is observed at each step of a run that never stops. -/
def record (f : σ → ε → σ) (observe : σ → ε → ω) : σ → List ε → List ω
  | _, [] => []
  | s, e :: es => observe s e :: record f observe (f s e) es

variable {f : σ → ε → σ} {g : τ → ε → τ} {observe : σ → ε → ω} {observe' : τ → ε → ω}

theorem take_record (m : ℕ) (s : σ) (es : List ε) :
    (record f observe s es).take m = record f observe s (es.take m) := by
  induction m generalizing s es with
  | zero => rw [List.take_zero, List.take_zero, record]
  | succ m ih =>
      cases es with
      | nil => rfl
      | cons e es => rw [record, List.take_succ_cons, List.take_succ_cons, record, ih]

theorem foldl_rel {R : σ → τ → Prop} {es : List ε}
    (hstep : ∀ s t, ∀ e ∈ es, R s t → R (f s e) (g t e)) {s : σ} {t : τ} (h : R s t) :
    R (es.foldl f s) (es.foldl g t) := by
  induction es generalizing s t with
  | nil => exact h
  | cons e es ih =>
      apply ih
      · intro s t e' he'
        exact hstep s t e' (List.mem_cons_of_mem e he')
      · exact hstep s t e List.mem_cons_self h

theorem foldl_rel_of_allSteps {R : σ → τ → Prop} {es : List ε}
    (hstep : ∀ s t e, R s t → C s e → R (f s e) (g t e)) {s : σ} {t : τ}
    (hall : AllSteps (fun s e => some (f s e)) C s es) (h : R s t) :
    R (es.foldl f s) (es.foldl g t) := by
  induction es generalizing s t with
  | nil => exact h
  | cons e es ih => exact ih (hall.2 _ rfl) (hstep s t e h hall.1)

/-- Runs that look the same and stay related have the same record. -/
theorem record_eq_of_rel {R : σ → τ → Prop} {es : List ε}
    (hobserve : ∀ s t, ∀ e ∈ es, R s t → observe s e = observe' t e)
    (hstep : ∀ s t, ∀ e ∈ es, R s t → R (f s e) (g t e)) {s : σ} {t : τ} (h : R s t) :
    record f observe s es = record g observe' t es := by
  induction es generalizing s t with
  | nil => rfl
  | cons e es ih =>
      rw [record, record, hobserve s t e List.mem_cons_self h]
      congr 1
      apply ih
      · intro s t e' he'
        exact hobserve s t e' (List.mem_cons_of_mem e he')
      · intro s t e' he'
        exact hstep s t e' (List.mem_cons_of_mem e he')
      · exact hstep s t e List.mem_cons_self h

theorem forall_mem_record_iff {Q : ω → Prop} (s : σ) (es : List ε) :
    (∀ w ∈ record f observe s es, Q w) ↔
      AllSteps (fun s e => some (f s e)) (fun s e => Q (observe s e)) s es := by
  induction es generalizing s with
  | nil => simp [record, AllSteps]
  | cons e es ih => rw [record, List.forall_mem_cons, ih, allSteps_cons_iff rfl]

end ArticTrader.LabelledRuns
