import Mathlib.Data.Finset.Card
import Mathlib.Data.Fintype.Option
import ArticTrader.StrategyTables

/-!
The number of reports that the marketplace keeps beside them, with any requests in
progress, and whether enough of them hide a strategy.
-/

namespace ArticTrader.ReportCounts

open ArticTrader.ConcurrentCalls
open ArticTrader.LabelledRuns
open ArticTrader.MarketplaceRoutes hiding step Request handle
open ArticTrader.PythonText
open ArticTrader.StrategyRoutes hiding step Request handle
open ArticTrader.StrategySessions
open ArticTrader.StrategyTables

variable {β : Type}

def Exact (s : Database β) : Prop :=
  ∀ mp ∈ s.hub.marketplace_strategies, mp.reports_count = reports_of s.reports mp.id

/-- The users who have reported the strategy. -/
def reporters (reports : List MarketplaceReport) (id : Text) : Finset Text :=
  ((reports.filter (·.strategy_id = id)).map (·.reporter_user_id)).toFinset

/-- The counts are exact, and every strategy that enough users have reported is hidden. -/
def Counted (s : Database β) : Prop :=
  Exact s ∧ ∀ mp ∈ s.hub.marketplace_strategies,
    AUTOHIDE_THRESHOLD ≤ (reporters s.reports mp.id).card → hides mp = true

/-- The report that is committed: its strategy and the count. -/
def recorded_by : Phase → Input → Option (MarketplaceStrategy × ℤ)
  | .recording _ mp _ count, .go => some (mp, count)
  | _, _ => none

/-- No other report of the strategy was committed since a report was counted that is
committed now. -/
def UpToDate {ι : Type*} (s : State ι β) : Event ι → Prop
  | .call _ _ _ => True
  | .input i x => ∀ c ∈ recorded_by (s.calls i) x, c.2 = reports_of s.shared.reports c.1.id + 1

instance (s : Database β) : Decidable (Exact s) := inferInstanceAs (Decidable (∀ mp ∈ _, _))

instance (s : Database β) : Decidable (Counted s) :=
  inferInstanceAs (Decidable (_ ∧ ∀ mp ∈ _, _ → _))

instance {ι : Type*} (s : State ι β) : DecidablePred (UpToDate s)
  | .call _ _ _ => inferInstanceAs (Decidable True)
  | .input _ _ => inferInstanceAs (Decidable (∀ c ∈ _, _))

theorem card_reporters_le (reports : List MarketplaceReport) (id : Text) :
    (reporters reports id).card ≤ reports_of reports id := by
  refine (List.toFinset_card_le _).trans ?_
  rw [List.length_map, reports_of, List.countP_eq_length_filter]

theorem counted_iff (s : Database β) : Counted s ↔ Exact s := by
  refine ⟨And.left, fun h => ⟨h, ?_⟩⟩
  intro mp hmp hreporters
  have hcard := card_reporters_le s.reports mp.id
  have hcount := h mp hmp
  have hle : AUTOHIDE_THRESHOLD ≤ mp.reports_count := by omega
  simp [hides, hle]

/-- The count that a report has loaded is not ahead of the reports. -/
def Lags (s : Database β) : Phase → Prop
  | .reporting _ mp _ | .tallying _ mp _ | .recording _ mp _ _ =>
      mp.reports_count ≤ reports_of s.reports mp.id
  | _ => True

/-- The reports refer to rows of the marketplace. -/
def Referred (s : Database β) : Prop := ∀ r ∈ s.reports, HasId s r.strategy_id

theorem Lags.evolves {s s' : Database β} {p : Phase} (h : Evolves s s') (hp : Lags s p) :
    Lags s' p := by
  have hle : ∀ id, (reports_of s.reports id : ℤ) ≤ reports_of s'.reports id :=
    fun id => Int.ofNat_le.mpr (h.reports id)
  unfold Lags at hp ⊢
  split at hp
  next => exact hp.trans (hle _)
  next => exact hp.trans (hle _)
  next => exact hp.trans (hle _)
  next => trivial

theorem exact_columns {s : Database β} {hub : Hub β} {loaded assigned : MarketplaceStrategy}
    {reports : List MarketplaceReport} :
    Exact { s with hub := update_columns hub loaded assigned, reports } ↔
      ∀ mp ∈ hub.marketplace_strategies,
        (if mp.id = loaded.id then
          column loaded.reports_count assigned.reports_count mp.reports_count
        else mp.reports_count) = reports_of reports mp.id :=
  tallies_columns fun _ => rfl

variable {env : Env β} {s : Database β}

theorem exact_of_same {s' : Database β} (h : Exact s)
    (hmps : s'.hub.marketplace_strategies = s.hub.marketplace_strategies)
    (hreports : s'.reports = s.reports) : Exact s' := by
  intro mp hmp
  rw [hreports]
  exact h mp (hmps ▸ hmp)

/-- An `UPDATE` that does not count keeps the counts exact. -/
theorem exact_update {s' : Database β} {hub : Hub β} {loaded assigned : MarketplaceStrategy}
    (h : Exact s) (hmps : hub.marketplace_strategies = s.hub.marketplace_strategies)
    (hrows : s'.hub.marketplace_strategies =
      (update_columns hub loaded assigned).marketplace_strategies)
    (hreports : s'.reports = s.reports)
    (hcount : assigned.reports_count = loaded.reports_count) : Exact s' := by
  have hbefore : Tallies hub (·.reports_count) (reports_of s.reports) :=
    fun mp hmp => h mp (hmps ▸ hmp)
  have hupdated : Exact { s with hub := update_columns hub loaded assigned } :=
    hbefore.update (fun _ => rfl) hcount
  exact exact_of_same hupdated hrows hreports

theorem exact_publish {mp : MarketplaceStrategy} {hub : Hub β} {issued : List Text}
    (hs : Tables s) (hreferred : Referred s) (h : Exact s) (hnew : mp.id ∉ s.issued)
    (hcount : mp.reports_count = 0) (hinsert : s.hub.insert_marketplace mp = some hub) :
    Exact { s with hub, issued } := by
  have hnone : reports_of s.reports mp.id = 0 := by
    refine List.countP_eq_zero.mpr ?_
    intro r hr hid
    obtain ⟨found, hfound, heq⟩ := hreferred r hr
    have hid : r.strategy_id = mp.id := by simpa using hid
    exact hnew (hid ▸ heq ▸ hs.published found hfound)
  exact Tallies.insert h hinsert hcount hnone

theorem reports_append (reports : List MarketplaceReport) (report : MarketplaceReport)
    (id : Text) : reports_of (reports ++ [report]) id =
      reports_of reports id + if report.strategy_id = id then 1 else 0 := by
  unfold reports_of
  rw [List.countP_append, List.countP_singleton]
  simp only [decide_eq_true_eq]

theorem exact_report_iff {user : User} {mp : MarketplaceStrategy} {reason : Text} {count : ℤ}
    (h : Exact s) (hrow : HasRow s mp) (hlags : Lags s (.recording user mp reason count)) :
    Exact (commit_report s user mp reason count).1 ↔ count = reports_of s.reports mp.id + 1 := by
  have hle : mp.reports_count ≤ reports_of s.reports mp.id := hlags
  unfold commit_report
  dsimp only
  rw [exact_columns]
  simp only [reports_append]
  constructor
  · intro hafter
    obtain ⟨current, hcurrent, hid, -⟩ := hrow
    have hcount := hafter current hcurrent
    have hbefore := h current hcurrent
    rw [if_pos hid, if_pos hid.symm, hid, column] at hcount
    rw [hid] at hbefore
    push_cast at hcount
    split at hcount
    next => omega
    next => omega
  · intro hcount current hcurrent
    have hbefore := h current hcurrent
    by_cases hid : current.id = mp.id
    · have hne : count ≠ mp.reports_count := by omega
      rw [if_pos hid, if_pos hid.symm, column, if_neg hne, hcount, hid]
      push_cast
      rfl
    · rw [if_neg hid, if_neg (Ne.symm hid), Nat.add_zero]
      exact hbefore

/-- The steps of the other requests. -/
theorem exact_other {p : Phase} {x : Input} {r : Database β × Phase} (hs : Tables s)
    (hreferred : Referred s) (h : Exact s) (hrecord : recorded_by p x = none)
    (hr : Resumed env s p x r) : Exact r.1 := by
  cases hr with
  | read => exact h
  | aborted => exact h
  | created row new_id hub hnew hinsert => exact exact_of_same h (insert_row_rows hinsert).1 rfl
  | patched loaded assigned current hub hcurrent hid hupdate =>
      exact exact_of_same h (update_row_rows hupdate) rfl
  | deleted row mp =>
      cases mp with
      | none => exact h
      | some mp =>
          unfold commit_delete uninstall
          dsimp only
          split
          next => exact exact_update h rfl rfl rfl rfl
          next => exact h
  | installed user mp new_id hub hnew hinsert =>
      exact exact_update h (insert_row_rows hinsert).1 rfl rfl rfl
  | granted user mp delivery =>
      exact exact_of_same h (grant_usage_tables env s.hub user mp delivery).1 rfl
  | minted => exact h
  | published user sent token new_id hub hnew hinsert =>
      have hid := with_mint_id (published_row user new_id sent none) token
      exact exact_publish hs hreferred h (hid ▸ hnew) (with_mint_reports_count _ token) hinsert
  | republished user sent existing token =>
      exact exact_update h rfl rfl rfl (with_mint_reports_count _ token)
  | flushed => exact h
  | recorded => cases hrecord

theorem lags_resumed {p : Phase} {x : Input} {r : Database β × Phase} (h : Exact s)
    (hp : Lags s p) (hr : Resumed env s p x r) : Lags r.1 r.2 := by
  cases hr with
  | read _ _ p' hreads =>
      cases hreads with
      | reporting user strategy_id reason mp hmp => exact (h mp hmp).le
      | tallied => exact hp
      | _ => trivial
  | flushed => exact hp
  | minted user sent existing delivery =>
      unfold mint
      dsimp only
      split
      next => trivial
      next => trivial
  | aborted => trivial
  | created => trivial
  | patched => trivial
  | deleted => trivial
  | installed => trivial
  | granted => trivial
  | published => trivial
  | republished => trivial
  | recorded => trivial

theorem referred_resumed {p : Phase} {x : Input} {r : Database β × Phase} (hreferred : Referred s)
    (hp : Knows s p) (hevolves : Evolves s r.1) (hr : Resumed env s p x r) : Referred r.1 := by
  have hkept : ∀ report ∈ s.reports, HasId r.1 report.strategy_id :=
    fun report hreport => hevolves.hasId (hreferred report hreport)
  cases hr with
  | recorded user mp reason count =>
      have hrow : HasRow s mp := hp
      intro report hreport
      rcases List.mem_append.mp hreport with hbefore | hnow
      · exact hkept report hbefore
      · rw [List.mem_singleton.mp hnow]
        exact hevolves.hasId hrow.id
  | _ => exact hkept

theorem lags_call (user : User) (request : Request) : Lags s (call env user request) := by
  cases request with
  | create body =>
      unfold call
      dsimp only
      split_ifs <;> trivial
  | patch strategy_id body =>
      unfold call
      dsimp only
      split_ifs <;> trivial
  | delete strategy_id => trivial
  | install strategy_id => trivial
  | publish strategy_id => trivial
  | report strategy_id reason =>
      unfold call
      dsimp only
      split_ifs <;> trivial

theorem recorded_by_some {p : Phase} {x : Input} {c : MarketplaceStrategy × ℤ}
    (h : recorded_by p x = some c) :
    ∃ user mp reason count, p = .recording user mp reason count ∧ x = .go ∧ c = (mp, count) := by
  unfold recorded_by at h
  split at h
  next user mp reason count =>
      cases h
      exact ⟨user, mp, reason, count, rfl, rfl, rfl⟩
  next => cases h

section

variable {ι : Type*} [DecidableEq ι]

structure Kept (s : State ι β) : Prop where
  sound : Sound s
  exact : Exact s.shared
  referred : Referred s.shared
  lags : ∀ i, Lags s.shared (s.calls i)

theorem upToDate_iff {s s' : State ι β} {e : Event ι} (h : Kept s)
    (hstep : step env s e = some s') : UpToDate s e ↔ Exact s'.shared := by
  cases e with
  | call i user request =>
      obtain ⟨-, hstep⟩ := Option.ite_none_right_eq_some.mp hstep
      cases hstep
      exact iff_of_true trivial h.exact
  | input i x =>
      obtain ⟨r, hr, rfl⟩ := Option.map_eq_some_iff.mp hstep
      unfold UpToDate
      dsimp only
      cases hrecord : recorded_by (s.calls i) x with
      | none =>
          have hexact := exact_other h.sound.tables h.referred h.exact hrecord
            (resumed_of_resume hr)
          exact iff_of_true (by simp) hexact
      | some c =>
          have hlags := h.lags i
          have hknows := h.sound.knows i
          obtain ⟨user, mp, reason, count, hp, rfl, rfl⟩ := recorded_by_some hrecord
          rw [hp] at hr hlags hknows
          cases hr
          have hrow : HasRow s.shared mp := hknows
          have hexact := exact_report_iff h.exact hrow hlags
          simpa using hexact.symm

theorem kept_step {s s' : State ι β} {e : Event ι} (h : Kept s) (hcounts : UpToDate s e)
    (hstep : step env s e = some s') : Kept s' := by
  have hexact := (upToDate_iff h hstep).mp hcounts
  have hsound := sound_step h.sound hstep
  cases e with
  | call i user request =>
      obtain ⟨-, hstep⟩ := Option.ite_none_right_eq_some.mp hstep
      cases hstep
      refine ⟨hsound, hexact, h.referred, ?_⟩
      refine System.forall_set (P := fun _ (q : Phase) => Lags s.shared q) ?_ fun j _ => h.lags j
      exact lags_call user request
  | input i x =>
      obtain ⟨r, hr, rfl⟩ := Option.map_eq_some_iff.mp hstep
      have hresumed := resumed_of_resume hr
      have hevolves := (follows_resumed h.sound.tables (h.sound.knows i) hresumed).1.evolves
      refine ⟨hsound, hexact, referred_resumed h.referred (h.sound.knows i) hevolves hresumed, ?_⟩
      refine System.forall_set (P := fun _ (q : Phase) => Lags r.1 q) ?_
        fun j _ => (h.lags j).evolves hevolves
      exact lags_resumed h.exact (h.lags i) hresumed

/-- The counts are exact in every state of a run, and hide what enough users have
reported, just if no report is committed whose count is out of date. -/
theorem reports_counted_iff {es : List (Event ι)} {s t : State ι β} (hs : Sound s)
    (hreferred : Referred s.shared) (hidle : ∀ i, (s.calls i).finished = true)
    (hexact : Exact s.shared) (hrun : run (step env) s es = some t) :
    AllSteps (step env) UpToDate s es ↔
      ∀ m later, Passes (step env) s es m later → Counted m.shared := by
  simp only [counted_iff]
  refine allSteps_iff_passes (fun _ _ _ => kept_step) (fun _ _ _ => upToDate_iff)
    (fun _ h => h.exact) hrun ⟨hs, hexact, hreferred, ?_⟩
  intro i
  have hfinished := hidle i
  cases hp : s.calls i with
  | done outcome => trivial
  | _ =>
      rw [hp] at hfinished
      cases hfinished

end

/-- A report, up to its commit. -/
def report_tallied {ι : Type*} (i : ι) (name : String) : List (Event ι) :=
  [.call i (member name) (.report "m".toList "spam".toList), .input i .go, .input i .go,
    .input i .go]

/-- Three users report the strategy one after the other. -/
theorem reports_counted_in_turn : ∃ t : State Bool _, run (step sample)
      (one_published Bool ["b", "c", "d"])
      (["b", "c", "d"].flatMap fun name => report_tallied false name ++ [.input false .go]) =
        some t ∧ Counted t.shared := by
  obtain ⟨t, hrun⟩ := Option.isSome_iff_exists.mp (show (run (step sample)
      (one_published Bool ["b", "c", "d"])
      (["b", "c", "d"].flatMap fun name =>
        report_tallied false name ++ [.input false .go])).isSome by decide)
  refine ⟨t, hrun, ?_⟩
  exact (reports_counted_iff (one_published_sound Bool _) nofun (fun _ => rfl) (by decide)
    hrun).mp (by decide) t [] ⟨_, (List.append_nil _).symm, hrun⟩

/-- The requests are reports. -/
def Reports {ι : Type*} : Event ι → Prop
  | .call _ _ (.report _ _) | .input _ _ => True
  | _ => False

/-- Three users report the strategy, each before another commits: it is not hidden. -/
theorem reports_lost :
    ¬ ∀ (s t : State (Option Bool) TokenStandard.Tokens) (es : List (Event (Option Bool))),
      Sound s → Exact s.shared → (∀ i, (s.calls i).finished = true) → (∀ e ∈ es, Reports e) →
        run (step sample) s es = some t → (∀ i, (t.calls i).finished = true) →
          Counted t.shared := by
  intro h
  obtain ⟨t, hrun, hfinished, hnot⟩ : ∃ t ∈ run (step sample)
      (one_published (Option Bool) ["b", "c", "d"])
      (report_tallied none "b" ++ report_tallied (some false) "c" ++
        report_tallied (some true) "d" ++
        [.input none .go, .input (some false) .go, .input (some true) .go]),
      (∀ i, (t.calls i).finished = true) ∧ ¬ Counted t.shared := by decide
  refine hnot (h _ t _ (one_published_sound _ _) (by decide) (fun _ => rfl) ?_ hrun
    hfinished)
  simp [report_tallied, Reports]

end ArticTrader.ReportCounts
