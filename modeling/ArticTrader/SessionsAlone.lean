import ArticTrader.StrategyTables

/-!
A session of a strategy request that no other comes between does what the route does in
one step: it leaves the same tables and ends in the same way.
-/

namespace ArticTrader.SessionsAlone

open ArticTrader.ConcurrentCalls
open ArticTrader.LabelledRuns
open ArticTrader.MarketplaceRoutes hiding step Request handle
open ArticTrader.PythonText
open ArticTrader.StrategyRoutes hiding step Request handle
open ArticTrader.StrategySessions
open ArticTrader.StrategyTables

variable {β : Type}

def market (s : Database β) : Market β := ⟨s.hub, s.reports⟩

def ending {α : Type} : Except Failure α → Outcome
  | .ok _ => .returned
  | .error e => .failed e

def alone (env : Env β) (r : Database β × Phase) (x : Input) : Option (Database β × Phase) :=
  resume env r.1 r.2 x

/-- From the phase the session can end in this way, with nothing between its steps, and
leave these tables. -/
def Ends (env : Env β) (s : Database β) (p : Phase) (m : Market β) (outcome : Outcome) : Prop :=
  ∃ xs t, run (alone env) (s, p) xs = some (t, .done outcome) ∧ market t = m

/-- No two rows of a library have the same name. -/
def Unique (hub : Hub β) : Prop := ∀ row ∈ hub.user_strategies, hub.accepts_row row = true

variable {env : Env β} {s : Database β}

theorem unique_iff {hub : Hub β} : Unique hub ↔
    ∀ row ∈ hub.user_strategies, ∀ r ∈ hub.user_strategies,
      r.id ≠ row.id → ¬ (r.user_id = row.user_id ∧ r.name = row.name) := by
  unfold Unique Hub.accepts_row
  refine forall₂_congr ?_
  intro row _
  rw [List.all_eq_true]
  refine forall₂_congr ?_
  intro r _
  simp [or_iff_not_imp_left]

theorem unique_of_subset {hub hub' : Hub β} (h : Unique hub)
    (hrows : hub'.user_strategies ⊆ hub.user_strategies) : Unique hub' :=
  unique_iff.mpr fun row hrow r hr => unique_iff.mp h row (hrows hrow) r (hrows hr)

/-- The rows stay unique with one that the table accepts. -/
theorem unique_of_accepted {hub hub' : Hub β} {row : UserStrategy} (h : Unique hub)
    (haccepts : hub.accepts_row row = true)
    (hrows : ∀ r ∈ hub'.user_strategies, r = row ∨ r ∈ hub.user_strategies) : Unique hub' := by
  have hrow : ∀ r ∈ hub.user_strategies, r.id ≠ row.id →
      ¬ (r.user_id = row.user_id ∧ r.name = row.name) := by
    intro r hr
    have hr := List.all_eq_true.mp haccepts r hr
    simpa [or_iff_not_imp_left] using hr
  refine unique_iff.mpr ?_
  intro first hfirst second hsecond hne hsame
  rcases hrows first hfirst with rfl | hfirst
  · rcases hrows second hsecond with rfl | hsecond
    · exact hne rfl
    · exact hrow second hsecond hne hsame
  · rcases hrows second hsecond with rfl | hsecond
    · exact hrow first hfirst (Ne.symm hne) ⟨hsame.1.symm, hsame.2.symm⟩
    · exact unique_iff.mp h first hfirst second hsecond hne hsame

theorem unique_insert {hub hub' : Hub β} {row : UserStrategy} (h : Unique hub)
    (hinsert : hub.insert_row row = some hub') : Unique hub' := by
  obtain ⟨⟨-, haccepts⟩, hinsert⟩ := Option.ite_none_right_eq_some.mp hinsert
  cases hinsert
  refine unique_of_accepted h haccepts ?_
  intro r hr
  rcases List.mem_append.mp hr with hbefore | hnow
  · exact .inr hbefore
  · exact .inl (List.mem_singleton.mp hnow)

theorem unique_update {hub hub' : Hub β} {row : UserStrategy} (h : Unique hub)
    (hupdate : hub.update_row row = some hub') : Unique hub' := by
  obtain ⟨haccepts, hupdate⟩ := Option.ite_none_right_eq_some.mp hupdate
  cases hupdate
  refine unique_of_accepted h haccepts ?_
  intro r hr
  obtain ⟨current, hcurrent, rfl⟩ := List.mem_map.mp hr
  split
  next => exact .inl rfl
  next => exact .inr hcurrent

theorem unique_resumed {p : Phase} {x : Input} {r : Database β × Phase} (h : Unique s.hub)
    (hr : Resumed env s p x r) : Unique r.1.hub := by
  cases hr with
  | created row new_id hub hnew hinsert => exact unique_insert h hinsert
  | patched loaded assigned current hub hcurrent hid hupdate => exact unique_update h hupdate
  | deleted row mp =>
      have hrows := uninstall_rows s.hub mp
      exact unique_of_subset h fun r hr => hrows ▸ List.mem_of_mem_filter hr
  | installed user mp new_id hub hnew hinsert =>
      exact unique_of_subset (unique_insert h hinsert) (List.Subset.refl _)
  | granted user mp delivery =>
      have hrows := (grant_usage_tables env s.hub user mp delivery).2
      exact unique_of_subset h fun r hr => hrows ▸ hr
  | published user sent token new_id hub hnew hinsert =>
      obtain ⟨-, hinsert⟩ := Option.ite_none_left_eq_some.mp hinsert
      cases hinsert
      exact unique_of_subset h (List.Subset.refl _)
  | _ => exact unique_of_subset h (List.Subset.refl _)

theorem unique_step {ι : Type*} [DecidableEq ι] {st st' : State ι β} {e : Event ι}
    (h : Unique st.shared.hub) (hstep : step env st e = some st') : Unique st'.shared.hub := by
  cases e with
  | call i user request =>
      obtain ⟨-, hstep⟩ := Option.ite_none_right_eq_some.mp hstep
      cases hstep
      exact h
  | input i x =>
      obtain ⟨r, hr, rfl⟩ := Option.map_eq_some_iff.mp hstep
      exact unique_resumed h (resumed_of_resume hr)

theorem Ends.done (outcome : Outcome) : Ends env s (.done outcome) (market s) outcome :=
  ⟨[], s, rfl, rfl⟩

theorem Ends.next {p : Phase} {r : Database β × Phase} {x : Input} {m : Market β}
    {outcome : Outcome} (h : resume env s p x = some r) (hrest : Ends env r.1 r.2 m outcome) :
    Ends env s p m outcome := by
  obtain ⟨xs, t, hrun, hm⟩ := hrest
  exact ⟨x :: xs, t, run_cons_iff.mpr ⟨r, h, hrun⟩, hm⟩

/-- The last step of a session. -/
theorem Ends.last {p : Phase} {t : Database β} {x : Input} {m : Market β} {outcome : Outcome}
    (h : resume env s p x = some (t, .done outcome)) (hm : market t = m) :
    Ends env s p m outcome :=
  .next h (hm ▸ .done outcome)

theorem column_loaded {γ : Type} [DecidableEq γ] (loaded assigned : γ) :
    column loaded assigned loaded = assigned := by
  unfold column
  split
  next h => exact h.symm
  next => rfl

/-- An `UPDATE` of a row that is as it was loaded writes what was assigned. -/
theorem written_loaded {loaded assigned : MarketplaceStrategy} (hid : assigned.id = loaded.id) :
    written loaded assigned loaded = assigned := by
  cases assigned
  cases hid
  simp [written, column_loaded]

theorem written_row_loaded {loaded assigned : UserStrategy} (hid : assigned.id = loaded.id) :
    written_row loaded assigned loaded = assigned := by
  cases assigned
  cases hid
  simp [written_row, column_loaded]

theorem update_columns_eq {hub : Hub β} {loaded assigned : MarketplaceStrategy}
    (hkeyed : Keyed hub) (hloaded : loaded ∈ hub.marketplace_strategies)
    (hid : assigned.id = loaded.id) :
    update_columns hub loaded assigned = hub.update_marketplace assigned := by
  unfold update_columns Hub.update_marketplace
  congr 1
  refine List.map_congr_left ?_
  intro current hcurrent
  rw [hid]
  split
  next heq =>
      rw [List.inj_on_of_nodup_map hkeyed hcurrent hloaded heq]
      exact written_loaded hid
  next => rfl

theorem keyed_of_same {hub hub' : Hub β} (h : Keyed hub)
    (hmps : hub'.marketplace_strategies = hub.marketplace_strategies) : Keyed hub' := by
  unfold Keyed
  rw [hmps]
  exact h

theorem ends_create (user : User) (body : StrategyCreate) {new_id : Text}
    (hnew : new_id ∉ s.issued) :
    Ends env s (call env user (.create body))
      { market s with hub := (create_authored env s.hub user body new_id).1 }
      (ending (create_authored env s.hub user body new_id).2) := by
  unfold call create_authored
  dsimp only
  split
  next => exact .done _
  next =>
      split
      next => exact .done _
      next =>
          have hresume : ∀ row, resume env s (.creating row) (.insert new_id) =
              some (commit_create s row new_id) := fun row => if_neg hnew
          refine .next (hresume _) ?_
          unfold commit_create
          dsimp only
          generalize s.hub.insert_row _ = inserted
          cases inserted with
          | none => exact .done _
          | some hub => exact .done _

theorem load_owned_ok {hub : Hub β} {strategy_id user_id : Text} {row : UserStrategy}
    (hids : (hub.user_strategies.map (·.id)).Nodup)
    (h : load_owned hub strategy_id user_id = .ok row) :
    row ∈ hub.user_strategies ∧ hub.user_strategies.find? (·.id = row.id) = some row := by
  have hrow := mem_of_load_owned h
  refine ⟨hrow, ?_⟩
  cases hfound : hub.user_strategies.find? (·.id = row.id) with
  | none => simpa using List.find?_eq_none.mp hfound row hrow
  | some found =>
      have hid : found.id = row.id := by simpa using List.find?_some hfound
      exact congrArg some
        (List.inj_on_of_nodup_map hids (List.mem_of_find?_eq_some hfound) hrow hid)

/-- An `UPDATE` that the session leaves out would change nothing. -/
theorem update_row_self {hub : Hub β} (hids : (hub.user_strategies.map (·.id)).Nodup)
    (hunique : Unique hub) {row : UserStrategy} (hrow : row ∈ hub.user_strategies) :
    hub.update_row row = some hub := by
  unfold Hub.update_row
  rw [if_pos (hunique row hrow)]
  congr
  refine (List.map_congr_left ?_).trans (List.map_id _)
  intro r hr
  split
  next hid => exact (List.inj_on_of_nodup_map hids hr hrow hid).symm
  next => rfl

theorem patch_strategy_authored {hub : Hub β} {user : User} {strategy_id : Text}
    {body : StrategyPatch} {row : UserStrategy}
    (hload : load_owned hub strategy_id user.id = .ok row) (hauthored : row.source = .authored)
    (hname : ¬ body.name.any fun name => name.length < 1 || 128 < name.length) :
    patch_strategy env hub user strategy_id body =
      (hub.update_row (patched env row body)).elim
        (hub, .error (.http 409 "Strategy name already in use".toList))
        fun hub' => (hub', .ok (.from_row (patched env row body))) := by
  unfold patch_strategy
  rw [if_neg hname, hload]
  dsimp only
  rw [if_neg (not_not.mpr hauthored)]
  cases hcode : body.code with
  | none =>
      have hpatched : patched env row body =
          { row with
            name := body.name.getD row.name
            params_schema := body.params_schema.or row.params_schema } := by
        simp only [patched, hcode, Option.map_none, Option.none_or]
      rw [hpatched]
      cases hub.update_row _ <;> rfl
  | some code =>
      have hpatched : patched env row body =
          { row with
            name := body.name.getD row.name
            code_blob := some code
            code_hash := some (env.sha256_hex code)
            params_schema := body.params_schema.or row.params_schema } := by
        simp only [patched, hcode, Option.map_some, Option.some_or]
      rw [hpatched]
      cases hub.update_row _ <;> rfl

theorem ends_patch (hids : (s.hub.user_strategies.map (·.id)).Nodup) (hunique : Unique s.hub)
    (user : User) (strategy_id : Text) (body : StrategyPatch) :
    Ends env s (call env user (.patch strategy_id body))
      { market s with hub := (patch_strategy env s.hub user strategy_id body).1 }
      (ending (patch_strategy env s.hub user strategy_id body).2) := by
  by_cases hname : body.name.any fun name => name.length < 1 || 128 < name.length
  · unfold call patch_strategy
    dsimp only
    rw [if_pos hname, if_pos hname]
    exact .done _
  · unfold call
    dsimp only
    rw [if_neg hname]
    refine .next (x := .go) rfl ?_
    cases hload : load_owned s.hub strategy_id user.id with
    | error e =>
        simp only [select_row, hload, patch_strategy, if_neg hname]
        exact .done _
    | ok row =>
        obtain ⟨hrow, hfind⟩ := load_owned_ok hids hload
        by_cases hauthored : row.source = .authored
        · rw [patch_strategy_authored hload hauthored hname]
          simp only [select_row, hload, loaded, if_neg (not_not.mpr hauthored)]
          refine .next (x := .go) rfl ?_
          unfold commit_patch
          by_cases hsame : patched env row body = row
          · rw [if_pos hsame, hsame, update_row_self hids hunique hrow]
            exact .done _
          · rw [if_neg hsame, hfind]
            have hwritten : written_row row (patched env row body) row = patched env row body :=
              written_row_loaded rfl
            dsimp only
            rw [hwritten]
            cases hupdate : s.hub.update_row (patched env row body) with
            | none => exact .done _
            | some hub => exact .done _
        · simp only [select_row, hload, loaded, patch_strategy, if_neg hname, if_pos hauthored]
          exact .done _

theorem uninstall_eq (hkeyed : Keyed s.hub) {row : UserStrategy} {marketplace_id : Text}
    (hsource : row.source = .marketplace) (hmp : row.marketplace_id = some marketplace_id) :
    uninstall s.hub (s.hub.marketplace_strategy marketplace_id) = uninstalled s.hub row := by
  unfold uninstalled
  simp only [hsource, hmp]
  cases hfound : s.hub.marketplace_strategy marketplace_id with
  | none => rfl
  | some mp =>
      have hupdate : update_columns s.hub mp { mp with installs_count := mp.installs_count - 1 } =
          s.hub.update_marketplace { mp with installs_count := mp.installs_count - 1 } :=
        update_columns_eq hkeyed (marketplace_strategy_some hfound).1 rfl
      simp only [uninstall, hupdate]

theorem ends_delete (hkeyed : Keyed s.hub) (user : User) (strategy_id : Text) :
    Ends env s (call env user (.delete strategy_id))
      { market s with hub := (delete_strategy s.hub user strategy_id).1 }
      (ending (delete_strategy s.hub user strategy_id).2) := by
  refine .next (x := .go) rfl ?_
  unfold delete_strategy
  cases hload : load_owned s.hub strategy_id user.id with
  | error e =>
      simp only [select_row, hload]
      exact .done _
  | ok row =>
      simp only [select_row, hload, loaded]
      split
      next => exact .done _
      next =>
          split
          next marketplace_id hsource hmp =>
              refine .next (x := .go) rfl (.last (x := .go) rfl ?_)
              rw [← uninstall_eq hkeyed hsource hmp]
              rfl
          next hnot =>
              refine .last (x := .go) rfl ?_
              unfold uninstalled
              split
              next marketplace_id hsource hmp => exact absurd hmp (hnot marketplace_id hsource)
              next => rfl

theorem ends_install (hkeyed : Keyed s.hub) (user : User) (strategy_id : Text)
    {new_id : Text} (hnew : new_id ∉ s.issued) (delivery : Delivery) :
    Ends env s (call env user (.install strategy_id))
      { market s with hub := (install_marketplace env s.hub user strategy_id new_id delivery).1 }
      (ending (install_marketplace env s.hub user strategy_id new_id delivery).2) := by
  refine .next (x := .go) rfl ?_
  unfold install_marketplace select_marketplace
  cases hmp : s.hub.marketplace_strategy strategy_id with
  | none => exact .done _
  | some mp =>
      dsimp only
      split
      next => exact .done _
      next =>
          refine .next (x := .go) rfl ?_
          unfold check_copies copies
          cases scalar_one_or_none (s.hub.user_strategies.filter fun r =>
              r.user_id = user.id && r.marketplace_id = some mp.id) with
          | error e => exact .done _
          | ok found =>
              cases found with
              | some row => exact .done _
              | none =>
                  have hresume : resume env s (.installing user mp) (.insert new_id) =
                      some (commit_install s user mp new_id) := if_neg hnew
                  refine .next hresume ?_
                  unfold commit_install
                  dsimp only
                  cases hinsert : s.hub.insert_row (installed_row user mp new_id) with
                  | none => exact .done _
                  | some hub =>
                      have hmps := (insert_row_rows hinsert).1
                      have hupdate :
                          update_columns hub mp { mp with installs_count := mp.installs_count + 1 } =
                            hub.update_marketplace
                              { mp with installs_count := mp.installs_count + 1 } :=
                        update_columns_eq (keyed_of_same hkeyed hmps)
                          (hmps ▸ (marketplace_strategy_some hmp).1) rfl
                      dsimp only
                      rw [hupdate]
                      exact .last (x := .delivered delivery) rfl rfl

theorem ends_report (hkeyed : Keyed s.hub) {user : User} {strategy_id : Text} (reason : Text)
    (hidle : (strategy_id, user.id) ∉ s.inserting) :
    Ends env s (call env user (.report strategy_id reason))
      (report_marketplace_strategy (market s) user strategy_id reason).1
      (ending (report_marketplace_strategy (market s) user strategy_id reason).2) := by
  unfold call report_marketplace_strategy
  dsimp only
  split
  next => exact .done _
  next =>
      refine .next (x := .go) rfl ?_
      unfold select_reported market
      dsimp only
      cases hmp : s.hub.marketplace_strategy strategy_id with
      | none => exact .done _
      | some mp =>
          obtain ⟨hmem, hid⟩ := marketplace_strategy_some hmp
          have hfree : (mp.id, user.id) ∉ s.inserting := hid ▸ hidle
          dsimp only
          by_cases hreported : reported s mp.id user.id
          · have hresume : resume env s (.reporting user mp reason) .go =
                some (s, failed 409 "Already reported by this user") := by
              simp only [resume, if_neg hfree, if_pos hreported]
            refine .next hresume ?_
            unfold reported at hreported
            rw [if_pos hreported]
            exact .done _
          · have hresume : resume env s (.reporting user mp reason) .go =
                some ({ s with inserting := (mp.id, user.id) :: s.inserting },
                  .tallying user mp reason) := by
              simp only [resume, if_neg hfree, if_neg hreported]
            unfold reported at hreported
            rw [if_neg hreported]
            refine .next hresume (.next (x := .go) rfl (.last (x := .go) rfl ?_))
            have hcount : (reports_of (s.reports ++
                [{ strategy_id := mp.id, reporter_user_id := user.id, reason }]) mp.id : ℤ) =
                reports_of s.reports mp.id + 1 := by
              simp [reports_of]
            have hupdate : ∀ count : ℤ, update_columns s.hub mp { mp with reports_count := count } =
                s.hub.update_marketplace { mp with reports_count := count } :=
              fun _ => update_columns_eq hkeyed hmem rfl
            rw [hcount, ← hupdate]
            rfl

section

variable {hub : Hub β} {user : User} {strategy_id : Text} {answers : PublishAnswers}
  {row : UserStrategy} (hload : load_owned hub strategy_id user.id = .ok row)

include hload

theorem submit_publication_foreign (hauthored : row.source ≠ .authored) :
    submit_publication env hub user strategy_id answers =
      .error (.http 403 "Only authored strategies can be published".toList) := by
  unfold submit_publication
  rw [hload]
  exact if_pos hauthored

theorem submit_publication_empty (hauthored : row.source = .authored)
    (hempty : row.code_blob = none ∨ ¬ (truthy row.code_blob ∧ truthy row.code_hash)) :
    submit_publication env hub user strategy_id answers =
      .error (.http 400 "Strategy has no code".toList) := by
  unfold submit_publication
  rw [hload]
  refine (if_neg (not_not.mpr hauthored)).trans ?_
  cases hcode : row.code_blob with
  | none => rfl
  | some code_blob =>
      rw [hcode] at hempty
      exact if_neg (hempty.resolve_left nofun)

theorem submit_publication_coded {code_blob : Text} (hauthored : row.source = .authored)
    (hcode : row.code_blob = some code_blob)
    (htruthy : truthy row.code_blob ∧ truthy row.code_hash) :
    submit_publication env hub user strategy_id answers =
      submitted env row code_blob answers.backtest answers.registry_tx answers.attest_tx := by
  unfold submit_publication
  rw [hload]
  refine (if_neg (not_not.mpr hauthored)).trans ?_
  rw [hcode] at htruthy ⊢
  exact if_pos htruthy

end

/-- The search for an earlier publication, the mint and the write. -/
theorem ends_submitted (hkeyed : Keyed s.hub) (user : User) {strategy_id : Text}
    {answers : PublishAnswers} {sent : Submitted} (hnew : answers.new_id ∉ s.issued)
    (hsent : submit_publication env s.hub user strategy_id answers = .ok sent) :
    Ends env s (.searching user sent)
      { market s with hub := (publish_strategy env s.hub user strategy_id answers).1 }
      (ending (publish_strategy env s.hub user strategy_id answers).2) := by
  refine .next (x := .go) rfl ?_
  unfold search_existing publications publish_strategy
  rw [hsent]
  dsimp only
  cases hexisting : scalar_one_or_none (s.hub.marketplace_strategies.filter fun mp =>
      mp.author_user_id = user.id && mp.code_hash = sent.backtest.strategy_hash) with
  | error e => exact .done _
  | ok existing =>
      refine .next (x := .delivered answers.mint) rfl ?_
      unfold mint
      dsimp only
      cases hminted : (mint_publication env s.hub.inft user sent answers.mint).2 with
      | error e => exact .done _
      | ok token =>
          dsimp only
          cases existing with
          | none =>
              have hresume : ∀ t : Database β, t.issued = s.issued →
                  resume env t (.publishing user sent none token) (.insert answers.new_id) =
                    some (commit_publish t user sent token answers.new_id) := by
                intro t hissued
                exact if_neg (hissued ▸ hnew)
              refine .next (hresume _ rfl) ?_
              unfold commit_publish Hub.write_publication
              dsimp only
              generalize Hub.insert_marketplace _ _ = inserted
              cases inserted with
              | none => exact .done _
              | some hub => exact .done _
          | some mp =>
              have hmem : mp ∈ s.hub.marketplace_strategies := by
                have hfound := scalar_one_or_none_some hexisting
                exact List.mem_of_mem_filter (hfound ▸ List.mem_cons_self)
              have hupdate : update_columns
                  { s.hub with inft := (mint_publication env s.hub.inft user sent answers.mint).1 }
                  mp (with_mint (published_row user mp.id sent (some mp)) token) =
                  Hub.update_marketplace _ _ :=
                update_columns_eq hkeyed hmem (with_mint_id _ token)
              exact .last (x := .go) rfl (congrArg (Market.mk · s.reports) hupdate)

theorem ends_publish (hkeyed : Keyed s.hub) (user : User) (strategy_id : Text)
    {answers : PublishAnswers} {outcome : Except Failure (Text × Metrics)}
    (hnew : answers.new_id ∉ s.issued)
    (hbacktest : ∀ row code_blob, load_owned s.hub strategy_id user.id = .ok row →
      row.code_blob = some code_blob →
        answers.backtest = validate_and_backtest env code_blob outcome) :
    Ends env s (call env user (.publish strategy_id))
      { market s with hub := (publish_strategy env s.hub user strategy_id answers).1 }
      (ending (publish_strategy env s.hub user strategy_id answers).2) := by
  refine .next (x := .go) rfl ?_
  cases hload : load_owned s.hub strategy_id user.id with
  | error e =>
      have hsubmit : submit_publication env s.hub user strategy_id answers = .error e := by
        unfold submit_publication
        rw [hload]
        rfl
      simp only [select_row, hload, publish_strategy, hsubmit]
      exact .done _
  | ok row =>
      simp only [select_row, hload, loaded]
      split
      next hsource =>
          simp only [publish_strategy, submit_publication_foreign hload hsource]
          exact .done _
      next hsource =>
          have hauthored := not_not.mp hsource
          split
          next code_blob hcode =>
              split
              next htruthy =>
                  refine .next (x := .answered outcome answers.registry_tx answers.attest_tx) rfl ?_
                  have hsubmit : submit_publication env s.hub user strategy_id answers =
                      submitted env row code_blob answers.backtest answers.registry_tx
                        answers.attest_tx :=
                    submit_publication_coded hload hauthored hcode htruthy
                  unfold submit
                  rw [← hbacktest row code_blob hload hcode, ← hsubmit]
                  split
                  next e hsent =>
                      simp only [publish_strategy, hsent]
                      exact .done _
                  next sent hsent => exact ends_submitted hkeyed user hnew hsent
              next hempty =>
                  simp only [publish_strategy,
                    submit_publication_empty hload hauthored (.inr hempty)]
                  exact .done _
          next hcode =>
              simp only [publish_strategy, submit_publication_empty hload hauthored (.inl hcode)]
              exact .done _

section

variable {ι : Type*} [DecidableEq ι]

theorem run_inputs {st : State ι β} {i : ι} {xs : List Input} {r : Database β × Phase}
    (h : run (alone env) (st.shared, st.calls i) xs = some r) :
    ∃ t, run (step env) st (xs.map (.input i)) = some t ∧ t.shared = r.1 ∧ t.calls i = r.2 ∧
      ∀ j, j ≠ i → t.calls j = st.calls j := by
  induction xs generalizing st with
  | nil =>
      cases h
      exact ⟨st, rfl, rfl, rfl, fun _ _ => rfl⟩
  | cons x xs ih =>
      obtain ⟨r', hresume, hrest⟩ := run_cons_iff.mp h
      have hstep : step env st (.input i x) = some ((st.write r'.1).set i r'.2) :=
        Option.map_eq_some_iff.mpr ⟨r', hresume, rfl⟩
      have hrest : run (alone env) (((st.write r'.1).set i r'.2).shared,
          ((st.write r'.1).set i r'.2).calls i) xs = some r := by
        simpa using hrest
      obtain ⟨t, hrun, hshared, hcall, hothers⟩ := ih hrest
      refine ⟨t, run_cons_iff.mpr ⟨_, hstep, hrun⟩, hshared, hcall, ?_⟩
      intro j hj
      rw [hothers j hj, System.set_of_ne _ _ hj, System.write_calls]

/-- What a session does alone it can do in the system, wherever the others stand. -/
theorem Ends.in_system {st : State ι β} {i : ι} {user : User} {request : Request} {m : Market β}
    {outcome : Outcome} (hfinished : (st.calls i).finished)
    (huser : user ∈ st.shared.hub.users)
    (h : Ends env st.shared (call env user request) m outcome) :
    ∃ es t, run (step env) st es = some t ∧ market t.shared = m ∧ t.calls i = .done outcome ∧
      ∀ j, j ≠ i → t.calls j = st.calls j := by
  obtain ⟨xs, last, hrun, hm⟩ := h
  have hcalled : step env st (.call i user request) = some (st.set i (call env user request)) :=
    if_pos ⟨hfinished, huser⟩
  have hrun : run (alone env) ((st.set i (call env user request)).shared,
      (st.set i (call env user request)).calls i) xs = some (last, .done outcome) := by
    simpa using hrun
  obtain ⟨t, hrun, hshared, hcall, hothers⟩ := run_inputs hrun
  refine ⟨_, t, run_cons_iff.mpr ⟨_, hcalled, hrun⟩, hshared ▸ hm, hcall, ?_⟩
  intro j hj
  rw [hothers j hj, System.set_of_ne _ _ hj]

end

end ArticTrader.SessionsAlone
