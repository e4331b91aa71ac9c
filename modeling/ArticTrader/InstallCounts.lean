import ArticTrader.StrategyTables

/-!
The number of installs that the marketplace keeps beside the libraries, with any
requests in progress.
-/

namespace ArticTrader.InstallCounts

open ArticTrader.ConcurrentCalls
open ArticTrader.LabelledRuns
open ArticTrader.MarketplaceRoutes hiding step Request handle
open ArticTrader.PythonText
open ArticTrader.StrategyRoutes hiding step Request handle
open ArticTrader.StrategySessions
open ArticTrader.StrategyTables

variable {β : Type}

/-- The rows of the libraries that are copies of a marketplace row. -/
def installs (rows : List UserStrategy) (id : Text) : ℕ :=
  rows.countP fun r => r.marketplace_id = some id

def Exact (hub : Hub β) : Prop :=
  ∀ mp ∈ hub.marketplace_strategies, mp.installs_count = installs hub.user_strategies mp.id

/-- The user and the marketplace row whose install is committed. -/
def installed_by : Phase → Input → Option (User × MarketplaceStrategy)
  | .installing user mp, .insert _ => some (user, mp)
  | _, _ => none

/-- The row whose uninstall is committed, and the marketplace row as it was loaded. -/
def uninstalled_from : Phase → Input → Option (UserStrategy × MarketplaceStrategy)
  | .deleting row (some mp), .go => some (row, mp)
  | _, _ => none

/-- An install is counted from the committed count. -/
def CountsInstall (s : Database β) (user : User) (mp : MarketplaceStrategy) : Prop :=
  ¬ NameTaken s.hub user mp → ∀ current ∈ s.hub.marketplace_strategies,
    current.id = mp.id → mp.installs_count = current.installs_count

/-- An uninstall is counted from the committed count. When its row is gone already, it
may only write what is there. -/
def CountsUninstall (s : Database β) (row : UserStrategy) (mp : MarketplaceStrategy) : Prop :=
  ∀ current ∈ s.hub.marketplace_strategies, current.id = mp.id →
    if s.hub.has_row row.id then mp.installs_count = current.installs_count
    else 0 < mp.installs_count → mp.installs_count = current.installs_count + 1

def Counts (s : Database β) (p : Phase) (x : Input) : Prop :=
  (∀ c ∈ installed_by p x, CountsInstall s c.1 c.2) ∧
    ∀ c ∈ uninstalled_from p x, CountsUninstall s c.1 c.2

instance (hub : Hub β) : Decidable (Exact hub) := inferInstanceAs (Decidable (∀ mp ∈ _, _))

instance (s : Database β) (user : User) (mp : MarketplaceStrategy) :
    Decidable (CountsInstall s user mp) := inferInstanceAs (Decidable (¬ _ → ∀ current ∈ _, _ → _))

instance (s : Database β) (row : UserStrategy) (mp : MarketplaceStrategy) :
    Decidable (CountsUninstall s row mp) := inferInstanceAs (Decidable (∀ current ∈ _, _ → _))

instance (s : Database β) (p : Phase) (x : Input) : Decidable (Counts s p x) :=
  inferInstanceAs (Decidable ((∀ c ∈ _, _) ∧ ∀ c ∈ _, _))

def UpToDate {ι : Type*} (s : State ι β) : Event ι → Prop
  | .call _ _ _ => True
  | .input i x => Counts s.shared (s.calls i) x

instance {ι : Type*} (s : State ι β) : DecidablePred (UpToDate s)
  | .call _ _ _ => inferInstanceAs (Decidable True)
  | .input _ _ => inferInstanceAs (Decidable (Counts _ _ _))

theorem installs_append (rows : List UserStrategy) (row : UserStrategy) (id : Text) :
    installs (rows ++ [row]) id =
      installs rows id + if row.marketplace_id = some id then 1 else 0 := by
  unfold installs
  rw [List.countP_append, List.countP_singleton]
  simp only [decide_eq_true_eq]

theorem countP_filter_ne {rows : List UserStrategy} (hids : (rows.map (·.id)).Nodup)
    {row : UserStrategy} (hrow : row ∈ rows) (p : UserStrategy → Bool) :
    rows.countP p = (rows.filter (·.id ≠ row.id)).countP p + if p row then 1 else 0 := by
  induction rows with
  | nil => cases hrow
  | cons first rows ih =>
      obtain ⟨hfirst, hrest⟩ := List.nodup_cons.mp hids
      rcases List.mem_cons.mp hrow with rfl | hlater
      · have hother : ∀ r ∈ rows, r.id ≠ row.id := by
          intro r hr heq
          exact hfirst (List.mem_map.mpr ⟨r, hr, heq⟩)
        have hsame : rows.filter (·.id ≠ row.id) = rows :=
          List.filter_eq_self.mpr fun r hr => by simpa using hother r hr
        rw [List.filter_cons_of_neg (by simp), hsame, List.countP_cons]
      · have hne : first.id ≠ row.id := by
          intro heq
          exact hfirst (List.mem_map.mpr ⟨row, hlater, heq.symm⟩)
        rw [List.filter_cons_of_pos (by simpa using hne), List.countP_cons, List.countP_cons,
          ih hrest hlater]
        omega

/-- The installs that are left when a row is deleted. -/
theorem installs_delete {rows : List UserStrategy} (hids : (rows.map (·.id)).Nodup)
    {row : UserStrategy} {marketplace_id : Option Text}
    (hsame : ∀ r ∈ rows, r.id = row.id → r.marketplace_id = marketplace_id) (id : Text) :
    installs rows id = installs (rows.filter (·.id ≠ row.id)) id +
      if rows.any (·.id = row.id) ∧ marketplace_id = some id then 1 else 0 := by
  cases hany : rows.any (·.id = row.id) with
  | false =>
      have hself : rows.filter (·.id ≠ row.id) = rows := by
        refine List.filter_eq_self.mpr ?_
        intro r hr
        simpa using List.any_eq_false.mp hany r hr
      rw [hself]
      simp
  | true =>
      obtain ⟨r, hr, hid⟩ := List.any_eq_true.mp hany
      have hid : r.id = row.id := by simpa using hid
      unfold installs
      rw [countP_filter_ne hids hr, hid, hsame r hr hid]
      simp

theorem exact_columns {hub : Hub β} {loaded assigned : MarketplaceStrategy} :
    Exact (update_columns hub loaded assigned) ↔
      ∀ mp ∈ hub.marketplace_strategies,
        (if mp.id = loaded.id then
          column loaded.installs_count assigned.installs_count mp.installs_count
        else mp.installs_count) = installs hub.user_strategies mp.id :=
  tallies_columns fun _ => rfl

variable {env : Env β} {s : Database β}

theorem exact_of_same {hub : Hub β} (h : Exact s.hub)
    (hmps : hub.marketplace_strategies = s.hub.marketplace_strategies)
    (hrows : ∀ id, installs hub.user_strategies id = installs s.hub.user_strategies id) :
    Exact hub := by
  intro mp hmp
  rw [hrows]
  exact h mp (hmps ▸ hmp)

/-- An `UPDATE` that does not count keeps the counts exact. -/
theorem exact_update {loaded assigned : MarketplaceStrategy} (h : Exact s.hub)
    (hcount : assigned.installs_count = loaded.installs_count) :
    Exact (update_columns s.hub loaded assigned) :=
  Tallies.update h (fun _ => rfl) hcount

theorem exact_publish {mp : MarketplaceStrategy} {hub : Hub β} (hs : Tables s) (h : Exact s.hub)
    (hnew : mp.id ∉ s.issued) (hcount : mp.installs_count = 0)
    (hinsert : s.hub.insert_marketplace mp = some hub) : Exact hub := by
  have hnone : installs s.hub.user_strategies mp.id = 0 := by
    refine List.countP_eq_zero.mpr ?_
    intro r hr hid
    obtain ⟨-, found, hfound, heq⟩ := hs.references r hr mp.id (by simpa using hid)
    exact hnew (heq ▸ hs.published found hfound)
  have hrows : hub.user_strategies = s.hub.user_strategies := by
    obtain ⟨-, hinsert⟩ := Option.ite_none_left_eq_some.mp hinsert
    cases hinsert
    rfl
  intro other hother
  rw [hrows]
  exact Tallies.insert h hinsert hcount hnone other hother

theorem exact_create {row : UserStrategy} {hub : Hub β} (h : Exact s.hub)
    (hnone : row.marketplace_id = none) (hinsert : s.hub.insert_row row = some hub) :
    Exact hub := by
  obtain ⟨hmps, hrows⟩ := insert_row_rows hinsert
  refine exact_of_same h hmps ?_
  intro id
  rw [hrows, installs_append, hnone, if_neg nofun, Nat.add_zero]

theorem exact_patch {row current : UserStrategy} {hub : Hub β} (hs : Tables s) (h : Exact s.hub)
    (hcurrent : current ∈ s.hub.user_strategies) (hid : row.id = current.id)
    (hmp : row.marketplace_id = current.marketplace_id)
    (hupdate : s.hub.update_row row = some hub) : Exact hub := by
  obtain ⟨-, hupdate⟩ := Option.ite_none_right_eq_some.mp hupdate
  cases hupdate
  refine exact_of_same h rfl ?_
  intro id
  unfold installs
  rw [List.countP_map]
  refine List.countP_congr ?_
  intro r hr
  simp only [Function.comp_apply]
  split
  next heq =>
      rw [hmp, List.inj_on_of_nodup_map hs.ids hr hcurrent (heq.trans hid)]
  next => rfl

theorem exact_install_iff {user : User} {mp : MarketplaceStrategy} {new_id : Text} {hub : Hub β}
    (h : Exact s.hub) (hinsert : s.hub.insert_row (installed_row user mp new_id) = some hub) :
    Exact (update_columns hub mp { mp with installs_count := mp.installs_count + 1 }) ↔
      ∀ current ∈ s.hub.marketplace_strategies, current.id = mp.id →
        mp.installs_count = current.installs_count := by
  obtain ⟨hmps, hrows⟩ := insert_row_rows hinsert
  rw [exact_columns, hmps, hrows]
  refine forall₂_congr ?_
  intro current hcurrent
  have hbefore := h current hcurrent
  have hid : (installed_row user mp new_id).marketplace_id = some mp.id := rfl
  rw [installs_append, hid]
  by_cases heq : current.id = mp.id
  · have hother : mp.installs_count + 1 ≠ mp.installs_count := by omega
    rw [if_pos heq, if_pos (congrArg some heq.symm), column, if_neg hother, hbefore]
    push_cast
    constructor
    · intro hcount _
      omega
    · intro hcount
      have := hcount heq
      omega
  · have hno : ¬ some mp.id = some current.id := by simpa using Ne.symm heq
    rw [if_neg heq, if_neg hno, Nat.add_zero]
    exact iff_of_true hbefore fun h => absurd h heq

/-- What an uninstall leaves in the marketplace. -/
theorem exact_uninstalled {row : UserStrategy} {mp : MarketplaceStrategy} :
    Exact (commit_delete s row (some mp)).1.hub ↔
      ∀ current ∈ s.hub.marketplace_strategies,
        (if current.id = mp.id ∧ 0 < mp.installs_count then mp.installs_count - 1
        else current.installs_count) =
          installs (s.hub.user_strategies.filter (·.id ≠ row.id)) current.id := by
  unfold commit_delete uninstall
  dsimp only
  by_cases hpos : 0 < mp.installs_count
  · have hother : mp.installs_count - 1 ≠ mp.installs_count := by omega
    rw [if_pos hpos]
    change Exact (update_columns
      { s.hub with user_strategies := s.hub.user_strategies.filter (·.id ≠ row.id) } _ _) ↔ _
    rw [exact_columns]
    simp only [hpos, and_true, column, if_neg hother]
  · rw [if_neg hpos]
    simp only [hpos, and_false, if_false]
    exact Iff.rfl

theorem exact_delete_iff {row : UserStrategy} {mp : MarketplaceStrategy} (hs : Tables s)
    (h : Exact s.hub) (hrow : Remembers s row) (hmp : row.marketplace_id = some mp.id) :
    Exact (commit_delete s row (some mp)).1.hub ↔ CountsUninstall s row mp := by
  rw [exact_uninstalled]
  refine forall₂_congr ?_
  intro current hcurrent
  have hbefore := h current hcurrent
  rw [installs_delete hs.ids hrow.2, hmp] at hbefore
  by_cases heq : current.id = mp.id
  · cases hhas : s.hub.has_row row.id with
    | true =>
        rw [if_pos ⟨hhas, congrArg some heq.symm⟩] at hbefore
        push_cast at hbefore
        simp only [heq, true_and, true_implies, if_true]
        rw [heq] at hbefore
        split
        next => omega
        next => omega
    | false =>
        have hgone : ¬ (s.hub.user_strategies.any (·.id = row.id) = true ∧
            some mp.id = some current.id) := by
          rintro ⟨hany, -⟩
          rw [Hub.has_row, hany] at hhas
          cases hhas
        rw [if_neg hgone, Nat.add_zero] at hbefore
        simp only [heq, true_and, true_implies, Bool.false_eq_true, if_false]
        rw [heq] at hbefore
        split
        next => omega
        next => omega
  · have hno : ¬ (s.hub.user_strategies.any (·.id = row.id) = true ∧
        some mp.id = some current.id) := by
      rintro ⟨-, hsome⟩
      exact heq (Option.some.inj hsome).symm
    rw [if_neg hno, Nat.add_zero] at hbefore
    rw [if_neg fun hboth => heq hboth.1]
    exact iff_of_true hbefore fun hid => absurd hid heq

theorem exact_delete {row : UserStrategy} (hs : Tables s) (h : Exact s.hub)
    (hrow : Remembers s row) (hmp : row.marketplace_id = none) :
    Exact (commit_delete s row none).1.hub := by
  refine exact_of_same h rfl ?_
  intro id
  have hleft := installs_delete hs.ids hrow.2 id
  rw [hmp, if_neg fun hboth => nomatch hboth.2, Nat.add_zero] at hleft
  exact hleft.symm

/-- An install whose name is taken writes nothing. -/
theorem counts_refused {user : User} {mp : MarketplaceStrategy} {new_id : Text}
    (hs : Tables s) (hnew : new_id ∉ s.issued) :
    (s.hub.insert_row (installed_row user mp new_id) = none ↔ NameTaken s.hub user mp) := by
  refine insert_installed_row ?_
  rw [Hub.has_row, List.any_eq_false]
  intro r hr heq
  have hid : r.id = new_id := by simpa using heq
  exact hnew (hid ▸ hs.rows r hr)

theorem counts_install {user : User} {mp : MarketplaceStrategy} {new_id : Text}
    {r : Database β × Phase} (hs : Tables s) (h : Exact s.hub)
    (hr : resume env s (.installing user mp) (.insert new_id) = some r) :
    CountsInstall s user mp ↔ Exact r.1.hub := by
  obtain ⟨hnew, hr⟩ := Option.ite_none_left_eq_some.mp hr
  cases hr
  have hrefused : s.hub.insert_row (installed_row user mp new_id) = none ↔
      NameTaken s.hub user mp := counts_refused hs hnew
  unfold commit_install
  cases hinsert : s.hub.insert_row (installed_row user mp new_id) with
  | none =>
      have hname := hrefused.mp hinsert
      exact iff_of_true (fun hfree => absurd hname hfree) h
  | some hub =>
      have hfree : ¬ NameTaken s.hub user mp := by
        intro hname
        rw [hrefused.mpr hname] at hinsert
        cases hinsert
      dsimp only
      rw [exact_install_iff h hinsert]
      exact forall_prop_of_true hfree

/-- The steps of the other requests. -/
theorem exact_other {p : Phase} {x : Input} {r : Database β × Phase} (hs : Tables s)
    (hp : Knows s p) (h : Exact s.hub) (hinstall : ∀ user mp, p ≠ .installing user mp)
    (hdelete : ∀ row mp, p ≠ .deleting row mp) (hr : Resumed env s p x r) : Exact r.1.hub := by
  cases hr with
  | read => exact h
  | aborted => exact h
  | created row new_id hub hnew hinsert =>
      have hnone : ({ row with id := new_id } : UserStrategy).marketplace_id = none := hp
      exact exact_create h hnone hinsert
  | patched loaded assigned current hub hcurrent hid hupdate =>
      have hrow : (written_row loaded assigned current).id = current.id := rfl
      refine exact_patch hs h hcurrent hrow ?_ hupdate
      change column loaded.marketplace_id assigned.marketplace_id current.marketplace_id = _
      rw [hp.2, column_same]
  | deleted row mp => exact absurd rfl (hdelete row mp)
  | installed user mp => exact absurd rfl (hinstall user mp)
  | granted user mp delivery =>
      obtain ⟨hmps, hrows⟩ := grant_usage_tables env s.hub user mp delivery
      exact exact_of_same h hmps fun id => congrArg (installs · id) hrows
  | minted => exact h
  | published user sent token new_id hub hnew hinsert =>
      have hid := with_mint_id (published_row user new_id sent none) token
      exact exact_publish hs h (hid ▸ hnew) (with_mint_installs_count _ token) hinsert
  | republished user sent existing token => exact exact_update h (with_mint_installs_count _ token)
  | flushed => exact h
  | recorded => exact exact_update h rfl

theorem counts_other {p : Phase} {x : Input} (hinstall : installed_by p x = none)
    (hdelete : uninstalled_from p x = none) : Counts s p x := by
  simp [Counts, hinstall, hdelete]

/-- A step keeps the counts exact just if it counts from the committed ones. -/
theorem counts_iff {p : Phase} {x : Input} {r : Database β × Phase} (hs : Tables s)
    (hp : Knows s p) (h : Exact s.hub) (hr : resume env s p x = some r) :
    Counts s p x ↔ Exact r.1.hub := by
  by_cases hinstall : ∃ user mp, p = .installing user mp
  · obtain ⟨user, mp, rfl⟩ := hinstall
    cases x with
    | insert new_id =>
        rw [← counts_install hs h hr]
        simp [Counts, installed_by, uninstalled_from]
    | raised =>
        cases hr
        exact iff_of_true (counts_other rfl rfl) h
    | go => cases hr
    | answered => cases hr
    | delivered => cases hr
  by_cases hdelete : ∃ row mp, p = .deleting row mp
  · obtain ⟨row, mp, rfl⟩ := hdelete
    cases x with
    | go =>
        cases hr
        cases mp with
        | none => exact iff_of_true (counts_other rfl rfl) (exact_delete hs h hp.1 hp.2.1)
        | some mp =>
            rw [exact_delete_iff hs h hp.1 hp.2.1]
            simp [Counts, installed_by, uninstalled_from]
    | raised =>
        cases hr
        exact iff_of_true (counts_other rfl (by cases mp <;> rfl)) h
    | insert => cases hr
    | answered => cases hr
    | delivered => cases hr
  push Not at hinstall hdelete
  refine iff_of_true (counts_other ?_ ?_)
    (exact_other hs hp h hinstall hdelete (resumed_of_resume hr))
  · unfold installed_by
    split
    next user mp new_id => exact absurd rfl (hinstall user mp)
    next => rfl
  · unfold uninstalled_from
    split
    next row mp => exact absurd rfl (hdelete row (some mp))
    next => rfl

section

variable {ι : Type*} [DecidableEq ι]

theorem upToDate_iff {s s' : State ι β} {e : Event ι} (hs : Sound s) (h : Exact s.shared.hub)
    (hstep : step env s e = some s') : UpToDate s e ↔ Exact s'.shared.hub := by
  cases e with
  | call i user request =>
      obtain ⟨-, hstep⟩ := Option.ite_none_right_eq_some.mp hstep
      cases hstep
      exact iff_of_true trivial h
  | input i x =>
      obtain ⟨r, hr, rfl⟩ := Option.map_eq_some_iff.mp hstep
      exact counts_iff hs.tables (hs.knows i) h hr

/-- The counts are exact in every state of a run just if each commit counts from the
committed count. -/
theorem installs_exact_iff {es : List (Event ι)} {s t : State ι β} (hs : Sound s)
    (hexact : Exact s.shared.hub) (hrun : run (step env) s es = some t) :
    AllSteps (step env) UpToDate s es ↔
      ∀ m later, Passes (step env) s es m later → Exact m.shared.hub := by
  refine allSteps_iff_passes (P := fun s => Sound s ∧ Exact s.shared.hub) ?_ ?_ ?_ hrun
    ⟨hs, hexact⟩
  · intro s e s' h hcounts hstep
    exact ⟨sound_step h.1 hstep, (upToDate_iff h.1 h.2 hstep).mp hcounts⟩
  · intro s e s' h hstep
    exact upToDate_iff h.1 h.2 hstep
  · intro s h
    exact h.2

end

/-- An install of the strategy, up to its commit. -/
def install_chosen {ι : Type*} (i : ι) (name : String) : List (Event ι) :=
  [.call i (member name) (.install "m".toList), .input i .go, .input i .go]

def delete_row {ι : Type*} (i : ι) (name row : String) : List (Event ι) :=
  [.call i (member name) (.delete row.toList), .input i .go, .input i .go, .input i .go]

/-- Two users install the strategy one after the other, and one of them deletes it. -/
theorem installs_exact_in_turn : ∃ t : State Bool _, run (step sample)
      (one_published Bool ["b", "c"])
      (install_chosen false "b" ++ [.input false (.insert "1".toList)] ++
        install_chosen true "c" ++ [.input true (.insert "2".toList)] ++
        [.input false (.delivered .unsent)] ++ delete_row false "b" "1") = some t ∧
      Exact t.shared.hub := by
  obtain ⟨t, hrun⟩ := Option.isSome_iff_exists.mp (show (run (step sample)
      (one_published Bool ["b", "c"])
      (install_chosen false "b" ++ [.input false (.insert "1".toList)] ++
        install_chosen true "c" ++ [.input true (.insert "2".toList)] ++
        [.input false (.delivered .unsent)] ++ delete_row false "b" "1")).isSome by
    decide)
  refine ⟨t, hrun, ?_⟩
  exact (installs_exact_iff (one_published_sound Bool _) (by decide) hrun).mp
    (by decide) t [] ⟨_, (List.append_nil _).symm, hrun⟩

/-- The requests are installs and deletions. -/
def Installs {ι : Type*} : Event ι → Prop
  | .call _ _ (.install _) | .call _ _ (.delete _) | .input _ _ => True
  | _ => False

/-- Two users install the strategy, each before the other commits. -/
theorem install_lost :
    ¬ ∀ (s t : State Bool TokenStandard.Tokens) (es : List (Event Bool)), Sound s →
      Exact s.shared.hub → (∀ e ∈ es, Installs e) → run (step sample) s es = some t →
        (∀ i, (t.calls i).finished = true) → Exact t.shared.hub := by
  intro h
  obtain ⟨t, hrun, hfinished, hnot⟩ : ∃ t ∈ run (step sample) (one_published Bool ["b", "c"])
      (install_chosen false "b" ++ install_chosen true "c" ++
        [.input false (.insert "1".toList), .input true (.insert "2".toList),
          .input false (.delivered .unsent), .input true (.delivered .unsent)]),
      (∀ i, (t.calls i).finished = true) ∧ ¬ Exact t.shared.hub := by decide
  refine hnot (h _ t _ (one_published_sound Bool _) (by decide) ?_ hrun hfinished)
  simp [install_chosen, Installs]

end ArticTrader.InstallCounts
