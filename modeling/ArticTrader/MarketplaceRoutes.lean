import Mathlib.Data.Fintype.EquivFin
import Mathlib.Data.List.Nodup
import ArticTrader.StrategyRoutes

/-!
The marketplace as the hub shows it: the listing and the detail, which hide a row
that is delisted or reported too often, and the reports. Whether a hidden row can
still be installed. Description and publication time are left out.
-/

namespace ArticTrader.MarketplaceRoutes

open ArticTrader.LabelledRuns
open ArticTrader.PythonNumbers
open ArticTrader.PythonText
open ArticTrader.TokenStandard
open ArticTrader.StrategyRoutes hiding step Request handle

def AUTOHIDE_THRESHOLD : ℤ := 3

structure MarketplaceOut where
  id : Text
  name : Text
  author_user_id : Text
  code_hash : Text
  installs_count : ℤ
  reports_count : ℤ
  deriving DecidableEq, Repr

def MarketplaceOut.from_row (row : MarketplaceStrategy) : MarketplaceOut where
  id := row.id
  name := row.name
  author_user_id := row.author_user_id
  code_hash := row.code_hash
  installs_count := row.installs_count
  reports_count := row.reports_count

structure MarketplaceReport where
  strategy_id : Text
  reporter_user_id : Text
  reason : Text
  deriving DecidableEq, Repr

structure Market (β : Type) where
  hub : Hub β
  reports : List MarketplaceReport

variable {β : Type}

/-- The database orders the rows that are listed. -/
def list_marketplace (order_by : List MarketplaceStrategy → List MarketplaceStrategy)
    (hub : Hub β) (limit offset : ℕ) : Except Failure (List MarketplaceOut) :=
  if limit < 1 ∨ 200 < limit then .error (.http 422 "validation error".toList)
  else
    let rows := hub.marketplace_strategies.filter fun mp =>
      !mp.delisted && mp.reports_count < AUTOHIDE_THRESHOLD
    .ok ((((order_by rows).drop offset).take limit).map .from_row)

def get_marketplace_strategy (hub : Hub β) (strategy_id : Text) :
    Except Failure MarketplaceOut :=
  match hub.marketplace_strategy strategy_id with
  | none => .error (.http 404 "Marketplace strategy not found".toList)
  | some row =>
      if row.delisted || AUTOHIDE_THRESHOLD ≤ row.reports_count then
        .error (.http 404 "Marketplace strategy not found".toList)
      else .ok (.from_row row)

def reports_of (reports : List MarketplaceReport) (strategy_id : Text) : ℕ :=
  reports.countP (·.strategy_id = strategy_id)

def report_marketplace_strategy (m : Market β) (user : User) (strategy_id reason : Text) :
    Market β × Except Failure ℤ :=
  if reason.length < 1 ∨ 512 < reason.length then
    (m, .error (.http 422 "validation error".toList))
  else
    match m.hub.marketplace_strategy strategy_id with
    | none => (m, .error (.http 404 "Marketplace strategy not found".toList))
    | some mp =>
        if m.reports.any fun r => r.strategy_id = mp.id && r.reporter_user_id = user.id then
          (m, .error (.http 409 "Already reported by this user".toList))
        else
          let reports :=
            m.reports ++ [{ strategy_id := mp.id, reporter_user_id := user.id, reason }]
          let count : ℤ := reports_of reports mp.id
          ({ hub := m.hub.update_marketplace { mp with reports_count := count }, reports },
            .ok count)

inductive Request where
  | strategies (request : StrategyRoutes.Request)
  | report (strategy_id reason : Text)

def handle (env : Env β) (m : Market β) (user : User) : Request → Market β
  | .strategies request => { m with hub := StrategyRoutes.handle env m.hub user request }
  | .report strategy_id reason => (report_marketplace_strategy m user strategy_id reason).1

def step (env : Env β) (m : Market β) (r : User × Request) : Option (Market β) :=
  if r.1 ∈ m.hub.users then some (handle env m r.1 r.2) else none

/-- The listing and the detail do not show the row. -/
def hides (mp : MarketplaceStrategy) : Bool :=
  mp.delisted || AUTOHIDE_THRESHOLD ≤ mp.reports_count

/-- The primary key of the marketplace. -/
def Keyed (hub : Hub β) : Prop := (hub.marketplace_strategies.map (·.id)).Nodup

instance (hub : Hub β) : Decidable (Keyed hub) := inferInstanceAs (Decidable (List.Nodup _))

theorem marketplace_strategy_of_mem {hub : Hub β} (hkeyed : Keyed hub) {mp : MarketplaceStrategy}
    (hmp : mp ∈ hub.marketplace_strategies) : hub.marketplace_strategy mp.id = some mp := by
  unfold Hub.marketplace_strategy
  cases hfound : hub.marketplace_strategies.find? (·.id = mp.id) with
  | none => simpa using List.find?_eq_none.mp hfound mp hmp
  | some found =>
      have hid : found.id = mp.id := by simpa using List.find?_some hfound
      exact congrArg some
        (List.inj_on_of_nodup_map hkeyed (List.mem_of_find?_eq_some hfound) hmp hid)

theorem marketplace_strategy_some {hub : Hub β} {strategy_id : Text} {mp : MarketplaceStrategy}
    (h : hub.marketplace_strategy strategy_id = some mp) :
    mp ∈ hub.marketplace_strategies ∧ mp.id = strategy_id :=
  ⟨List.mem_of_find?_eq_some h, by simpa using List.find?_some h⟩

theorem get_marketplace_strategy_of_mem {hub : Hub β} (hkeyed : Keyed hub)
    {mp : MarketplaceStrategy} (hmp : mp ∈ hub.marketplace_strategies) :
    get_marketplace_strategy hub mp.id =
      if hides mp then .error (.http 404 "Marketplace strategy not found".toList)
      else .ok (.from_row mp) := by
  unfold get_marketplace_strategy
  rw [marketplace_strategy_of_mem hkeyed hmp]
  rfl

/-- No hidden row is listed, however the listing is ordered and cut. -/
theorem not_hidden_of_listed {order_by : List MarketplaceStrategy → List MarketplaceStrategy}
    (horder : ∀ rows, order_by rows ⊆ rows) {hub : Hub β} {limit offset : ℕ}
    {listed : List MarketplaceOut} (h : list_marketplace order_by hub limit offset = .ok listed)
    {out : MarketplaceOut} (hout : out ∈ listed) :
    ∃ mp ∈ hub.marketplace_strategies, hides mp = false ∧ out = .from_row mp := by
  unfold list_marketplace at h
  split at h
  next => cases h
  next =>
      cases h
      obtain ⟨mp, hmp, rfl⟩ := List.mem_map.mp hout
      have hrow := horder _ (List.mem_of_mem_drop (List.mem_of_mem_take hmp))
      obtain ⟨hmem, hshown⟩ := List.mem_filter.mp hrow
      refine ⟨mp, hmem, ?_, rfl⟩
      simpa [hides] using hshown

/-- What a request does to the rows of the marketplace. -/
inductive Moved (rows : List MarketplaceStrategy) : List MarketplaceStrategy → Prop
  | same : Moved rows rows
  | updated (mp mp' : MarketplaceStrategy) (hmp : mp ∈ rows) (hid : mp'.id = mp.id)
      (hdelisted : mp'.delisted = mp.delisted) :
      Moved rows (rows.map fun r => if r.id = mp'.id then mp' else r)
  | inserted (mp : MarketplaceStrategy) (hnew : rows.any (·.id = mp.id) = false)
      (hdelisted : mp.delisted = false) : Moved rows (rows ++ [mp])

theorem Moved.nodup {rows rows' : List MarketplaceStrategy} (h : Moved rows rows')
    (hrows : (rows.map (·.id)).Nodup) : (rows'.map (·.id)).Nodup := by
  cases h with
  | same => exact hrows
  | updated mp mp' hmp hid hdelisted =>
      have hids : (rows.map fun r => if r.id = mp'.id then mp' else r).map (·.id) =
          rows.map (·.id) := by
        rw [List.map_map]
        refine List.map_congr_left ?_
        intro r hr
        simp only [Function.comp_apply]
        split
        next heq => exact heq.symm
        next => rfl
      rw [hids]
      exact hrows
  | inserted mp hnew hdelisted =>
      have hfresh : mp.id ∉ rows.map (·.id) := by
        simpa using hnew
      simpa [List.nodup_append, hrows] using hfresh

theorem moved_update {hub : Hub β} {mp mp' : MarketplaceStrategy}
    (hmp : mp ∈ hub.marketplace_strategies) (hid : mp'.id = mp.id)
    (hdelisted : mp'.delisted = mp.delisted) :
    Moved hub.marketplace_strategies (hub.update_marketplace mp').marketplace_strategies :=
  .updated mp mp' hmp hid hdelisted

theorem insert_row_rows {hub hub' : Hub β} {row : UserStrategy}
    (h : hub.insert_row row = some hub') :
    hub'.marketplace_strategies = hub.marketplace_strategies ∧
      hub'.user_strategies = hub.user_strategies ++ [row] := by
  obtain ⟨-, h⟩ := Option.ite_none_right_eq_some.mp h
  cases h
  exact ⟨rfl, rfl⟩

theorem update_row_rows {hub hub' : Hub β} {row : UserStrategy}
    (h : hub.update_row row = some hub') :
    hub'.marketplace_strategies = hub.marketplace_strategies := by
  obtain ⟨-, h⟩ := Option.ite_none_right_eq_some.mp h
  cases h
  rfl

theorem moved_uninstalled (hub : Hub β) (row : UserStrategy) :
    Moved hub.marketplace_strategies (uninstalled hub row).marketplace_strategies := by
  unfold uninstalled
  split
  next marketplace_id _ _ =>
      split
      next mp hmp =>
          split
          next => exact moved_update (marketplace_strategy_some hmp).1 rfl rfl
          next => exact .same
      next => exact .same
  next => exact .same

variable (env : Env β)

@[simp] theorem grant_usage_tables (hub : Hub β) (user : User) (mp : MarketplaceStrategy)
    (delivery : Delivery) :
    (grant_usage env hub user mp delivery).marketplace_strategies = hub.marketplace_strategies ∧
      (grant_usage env hub user mp delivery).user_strategies = hub.user_strategies := by
  unfold grant_usage
  split
  next => exact ⟨rfl, rfl⟩
  next => split_ifs <;> exact ⟨rfl, rfl⟩

theorem moved_create (hub : Hub β) (user : User) (body : StrategyCreate) (new_id : Text) :
    Moved hub.marketplace_strategies
      (create_authored env hub user body new_id).1.marketplace_strategies := by
  unfold create_authored
  split_ifs
  · exact .same
  · exact .same
  · dsimp only
    split
    next => exact .same
    next hub' h =>
        rw [(insert_row_rows h).1]
        exact .same

theorem moved_patch (hub : Hub β) (user : User) (strategy_id : Text) (body : StrategyPatch) :
    Moved hub.marketplace_strategies
      (patch_strategy env hub user strategy_id body).1.marketplace_strategies := by
  unfold patch_strategy
  split_ifs
  · exact .same
  · split
    next => exact .same
    next =>
        split_ifs
        · exact .same
        · dsimp only
          split
          next => exact .same
          next h =>
              rw [update_row_rows h]
              exact .same

theorem moved_delete (hub : Hub β) (user : User) (strategy_id : Text) :
    Moved hub.marketplace_strategies
      (delete_strategy hub user strategy_id).1.marketplace_strategies := by
  unfold delete_strategy
  split
  next => exact .same
  next row _ =>
      split_ifs
      · exact .same
      · exact moved_uninstalled hub row

theorem moved_install (hub : Hub β) (user : User) (strategy_id new_id : Text)
    (delivery : Delivery) :
    Moved hub.marketplace_strategies
      (install_marketplace env hub user strategy_id new_id delivery).1.marketplace_strategies := by
  unfold install_marketplace
  split
  next => exact .same
  next mp hmp =>
      split_ifs
      · exact .same
      · split
        next => exact .same
        next => exact .same
        next =>
            dsimp only
            split
            next => exact .same
            next hub' h =>
                have hrows := (insert_row_rows h).1
                rw [(grant_usage_tables ..).1]
                have hmem := (marketplace_strategy_some hmp).1
                rw [← hrows] at hmem ⊢
                exact moved_update hmem rfl rfl

theorem scalar_one_or_none_some {α : Type} {rows : List α} {row : α}
    (h : scalar_one_or_none rows = .ok (some row)) : rows = [row] := by
  unfold scalar_one_or_none at h
  split at h
  next => cases h
  next => cases h; rfl
  next => cases h

theorem scalar_one_or_none_none {α : Type} {rows : List α}
    (h : scalar_one_or_none rows = .ok none) : rows = [] := by
  unfold scalar_one_or_none at h
  split at h
  next => rfl
  next => cases h
  next => cases h

theorem moved_publish (hub : Hub β) (user : User) (strategy_id : Text)
    (answers : PublishAnswers) :
    Moved hub.marketplace_strategies
      (publish_strategy env hub user strategy_id answers).1.marketplace_strategies := by
  unfold publish_strategy
  split
  next => exact .same
  next sent _ =>
      split
      next => exact .same
      next existing hexisting =>
          dsimp only
          split
          next => exact .same
          next token _ =>
              cases existing with
              | none =>
                  split
                  next => exact .same
                  next hub' h =>
                      obtain ⟨hnew, h⟩ := Option.ite_none_left_eq_some.mp h
                      cases h
                      exact .inserted _ (by simpa using hnew) (with_mint_delisted _ token)
              | some mp =>
                  have hmem : mp ∈ hub.marketplace_strategies := by
                    have hfound := scalar_one_or_none_some hexisting
                    exact List.mem_of_mem_filter (hfound ▸ List.mem_cons_self)
                  exact moved_update hmem (with_mint_id _ token) (with_mint_delisted _ token)

theorem moved_report (m : Market β) (user : User) (strategy_id reason : Text) :
    Moved m.hub.marketplace_strategies
      (report_marketplace_strategy m user strategy_id reason).1.hub.marketplace_strategies := by
  unfold report_marketplace_strategy
  split
  next => exact .same
  next =>
      split
      next => exact .same
      next mp hmp =>
          split
          next => exact .same
          next => exact moved_update (marketplace_strategy_some hmp).1 rfl rfl

variable {env}

theorem moved_step {m m' : Market β} {r : User × Request} (h : step env m r = some m') :
    Moved m.hub.marketplace_strategies m'.hub.marketplace_strategies := by
  obtain ⟨-, h⟩ := Option.ite_none_right_eq_some.mp h
  cases h
  obtain ⟨user, request⟩ := r
  cases request with
  | report strategy_id reason => exact moved_report m user strategy_id reason
  | strategies request =>
      cases request with
      | create body new_id => exact moved_create env m.hub user body new_id
      | patch strategy_id body => exact moved_patch env m.hub user strategy_id body
      | delete strategy_id => exact moved_delete m.hub user strategy_id
      | install strategy_id new_id delivery =>
          exact moved_install env m.hub user strategy_id new_id delivery
      | publish strategy_id answers => exact moved_publish env m.hub user strategy_id answers

theorem keyed_run {s m : Market β} {es : List (User × Request)} (hs : Keyed s.hub)
    (hrun : run (step env) s es = some m) : Keyed m.hub := by
  refine run_invariant (P := fun m => Keyed m.hub) ?_ hrun hs
  intro m r m' hkeyed h
  exact (moved_step h).nodup hkeyed

/-- No request delists a row. -/
theorem not_delisted_run {s m : Market β} {es : List (User × Request)}
    (hs : ∀ mp ∈ s.hub.marketplace_strategies, mp.delisted = false)
    (hrun : run (step env) s es = some m) :
    ∀ mp ∈ m.hub.marketplace_strategies, mp.delisted = false := by
  refine run_invariant (P := fun m => ∀ mp ∈ m.hub.marketplace_strategies, mp.delisted = false)
    ?_ hrun hs
  intro m r m' hm h mp hmp
  have hmoved := moved_step h
  generalize m'.hub.marketplace_strategies = rows' at hmoved hmp
  cases hmoved with
  | same => exact hm mp hmp
  | updated old new hold hid hdelisted =>
      obtain ⟨row, hrow, rfl⟩ := List.mem_map.mp hmp
      split
      next => exact hdelisted.trans (hm old hold)
      next => exact hm row hrow
  | inserted new hnew hdelisted =>
      rcases List.mem_append.mp hmp with hbefore | hnow
      · exact hm mp hbefore
      · rw [List.mem_singleton.mp hnow]
        exact hdelisted

/-- The user has installed the row and still has the copy. -/
def HasCopy (hub : Hub β) (user : User) (mp : MarketplaceStrategy) : Prop :=
  ∃ r ∈ hub.user_strategies, r.user_id = user.id ∧ r.marketplace_id = some mp.id

/-- The name of the row is taken in the user's library. -/
def NameTaken (hub : Hub β) (user : User) (mp : MarketplaceStrategy) : Prop :=
  ∃ r ∈ hub.user_strategies, r.user_id = user.id ∧ r.name = mp.name

instance (hub : Hub β) (user : User) (mp : MarketplaceStrategy) :
    Decidable (HasCopy hub user mp) := inferInstanceAs (Decidable (∃ r ∈ _, _))

instance (hub : Hub β) (user : User) (mp : MarketplaceStrategy) :
    Decidable (NameTaken hub user mp) := inferInstanceAs (Decidable (∃ r ∈ _, _))

/-- An install that leaves the user with a copy there was not before. -/
def Takes (env : Env β) (hub : Hub β) (user : User) (strategy_id new_id : Text)
    (delivery : Delivery) : Prop :=
  ∃ r ∈ (install_marketplace env hub user strategy_id new_id delivery).1.user_strategies,
    r ∉ hub.user_strategies ∧ r.user_id = user.id ∧ r.marketplace_id = some strategy_id

instance (env : Env β) (hub : Hub β) (user : User) (strategy_id new_id : Text)
    (delivery : Delivery) : Decidable (Takes env hub user strategy_id new_id delivery) :=
  inferInstanceAs (Decidable (∃ r ∈ _, _))

theorem insert_installed_row {hub : Hub β} {user : User} {mp : MarketplaceStrategy}
    {new_id : Text} (hnew : hub.has_row new_id = false) :
    hub.insert_row (installed_row user mp new_id) = none ↔ NameTaken hub user mp := by
  have hids : ∀ r ∈ hub.user_strategies, r.id ≠ new_id := by
    simpa [Hub.has_row] using hnew
  have haccepts : hub.accepts_row (installed_row user mp new_id) = true ↔
      ¬ NameTaken hub user mp := by
    unfold Hub.accepts_row NameTaken
    rw [List.all_eq_true]
    push Not
    refine forall₂_congr ?_
    intro r hr
    by_cases huser : r.user_id = user.id
    · by_cases hname : r.name = mp.name
      · simp [installed_row, hids r hr, huser, hname]
      · simp [installed_row, hname]
    · simp [installed_row, huser]
  unfold Hub.insert_row
  split
  next h => exact iff_of_false nofun (haccepts.mp h.2)
  next h =>
      refine iff_of_true rfl ?_
      by_contra hname
      exact h ⟨hnew, haccepts.mpr hname⟩

theorem copies_eq_nil_iff {hub : Hub β} {user : User} {mp : MarketplaceStrategy} :
    (hub.user_strategies.filter fun r =>
      r.user_id = user.id && r.marketplace_id = some mp.id) = [] ↔ ¬ HasCopy hub user mp := by
  unfold HasCopy
  rw [List.filter_eq_nil_iff]
  push Not
  refine forall₂_congr ?_
  intro r hr
  simp

theorem takes_iff {hub : Hub β} {mp : MarketplaceStrategy}
    (hmp : hub.marketplace_strategy mp.id = some mp) (user : User) {new_id : Text}
    (hnew : hub.has_row new_id = false) (delivery : Delivery) :
    Takes env hub user mp.id new_id delivery ↔
      mp.delisted = false ∧ ¬ HasCopy hub user mp ∧ ¬ NameTaken hub user mp := by
  unfold Takes install_marketplace
  rw [hmp]
  dsimp only
  constructor
  · rintro ⟨r, hr, hfresh, -, -⟩
    split at hr
    next => exact absurd hr hfresh
    next hdelisted =>
        split at hr
        next => exact absurd hr hfresh
        next => exact absurd hr hfresh
        next hcopies =>
            split at hr
            next => exact absurd hr hfresh
            next hub' hinsert =>
                refine ⟨by simpa using hdelisted, ?_, ?_⟩
                · exact copies_eq_nil_iff.mp (scalar_one_or_none_none hcopies)
                · intro hname
                  rw [(insert_installed_row hnew).mpr hname] at hinsert
                  cases hinsert
  · rintro ⟨hdelisted, hcopy, hname⟩
    rw [if_neg (by simp [hdelisted]), copies_eq_nil_iff.mpr hcopy]
    dsimp only [scalar_one_or_none]
    cases hinsert : hub.insert_row (installed_row user mp new_id) with
    | none => exact absurd ((insert_installed_row hnew).mp hinsert) hname
    | some hub' =>
        refine ⟨installed_row user mp new_id, ?_, ?_, rfl, rfl⟩
        · dsimp only
          rw [(grant_usage_tables ..).2]
          change installed_row user mp new_id ∈ hub'.user_strategies
          rw [(insert_row_rows hinsert).2]
          exact List.mem_append_right _ List.mem_cons_self
        · intro hmem
          have hids : ∀ r ∈ hub.user_strategies, r.id ≠ new_id := by
            simpa [Hub.has_row] using hnew
          exact hids _ hmem rfl

theorem exists_fresh_id (hub : Hub β) : ∃ new_id, hub.has_row new_id = false := by
  obtain ⟨new_id, hnew⟩ := Infinite.exists_notMem_finset (hub.user_strategies.map (·.id)).toFinset
  refine ⟨new_id, ?_⟩
  simpa [Hub.has_row] using hnew

/-- No user gets a copy of a row that the listing and the detail hide. -/
def HiddenUntaken (env : Env β) (m : Market β) : Prop :=
  ∀ mp ∈ m.hub.marketplace_strategies, hides mp = true → ∀ user ∈ m.hub.users,
    ∀ new_id delivery, m.hub.has_row new_id = false → ¬ Takes env m.hub user mp.id new_id delivery

/-- A hidden row is delisted, or every user has a copy of it or no room for its name. -/
def Exhausted (m : Market β) : Prop :=
  ∀ mp ∈ m.hub.marketplace_strategies, hides mp = true → ∀ user ∈ m.hub.users,
    mp.delisted = true ∨ HasCopy m.hub user mp ∨ NameTaken m.hub user mp

instance : DecidablePred (Exhausted (β := β)) :=
  fun _ => inferInstanceAs (Decidable (∀ mp ∈ _, _ → ∀ user ∈ _, _))

/-- After any requests a hidden row cannot be installed anew exactly if it is delisted
or the user's library leaves no room for it. -/
theorem hidden_untaken_iff {s m : Market β} {es : List (User × Request)} (hs : Keyed s.hub)
    (hrun : run (step env) s es = some m) : HiddenUntaken env m ↔ Exhausted m := by
  have hkeyed := keyed_run hs hrun
  refine forall₃_congr ?_
  intro mp hmp _
  refine forall₂_congr ?_
  intro user _
  have hrow := marketplace_strategy_of_mem hkeyed hmp
  constructor
  · intro huntaken
    obtain ⟨new_id, hnew⟩ := exists_fresh_id m.hub
    have hnot := huntaken new_id .unsent hnew
    rw [takes_iff hrow user hnew] at hnot
    by_contra hexhausted
    push Not at hexhausted
    exact hnot ⟨by simpa using hexhausted.1, hexhausted.2⟩
  · intro hexhausted new_id delivery hnew htakes
    obtain ⟨hdelisted, hcopy, hname⟩ := (takes_iff hrow user hnew delivery).mp htakes
    rcases hexhausted with hdel | hhas | htaken
    · rw [hdelisted] at hdel
      cases hdel
    · exact hcopy hhas
    · exact hname htaken

def member (name : String) : User where
  id := name.toList
  wallet_address := name.toList
  wallet_chain := []

def sample : Env Tokens where
  token := standard
  keccak := fun _ => 0
  signer := 1
  inft_enabled := false
  registry_enabled := false
  sha256_hex := fun _ => List.replicate 64 '0'
  sha3_256 := fun _ => List.replicate 32 0
  to_checksum_address := fun _ => none

def opening (names : List String) : Market Tokens where
  hub := start sample (names.map member)
  reports := []

/-- The user `a` writes and publishes a strategy. -/
def publication : List (User × Request) :=
  [(member "a", .strategies
      (.create { name := "s".toList, code := "c".toList, params_schema := none } "r".toList)),
    (member "a", .strategies (.publish "r".toList
      { new_id := "m".toList
        backtest := .ok
          { strategy_hash := List.replicate 64 '0', dataset_hash := List.replicate 64 '0'
            metrics := ⟨0, 0, 0, 0, 0⟩ }
        registry_tx := none, attest_tx := none, mint := .unsent }))]

def installed_by (name : String) : User × Request :=
  (member name, .strategies (.install "m".toList name.toList .unsent))

def reported_by (name : String) : User × Request := (member name, .report "m".toList "spam".toList)

/-- Everyone who reports the strategy has installed it. -/
theorem hidden_untaken_exhausted : ∃ m, run (step sample) (opening ["a", "b", "c"])
      (publication ++ ["b", "c"].map installed_by ++ ["a", "b", "c"].map reported_by) = some m ∧
      HiddenUntaken sample m := by
  obtain ⟨m, hrun, hexhausted⟩ : ∃ m ∈ run (step sample) (opening ["a", "b", "c"])
      (publication ++ ["b", "c"].map installed_by ++ ["a", "b", "c"].map reported_by),
      Exhausted m := by decide
  exact ⟨m, hrun, (hidden_untaken_iff (by decide) hrun).mpr hexhausted⟩

/-- The strategy is hidden, and a user who has not installed it does so. -/
theorem hidden_taken :
    ¬ ∀ (env : Env Tokens) (users : List User) (es : List (User × Request)) (m : Market Tokens),
      run (step env) { hub := start env users, reports := [] } es = some m →
        HiddenUntaken env m := by
  intro h
  obtain ⟨m, hrun, mp, hmp, hhidden, user, huser, hnew, htakes⟩ :
      ∃ m ∈ run (step sample) (opening ["a", "b", "c"])
        (publication ++ ["a", "b", "c"].map reported_by),
        ∃ mp ∈ m.hub.marketplace_strategies, hides mp = true ∧ ∃ user ∈ m.hub.users,
          m.hub.has_row "i".toList = false ∧
            Takes sample m.hub user mp.id "i".toList .unsent := by decide
  exact h sample _ _ m hrun mp hmp hhidden user huser "i".toList .unsent hnew htakes

end ArticTrader.MarketplaceRoutes
