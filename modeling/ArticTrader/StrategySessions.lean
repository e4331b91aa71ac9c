import ArticTrader.ConcurrentCalls
import ArticTrader.MarketplaceRoutes

/-!
The strategy and marketplace requests of the hub, each in a session of its own under
READ COMMITTED and resumed at each of its awaits. What a session changes is written
at its commit, in the columns that it has changed; a report alone is written before,
and until its commit no other session sees it or can write one for the same user.
-/

namespace ArticTrader.StrategySessions

open ArticTrader.ConcurrentCalls
open ArticTrader.MarketplaceRoutes hiding step Request handle
open ArticTrader.PythonNumbers
open ArticTrader.PythonText
open ArticTrader.StrategyRoutes hiding step Request handle

/-- The committed tables. `inserting` are strategy and reporter of the reports that are
not committed, `issued` the ids of rows that were given out. -/
structure Database (β : Type) where
  hub : Hub β
  reports : List MarketplaceReport
  inserting : List (Text × Text)
  issued : List Text

inductive Request where
  | create (body : StrategyCreate)
  | patch (strategy_id : Text) (body : StrategyPatch)
  | delete (strategy_id : Text)
  | install (strategy_id : Text)
  | publish (strategy_id : Text)
  | report (strategy_id reason : Text)
  deriving DecidableEq, Repr

/-- What is done with a row of the library that is loaded. -/
inductive Job where
  | patch (body : StrategyPatch)
  | delete
  | publish
  deriving DecidableEq, Repr

inductive Outcome where
  | returned
  | failed (failure : Failure)
  | aborted
  deriving DecidableEq, Repr

/-- What a request awaits, with the rows as it has loaded them. -/
inductive Phase where
  | creating (row : UserStrategy)
  | loading (user : User) (strategy_id : Text) (job : Job)
  | patching (loaded assigned : UserStrategy)
  | counting (row : UserStrategy) (marketplace_id : Text)
  | deleting (row : UserStrategy) (mp : Option MarketplaceStrategy)
  | selecting (user : User) (strategy_id : Text)
  | checking (user : User) (mp : MarketplaceStrategy)
  | installing (user : User) (mp : MarketplaceStrategy)
  | granting (user : User) (mp : MarketplaceStrategy)
  | backtesting (user : User) (row : UserStrategy) (code_blob : Text)
  | searching (user : User) (sent : Submitted)
  | minting (user : User) (sent : Submitted) (existing : Option MarketplaceStrategy)
  | publishing (user : User) (sent : Submitted) (existing : Option MarketplaceStrategy)
      (token : Option (ℕ × Text))
  | flagging (user : User) (strategy_id reason : Text)
  | reporting (user : User) (mp : MarketplaceStrategy) (reason : Text)
  | tallying (user : User) (mp : MarketplaceStrategy) (reason : Text)
  | recording (user : User) (mp : MarketplaceStrategy) (reason : Text) (count : ℤ)
  | done (outcome : Outcome)

/-- How an await ends. A commit that inserts a row gives it a new id. -/
inductive Input where
  | go
  | insert (new_id : Text)
  | answered (outcome : Except Failure (Text × Metrics)) (registry_tx attest_tx : Option Text)
  | delivered (delivery : Delivery)
  | raised

variable {β : Type}

def Phase.finished : Phase → Bool
  | .done _ => true
  | _ => false

/-- The report that the session of a request has written and not committed. -/
def Phase.inserted : Phase → Option (Text × Text)
  | .tallying user mp _ | .recording user mp _ _ => some (mp.id, user.id)
  | _ => none

/-- An `UPDATE` sets a column only to a value that is not the one loaded. -/
def column {γ : Type} [DecidableEq γ] (loaded assigned current : γ) : γ :=
  if assigned = loaded then current else assigned

def written_row (loaded assigned current : UserStrategy) : UserStrategy where
  id := current.id
  user_id := column loaded.user_id assigned.user_id current.user_id
  source := column loaded.source assigned.source current.source
  name := column loaded.name assigned.name current.name
  code_hash := column loaded.code_hash assigned.code_hash current.code_hash
  code_blob := column loaded.code_blob assigned.code_blob current.code_blob
  params_schema := column loaded.params_schema assigned.params_schema current.params_schema
  marketplace_id := column loaded.marketplace_id assigned.marketplace_id current.marketplace_id

def written (loaded assigned current : MarketplaceStrategy) : MarketplaceStrategy where
  id := current.id
  author_user_id := column loaded.author_user_id assigned.author_user_id current.author_user_id
  name := column loaded.name assigned.name current.name
  code_hash := column loaded.code_hash assigned.code_hash current.code_hash
  code_blob := column loaded.code_blob assigned.code_blob current.code_blob
  params_schema := column loaded.params_schema assigned.params_schema current.params_schema
  installs_count := column loaded.installs_count assigned.installs_count current.installs_count
  reports_count := column loaded.reports_count assigned.reports_count current.reports_count
  delisted := column loaded.delisted assigned.delisted current.delisted
  metrics := column loaded.metrics assigned.metrics current.metrics
  registry_tx := column loaded.registry_tx assigned.registry_tx current.registry_tx
  attest_tx := column loaded.attest_tx assigned.attest_tx current.attest_tx
  inft_token_id := column loaded.inft_token_id assigned.inft_token_id current.inft_token_id
  inft_mint_tx := column loaded.inft_mint_tx assigned.inft_mint_tx current.inft_mint_tx

/-- The `UPDATE` of a marketplace row. -/
def update_columns (hub : Hub β) (loaded assigned : MarketplaceStrategy) : Hub β :=
  { hub with
    marketplace_strategies := hub.marketplace_strategies.map fun current =>
      if current.id = loaded.id then written loaded assigned current else current }

variable (env : Env β)

def patched (row : UserStrategy) (body : StrategyPatch) : UserStrategy where
  id := row.id
  user_id := row.user_id
  source := row.source
  name := body.name.getD row.name
  code_hash := (body.code.map env.sha256_hex).or row.code_hash
  code_blob := body.code.or row.code_blob
  params_schema := body.params_schema.or row.params_schema
  marketplace_id := row.marketplace_id

/-- The endpoint of the user server hashes the code that it is sent. -/
def validate_and_backtest (code : Text) (outcome : Except Failure (Text × Metrics)) :
    Except Failure Backtest :=
  outcome.map fun (dataset_hash, metrics) =>
    { strategy_hash := env.sha256_hex code, dataset_hash, metrics }

/-- `publish_strategy` from the answer of the user server to the on-chain submissions. -/
def submitted (row : UserStrategy) (code_blob : Text) (answer : Except Failure Backtest)
    (registry_tx attest_tx : Option Text) : Except Failure Submitted := do
  let backtest ← answer
  let strategy_hash ← bytes_fromhex backtest.strategy_hash
  let registry ← submit_registry env registry_tx strategy_hash (List.replicate 32 0)
  let dataset_hash ← bytes_fromhex backtest.dataset_hash
  let attest ← submit_registry env attest_tx strategy_hash dataset_hash
  return { row, code_blob, backtest, strategy_hash, registry, attest }

def failed (status : ℕ) (detail : String) : Phase := .done (.failed (.http status detail.toList))

def call (user : User) : Request → Phase
  | .create body =>
      if body.name.length < 1 ∨ 128 < body.name.length ∨ body.code.length < 1 then
        failed 422 "validation error"
      else if lower body.name = "builtin".toList then failed 400 "Reserved name"
      else
        .creating
          { id := [], user_id := user.id, source := .authored, name := body.name,
            code_hash := some (env.sha256_hex body.code), code_blob := some body.code,
            params_schema := body.params_schema, marketplace_id := none }
  | .patch strategy_id body =>
      if body.name.any fun name => name.length < 1 || 128 < name.length then
        failed 422 "validation error"
      else .loading user strategy_id (.patch body)
  | .delete strategy_id => .loading user strategy_id .delete
  | .publish strategy_id => .loading user strategy_id .publish
  | .install strategy_id => .selecting user strategy_id
  | .report strategy_id reason =>
      if reason.length < 1 ∨ 512 < reason.length then failed 422 "validation error"
      else .flagging user strategy_id reason

def loaded (user : User) (row : UserStrategy) : Job → Phase
  | .patch body =>
      if row.source ≠ .authored then failed 403 "Only authored strategies can be edited"
      else .patching row (patched env row body)
  | .delete =>
      if row.source = .builtin then failed 403 "Cannot remove builtin strategy"
      else
        match row.source, row.marketplace_id with
        | .marketplace, some marketplace_id => .counting row marketplace_id
        | _, _ => .deleting row none
  | .publish =>
      if row.source ≠ .authored then failed 403 "Only authored strategies can be published"
      else
        match row.code_blob with
        | some code_blob =>
            if truthy row.code_blob ∧ truthy row.code_hash then .backtesting user row code_blob
            else failed 400 "Strategy has no code"
        | none => failed 400 "Strategy has no code"

def Database.release (s : Database β) (p : Phase) : Database β :=
  { s with inserting := s.inserting.filter fun key => p.inserted ≠ some key }

def abort (s : Database β) (p : Phase) : Database β × Phase := (s.release p, .done .aborted)

def uninstall (hub : Hub β) : Option MarketplaceStrategy → Hub β
  | some mp =>
      if 0 < mp.installs_count then
        update_columns hub mp { mp with installs_count := mp.installs_count - 1 }
      else hub
  | none => hub

def commit_create (s : Database β) (row : UserStrategy) (new_id : Text) : Database β × Phase :=
  match s.hub.insert_row { row with id := new_id } with
  | none => (s, failed 409 "Strategy name already in use")
  | some hub => ({ s with hub, issued := new_id :: s.issued }, .done .returned)

/-- An `UPDATE` that finds no row raises. -/
def commit_patch (s : Database β) (loaded assigned : UserStrategy) : Database β × Phase :=
  if assigned = loaded then (s, .done .returned)
  else
    match s.hub.user_strategies.find? (·.id = loaded.id) with
    | none => (s, .done .aborted)
    | some current =>
        match s.hub.update_row (written_row loaded assigned current) with
        | none => (s, failed 409 "Strategy name already in use")
        | some hub => ({ s with hub }, .done .returned)

/-- A `DELETE` that finds no row does not raise. -/
def commit_delete (s : Database β) (row : UserStrategy) (mp : Option MarketplaceStrategy) :
    Database β × Phase :=
  let hub := uninstall s.hub mp
  let hub := { hub with user_strategies := hub.user_strategies.filter (·.id ≠ row.id) }
  ({ s with hub }, .done .returned)

def commit_install (s : Database β) (user : User) (mp : MarketplaceStrategy) (new_id : Text) :
    Database β × Phase :=
  match s.hub.insert_row (installed_row user mp new_id) with
  | none => (s, failed 409 "Strategy name conflicts in your library")
  | some hub =>
      let hub := update_columns hub mp { mp with installs_count := mp.installs_count + 1 }
      ({ s with hub, issued := new_id :: s.issued }, .granting user mp)

def commit_publish (s : Database β) (user : User) (sent : Submitted)
    (token : Option (ℕ × Text)) (new_id : Text) : Database β × Phase :=
  match s.hub.insert_marketplace (with_mint (published_row user new_id sent none) token) with
  | none => (s, failed 409 "Marketplace conflict")
  | some hub => ({ s with hub, issued := new_id :: s.issued }, .done .returned)

def commit_republish (s : Database β) (user : User) (sent : Submitted)
    (existing : MarketplaceStrategy) (token : Option (ℕ × Text)) : Database β × Phase :=
  let hub := update_columns s.hub existing
    (with_mint (published_row user existing.id sent (some existing)) token)
  ({ s with hub }, .done .returned)

def commit_report (s : Database β) (user : User) (mp : MarketplaceStrategy) (reason : Text)
    (count : ℤ) : Database β × Phase :=
  let reports := s.reports ++ [{ strategy_id := mp.id, reporter_user_id := user.id, reason }]
  let hub := update_columns s.hub mp { mp with reports_count := count }
  ({ s.release (.recording user mp reason count) with hub, reports }, .done .returned)

def reported (s : Database β) (strategy_id reporter : Text) : Bool :=
  s.reports.any fun r => r.strategy_id = strategy_id && r.reporter_user_id = reporter

/-- The copies of a marketplace row in a user's library. -/
def copies (hub : Hub β) (user : User) (mp : MarketplaceStrategy) : List UserStrategy :=
  hub.user_strategies.filter fun r => r.user_id = user.id && r.marketplace_id = some mp.id

/-- The rows that the author has published with a hash. -/
def publications (hub : Hub β) (user : User) (sent : Submitted) : List MarketplaceStrategy :=
  hub.marketplace_strategies.filter fun mp =>
    mp.author_user_id = user.id && mp.code_hash = sent.backtest.strategy_hash

def select_row (s : Database β) (user : User) (strategy_id : Text) (job : Job) : Phase :=
  match load_owned s.hub strategy_id user.id with
  | .error e => .done (.failed e)
  | .ok row => loaded env user row job

def select_marketplace (s : Database β) (user : User) (strategy_id : Text) : Phase :=
  match s.hub.marketplace_strategy strategy_id with
  | none => failed 404 "Marketplace strategy not found"
  | some mp =>
      if mp.delisted then failed 404 "Marketplace strategy not found" else .checking user mp

def check_copies (s : Database β) (user : User) (mp : MarketplaceStrategy) : Phase :=
  match scalar_one_or_none (copies s.hub user mp) with
  | .error e => .done (.failed e)
  | .ok (some _) => .done .returned
  | .ok none => .installing user mp

def select_reported (s : Database β) (user : User) (strategy_id reason : Text) : Phase :=
  match s.hub.marketplace_strategy strategy_id with
  | none => failed 404 "Marketplace strategy not found"
  | some mp => .reporting user mp reason

def search_existing (s : Database β) (user : User) (sent : Submitted) : Phase :=
  match scalar_one_or_none (publications s.hub user sent) with
  | .error e => .done (.failed e)
  | .ok existing => .minting user sent existing

def mint (s : Database β) (user : User) (sent : Submitted)
    (existing : Option MarketplaceStrategy) (delivery : Delivery) : Database β × Phase :=
  let minted := mint_publication env s.hub.inft user sent delivery
  ({ s with hub := { s.hub with inft := minted.1 } },
    match minted.2 with
    | .error e => .done (.failed (.raised e))
    | .ok token => .publishing user sent existing token)

def submit (user : User) (row : UserStrategy) (code_blob : Text)
    (outcome : Except Failure (Text × Metrics)) (registry_tx attest_tx : Option Text) : Phase :=
  match submitted env row code_blob (validate_and_backtest env code_blob outcome) registry_tx
      attest_tx with
  | .error e => .done (.failed e)
  | .ok sent => .searching user sent

/-- One step of a request, from one await to the next. -/
def resume (s : Database β) : Phase → Input → Option (Database β × Phase)
  | .creating row, .insert new_id =>
      if new_id ∈ s.issued then none else some (commit_create s row new_id)
  | .loading user strategy_id job, .go => some (s, select_row env s user strategy_id job)
  | .patching loaded assigned, .go => some (commit_patch s loaded assigned)
  | .counting row marketplace_id, .go =>
      some (s, .deleting row (s.hub.marketplace_strategy marketplace_id))
  | .deleting row mp, .go => some (commit_delete s row mp)
  | .selecting user strategy_id, .go => some (s, select_marketplace s user strategy_id)
  | .checking user mp, .go => some (s, check_copies s user mp)
  | .installing user mp, .insert new_id =>
      if new_id ∈ s.issued then none else some (commit_install s user mp new_id)
  | .granting user mp, .delivered delivery =>
      some ({ s with hub := grant_usage env s.hub user mp delivery }, .done .returned)
  | .backtesting user row code_blob, .answered outcome registry_tx attest_tx =>
      some (s, submit env user row code_blob outcome registry_tx attest_tx)
  | .searching user sent, .go => some (s, search_existing s user sent)
  | .minting user sent existing, .delivered delivery => some (mint env s user sent existing delivery)
  | .publishing user sent none token, .insert new_id =>
      if new_id ∈ s.issued then none else some (commit_publish s user sent token new_id)
  | .publishing user sent (some existing) token, .go =>
      some (commit_republish s user sent existing token)
  | .flagging user strategy_id reason, .go => some (s, select_reported s user strategy_id reason)
  | .reporting user mp reason, .go =>
      if (mp.id, user.id) ∈ s.inserting then none
      else if reported s mp.id user.id then some (s, failed 409 "Already reported by this user")
      else
        some ({ s with inserting := (mp.id, user.id) :: s.inserting }, .tallying user mp reason)
  | .tallying user mp reason, .go =>
      some (s, .recording user mp reason (reports_of s.reports mp.id + 1))
  | .recording user mp reason count, .go => some (commit_report s user mp reason count)
  | .done _, _ => none
  | p, .raised => some (abort s p)
  | _, _ => none

/-- The steps that write nothing. -/
inductive Reads (s : Database β) : Phase → Phase → Prop
  | ended (p : Phase) (outcome : Outcome) (hfree : p.inserted = none) : Reads s p (.done outcome)
  | patching (user : User) (strategy_id : Text) (body : StrategyPatch) (row : UserStrategy)
      (hrow : row ∈ s.hub.user_strategies) (hauthored : row.source = .authored) :
      Reads s (.loading user strategy_id (.patch body)) (.patching row (patched env row body))
  | counting (user : User) (strategy_id : Text) (row : UserStrategy) (marketplace_id : Text)
      (hrow : row ∈ s.hub.user_strategies) (hmp : row.marketplace_id = some marketplace_id) :
      Reads s (.loading user strategy_id .delete) (.counting row marketplace_id)
  | deleting (user : User) (strategy_id : Text) (row : UserStrategy)
      (hrow : row ∈ s.hub.user_strategies)
      (hmp : row.source = .marketplace → row.marketplace_id = none) :
      Reads s (.loading user strategy_id .delete) (.deleting row none)
  | counted (row : UserStrategy) (marketplace_id : Text) :
      Reads s (.counting row marketplace_id)
        (.deleting row (s.hub.marketplace_strategy marketplace_id))
  | backtesting (user : User) (strategy_id : Text) (row : UserStrategy) (code_blob : Text)
      (hrow : row ∈ s.hub.user_strategies) (hcode : row.code_blob = some code_blob) :
      Reads s (.loading user strategy_id .publish) (.backtesting user row code_blob)
  | checking (user : User) (strategy_id : Text) (mp : MarketplaceStrategy)
      (hmp : mp ∈ s.hub.marketplace_strategies) :
      Reads s (.selecting user strategy_id) (.checking user mp)
  | installing (user : User) (mp : MarketplaceStrategy) :
      Reads s (.checking user mp) (.installing user mp)
  | searching (user : User) (row : UserStrategy) (code_blob : Text)
      (outcome : Except Failure (Text × Metrics)) (registry_tx attest_tx : Option Text)
      (sent : Submitted)
      (hsent : submitted env row code_blob (validate_and_backtest env code_blob outcome)
        registry_tx attest_tx = .ok sent) :
      Reads s (.backtesting user row code_blob) (.searching user sent)
  | minting (user : User) (sent : Submitted) (existing : Option MarketplaceStrategy)
      (hexisting : ∀ mp ∈ existing, mp ∈ publications s.hub user sent) :
      Reads s (.searching user sent) (.minting user sent existing)
  | reporting (user : User) (strategy_id reason : Text) (mp : MarketplaceStrategy)
      (hmp : mp ∈ s.hub.marketplace_strategies) :
      Reads s (.flagging user strategy_id reason) (.reporting user mp reason)
  | tallied (user : User) (mp : MarketplaceStrategy) (reason : Text) :
      Reads s (.tallying user mp reason)
        (.recording user mp reason (reports_of s.reports mp.id + 1))

/-- The steps there are. -/
inductive Resumed (s : Database β) : Phase → Input → Database β × Phase → Prop
  | read (p : Phase) (x : Input) (p' : Phase) (h : Reads env s p p') : Resumed s p x (s, p')
  | aborted (p : Phase) : Resumed s p .raised (abort s p)
  | created (row : UserStrategy) (new_id : Text) (hub : Hub β) (hnew : new_id ∉ s.issued)
      (hinsert : s.hub.insert_row { row with id := new_id } = some hub) :
      Resumed s (.creating row) (.insert new_id)
        ({ s with hub, issued := new_id :: s.issued }, .done .returned)
  | patched (loaded assigned current : UserStrategy) (hub : Hub β)
      (hcurrent : current ∈ s.hub.user_strategies) (hid : current.id = loaded.id)
      (hupdate : s.hub.update_row (written_row loaded assigned current) = some hub) :
      Resumed s (.patching loaded assigned) .go ({ s with hub }, .done .returned)
  | deleted (row : UserStrategy) (mp : Option MarketplaceStrategy) :
      Resumed s (.deleting row mp) .go (commit_delete s row mp)
  | installed (user : User) (mp : MarketplaceStrategy) (new_id : Text) (hub : Hub β)
      (hnew : new_id ∉ s.issued)
      (hinsert : s.hub.insert_row (installed_row user mp new_id) = some hub) :
      Resumed s (.installing user mp) (.insert new_id)
        ({ s with
            hub := update_columns hub mp { mp with installs_count := mp.installs_count + 1 }
            issued := new_id :: s.issued },
          .granting user mp)
  | granted (user : User) (mp : MarketplaceStrategy) (delivery : Delivery) :
      Resumed s (.granting user mp) (.delivered delivery)
        ({ s with hub := grant_usage env s.hub user mp delivery }, .done .returned)
  | minted (user : User) (sent : Submitted) (existing : Option MarketplaceStrategy)
      (delivery : Delivery) :
      Resumed s (.minting user sent existing) (.delivered delivery)
        (mint env s user sent existing delivery)
  | published (user : User) (sent : Submitted) (token : Option (ℕ × Text)) (new_id : Text)
      (hub : Hub β) (hnew : new_id ∉ s.issued)
      (hinsert : s.hub.insert_marketplace
        (with_mint (published_row user new_id sent none) token) = some hub) :
      Resumed s (.publishing user sent none token) (.insert new_id)
        ({ s with hub, issued := new_id :: s.issued }, .done .returned)
  | republished (user : User) (sent : Submitted) (existing : MarketplaceStrategy)
      (token : Option (ℕ × Text)) :
      Resumed s (.publishing user sent (some existing) token) .go
        (commit_republish s user sent existing token)
  | flushed (user : User) (mp : MarketplaceStrategy) (reason : Text)
      (hfree : (mp.id, user.id) ∉ s.inserting) (hnew : reported s mp.id user.id = false) :
      Resumed s (.reporting user mp reason) .go
        ({ s with inserting := (mp.id, user.id) :: s.inserting }, .tallying user mp reason)
  | recorded (user : User) (mp : MarketplaceStrategy) (reason : Text) (count : ℤ) :
      Resumed s (.recording user mp reason count) .go (commit_report s user mp reason count)

variable {env} {s : Database β}

theorem mem_of_load_owned {hub : Hub β} {strategy_id user_id : Text} {row : UserStrategy}
    (h : load_owned hub strategy_id user_id = .ok row) : row ∈ hub.user_strategies := by
  unfold load_owned at h
  split at h
  next => cases h
  next row' hfound =>
      cases h
      exact List.mem_of_find?_eq_some hfound

theorem reads_select_row (user : User) (strategy_id : Text) (job : Job) :
    Reads env s (.loading user strategy_id job) (select_row env s user strategy_id job) := by
  unfold select_row
  split
  next => exact .ended _ _ rfl
  next row hrow =>
      have hmem := mem_of_load_owned hrow
      cases job with
      | patch body =>
          unfold loaded
          dsimp only
          split
          next => exact .ended _ _ rfl
          next hauthored => exact .patching _ _ _ _ hmem (not_not.mp hauthored)
      | delete =>
          unfold loaded
          dsimp only
          split
          next => exact .ended _ _ rfl
          next =>
              split
              next marketplace_id hsource hmp => exact .counting _ _ _ _ hmem hmp
              next hnot =>
                  refine .deleting _ _ _ hmem ?_
                  intro hsource
                  exact Option.eq_none_iff_forall_ne_some.mpr fun id hid => hnot id hsource hid
      | publish =>
          unfold loaded
          dsimp only
          split
          next => exact .ended _ _ rfl
          next =>
              split
              next code_blob hcode =>
                  split
                  next => exact .backtesting _ _ _ _ hmem hcode
                  next => exact .ended _ _ rfl
              next => exact .ended _ _ rfl

theorem reads_check_copies (user : User) (mp : MarketplaceStrategy) :
    Reads env s (.checking user mp) (check_copies s user mp) := by
  unfold check_copies
  split
  next => exact .ended _ _ rfl
  next => exact .ended _ _ rfl
  next => exact .installing user mp

theorem reads_select_marketplace (user : User) (strategy_id : Text) :
    Reads env s (.selecting user strategy_id) (select_marketplace s user strategy_id) := by
  unfold select_marketplace
  split
  next => exact .ended _ _ rfl
  next mp hmp =>
      split
      next => exact .ended _ _ rfl
      next => exact .checking _ _ _ (marketplace_strategy_some hmp).1

theorem reads_select_reported (user : User) (strategy_id reason : Text) :
    Reads env s (.flagging user strategy_id reason)
      (select_reported s user strategy_id reason) := by
  unfold select_reported
  split
  next => exact .ended _ _ rfl
  next mp hmp => exact .reporting _ _ _ _ (marketplace_strategy_some hmp).1

theorem reads_search_existing (user : User) (sent : Submitted) :
    Reads env s (.searching user sent) (search_existing s user sent) := by
  unfold search_existing
  split
  next => exact .ended _ _ rfl
  next existing hexisting =>
      refine .minting _ _ _ ?_
      rintro mp rfl
      rw [scalar_one_or_none_some hexisting]
      exact List.mem_cons_self

theorem reads_submit (user : User) (row : UserStrategy) (code_blob : Text)
    (outcome : Except Failure (Text × Metrics)) (registry_tx attest_tx : Option Text) :
    Reads env s (.backtesting user row code_blob)
      (submit env user row code_blob outcome registry_tx attest_tx) := by
  unfold submit
  split
  next => exact .ended _ _ rfl
  next sent hsent => exact .searching _ _ _ _ _ _ _ hsent

theorem Resumed.ended (p : Phase) (x : Input) (outcome : Outcome) (hfree : p.inserted = none) :
    Resumed env s p x (s, .done outcome) :=
  .read p x _ (.ended p outcome hfree)

theorem resumed_create {row : UserStrategy} {new_id : Text} (hnew : new_id ∉ s.issued) :
    Resumed env s (.creating row) (.insert new_id) (commit_create s row new_id) := by
  unfold commit_create
  split
  next => exact .ended _ _ _ rfl
  next hub hinsert => exact .created row new_id hub hnew hinsert

theorem resumed_patch (loaded assigned : UserStrategy) :
    Resumed env s (.patching loaded assigned) .go (commit_patch s loaded assigned) := by
  unfold commit_patch
  split
  next => exact .ended _ _ _ rfl
  next =>
      split
      next => exact .ended _ _ _ rfl
      next current hcurrent =>
          split
          next => exact .ended _ _ _ rfl
          next hub hupdate =>
              exact .patched loaded assigned current hub (List.mem_of_find?_eq_some hcurrent)
                (by simpa using List.find?_some hcurrent) hupdate

theorem resumed_install {user : User} {mp : MarketplaceStrategy} {new_id : Text}
    (hnew : new_id ∉ s.issued) :
    Resumed env s (.installing user mp) (.insert new_id) (commit_install s user mp new_id) := by
  unfold commit_install
  split
  next => exact .ended _ _ _ rfl
  next hub hinsert => exact .installed user mp new_id hub hnew hinsert

theorem resumed_publish {user : User} {sent : Submitted} {token : Option (ℕ × Text)}
    {new_id : Text} (hnew : new_id ∉ s.issued) :
    Resumed env s (.publishing user sent none token) (.insert new_id)
      (commit_publish s user sent token new_id) := by
  unfold commit_publish
  split
  next => exact .ended _ _ _ rfl
  next hub hinsert => exact .published user sent token new_id hub hnew hinsert

theorem resumed_of_resume {p : Phase} {x : Input} {r : Database β × Phase}
    (h : resume env s p x = some r) : Resumed env s p x r := by
  unfold resume at h
  split at h
  case h_1 row new_id =>
      obtain ⟨hnew, h⟩ := Option.ite_none_left_eq_some.mp h
      cases h
      exact resumed_create hnew
  case h_2 user strategy_id job =>
      cases h
      exact .read _ _ _ (reads_select_row user strategy_id job)
  case h_3 loaded assigned =>
      cases h
      exact resumed_patch loaded assigned
  case h_4 row marketplace_id =>
      cases h
      exact .read _ _ _ (.counted row marketplace_id)
  case h_5 row mp =>
      cases h
      exact .deleted row mp
  case h_6 user strategy_id =>
      cases h
      exact .read _ _ _ (reads_select_marketplace user strategy_id)
  case h_7 user mp =>
      cases h
      exact .read _ _ _ (reads_check_copies user mp)
  case h_8 user mp new_id =>
      obtain ⟨hnew, h⟩ := Option.ite_none_left_eq_some.mp h
      cases h
      exact resumed_install hnew
  case h_9 user mp delivery =>
      cases h
      exact .granted user mp delivery
  case h_10 user row code_blob outcome registry_tx attest_tx =>
      cases h
      exact .read _ _ _ (reads_submit user row code_blob outcome registry_tx attest_tx)
  case h_11 user sent =>
      cases h
      exact .read _ _ _ (reads_search_existing user sent)
  case h_12 user sent existing delivery =>
      cases h
      exact .minted user sent existing delivery
  case h_13 user sent token new_id =>
      obtain ⟨hnew, h⟩ := Option.ite_none_left_eq_some.mp h
      cases h
      exact resumed_publish hnew
  case h_14 user sent existing token =>
      cases h
      exact .republished user sent existing token
  case h_15 user strategy_id reason =>
      cases h
      exact .read _ _ _ (reads_select_reported user strategy_id reason)
  case h_16 user mp reason =>
      obtain ⟨hfree, h⟩ := Option.ite_none_left_eq_some.mp h
      split at h
      next =>
          cases h
          exact .ended _ _ _ rfl
      next hnew =>
          cases h
          exact .flushed user mp reason hfree (by simpa using hnew)
  case h_17 user mp reason =>
      cases h
      exact .read _ _ _ (.tallied user mp reason)
  case h_18 user mp reason count =>
      cases h
      exact .recorded user mp reason count
  case h_20 p hopen =>
      cases h
      exact .aborted _
  all_goals cases h

abbrev State (ι : Type*) (β : Type) := System ι (Database β) Phase

inductive Event (ι : Type*) where
  | call (i : ι) (user : User) (request : Request)
  | input (i : ι) (x : Input)

def step {ι : Type*} [DecidableEq ι] (env : Env β) (s : State ι β) : Event ι → Option (State ι β)
  | .call i user request =>
      if (s.calls i).finished ∧ user ∈ s.shared.hub.users then
        some (s.set i (call env user request))
      else none
  | .input i x => (resume env s.shared (s.calls i) x).map fun r => (s.write r.1).set i r.2

end ArticTrader.StrategySessions
