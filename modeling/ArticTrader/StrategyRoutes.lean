import Mathlib.Data.List.Basic
import ArticTrader.InftClient
import ArticTrader.LabelledRuns

/-!
The hub's strategy library and marketplace: the tables, the routes that write
them, and the calls of `StrategyINFT` that a publish or an install makes.
-/

namespace ArticTrader.StrategyRoutes

open ArticTrader.LabelledRuns
open ArticTrader.PythonNumbers
open ArticTrader.PythonText
open ArticTrader.TokenStandard
open ArticTrader.StrategyINFT (exec)
open ArticTrader.InftClient (receipt word)

structure User where
  id : Text
  wallet_address : Text
  wallet_chain : Text
  deriving DecidableEq, Repr

inductive Source where
  | builtin
  | marketplace
  | authored
  deriving DecidableEq, Repr

structure UserStrategy where
  id : Text
  user_id : Text
  source : Source
  name : Text
  code_hash : Option Text
  code_blob : Option Text
  params_schema : Option Text
  marketplace_id : Option Text
  deriving DecidableEq, Repr

structure Metrics where
  sharpe_bps : ℤ
  max_dd_bps : ℤ
  total_return_bps : ℤ
  win_rate_bps : ℤ
  n_trades : ℤ
  deriving DecidableEq, Repr

structure MarketplaceStrategy where
  id : Text
  author_user_id : Text
  name : Text
  code_hash : Text
  code_blob : Text
  params_schema : Option Text
  installs_count : ℤ
  reports_count : ℤ
  delisted : Bool
  metrics : Option Metrics
  registry_tx : Option Text
  attest_tx : Option Text
  inft_token_id : Option ℕ
  inft_mint_tx : Option Text
  deriving DecidableEq, Repr

structure Backtest where
  strategy_hash : Text
  dataset_hash : Text
  metrics : Metrics
  deriving DecidableEq, Repr

/-- How a request fails: with an `HTTPException`, or with an exception that no
handler of the route takes. -/
inductive Failure where
  | http (status : ℕ) (detail : Text)
  | raised (error : PyError)
  | multiple_results
  deriving DecidableEq, Repr

structure StrategyOut where
  id : Text
  name : Text
  source : Source
  code_hash : Option Text
  marketplace_id : Option Text
  params_schema : Option Text
  deriving DecidableEq, Repr

def StrategyOut.from_row (row : UserStrategy) : StrategyOut where
  id := row.id
  name := row.name
  source := row.source
  code_hash := row.code_hash
  marketplace_id := row.marketplace_id
  params_schema := row.params_schema

structure PublishResponse where
  marketplace_id : Text
  strategy_hash : Text
  backtest : Backtest
  registry : Option Text
  attest : Option Text
  inft_mint : Option Text
  inft_token_id : Option ℕ
  deriving DecidableEq, Repr

/-- What happens to a transaction that the hub signs: it is never sent, it is
mined without the client learning of it, or the client gets its hash. -/
inductive Delivery where
  | unsent
  | lost
  | mined (tx_hash : Text)
  deriving DecidableEq, Repr

def Delivery.answer : Delivery → Option Text
  | .mined tx_hash => some tx_hash
  | _ => none

structure Env (β : Type) where
  token : Erc721 β
  keccak : Text → Word
  signer : Address
  inft_enabled : Bool
  registry_enabled : Bool
  sha256_hex : Text → Text
  sha3_256 : Text → List UInt8
  to_checksum_address : Text → Option Address

structure Hub (β : Type) where
  users : List User
  user_strategies : List UserStrategy
  marketplace_strategies : List MarketplaceStrategy
  inft : StrategyINFT.State β

variable {β : Type} (env : Env β)

/-- The tables are empty and the platform account has deployed the contract. -/
def start (users : List User) : Hub β where
  users
  user_strategies := []
  marketplace_strategies := []
  inft := StrategyINFT.initial env.token env.signer

/-- `user.wallet_chain and user.wallet_chain.startswith("0g") and
user.wallet_address.startswith("0x")` -/
def User.holds_inft (user : User) : Bool :=
  truthy (some user.wallet_chain) && startswith user.wallet_chain "0g".toList &&
    startswith user.wallet_address "0x".toList

/-- `uq_user_strategies_name` and the primary key, for a row to be written. -/
def Hub.accepts_row (hub : Hub β) (row : UserStrategy) : Bool :=
  hub.user_strategies.all fun r =>
    r.id = row.id || !(r.user_id = row.user_id && r.name = row.name)

def Hub.has_row (hub : Hub β) (id : Text) : Bool := hub.user_strategies.any (·.id = id)

def Hub.insert_row (hub : Hub β) (row : UserStrategy) : Option (Hub β) :=
  if hub.has_row row.id = false ∧ hub.accepts_row row then
    some { hub with user_strategies := hub.user_strategies ++ [row] }
  else none

def Hub.update_row (hub : Hub β) (row : UserStrategy) : Option (Hub β) :=
  if hub.accepts_row row then
    some { hub with
      user_strategies := hub.user_strategies.map fun r => if r.id = row.id then row else r }
  else none

def Hub.update_marketplace (hub : Hub β) (mp : MarketplaceStrategy) : Hub β :=
  { hub with
    marketplace_strategies :=
      hub.marketplace_strategies.map fun r => if r.id = mp.id then mp else r }

def Hub.insert_marketplace (hub : Hub β) (mp : MarketplaceStrategy) : Option (Hub β) :=
  if hub.marketplace_strategies.any (·.id = mp.id) then none
  else some { hub with marketplace_strategies := hub.marketplace_strategies ++ [mp] }

def Hub.marketplace_strategy (hub : Hub β) (id : Text) : Option MarketplaceStrategy :=
  hub.marketplace_strategies.find? (·.id = id)

def scalar_one_or_none {α : Type} : List α → Except Failure (Option α)
  | [] => .ok none
  | [row] => .ok (some row)
  | _ => .error .multiple_results

def load_owned (hub : Hub β) (strategy_id user_id : Text) : Except Failure UserStrategy :=
  match hub.user_strategies.find? fun r => r.id = strategy_id && r.user_id = user_id with
  | none => .error (.http 404 "Strategy not found".toList)
  | some row => .ok row

/-- A request leaves the hub in a state, also when it fails. -/
abbrev Response (β α : Type) := Hub β × Except Failure α

structure StrategyCreate where
  name : Text
  code : Text
  params_schema : Option Text
  deriving DecidableEq, Repr

def create_authored (hub : Hub β) (user : User) (body : StrategyCreate) (new_id : Text) :
    Response β StrategyOut :=
  if body.name.length < 1 ∨ 128 < body.name.length ∨ body.code.length < 1 then
    (hub, .error (.http 422 "validation error".toList))
  else if lower body.name = "builtin".toList then
    (hub, .error (.http 400 "Reserved name".toList))
  else
    let row : UserStrategy :=
      { id := new_id, user_id := user.id, source := .authored, name := body.name,
        code_hash := some (env.sha256_hex body.code), code_blob := some body.code,
        params_schema := body.params_schema, marketplace_id := none }
    match hub.insert_row row with
    | none => (hub, .error (.http 409 "Strategy name already in use".toList))
    | some hub' => (hub', .ok (.from_row row))

structure StrategyPatch where
  name : Option Text
  code : Option Text
  params_schema : Option Text
  deriving DecidableEq, Repr

def patch_strategy (hub : Hub β) (user : User) (strategy_id : Text) (body : StrategyPatch) :
    Response β StrategyOut :=
  if body.name.any fun name => name.length < 1 || 128 < name.length then
    (hub, .error (.http 422 "validation error".toList))
  else
    match load_owned hub strategy_id user.id with
    | .error e => (hub, .error e)
    | .ok row =>
        if row.source ≠ .authored then
          (hub, .error (.http 403 "Only authored strategies can be edited".toList))
        else
          let row := { row with name := body.name.getD row.name }
          let row :=
            match body.code with
            | none => row
            | some code =>
                { row with code_blob := some code, code_hash := some (env.sha256_hex code) }
          let row := { row with params_schema := body.params_schema.or row.params_schema }
          match hub.update_row row with
          | none => (hub, .error (.http 409 "Strategy name already in use".toList))
          | some hub' => (hub', .ok (.from_row row))

def uninstalled (hub : Hub β) (row : UserStrategy) : Hub β :=
  match row.source, row.marketplace_id with
  | .marketplace, some marketplace_id =>
      match hub.marketplace_strategy marketplace_id with
      | some mp =>
          if 0 < mp.installs_count then
            hub.update_marketplace { mp with installs_count := mp.installs_count - 1 }
          else hub
      | none => hub
  | _, _ => hub

def delete_strategy (hub : Hub β) (user : User) (strategy_id : Text) : Response β Unit :=
  match load_owned hub strategy_id user.id with
  | .error e => (hub, .error e)
  | .ok row =>
      if row.source = .builtin then
        (hub, .error (.http 403 "Cannot remove builtin strategy".toList))
      else
        let hub := uninstalled hub row
        ({ hub with user_strategies := hub.user_strategies.filter (·.id ≠ row.id) }, .ok ())

def authorize_usage (inft : StrategyINFT.State β) (token_id : ℕ) (user_address : Text)
    (delivery : Delivery) : StrategyINFT.State β :=
  match env.inft_enabled, env.to_checksum_address user_address with
  | true, some user =>
      if delivery = .unsent ∨ 2 ^ 256 ≤ token_id then inft
      else
        match exec env.token inft
          (.authorizeUsage env.signer (BitVec.ofNat 256 token_id) user) with
        | some (inft', _) => inft'
        | none => inft
  | _, _ => inft

def grant_usage (hub : Hub β) (user : User) (mp : MarketplaceStrategy) (delivery : Delivery) :
    Hub β :=
  match mp.inft_token_id with
  | none => hub
  | some token_id =>
      if user.holds_inft then
        { hub with inft := authorize_usage env hub.inft token_id user.wallet_address delivery }
      else hub

def installed_row (user : User) (mp : MarketplaceStrategy) (new_id : Text) : UserStrategy where
  id := new_id
  user_id := user.id
  source := .marketplace
  name := mp.name
  code_hash := some mp.code_hash
  code_blob := some mp.code_blob
  params_schema := mp.params_schema
  marketplace_id := some mp.id

def install_marketplace (hub : Hub β) (user : User) (strategy_id new_id : Text)
    (delivery : Delivery) : Response β StrategyOut :=
  match hub.marketplace_strategy strategy_id with
  | none => (hub, .error (.http 404 "Marketplace strategy not found".toList))
  | some mp =>
      if mp.delisted then (hub, .error (.http 404 "Marketplace strategy not found".toList))
      else
        match scalar_one_or_none (hub.user_strategies.filter fun r =>
            r.user_id = user.id && r.marketplace_id = some mp.id) with
        | .error e => (hub, .error e)
        | .ok (some existing) => (hub, .ok (.from_row existing))
        | .ok none =>
            let row := installed_row user mp new_id
            match hub.insert_row row with
            | none => (hub, .error (.http 409 "Strategy name conflicts in your library".toList))
            | some hub' =>
                let hub' :=
                  hub'.update_marketplace { mp with installs_count := mp.installs_count + 1 }
                (grant_usage env hub' user mp delivery, .ok (.from_row row))

/-- The transaction of `mint`, and what the client makes of its receipt. The
recipient has signed in with its key, and is an account without code. -/
def mint_inft (inft : StrategyINFT.State β) (to_address : Text)
    (metadata_hash sealed_config_hash : List UInt8) (delivery : Delivery) :
    StrategyINFT.State β × Except PyError (Option (ℕ × Text)) :=
  let client := InftClient.mint env.inft_enabled metadata_hash sealed_config_hash
  match env.inft_enabled, env.to_checksum_address to_address with
  | true, some recipient =>
      if delivery = .unsent ∨ metadata_hash.length ≠ 32 ∨ sealed_config_hash.length ≠ 32 then
        (inft, client none)
      else
        let result := exec env.token inft (.mint env.signer recipient (word metadata_hash)
          (word sealed_config_hash) true [])
        ((result.map Prod.fst).getD inft,
          client (delivery.answer.map fun tx_hash => (tx_hash, receipt env.keccak result)))
  | _, _ => (inft, client none)

structure PublishAnswers where
  new_id : Text
  backtest : Except Failure Backtest
  registry_tx : Option Text
  attest_tx : Option Text
  mint : Delivery

def submit_registry (answer : Option Text) (hash other : List UInt8) :
    Except Failure (Option Text) :=
  if env.registry_enabled = false then .ok none
  else if hash.length ≠ 32 ∨ other.length ≠ 32 then .error (.raised .ValueError)
  else .ok answer

def bytes_fromhex (s : Text) : Except Failure (List UInt8) :=
  match fromhex s with
  | none => .error (.raised .ValueError)
  | some bytes => .ok bytes

structure Submitted where
  row : UserStrategy
  code_blob : Text
  backtest : Backtest
  strategy_hash : List UInt8
  registry : Option Text
  attest : Option Text

/-- `publish_strategy` up to the on-chain submissions. -/
def submit_publication (hub : Hub β) (user : User) (strategy_id : Text)
    (answers : PublishAnswers) : Except Failure Submitted := do
  let row ← load_owned hub strategy_id user.id
  if row.source ≠ .authored then
    throw (.http 403 "Only authored strategies can be published".toList)
  let code_blob ←
    match row.code_blob with
    | some code_blob =>
        if truthy row.code_blob ∧ truthy row.code_hash then .ok code_blob
        else .error (.http 400 "Strategy has no code".toList)
    | none => .error (.http 400 "Strategy has no code".toList)
  let backtest ← answers.backtest
  let strategy_hash ← bytes_fromhex backtest.strategy_hash
  let registry ←
    submit_registry env answers.registry_tx strategy_hash (List.replicate 32 0)
  let dataset_hash ← bytes_fromhex backtest.dataset_hash
  let attest ← submit_registry env answers.attest_tx strategy_hash dataset_hash
  return { row, code_blob, backtest, strategy_hash, registry, attest }

/-- The marketplace row that a publication writes, before the mint. -/
def published_row (user : User) (new_id : Text) (sent : Submitted)
    (existing : Option MarketplaceStrategy) : MarketplaceStrategy :=
  let mp : MarketplaceStrategy :=
    match existing with
    | some mp =>
        { mp with name := sent.row.name, code_blob := sent.code_blob,
                  params_schema := sent.row.params_schema }
    | none =>
        { id := new_id, author_user_id := user.id, name := sent.row.name,
          code_hash := sent.backtest.strategy_hash, code_blob := sent.code_blob,
          params_schema := sent.row.params_schema, installs_count := 0, reports_count := 0,
          delisted := false, metrics := none, registry_tx := none, attest_tx := none,
          inft_token_id := none, inft_mint_tx := none }
  { mp with metrics := some sent.backtest.metrics, registry_tx := sent.registry,
            attest_tx := sent.attest }

def mint_publication (inft : StrategyINFT.State β) (user : User) (sent : Submitted)
    (delivery : Delivery) : StrategyINFT.State β × Except PyError (Option (ℕ × Text)) :=
  if user.holds_inft then
    mint_inft env inft user.wallet_address sent.strategy_hash (env.sha3_256 sent.code_blob)
      delivery
  else (inft, .ok none)

def with_mint (mp : MarketplaceStrategy) : Option (ℕ × Text) → MarketplaceStrategy
  | none => mp
  | some (token_id, tx_hash) =>
      { mp with inft_token_id := some token_id, inft_mint_tx := some tx_hash }

@[simp] theorem with_mint_id (mp : MarketplaceStrategy) (token : Option (ℕ × Text)) :
    (with_mint mp token).id = mp.id := by
  cases token <;> rfl

@[simp] theorem with_mint_code_hash (mp : MarketplaceStrategy) (token : Option (ℕ × Text)) :
    (with_mint mp token).code_hash = mp.code_hash := by
  cases token <;> rfl

@[simp] theorem with_mint_code_blob (mp : MarketplaceStrategy) (token : Option (ℕ × Text)) :
    (with_mint mp token).code_blob = mp.code_blob := by
  cases token <;> rfl

@[simp] theorem with_mint_installs_count (mp : MarketplaceStrategy) (token : Option (ℕ × Text)) :
    (with_mint mp token).installs_count = mp.installs_count := by
  cases token <;> rfl

@[simp] theorem with_mint_reports_count (mp : MarketplaceStrategy) (token : Option (ℕ × Text)) :
    (with_mint mp token).reports_count = mp.reports_count := by
  cases token <;> rfl

@[simp] theorem with_mint_delisted (mp : MarketplaceStrategy) (token : Option (ℕ × Text)) :
    (with_mint mp token).delisted = mp.delisted := by
  cases token <;> rfl

def Hub.write_publication (hub : Hub β) (existing : Option MarketplaceStrategy)
    (mp : MarketplaceStrategy) : Option (Hub β) :=
  match existing with
  | some _ => some (hub.update_marketplace mp)
  | none => hub.insert_marketplace mp

def publish_response (mp : MarketplaceStrategy) (sent : Submitted)
    (minted : Option (ℕ × Text)) : PublishResponse where
  marketplace_id := mp.id
  strategy_hash := sent.backtest.strategy_hash
  backtest := sent.backtest
  registry := sent.registry
  attest := sent.attest
  inft_mint := minted.map Prod.snd
  inft_token_id := (minted.map Prod.fst).filter fun token_id => token_id ≠ 0

def publish_strategy (hub : Hub β) (user : User) (strategy_id : Text)
    (answers : PublishAnswers) : Response β PublishResponse :=
  match submit_publication env hub user strategy_id answers with
  | .error e => (hub, .error e)
  | .ok sent =>
      match scalar_one_or_none (hub.marketplace_strategies.filter fun mp =>
          mp.author_user_id = user.id && mp.code_hash = sent.backtest.strategy_hash) with
      | .error e => (hub, .error e)
      | .ok existing =>
          let minted := mint_publication env hub.inft user sent answers.mint
          let hub' := { hub with inft := minted.1 }
          match minted.2 with
          | .error e => (hub', .error (.raised e))
          | .ok token =>
              let mp := with_mint (published_row user answers.new_id sent existing) token
              match hub'.write_publication existing mp with
              | none => (hub', .error (.http 409 "Marketplace conflict".toList))
              | some hub'' => (hub'', .ok (publish_response mp sent token))

inductive Request where
  | create (body : StrategyCreate) (new_id : Text)
  | patch (strategy_id : Text) (body : StrategyPatch)
  | delete (strategy_id : Text)
  | install (strategy_id new_id : Text) (delivery : Delivery)
  | publish (strategy_id : Text) (answers : PublishAnswers)

def handle (hub : Hub β) (user : User) : Request → Hub β
  | .create body new_id => (create_authored env hub user body new_id).1
  | .patch strategy_id body => (patch_strategy env hub user strategy_id body).1
  | .delete strategy_id => (delete_strategy hub user strategy_id).1
  | .install strategy_id new_id delivery =>
      (install_marketplace env hub user strategy_id new_id delivery).1
  | .publish strategy_id answers => (publish_strategy env hub user strategy_id answers).1

def step (hub : Hub β) (r : User × Request) : Option (Hub β) :=
  if r.1 ∈ hub.users then some (handle env hub r.1 r.2) else none

end ArticTrader.StrategyRoutes
