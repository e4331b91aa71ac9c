import ArticTrader.DecisionAttestation
import ArticTrader.SessionsAlone
import ArticTrader.StrategyRegistry
import ArticTrader.UsageGrants

/-!
One author publishes one code any number of times: the marketplace row, the
registry and the tokens, whatever becomes of the transactions.
-/

namespace ArticTrader.Republishing

open ArticTrader.DecisionAttestation (utf8)
open ArticTrader.InftClient (receipt word)
open ArticTrader.LabelledRuns
open ArticTrader.MarketplaceRoutes (Keyed moved_publish)
open ArticTrader.PythonNumbers
open ArticTrader.PythonText
open ArticTrader.SessionsAlone (submit_publication_foreign submit_publication_empty
  submit_publication_coded)
open ArticTrader.StrategyINFT (exec begin_mint_some exec_mint_some)
open ArticTrader.StrategyRoutes hiding step start Request
open ArticTrader.StrategySessions (submitted)
open ArticTrader.TokenStandard
open ArticTrader.UsageGrants (write_publication_some)

/-- What becomes of a transaction: `lost` stands for one that succeeds without the
client learning of it. -/
inductive Fate where
  | unsent
  | lost (tx_hash : Text)
  | reverted (tx_hash : Text)
  | succeeded (tx_hash : Text)
  deriving DecidableEq, Repr

def Fate.tx_hash : Fate → Option Text
  | .unsent => none
  | .lost tx_hash => some tx_hash
  | .reverted tx_hash => some tx_hash
  | .succeeded tx_hash => some tx_hash

/-- What the registry's client returns: it does not wait for a receipt. -/
def Fate.answer : Fate → Option Text
  | .unsent => none
  | .lost _ => none
  | .reverted tx_hash => some tx_hash
  | .succeeded tx_hash => some tx_hash

/-- The hash of a transaction that changes the chain. -/
def Fate.executed : Fate → Option Text
  | .unsent => none
  | .lost tx_hash => some tx_hash
  | .reverted _ => none
  | .succeeded tx_hash => some tx_hash

def Fate.delivery : Fate → Delivery
  | .unsent => .unsent
  | .lost _ => .lost
  | .reverted tx_hash => .mined tx_hash
  | .succeeded tx_hash => .mined tx_hash

structure Request where
  strategy_id : Text
  new_id : Text
  backtest : Except Failure Backtest
  timestamp : Word
  registry : Fate
  attest_tx : Option Text
  mint : Fate

def Request.answers (r : Request) : PublishAnswers where
  new_id := r.new_id
  backtest := r.backtest
  registry_tx := r.registry.answer
  attest_tx := r.attest_tx
  mint := r.mint.delivery

/-- The hub, and beside it the registry's state, the transaction that has published
the code there, the tokens minted and the requests that have returned. -/
structure Session (β γ : Type) where
  hub : Hub β
  registry : StrategyRegistry.State γ
  registered : Option Text
  minted : ℕ
  published : ℕ

variable {β γ : Type}

def start (hub : Hub β) (registry : StrategyRegistry.State γ) : Session β γ where
  hub := hub
  registry := registry
  registered := none
  minted := 0
  published := 0

variable (env : Env β) (publisher : Address) (user : User) (hash : Text)

/-- A mint that runs out of gas reverts as if the token refused it. -/
def refusing : Env β :=
  { env with token := { env.token with mint := fun _ _ _ => none, mint_some := nofun } }

def under : Fate → Env β
  | .reverted _ => refusing env
  | _ => env

def is_digest (s : Text) : Bool := (fromhex s).any fun bytes => bytes.length = 32

/-- The user server answers with hexadecimal digests, the first being that of the code. -/
def sound_backtest : Except Failure Backtest → Bool
  | .error _ => true
  | .ok backtest =>
      backtest.strategy_hash = hash && is_digest backtest.strategy_hash &&
        is_digest backtest.dataset_hash

/-- The row is the author's own with code, and the backtest answers: nothing is in the
way of the transactions. -/
def accepted (hub : Hub β) (r : Request) : Bool :=
  match load_owned hub r.strategy_id user.id, r.backtest with
  | .ok row, .ok _ => row.source = .authored && truthy row.code_blob && truthy row.code_hash
  | _, _ => false

/-- The account that a mint is for. -/
def recipient : Option Address :=
  if user.holds_inft then env.to_checksum_address user.wallet_address else none

/-- A mint succeeds only where the contract takes it. -/
def mint_possible (inft : StrategyINFT.State β) (fate : Fate) : Bool :=
  (recipient env user).all fun to_ =>
    fate.executed.isNone || (inft.begin_mint env.token env.signer to_ 0 0).isSome

/-- `publish` of the registry, for a transaction that succeeds. -/
def register (s : Session β γ) (r : Request) : Option (StrategyRegistry.State γ) :=
  match r.registry.executed, load_owned s.hub r.strategy_id user.id with
  | some _, .ok row =>
      (s.registry.publish publisher r.timestamp (word ((fromhex hash).getD [])) 0
        (utf8 row.name)).toOption.map Prod.fst
  | _, _ => some s.registry

/-- Ids and hashes of transactions are new. -/
def fresh (s : Session β γ) (r : Request) : Bool :=
  s.hub.marketplace_strategies.all (·.id ≠ r.new_id) &&
    s.registered.all fun tx_hash => r.registry.tx_hash ≠ some tx_hash

def publish (hub : Hub β) (r : Request) : Response β PublishResponse :=
  publish_strategy (under env r.mint) hub user r.strategy_id r.answers

def new_tokens (before after : StrategyINFT.State β) : ℕ :=
  if after.nextId = before.nextId then 0 else 1

def returned {α : Type} : Except Failure α → ℕ
  | .ok _ => 1
  | .error _ => 0

def step (s : Session β γ) (r : Request) : Option (Session β γ) :=
  let response := publish env user s.hub r
  if sound_backtest hash r.backtest = false then none
  else if accepted user s.hub r = false then
    some { s with hub := response.1, published := s.published + returned response.2 }
  else if fresh s r ∧ mint_possible env user s.hub.inft r.mint then
    (register publisher user hash s r).map fun registry =>
      { hub := response.1
        registry := registry
        registered := r.registry.executed.or s.registered
        minted := s.minted + new_tokens s.hub.inft response.1.inft
        published := s.published + returned response.2 }
  else none

/-- The rows of the author for the code. -/
def rows (hub : Hub β) : List MarketplaceStrategy :=
  hub.marketplace_strategies.filter fun mp =>
    mp.author_user_id = user.id && mp.code_hash = hash

/-- One row once a request has returned, no second token, and the row names the
transaction that published the code. -/
structure Idempotent (s : Session β γ) : Prop where
  one_row : (rows user hash s.hub).length = min 1 s.published
  one_token : s.minted ≤ 1
  named : ∀ mp ∈ rows user hash s.hub, mp.registry_tx = s.registered

def mints (fate : Fate) : Bool := (recipient env user).isSome && fate.executed.isSome

/-- No request is accepted once the code is registered, and until then the registry
transactions are not sent or succeed; and no mint succeeds after another. -/
def Once (s : Session β γ) (r : Request) : Prop :=
  accepted user s.hub r = true →
    s.registered = none ∧ (r.registry = .unsent ∨ ∃ tx_hash, r.registry = .succeeded tx_hash) ∧
      ¬ (0 < s.minted ∧ mints env user r.mint = true)

structure Deployed : Prop where
  inft_enabled : env.inft_enabled = true
  registry_enabled : env.registry_enabled = true
  sha3_256 : ∀ s, (env.sha3_256 s).length = 32
  publisher : publisher ≠ 0

variable {env publisher user hash}

theorem under_registry (fate : Fate) :
    (under env fate).registry_enabled = env.registry_enabled := by
  cases fate <;> rfl

theorem length_of_digest {s : Text} (h : is_digest s = true) :
    ∃ bytes, fromhex s = some bytes ∧ bytes.length = 32 := by
  unfold is_digest at h
  cases hbytes : fromhex s with
  | none =>
      rw [hbytes] at h
      cases h
  | some bytes =>
      rw [hbytes] at h
      exact ⟨bytes, rfl, of_decide_eq_true h⟩

theorem accepted_iff {hub : Hub β} {r : Request} :
    accepted user hub r = true ↔
      ∃ row code_blob backtest, load_owned hub r.strategy_id user.id = .ok row ∧
        row.source = .authored ∧ row.code_blob = some code_blob ∧
        (truthy row.code_blob ∧ truthy row.code_hash) ∧ r.backtest = .ok backtest := by
  unfold accepted
  cases hload : load_owned hub r.strategy_id user.id with
  | error e => exact ⟨nofun, fun ⟨_, _, _, h, _⟩ => by cases h⟩
  | ok row =>
      cases hbacktest : r.backtest with
      | error e => exact ⟨nofun, fun ⟨_, _, _, _, _, _, _, h⟩ => by cases h⟩
      | ok backtest =>
          simp only [Bool.and_eq_true, decide_eq_true_eq]
          constructor
          · rintro ⟨⟨hauthored, hcode⟩, hhash⟩
            cases hblob : row.code_blob with
            | none =>
                rw [hblob] at hcode
                cases hcode
            | some code_blob =>
                exact ⟨row, code_blob, backtest, rfl, hauthored, hblob, ⟨hcode, hhash⟩, rfl⟩
          · rintro ⟨_, code_blob, _, hrow, hauthored, -, ⟨hcode, hhash⟩, -⟩
            cases hrow
            exact ⟨⟨hauthored, hcode⟩, hhash⟩

theorem submit_of_refused (env : Env β) {hub : Hub β} {r : Request}
    (h : accepted user hub r = false) :
    ∃ e, submit_publication (under env r.mint) hub user r.strategy_id r.answers = .error e := by
  cases hload : load_owned hub r.strategy_id user.id with
  | error e =>
      unfold submit_publication
      rw [hload]
      exact ⟨e, rfl⟩
  | ok row =>
      by_cases hauthored : row.source = .authored
      · by_cases hempty : row.code_blob = none ∨ ¬ (truthy row.code_blob ∧ truthy row.code_hash)
        · exact ⟨_, submit_publication_empty hload hauthored hempty⟩
        · obtain ⟨hcode, htruthy⟩ := not_or.mp hempty
          obtain ⟨code_blob, hblob⟩ := Option.ne_none_iff_exists'.mp hcode
          rw [submit_publication_coded hload hauthored hblob (not_not.mp htruthy)]
          cases hbacktest : r.backtest with
          | error e =>
              refine ⟨e, ?_⟩
              rw [submitted, Request.answers, hbacktest]
              rfl
          | ok backtest =>
              have hall : accepted user hub r = true := accepted_iff.mpr
                ⟨row, code_blob, backtest, hload, hauthored, hblob, not_not.mp htruthy, hbacktest⟩
              rw [h] at hall
              cases hall
      · exact ⟨_, submit_publication_foreign hload hauthored⟩

theorem submit_registry_sent {answer : Option Text} {digest other : List UInt8}
    (henabled : env.registry_enabled = true) (hdigest : digest.length = 32)
    (hother : other.length = 32) : submit_registry env answer digest other = .ok answer := by
  unfold submit_registry
  rw [if_neg (by simp [henabled]), if_neg (by simp [hdigest, hother])]

theorem submitted_sent {row : UserStrategy} {code_blob : Text} {backtest : Backtest}
    {registry attest : Option Text} {strategy_hash dataset_hash : List UInt8}
    (henabled : env.registry_enabled = true)
    (hstrategy : fromhex backtest.strategy_hash = some strategy_hash)
    (hdataset : fromhex backtest.dataset_hash = some dataset_hash)
    (hlength : strategy_hash.length = 32) (hlength' : dataset_hash.length = 32) :
    submitted env row code_blob (.ok backtest) registry attest =
      .ok ⟨row, code_blob, backtest, strategy_hash, registry, attest⟩ := by
  have hzero : (List.replicate 32 (0 : UInt8)).length = 32 := List.length_replicate
  simp only [submitted, bytes_fromhex, hstrategy, hdataset, bind, Except.bind,
    submit_registry_sent henabled hlength hzero, submit_registry_sent henabled hlength hlength']
  rfl

theorem submit_of_accepted {hub : Hub β} {r : Request} (henv : Deployed env publisher)
    (hbacktest : sound_backtest hash r.backtest = true) (h : accepted user hub r = true) :
    ∃ sent, submit_publication (under env r.mint) hub user r.strategy_id r.answers = .ok sent ∧
      sent.backtest.strategy_hash = hash ∧ sent.strategy_hash.length = 32 ∧
      sent.registry = r.registry.answer := by
  obtain ⟨row, code_blob, backtest, hload, hauthored, hblob, htruthy, hanswer⟩ := accepted_iff.mp h
  rw [hanswer] at hbacktest
  simp only [sound_backtest, Bool.and_eq_true, decide_eq_true_eq] at hbacktest
  obtain ⟨⟨rfl, hstrategy⟩, hdataset⟩ := hbacktest
  obtain ⟨strategy_hash, hstrategy, hlength⟩ := length_of_digest hstrategy
  obtain ⟨dataset_hash, hdataset, hlength'⟩ := length_of_digest hdataset
  have henabled : (under env r.mint).registry_enabled = true :=
    (under_registry r.mint).trans henv.registry_enabled
  refine ⟨⟨row, code_blob, backtest, strategy_hash, r.registry.answer, r.attest_tx⟩, ?_, rfl,
    hlength, rfl⟩
  rw [submit_publication_coded hload hauthored hblob htruthy,
    show r.answers.backtest = .ok backtest from hanswer]
  exact submitted_sent henabled hstrategy hdataset hlength hlength'

theorem begin_mint_isSome {T : Erc721 β} {inft : StrategyINFT.State β} {sender to_ : Address}
    (metadata_hash sealed_config_hash : Word) :
    (inft.begin_mint T sender to_ metadata_hash sealed_config_hash).isSome =
      (inft.begin_mint T sender to_ 0 0).isSome := by
  unfold StrategyINFT.State.begin_mint
  split
  · rw [Option.isSome_map, Option.isSome_map]
  · rfl

theorem exec_mint_of_begun {T : Erc721 β} {inft : StrategyINFT.State β} {sender to_ : Address}
    (metadata_hash sealed_config_hash : Word)
    (h : (inft.begin_mint T sender to_ 0 0).isSome = true) :
    ∃ inft' events, exec T inft (.mint sender to_ metadata_hash sealed_config_hash true []) =
      some (inft', events) ∧ inft'.nextId ≠ inft.nextId := by
  rw [← begin_mint_isSome metadata_hash sealed_config_hash] at h
  obtain ⟨m, hm⟩ := Option.isSome_iff_exists.mp h
  have hexec : exec T inft (.mint sender to_ metadata_hash sealed_config_hash true []) =
      some (m, .Transfer 0 to_ inft.nextTokenId ::
        [.Minted inft.nextTokenId to_ metadata_hash sealed_config_hash]) := by
    rw [exec, hm]
    rfl
  refine ⟨m, _, hexec, ?_⟩
  obtain ⟨-, hbase⟩ := Option.ite_none_right_eq_some.mp hm
  obtain ⟨base, -, rfl⟩ := Option.map_eq_some_iff.mp hbase
  show inft.nextId + 1 ≠ inft.nextId
  bv_omega

theorem exec_mint_refusing {inft : StrategyINFT.State β} {sender to_ : Address}
    (metadata_hash sealed_config_hash : Word) :
    exec (refusing env).token inft (.mint sender to_ metadata_hash sealed_config_hash true []) =
      none := by
  have hnone : inft.begin_mint (refusing env).token sender to_ metadata_hash sealed_config_hash =
      none := by
    unfold StrategyINFT.State.begin_mint
    split
    · rfl
    · rfl
  rw [exec, hnone]
  rfl

theorem client_answers {digest sealed : List UInt8} (hdigest : digest.length = 32)
    (hsealed : sealed.length = 32) (answer : Option (Text × InftClient.Receipt)) :
    InftClient.mint true digest sealed answer =
      .ok (answer.map fun sent => (InftClient.token_id sent.2.logs, sent.1)) := by
  unfold InftClient.mint
  rw [if_neg (by decide), if_neg (by simp [hdigest, hsealed])]

theorem mint_inft_unsent {inft : StrategyINFT.State β} {to_address : Text}
    {digest sealed : List UInt8} (henabled : env.inft_enabled = true)
    (hdigest : digest.length = 32) (hsealed : sealed.length = 32) :
    mint_inft env inft to_address digest sealed .unsent = (inft, .ok none) := by
  have hclient := client_answers hdigest hsealed none
  unfold mint_inft
  rw [henabled]
  cases env.to_checksum_address to_address with
  | none => exact Prod.ext rfl hclient
  | some to_ => exact (if_pos (.inl rfl)).trans (Prod.ext rfl hclient)

theorem mint_inft_sent (inft : StrategyINFT.State β) {to_address : Text} {to_ : Address}
    {digest sealed : List UInt8} {delivery : Delivery} (henabled : env.inft_enabled = true)
    (hto : env.to_checksum_address to_address = some to_) (hsent : delivery ≠ .unsent)
    (hdigest : digest.length = 32) (hsealed : sealed.length = 32) :
    ∃ token, mint_inft env inft to_address digest sealed delivery =
      (((exec env.token inft (.mint env.signer to_ (word digest) (word sealed) true [])).map
        Prod.fst).getD inft, .ok token) := by
  unfold mint_inft
  rw [henabled, hto]
  have hskip : ¬ (delivery = .unsent ∨ digest.length ≠ 32 ∨ sealed.length ≠ 32) := by
    simp [hsent, hdigest, hsealed]
  dsimp only
  rw [if_neg hskip, client_answers hdigest hsealed]
  exact ⟨_, rfl⟩

theorem mint_inft_fate {inft : StrategyINFT.State β} {to_address : Text} {to_ : Address}
    {digest sealed : List UInt8} {fate : Fate} (henabled : env.inft_enabled = true)
    (hto : env.to_checksum_address to_address = some to_)
    (hpossible : (fate.executed.isNone ||
      (inft.begin_mint env.token env.signer to_ 0 0).isSome) = true)
    (hdigest : digest.length = 32) (hsealed : sealed.length = 32) :
    ∃ inft' token, mint_inft (under env fate) inft to_address digest sealed fate.delivery =
        (inft', .ok token) ∧ (inft'.nextId = inft.nextId ↔ fate.executed.isSome = false) := by
  have hexecuted (hbegin : (inft.begin_mint env.token env.signer to_ 0 0).isSome = true)
      (delivery : Delivery) (hsent : delivery ≠ .unsent) :
      ∃ inft' token, mint_inft env inft to_address digest sealed delivery = (inft', .ok token) ∧
        inft'.nextId ≠ inft.nextId := by
    obtain ⟨token, hmint⟩ := mint_inft_sent inft henabled hto hsent hdigest hsealed
    obtain ⟨inft', events, hexec, hmoved⟩ := exec_mint_of_begun (word digest) (word sealed) hbegin
    rw [hexec] at hmint
    exact ⟨inft', token, hmint, hmoved⟩
  cases fate with
  | unsent => exact ⟨inft, none, mint_inft_unsent henabled hdigest hsealed, iff_of_true rfl rfl⟩
  | reverted tx_hash =>
      obtain ⟨token, hmint⟩ : ∃ token, mint_inft (refusing env) inft to_address digest sealed
          (.mined tx_hash) = (((exec (refusing env).token inft (.mint env.signer to_ (word digest)
            (word sealed) true [])).map Prod.fst).getD inft, .ok token) :=
        mint_inft_sent inft henabled hto nofun hdigest hsealed
      rw [exec_mint_refusing] at hmint
      exact ⟨inft, token, hmint, iff_of_true rfl rfl⟩
  | lost tx_hash =>
      obtain ⟨inft', token, hmint, hmoved⟩ := hexecuted hpossible .lost nofun
      exact ⟨inft', token, hmint, iff_of_false hmoved nofun⟩
  | succeeded tx_hash =>
      obtain ⟨inft', token, hmint, hmoved⟩ := hexecuted hpossible (.mined tx_hash) nofun
      exact ⟨inft', token, hmint, iff_of_false hmoved nofun⟩

theorem under_frame (env : Env β) (fate : Fate) :
    (under env fate).inft_enabled = env.inft_enabled ∧
      (under env fate).to_checksum_address = env.to_checksum_address ∧
        (under env fate).sha3_256 = env.sha3_256 := by
  cases fate <;> exact ⟨rfl, rfl, rfl⟩

/-- The mint of an accepted request never raises, and makes a token where its
transaction succeeds. -/
theorem mint_publication_fate {inft : StrategyINFT.State β} (sent : Submitted) {fate : Fate}
    (henv : Deployed env publisher) (hlength : sent.strategy_hash.length = 32)
    (hpossible : mint_possible env user inft fate = true) :
    ∃ inft' token, mint_publication (under env fate) inft user sent fate.delivery =
        (inft', .ok token) ∧
      (inft'.nextId = inft.nextId ↔ mints env user fate = false) := by
  obtain ⟨henabled, hchecksum, hsha3⟩ := under_frame env fate
  have hsealed : ((under env fate).sha3_256 sent.code_blob).length = 32 :=
    hsha3 ▸ henv.sha3_256 sent.code_blob
  unfold mint_publication
  cases hholds : user.holds_inft with
  | false =>
      have hnone : recipient env user = none := if_neg (by simp [hholds])
      refine ⟨inft, none, rfl, iff_of_true rfl ?_⟩
      rw [mints, hnone]
      rfl
  | true =>
      have hrecipient : recipient env user = env.to_checksum_address user.wallet_address :=
        if_pos hholds
      rw [if_pos rfl, mints, hrecipient]
      rw [mint_possible, hrecipient] at hpossible
      cases hto : env.to_checksum_address user.wallet_address with
      | none =>
          refine ⟨inft, none, ?_, iff_of_true rfl rfl⟩
          unfold mint_inft
          rw [hchecksum, hto, henabled, henv.inft_enabled]
          exact Prod.ext rfl (client_answers hlength hsealed none)
      | some to_ =>
          rw [hto] at hpossible
          exact mint_inft_fate henv.inft_enabled hto hpossible hlength hsealed

theorem mem_rows_iff {hub : Hub β} {mp : MarketplaceStrategy} :
    mp ∈ rows user hash hub ↔
      mp ∈ hub.marketplace_strategies ∧ mp.author_user_id = user.id ∧ mp.code_hash = hash := by
  rw [rows, List.mem_filter, Bool.and_eq_true, decide_eq_true_eq, decide_eq_true_eq]

theorem rows_update {hub : Hub β} {mp mp' : MarketplaceStrategy} (hkeyed : Keyed hub)
    (hrows : rows user hash hub = [mp]) (hid : mp'.id = mp.id)
    (hauthor : mp'.author_user_id = user.id) (hhash : mp'.code_hash = hash) :
    rows user hash (hub.update_marketplace mp') = [mp'] := by
  obtain ⟨hmem, hown⟩ := mem_rows_iff.mp (hrows ▸ List.mem_singleton.mpr rfl)
  have hkept : ∀ r ∈ hub.marketplace_strategies,
      ((if r.id = mp'.id then mp' else r).author_user_id = user.id &&
        (if r.id = mp'.id then mp' else r).code_hash = hash) =
      (decide (r.author_user_id = user.id) && decide (r.code_hash = hash)) := by
    intro r hr
    split
    next h =>
        have heq : r = mp := List.inj_on_of_nodup_map hkeyed hr hmem (h.trans hid)
        rw [heq]
        simp [hown, hauthor, hhash]
    next => rfl
  rw [rows, Hub.update_marketplace, List.filter_map]
  dsimp only [Function.comp_def]
  rw [List.filter_congr hkept]
  change (rows user hash hub).map _ = _
  rw [hrows]
  exact congrArg (fun r => [r]) (if_pos hid.symm)

theorem rows_insert {hub hub' : Hub β} {mp : MarketplaceStrategy}
    (h : hub.insert_marketplace mp = some hub') (hrows : rows user hash hub = [])
    (hauthor : mp.author_user_id = user.id) (hhash : mp.code_hash = hash) :
    rows user hash hub' = [mp] := by
  obtain ⟨-, h⟩ := Option.ite_none_left_eq_some.mp h
  cases h
  rw [rows, List.filter_append]
  change rows user hash hub ++ _ = _
  rw [hrows]
  simp [hauthor, hhash]

theorem with_mint_author (mp : MarketplaceStrategy) (token : Option (ℕ × Text)) :
    (with_mint mp token).author_user_id = mp.author_user_id := by
  cases token <;> rfl

theorem with_mint_registry (mp : MarketplaceStrategy) (token : Option (ℕ × Text)) :
    (with_mint mp token).registry_tx = mp.registry_tx := by
  cases token <;> rfl

/-- The write of a publication, over the earlier row if there is one. -/
theorem write_publication_rows (hub : Hub β) {new_id : Text} {sent : Submitted}
    (token : Option (ℕ × Text)) (hkeyed : Keyed hub) (hone : (rows user hash hub).length ≤ 1)
    (hnew : ∀ mp ∈ hub.marketplace_strategies, mp.id ≠ new_id)
    (hhash : sent.backtest.strategy_hash = hash) :
    ∃ existing hub' mp, scalar_one_or_none (rows user hash hub) = .ok existing ∧
      hub.write_publication existing (with_mint (published_row user new_id sent existing) token) =
        some hub' ∧
      rows user hash hub' = [mp] ∧ mp.registry_tx = sent.registry := by
  cases hrows : rows user hash hub with
  | nil =>
      let mp := with_mint (published_row user new_id sent none) token
      have hid : mp.id = new_id := with_mint_id _ token
      have hinsert : hub.insert_marketplace mp =
          some { hub with marketplace_strategies := hub.marketplace_strategies ++ [mp] } := by
        refine if_neg ?_
        rw [hid, List.any_eq_true]
        rintro ⟨mp', hmem, hsame⟩
        exact hnew mp' hmem (of_decide_eq_true hsame)
      refine ⟨none, _, mp, rfl, hinsert, ?_, with_mint_registry _ token⟩
      apply rows_insert hinsert hrows
      · exact with_mint_author _ token
      · exact (with_mint_code_hash _ token).trans hhash
  | cons mp rest =>
      cases rest with
      | cons mp' rest =>
          rw [hrows] at hone
          exact absurd hone (by simp)
      | nil =>
          obtain ⟨-, hauthor, hcode⟩ := mem_rows_iff.mp (hrows ▸ List.mem_singleton.mpr rfl)
          refine ⟨some mp, _, with_mint (published_row user new_id sent (some mp)) token, rfl, rfl,
            ?_, with_mint_registry _ token⟩
          apply rows_update hkeyed hrows
          · exact with_mint_id _ token
          · exact (with_mint_author _ token).trans hauthor
          · exact (with_mint_code_hash _ token).trans hcode

/-- What an accepted request does. -/
theorem publish_of_accepted {hub : Hub β} {r : Request} (henv : Deployed env publisher)
    (hbacktest : sound_backtest hash r.backtest = true) (haccepted : accepted user hub r = true)
    (hkeyed : Keyed hub) (hone : (rows user hash hub).length ≤ 1)
    (hnew : ∀ mp ∈ hub.marketplace_strategies, mp.id ≠ r.new_id)
    (hpossible : mint_possible env user hub.inft r.mint = true) :
    ∃ hub' out mp, publish env user hub r = (hub', .ok out) ∧
      rows user hash hub' = [mp] ∧ mp.registry_tx = r.registry.answer ∧
      (hub'.inft.nextId = hub.inft.nextId ↔ mints env user r.mint = false) := by
  obtain ⟨sent, hsent, hhash, hlength, hregistry⟩ := submit_of_accepted henv hbacktest haccepted
  obtain ⟨inft', token, hmint, hmoved⟩ :=
    mint_publication_fate sent henv hlength hpossible
  obtain ⟨existing, hub', mp, hexisting, hwrite, hrows, hnamed⟩ :=
    write_publication_rows { hub with inft := inft' } token hkeyed hone hnew hhash
  have hinft : hub'.inft = inft' := (write_publication_some hwrite).2
  refine ⟨hub', publish_response (with_mint (published_row user r.new_id sent existing) token) sent
    token, mp, ?_, hrows, hnamed.trans hregistry, hinft.symm ▸ hmoved⟩
  have hsearch : scalar_one_or_none (hub.marketplace_strategies.filter fun mp =>
      mp.author_user_id = user.id && mp.code_hash = sent.backtest.strategy_hash) =
        .ok existing := by
    rw [hhash]
    exact hexisting
  have hanswer : mint_publication (under env r.mint) hub.inft user sent r.answers.mint =
      (inft', .ok token) := hmint
  rw [publish, publish_strategy, hsent]
  dsimp only
  rw [hsearch]
  dsimp only
  rw [hanswer]
  dsimp only
  rw [show r.answers.new_id = r.new_id from rfl, hwrite]

theorem publish_of_refused (env : Env β) {hub : Hub β} {r : Request}
    (h : accepted user hub r = false) :
    ∃ e, publish env user hub r = (hub, .error e) := by
  obtain ⟨e, he⟩ := submit_of_refused env h
  refine ⟨e, ?_⟩
  rw [publish, publish_strategy, he]

/-- The word under which the registry has the code. -/
def key (hash : Text) : Word := word ((fromhex hash).getD [])

/-- What holds in every state, whatever the transactions do. -/
structure Sound (user : User) (hash : Text) (s : Session β γ) : Prop where
  keyed : Keyed s.hub
  one_row : (rows user hash s.hub).length = min 1 s.published
  taken : s.registered.isSome = true → (s.registry.strategies (key hash)).author ≠ 0

/-- What an accepted request makes of the session. -/
structure Published (env : Env β) (publisher : Address) (user : User) (hash : Text)
    (s : Session β γ) (r : Request) (t : Session β γ) : Prop where
  fresh : fresh s r = true
  row : ∃ mp, rows user hash t.hub = [mp] ∧ mp.registry_tx = r.registry.answer
  keyed : Keyed t.hub
  registry : register publisher user hash s r = some t.registry
  registered : t.registered = r.registry.executed.or s.registered
  minted : t.minted = s.minted + if mints env user r.mint then 1 else 0
  published : t.published = s.published + 1

theorem step_cases {s t : Session β γ} {r : Request} (henv : Deployed env publisher)
    (hs : Sound user hash s) (h : step env publisher user hash s r = some t) :
    accepted user s.hub r = false ∧ t = s ∨
      accepted user s.hub r = true ∧ Published env publisher user hash s r t := by
  unfold step at h
  dsimp only at h
  split_ifs at h with hbacktest hrefused hguard
  · obtain ⟨e, he⟩ := publish_of_refused env hrefused
    rw [he] at h
    exact .inl ⟨hrefused, (Option.some.inj h).symm⟩
  · right
    have haccepted : accepted user s.hub r = true := eq_true_of_ne_false hrefused
    obtain ⟨hfresh, hpossible⟩ := hguard
    have hone : (rows user hash s.hub).length ≤ 1 := hs.one_row ▸ Nat.min_le_left _ _
    have hnew : ∀ mp ∈ s.hub.marketplace_strategies, mp.id ≠ r.new_id := by
      intro mp hmp
      exact of_decide_eq_true (List.all_eq_true.mp (Bool.and_eq_true_iff.mp hfresh).1 mp hmp)
    obtain ⟨hub', out, mp, hpublish, hrows, hnamed, hmoved⟩ := publish_of_accepted henv
      (eq_true_of_ne_false hbacktest) haccepted hs.keyed hone hnew hpossible
    have hkeyed : Keyed hub' := by
      have hmoves := moved_publish (under env r.mint) s.hub user r.strategy_id r.answers
      rw [show publish_strategy (under env r.mint) s.hub user r.strategy_id r.answers =
        (hub', .ok out) from hpublish] at hmoves
      exact hmoves.nodup hs.keyed
    rw [hpublish] at h
    obtain ⟨registry, hregistry, rfl⟩ := Option.map_eq_some_iff.mp h
    refine ⟨haccepted, hfresh, ⟨mp, hrows, hnamed⟩, hkeyed, hregistry, rfl, ?_, rfl⟩
    refine congrArg (s.minted + ·) ?_
    cases hmints : mints env user r.mint with
    | false => exact if_pos (hmoved.mpr hmints)
    | true => exact if_neg fun heq => Bool.noConfusion (hmints.symm.trans (hmoved.mp heq))

/-- A transaction that registers the code finds it free and leaves it taken. -/
theorem register_executed {s : Session β γ} {r : Request} {registry : StrategyRegistry.State γ}
    (hpublisher : publisher ≠ 0) (haccepted : accepted user s.hub r = true)
    (hexecuted : r.registry.executed.isSome = true)
    (h : register publisher user hash s r = some registry) :
    (s.registry.strategies (key hash)).author = 0 ∧
      (registry.strategies (key hash)).author ≠ 0 := by
  obtain ⟨row, _, _, hload, -⟩ := accepted_iff.mp haccepted
  obtain ⟨tx_hash, htx⟩ := Option.isSome_iff_exists.mp hexecuted
  unfold register at h
  rw [htx, hload] at h
  dsimp only at h
  unfold StrategyRegistry.State.publish at h
  dsimp only at h
  split_ifs at h with hzero hempty hlong htaken
  · cases h
  · cases h
  · cases h
  · cases h
  · cases h
    refine ⟨not_not.mp htaken, ?_⟩
    show (Function.update s.registry.strategies (key hash) _ (key hash)).author ≠ 0
    rw [Function.update_self]
    exact hpublisher

theorem register_unexecuted {s : Session β γ} {r : Request}
    (hexecuted : r.registry.executed = none) :
    register publisher user hash s r = some s.registry := by
  unfold register
  rw [hexecuted]

theorem step_sound {s t : Session β γ} {r : Request} (henv : Deployed env publisher)
    (hs : Sound user hash s) (h : step env publisher user hash s r = some t) :
    Sound user hash t := by
  rcases step_cases henv hs h with ⟨-, rfl⟩ | ⟨haccepted, hpublished⟩
  · exact hs
  obtain ⟨mp, hrows, -⟩ := hpublished.row
  have hregistry := hpublished.registry
  refine { keyed := hpublished.keyed, one_row := ?_, taken := ?_ }
  · rw [hrows, hpublished.published]
    exact (Nat.min_eq_left (Nat.le_add_left 1 _)).symm
  · intro hregistered
    cases hexecuted : r.registry.executed with
    | none =>
        rw [register_unexecuted hexecuted] at hregistry
        rw [hpublished.registered, hexecuted, Option.none_or] at hregistered
        rw [← Option.some.inj hregistry]
        exact hs.taken hregistered
    | some tx_hash =>
        exact (register_executed henv.publisher haccepted (by rw [hexecuted]; rfl) hregistry).2

/-- The answer that a request writes is the transaction that registered the code exactly
where it is the first to do so, or nothing has. -/
theorem answer_eq_registered_iff {s t : Session β γ} {r : Request} (henv : Deployed env publisher)
    (hs : Sound user hash s) (haccepted : accepted user s.hub r = true)
    (ht : Published env publisher user hash s r t) :
    r.registry.answer = t.registered ↔ s.registered = none ∧
      (r.registry = .unsent ∨ ∃ tx_hash, r.registry = .succeeded tx_hash) := by
  rw [ht.registered]
  cases hfate : r.registry with
  | unsent =>
      rw [Fate.answer, Fate.executed, Option.none_or]
      exact ⟨fun h => ⟨h.symm, .inl rfl⟩, fun h => h.1.symm⟩
  | lost tx_hash => exact iff_of_false nofun fun ⟨_, h⟩ => by simp at h
  | reverted tx_hash =>
      rw [Fate.answer, Fate.executed, Option.none_or]
      refine iff_of_false ?_ fun ⟨_, h⟩ => by simp at h
      intro hsame
      have hfresh := (Bool.and_eq_true_iff.mp ht.fresh).2
      rw [← hsame, hfate] at hfresh
      exact absurd hfresh (by simp [Fate.tx_hash])
  | succeeded tx_hash =>
      refine iff_of_true rfl ⟨?_, .inr ⟨tx_hash, rfl⟩⟩
      have hexecuted : r.registry.executed.isSome = true := by
        rw [hfate]
        rfl
      have hfree := (register_executed henv.publisher haccepted hexecuted ht.registry).1
      by_contra htaken
      exact hs.taken (Option.isSome_iff_ne_none.mpr htaken) hfree

/-- An accepted request leaves the session idempotent exactly where it was allowed. -/
theorem once_iff {s t : Session β γ} {r : Request} (henv : Deployed env publisher)
    (hs : Sound user hash s ∧ Idempotent user hash s)
    (h : step env publisher user hash s r = some t) :
    Once env user s r ↔ Idempotent user hash t := by
  have hsound := step_sound henv hs.1 h
  rcases step_cases henv hs.1 h with ⟨hrefused, rfl⟩ | ⟨haccepted, hpublished⟩
  · refine iff_of_true ?_ hs.2
    intro haccepted
    rw [hrefused] at haccepted
    cases haccepted
  obtain ⟨mp, hrows, hanswer⟩ := hpublished.row
  have hnamed := answer_eq_registered_iff henv hs.1 haccepted hpublished
  have htoken : t.minted ≤ 1 ↔ ¬ (0 < s.minted ∧ mints env user r.mint = true) := by
    have hfirst := hs.2.one_token
    rw [hpublished.minted]
    split
    next hmints => simp only [hmints, and_true]; omega
    next hmints => exact iff_of_true (by omega) fun hboth => hmints hboth.2
  constructor
  · intro honce
    obtain ⟨hfree, hfate, hmints⟩ := honce haccepted
    refine ⟨hsound.one_row, htoken.mpr hmints, ?_⟩
    intro mp' hmp'
    rw [hrows, List.mem_singleton] at hmp'
    rw [hmp', hanswer]
    exact hnamed.mpr ⟨hfree, hfate⟩
  · intro hidempotent _
    have hsame : r.registry.answer = t.registered :=
      hanswer.symm.trans (hidempotent.named mp (hrows ▸ List.mem_singleton.mpr rfl))
    obtain ⟨hfree, hfate⟩ := hnamed.mp hsame
    exact ⟨hfree, hfate, htoken.mp hidempotent.one_token⟩

/-- Publishing is idempotent along exactly the runs in which no request is accepted once
the code is registered, no registry transaction reverts or succeeds unheard, and no
second mint succeeds. -/
theorem republish_idempotent_iff {hub : Hub β} {registry : StrategyRegistry.State γ}
    {requests : List Request} {s : Session β γ} (henv : Deployed env publisher)
    (hkeyed : Keyed hub) (hnone : rows user hash hub = [])
    (hrun : run (step env publisher user hash) (start hub registry) requests = some s) :
    AllSteps (step env publisher user hash) (Once env user) (start hub registry) requests ↔
      ∀ m later, Passes (step env publisher user hash) (start hub registry) requests m later →
        Idempotent user hash m := by
  have hlength : (rows user hash hub).length = min 1 0 := by rw [hnone]; rfl
  apply allSteps_iff_passes (P := fun s => Sound user hash s ∧ Idempotent user hash s) _ _ _ hrun
  · refine ⟨⟨hkeyed, hlength, nofun⟩, hlength, Nat.zero_le 1, ?_⟩
    intro mp hmp
    rw [show rows user hash (start hub registry).hub = [] from hnone] at hmp
    cases hmp
  · intro s r t hs honce h
    exact ⟨step_sound henv hs.1 h, (once_iff henv hs h).mp honce⟩
  · intro s r t hs h
    exact once_iff henv hs h
  · intro s hs
    exact hs.2

def clients : Env Tokens := { UsageGrants.sample with registry_enabled := true }

def code_hash : Text := List.replicate 64 'a'

def shelf : Hub Tokens :=
  { StrategyRoutes.start clients [UsageGrants.author] with
    user_strategies := [
      { id := "r".toList, user_id := UsageGrants.author.id, source := .authored
        name := "s".toList, code_hash := some code_hash, code_blob := some "c".toList
        params_schema := none, marketplace_id := none }] }

def empty_registry : StrategyRegistry.State Address :=
  { strategies := fun _ => StrategyRegistry.zeroed, byAuthor := fun _ => [], base := 1 }

def publishing (new_id : Text) (registry mint : Fate) : Request where
  strategy_id := "r".toList
  new_id := new_id
  backtest := .ok
    { strategy_hash := code_hash, dataset_hash := List.replicate 64 'b'
      metrics := ⟨0, 0, 0, 0, 0⟩ }
  timestamp := 0
  registry := registry
  attest_tx := none
  mint := mint

theorem deployed_clients : Deployed clients 9 where
  inft_enabled := rfl
  registry_enabled := rfl
  sha3_256 := fun _ => rfl
  publisher := by decide

/-- A publication whose transactions are not sent, and one whose transactions succeed. -/
def retried : List Request :=
  [publishing "m".toList .unsent .unsent,
    publishing "n".toList (.succeeded "0x1".toList) (.succeeded "0x2".toList)]

theorem republish_idempotent_iff_retried :
    ∃ s, run (step clients 9 UsageGrants.author code_hash) (start shelf empty_registry) retried =
        some s ∧
      (AllSteps (step clients 9 UsageGrants.author code_hash) (Once clients UsageGrants.author)
          (start shelf empty_registry) retried ↔
        ∀ m later, Passes (step clients 9 UsageGrants.author code_hash)
          (start shelf empty_registry) retried m later →
            Idempotent UsageGrants.author code_hash m) := by
  obtain ⟨s, hrun, -⟩ : ∃ s ∈ run (step clients 9 UsageGrants.author code_hash)
      (start shelf empty_registry) retried, s.published = 2 := by decide +kernel
  exact ⟨s, hrun, republish_idempotent_iff deployed_clients (by decide) rfl hrun⟩

/-- The registry refuses the second publication, and the row is left with the hash of the
transaction that it refused; the mint goes through twice. -/
theorem republish_mints_again :
    ∃ s, run (step clients 9 UsageGrants.author code_hash) (start shelf empty_registry)
        [publishing "m".toList (.succeeded "0x1".toList) (.succeeded "0x2".toList),
          publishing "n".toList (.reverted "0x3".toList) (.succeeded "0x4".toList)] = some s ∧
      s.minted = 2 ∧ s.registered = some "0x1".toList ∧
      (rows UsageGrants.author code_hash s.hub).map (·.registry_tx) = [some "0x3".toList] ∧
      ¬ Idempotent UsageGrants.author code_hash s := by
  obtain ⟨s, hrun, hminted, hregistered, hrows⟩ :
      ∃ s ∈ run (step clients 9 UsageGrants.author code_hash) (start shelf empty_registry)
        [publishing "m".toList (.succeeded "0x1".toList) (.succeeded "0x2".toList),
          publishing "n".toList (.reverted "0x3".toList) (.succeeded "0x4".toList)],
      s.minted = 2 ∧ s.registered = some "0x1".toList ∧
        (rows UsageGrants.author code_hash s.hub).map (·.registry_tx) = [some "0x3".toList] := by
    decide +kernel
  refine ⟨s, hrun, hminted, hregistered, hrows, ?_⟩
  intro hidempotent
  have hone := hidempotent.one_token
  omega

end ArticTrader.Republishing
