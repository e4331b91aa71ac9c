import ArticTrader.BacktestAttest
import ArticTrader.BacktestDatasets
import ArticTrader.CodeHashes
import ArticTrader.LabelledRuns
import ArticTrader.SessionsAlone

/-!
What a strategy is listed with is what has been attested: the routes of the hub, one request
after another, the transactions that they send to `BacktestAttest` and what anyone else sends
there.
-/

namespace ArticTrader.AttestedMetrics

open ArticTrader.BacktestAttest (Attestation Call State attestations_of_ne_zero
  attestations_grow deployed latest_of_mem)
open ArticTrader.BacktestDatasets (Result ValidateAndBacktestBody ValidateAndBacktestOut clamp_int
  response)
open ArticTrader.CodeHashes (bind_ok)
open ArticTrader.Datetimes (Datetime)
open ArticTrader.InftClient (word)
open ArticTrader.LabelledRuns
open ArticTrader.MarketplaceRoutes hiding step
open ArticTrader.PythonNumbers
open ArticTrader.PythonText
open ArticTrader.SessionsAlone (submit_publication_foreign submit_publication_empty
  submit_publication_coded)
open ArticTrader.StrategyRoutes hiding Request handle start step
open ArticTrader.StrategySessions (submitted)
open ArticTrader.TokenStandard

/-- An argument of type `int`, which is encoded if it is in the range of the type. -/
def int_arg (w : ℕ) (v : ℤ) : Option (BitVec w) :=
  if -2 ^ (w - 1) ≤ v ∧ v < 2 ^ (w - 1) then some (BitVec.ofInt w v) else none

def uint_arg (w : ℕ) (v : ℤ) : Option (BitVec w) :=
  if 0 ≤ v ∧ v < 2 ^ w then some (BitVec.ofInt w v) else none

/-- The call that `attest_backtest` sends, or `none` where the encoding of an argument
raises. -/
def attest_backtest (sender : Address) (strategy_hash dataset_hash : List UInt8)
    (metrics : Metrics) : Option Call := do
  let sharpeBps ← int_arg 32 metrics.sharpe_bps
  let maxDdBps ← uint_arg 16 metrics.max_dd_bps
  let totalReturnBps ← int_arg 32 metrics.total_return_bps
  let winRateBps ← uint_arg 16 metrics.win_rate_bps
  let nTrades ← uint_arg 32 metrics.n_trades
  return { sender, strategyHash := word strategy_hash, datasetHash := word dataset_hash,
           sharpeBps, maxDdBps, totalReturnBps, winRateBps, nTrades }

def attest_publication (sender : Address) (sent : Submitted) : Option Call := do
  let dataset_hash ← fromhex sent.backtest.dataset_hash
  attest_backtest sender sent.strategy_hash dataset_hash sent.backtest.metrics

/-- The hub, the transactions it has sent to the contract, which of them are mined, and the
contract. -/
structure World (β : Type) where
  market : Market β
  sent : List (Text × Call)
  mined : List Text
  contract : State

inductive Event where
  | request (user : User) (r : Request)
  | mined (tx_hash : Text) (timestamp : Word)
  | called (c : Call) (timestamp : Word)

section System

variable {β : Type} (env : Env β) (publisher : Address)

def opening (users : List User) : World β where
  market := { hub := StrategyRoutes.start env users, reports := [] }
  sent := []
  mined := []
  contract := deployed

/-- The transaction that a request sends to the contract, under its hash. -/
def submission (hub : Hub β) (user : User) : Request → Option (Text × Option Call)
  | .strategies (.publish strategy_id answers) =>
      match submit_publication env hub user strategy_id answers with
      | .error _ => none
      | .ok sent => sent.attest.map fun tx_hash => (tx_hash, attest_publication publisher sent)
  | _ => none

/-- Hashes of transactions are new, and there is none for a call that is not encoded. -/
def World.submit (w : World β) : Option (Text × Option Call) → Option (World β)
  | none => some w
  | some (_, none) => none
  | some (tx_hash, some c) =>
      if tx_hash ∈ w.sent.map Prod.fst then none else some { w with sent := (tx_hash, c) :: w.sent }

def World.mine (w : World β) (tx_hash : Text) (timestamp : Word) : Option (World β) :=
  match w.sent.lookup tx_hash with
  | none => none
  | some c =>
      if tx_hash ∈ w.mined then none
      else some { w with mined := tx_hash :: w.mined, contract := w.contract.transact timestamp c }

def step (w : World β) : Event → Option (World β)
  | .request user r => do
      let w ← w.submit (submission env publisher w.market.hub user r)
      let market ← MarketplaceRoutes.step env w.market (user, r)
      return { w with market }
  | .mined tx_hash timestamp => w.mine tx_hash timestamp
  | .called c timestamp => some { w with contract := w.contract.transact timestamp c }

end System

/-- The call carries what a row says. -/
structure Tells (c : Call) (code_hash : Text) (metrics : Option Metrics) : Prop where
  strategyHash : ∃ bytes, fromhex code_hash = some bytes ∧ c.strategyHash = word bytes
  metrics : metrics = some
    ⟨c.sharpeBps.toInt, c.maxDdBps.toNat, c.totalReturnBps.toInt, c.winRateBps.toNat,
      c.nTrades.toNat⟩

section Arguments

variable {w : ℕ} {v : ℤ}

theorem int_arg_some {b : BitVec w} (hw : 0 < w) (h : int_arg w v = some b) : b.toInt = v := by
  obtain ⟨⟨hlow, hhigh⟩, hb⟩ := Option.ite_none_right_eq_some.mp h
  obtain rfl := Option.some.inj hb
  obtain ⟨k, rfl⟩ : ∃ k, w = k + 1 := ⟨w - 1, by omega⟩
  rw [Nat.add_sub_cancel] at hlow hhigh
  have hpow : ((2 ^ (k + 1) : ℕ) : ℤ) = 2 ^ k * 2 := by
    push_cast
    exact pow_succ 2 k
  rw [BitVec.toInt_ofInt]
  exact Int.bmod_eq_of_le (by omega) (by omega)

theorem uint_arg_some {b : BitVec w} (h : uint_arg w v = some b) : (b.toNat : ℤ) = v := by
  obtain ⟨⟨hlow, hhigh⟩, hb⟩ := Option.ite_none_right_eq_some.mp h
  obtain rfl := Option.some.inj hb
  rw [BitVec.toNat_ofInt, Int.toNat_of_nonneg (Int.emod_nonneg _ (by positivity))]
  exact Int.emod_eq_of_lt hlow (by exact_mod_cast hhigh)

/-- What is encoded is what was meant. -/
theorem attest_backtest_some {sender : Address} {strategy_hash dataset_hash : List UInt8}
    {m : Metrics} {c : Call} (h : attest_backtest sender strategy_hash dataset_hash m = some c) :
    c.sender = sender ∧ c.strategyHash = word strategy_hash ∧
      c.datasetHash = word dataset_hash ∧
      m = ⟨c.sharpeBps.toInt, c.maxDdBps.toNat, c.totalReturnBps.toInt, c.winRateBps.toNat,
        c.nTrades.toNat⟩ := by
  unfold attest_backtest at h
  obtain ⟨sharpeBps, hsharpe, h⟩ := Option.bind_eq_some_iff.mp h
  obtain ⟨maxDdBps, hdd, h⟩ := Option.bind_eq_some_iff.mp h
  obtain ⟨totalReturnBps, htotal, h⟩ := Option.bind_eq_some_iff.mp h
  obtain ⟨winRateBps, hwin, h⟩ := Option.bind_eq_some_iff.mp h
  obtain ⟨nTrades, htrades, h⟩ := Option.bind_eq_some_iff.mp h
  cases h
  refine ⟨rfl, rfl, rfl, ?_⟩
  dsimp only
  rw [int_arg_some (by decide) hsharpe, uint_arg_some hdd, int_arg_some (by decide) htotal,
    uint_arg_some hwin, uint_arg_some htrades]

end Arguments

/-- What the hub reads of the user server's answer. -/
def answered_metrics (out : ValidateAndBacktestOut) : Metrics where
  sharpe_bps := out.sharpe_bps
  max_dd_bps := out.max_dd_bps
  total_return_bps := out.total_return_bps
  win_rate_bps := out.win_rate_bps
  n_trades := out.n_trades

theorem clamp_int_bounds (v : ℚ) {lo hi : ℤ} (h : lo ≤ hi) :
    lo ≤ clamp_int v lo hi ∧ clamp_int v lo hi ≤ hi :=
  ⟨le_max_left _ _, max_le h (min_le_left _ _)⟩

/-- Whatever a backtest results in, its metrics are encoded. -/
theorem attest_backtest_response (sender : Address) (strategy_hash dataset_hash : List UInt8)
    (env : BacktestDatasets.Env) (body : ValidateAndBacktestBody)
    (period_start period_end : Datetime) (result : Result) :
    (attest_backtest sender strategy_hash dataset_hash
      (answered_metrics (response env body period_start period_end result))).isSome = true := by
  have hint : ∀ v : ℚ, ∃ b, int_arg 32 (clamp_int v (-(2 ^ 31 - 1)) (2 ^ 31 - 1)) = some b := by
    intro v
    obtain ⟨hlow, hhigh⟩ := clamp_int_bounds v (show -(2 ^ 31 - 1) ≤ (2 ^ 31 - 1 : ℤ) by decide)
    exact ⟨_, if_pos ⟨by omega, by omega⟩⟩
  have hshare : ∀ v : ℚ, ∃ b, uint_arg 16 (clamp_int v 0 10000) = some b := by
    intro v
    obtain ⟨hlow, hhigh⟩ := clamp_int_bounds v (show 0 ≤ (10000 : ℤ) by decide)
    exact ⟨_, if_pos ⟨hlow, by omega⟩⟩
  have hcount : ∀ v : ℚ, ∃ b, uint_arg 32 (clamp_int v 0 (2 ^ 32 - 1)) = some b := by
    intro v
    obtain ⟨hlow, hhigh⟩ := clamp_int_bounds v (show 0 ≤ (2 ^ 32 - 1 : ℤ) by decide)
    exact ⟨_, if_pos ⟨hlow, by omega⟩⟩
  obtain ⟨sharpeBps, hsharpe⟩ := hint (result.sharpe * 100)
  obtain ⟨maxDdBps, hdd⟩ := hshare (result.max_drawdown * 10000)
  obtain ⟨totalReturnBps, htotal⟩ := hint (result.total_return * 10000)
  obtain ⟨winRateBps, hwin⟩ := hshare (result.win_rate * 10000)
  obtain ⟨nTrades, htrades⟩ := hcount result.n_trades
  simp only [attest_backtest, answered_metrics, response, hsharpe, hdd, htotal, hwin, htrades]
  rfl

section Rows

variable {β : Type} {env : Env β} {publisher : Address}

theorem submitted_some {row : UserStrategy} {code_blob : Text} {answer : Except Failure Backtest}
    {registry_tx attest_tx : Option Text} {sent : Submitted}
    (h : submitted env row code_blob answer registry_tx attest_tx = .ok sent) :
    fromhex sent.backtest.strategy_hash = some sent.strategy_hash := by
  unfold submitted at h
  obtain ⟨backtest, -, h⟩ := bind_ok h
  obtain ⟨strategy_hash, hhash, h⟩ := bind_ok h
  obtain ⟨registry, -, h⟩ := bind_ok h
  obtain ⟨dataset_hash, -, h⟩ := bind_ok h
  obtain ⟨attest, -, h⟩ := bind_ok h
  cases h
  unfold bytes_fromhex at hhash
  cases hbytes : fromhex backtest.strategy_hash with
  | none =>
      rw [hbytes] at hhash
      cases hhash
  | some bytes =>
      rw [hbytes] at hhash
      cases hhash
      rfl

theorem submit_publication_some {hub : Hub β} {user : User} {strategy_id : Text}
    {answers : PublishAnswers} {sent : Submitted}
    (h : submit_publication env hub user strategy_id answers = .ok sent) :
    fromhex sent.backtest.strategy_hash = some sent.strategy_hash := by
  cases hload : load_owned hub strategy_id user.id with
  | error e =>
      unfold submit_publication at h
      rw [hload] at h
      cases h
  | ok row =>
      by_cases hauthored : row.source = .authored
      · by_cases hempty : row.code_blob = none ∨ ¬ (truthy row.code_blob ∧ truthy row.code_hash)
        · rw [submit_publication_empty hload hauthored hempty] at h
          cases h
        · obtain ⟨hcode, htruthy⟩ := not_or.mp hempty
          obtain ⟨code_blob, hblob⟩ := Option.ne_none_iff_exists'.mp hcode
          rw [submit_publication_coded hload hauthored hblob (not_not.mp htruthy)] at h
          exact submitted_some h
      · rw [submit_publication_foreign hload hauthored] at h
        cases h

/-- The row names the same transaction for the same code and metrics. -/
structure Same (mp mp' : MarketplaceStrategy) : Prop where
  code_hash : mp'.code_hash = mp.code_hash
  metrics : mp'.metrics = mp.metrics
  attest_tx : mp'.attest_tx = mp.attest_tx

def Kept (rows rows' : List MarketplaceStrategy) : Prop := ∀ mp' ∈ rows', ∃ mp ∈ rows, Same mp mp'

theorem kept_refl (rows : List MarketplaceStrategy) : Kept rows rows :=
  fun mp hmp => ⟨mp, hmp, rfl, rfl, rfl⟩

theorem kept_update {hub : Hub β} {mp mp' : MarketplaceStrategy}
    (hmp : mp ∈ hub.marketplace_strategies) (hsame : Same mp mp') :
    Kept hub.marketplace_strategies (hub.update_marketplace mp').marketplace_strategies := by
  intro r hr
  obtain ⟨r₀, hr₀, rfl⟩ := List.mem_map.mp hr
  split_ifs
  · exact ⟨mp, hmp, hsame⟩
  · exact ⟨r₀, hr₀, rfl, rfl, rfl⟩

theorem kept_uninstalled (hub : Hub β) (row : UserStrategy) :
    Kept hub.marketplace_strategies (uninstalled hub row).marketplace_strategies := by
  unfold uninstalled
  split
  next =>
      split
      next mp hmp =>
          split_ifs
          · exact kept_update (marketplace_strategy_some hmp).1 ⟨rfl, rfl, rfl⟩
          · exact kept_refl _
      next => exact kept_refl _
  next => exact kept_refl _

theorem kept_create (hub : Hub β) (user : User) (body : StrategyCreate) (new_id : Text) :
    Kept hub.marketplace_strategies
      (create_authored env hub user body new_id).1.marketplace_strategies := by
  unfold create_authored
  split_ifs
  · exact kept_refl _
  · exact kept_refl _
  · dsimp only
    split
    next => exact kept_refl _
    next h =>
        rw [(insert_row_rows h).1]
        exact kept_refl _

theorem kept_patch (hub : Hub β) (user : User) (strategy_id : Text) (body : StrategyPatch) :
    Kept hub.marketplace_strategies
      (patch_strategy env hub user strategy_id body).1.marketplace_strategies := by
  unfold patch_strategy
  split_ifs
  · exact kept_refl _
  · split
    next => exact kept_refl _
    next =>
        split_ifs
        · exact kept_refl _
        · dsimp only
          split
          next => exact kept_refl _
          next h =>
              rw [update_row_rows h]
              exact kept_refl _

theorem kept_delete (hub : Hub β) (user : User) (strategy_id : Text) :
    Kept hub.marketplace_strategies
      (delete_strategy hub user strategy_id).1.marketplace_strategies := by
  unfold delete_strategy
  split
  next => exact kept_refl _
  next row _ =>
      split_ifs
      · exact kept_refl _
      · exact kept_uninstalled hub row

theorem kept_install (hub : Hub β) (user : User) (strategy_id new_id : Text)
    (delivery : Delivery) :
    Kept hub.marketplace_strategies
      (install_marketplace env hub user strategy_id new_id delivery).1.marketplace_strategies := by
  unfold install_marketplace
  split
  next => exact kept_refl _
  next mp hmp =>
      split_ifs
      · exact kept_refl _
      · split
        next => exact kept_refl _
        next => exact kept_refl _
        next =>
            dsimp only
            split
            next => exact kept_refl _
            next hub' h =>
                have hrows := (insert_row_rows h).1
                rw [(grant_usage_tables ..).1]
                have hmem := (marketplace_strategy_some hmp).1
                rw [← hrows] at hmem ⊢
                exact kept_update hmem ⟨rfl, rfl, rfl⟩

theorem kept_report (m : Market β) (user : User) (strategy_id reason : Text) :
    Kept m.hub.marketplace_strategies
      (report_marketplace_strategy m user strategy_id reason).1.hub.marketplace_strategies := by
  unfold report_marketplace_strategy
  split
  next => exact kept_refl _
  next =>
      split
      next => exact kept_refl _
      next mp hmp =>
          split_ifs
          · exact kept_refl _
          · exact kept_update (marketplace_strategy_some hmp).1 ⟨rfl, rfl, rfl⟩

/-- The columns that a publication writes. -/
theorem with_mint_published_row (user : User) (new_id : Text) (sent : Submitted)
    (existing : Option MarketplaceStrategy) (token : Option (ℕ × Text)) :
    (with_mint (published_row user new_id sent existing) token).metrics =
        some sent.backtest.metrics ∧
      (with_mint (published_row user new_id sent existing) token).attest_tx = sent.attest := by
  cases token <;> exact ⟨rfl, rfl⟩

theorem publish_rows {hub : Hub β} {user : User} {strategy_id : Text} {answers : PublishAnswers}
    {mp' : MarketplaceStrategy}
    (h : mp' ∈ (publish_strategy env hub user strategy_id answers).1.marketplace_strategies) :
    mp' ∈ hub.marketplace_strategies ∨
      ∃ sent, submit_publication env hub user strategy_id answers = .ok sent ∧
        mp'.code_hash = sent.backtest.strategy_hash ∧
        mp'.metrics = some sent.backtest.metrics ∧ mp'.attest_tx = sent.attest := by
  unfold publish_strategy at h
  split at h
  next => exact .inl h
  next sent hsent =>
      split at h
      next => exact .inl h
      next existing hexisting =>
          dsimp only at h
          split at h
          next => exact .inl h
          next token _ =>
              have hcolumns :=
                with_mint_published_row user answers.new_id sent existing token
              cases existing with
              | none =>
                  split at h
                  next => exact .inl h
                  next hub' hinsert =>
                      obtain ⟨-, hinsert⟩ := Option.ite_none_left_eq_some.mp hinsert
                      cases hinsert
                      rcases List.mem_append.mp h with h | h
                      · exact .inl h
                      · obtain rfl := List.mem_singleton.mp h
                        exact .inr ⟨sent, hsent, with_mint_code_hash _ token, hcolumns⟩
              | some mp =>
                  have hmp : mp.code_hash = sent.backtest.strategy_hash := by
                    have hfound := scalar_one_or_none_some hexisting
                    have hmem := hfound ▸ List.mem_cons_self (a := mp) (l := [])
                    have hkey := (List.mem_filter.mp hmem).2
                    rw [Bool.and_eq_true, decide_eq_true_eq, decide_eq_true_eq] at hkey
                    exact hkey.2
                  obtain ⟨r, hr, rfl⟩ := List.mem_map.mp h
                  split_ifs
                  · exact .inr ⟨sent, hsent, (with_mint_code_hash _ token).trans hmp, hcolumns⟩
                  · exact .inl hr

/-- A request that publishes nothing. -/
theorem kept_handle {m : Market β} {user : User} {r : Request}
    (h : ∀ strategy_id answers, r ≠ .strategies (.publish strategy_id answers)) :
    Kept m.hub.marketplace_strategies (handle env m user r).hub.marketplace_strategies := by
  cases r with
  | report strategy_id reason => exact kept_report m user strategy_id reason
  | strategies request =>
      cases request with
      | create body new_id => exact kept_create m.hub user body new_id
      | patch strategy_id body => exact kept_patch m.hub user strategy_id body
      | delete strategy_id => exact kept_delete m.hub user strategy_id
      | install strategy_id new_id delivery =>
          exact kept_install m.hub user strategy_id new_id delivery
      | publish strategy_id answers => exact absurd rfl (h strategy_id answers)

end Rows

section Runs

variable {β : Type} {env : Env β} {publisher : Address}

/-- Every row that names a transaction says what its call tells, and every call that is mined
stands in the contract. -/
structure Attested (publisher : Address) (w : World β) : Prop where
  told : ∀ mp ∈ w.market.hub.marketplace_strategies, ∀ tx_hash, mp.attest_tx = some tx_hash →
    ∃ c, (tx_hash, c) ∈ w.sent ∧ c.sender = publisher ∧ Tells c mp.code_hash mp.metrics
  distinct : (w.sent.map Prod.fst).Nodup
  known : ∀ tx_hash ∈ w.mined, tx_hash ∈ w.sent.map Prod.fst
  stands : ∀ tx_hash c, tx_hash ∈ w.mined → (tx_hash, c) ∈ w.sent → c.strategyHash ≠ 0 →
    ∃ timestamp, c.attestation timestamp ∈ w.contract.attestations c.strategyHash

theorem attested_opening (users : List User) : Attested publisher (opening env users) where
  told := fun _ hmp => nomatch hmp
  distinct := List.nodup_nil
  known := fun _ h => nomatch h
  stands := fun _ _ h => nomatch h

theorem Attested.transact {w : World β} (h : Attested publisher w) (c : Call) (timestamp : Word) :
    Attested publisher { w with contract := w.contract.transact timestamp c } := by
  refine ⟨h.told, h.distinct, h.known, ?_⟩
  intro tx_hash c' hmined hsent hne
  obtain ⟨t, ht⟩ := h.stands tx_hash c' hmined hsent hne
  exact ⟨t, (attestations_grow w.contract timestamp c c'.strategyHash).subset ht⟩

theorem Attested.mine {w w' : World β} {tx_hash : Text} {timestamp : Word}
    (h : Attested publisher w) (hw : w.mine tx_hash timestamp = some w') :
    Attested publisher w' := by
  unfold World.mine at hw
  cases hlookup : w.sent.lookup tx_hash with
  | none =>
      rw [hlookup] at hw
      cases hw
  | some c =>
      rw [hlookup] at hw
      obtain ⟨hnew, hw⟩ := Option.ite_none_left_eq_some.mp hw
      cases hw
      obtain ⟨before, after, hsplit, -⟩ := List.lookup_eq_some_iff.mp hlookup
      have hmem : (tx_hash, c) ∈ w.sent := hsplit ▸ List.mem_append_right _ List.mem_cons_self
      have hkept := h.transact c timestamp
      refine ⟨h.told, h.distinct, ?_, ?_⟩
      · intro tx hmined
        rcases List.mem_cons.mp hmined with rfl | hmined
        · exact List.mem_map_of_mem hmem
        · exact h.known tx hmined
      · intro tx c' hmined hsent hne
        rcases List.mem_cons.mp hmined with rfl | hmined
        · obtain rfl : c' = c := by
            have hpair := List.inj_on_of_nodup_map h.distinct hsent hmem rfl
            exact congrArg Prod.snd hpair
          refine ⟨timestamp, ?_⟩
          dsimp only
          rw [attestations_of_ne_zero hne, Function.update_self]
          exact List.mem_append_right _ (List.mem_singleton_self _)
        · exact hkept.stands tx c' hmined hsent hne

/-- What the hub sends is new, and what it has sent before stays. -/
theorem submit_some {w w' : World β} {s : Option (Text × Option Call)}
    (h : Attested publisher w) (hw : w.submit s = some w') :
    Attested publisher w' ∧ w'.market = w.market ∧ w'.mined = w.mined ∧
      w'.contract = w.contract ∧
      ∀ tx_hash call, s = some (tx_hash, call) → ∃ c, call = some c ∧ (tx_hash, c) ∈ w'.sent := by
  match s with
  | none =>
      cases hw
      exact ⟨h, rfl, rfl, rfl, nofun⟩
  | some (_, none) => cases hw
  | some (tx_hash, some c) =>
      obtain ⟨hnew, hw⟩ := Option.ite_none_left_eq_some.mp hw
      cases hw
      refine ⟨⟨?_, ?_, ?_, ?_⟩, rfl, rfl, rfl, ?_⟩
      · intro mp hmp tx htx
        obtain ⟨c', hc', htells⟩ := h.told mp hmp tx htx
        exact ⟨c', List.mem_cons_of_mem _ hc', htells⟩
      · exact List.nodup_cons.mpr ⟨hnew, h.distinct⟩
      · intro tx hmined
        exact List.mem_cons_of_mem _ (h.known tx hmined)
      · intro tx c' hmined hsent hne
        rcases List.mem_cons.mp hsent with heq | hsent
        · cases heq
          exact absurd (h.known _ hmined) hnew
        · exact h.stands tx c' hmined hsent hne
      · rintro _ _ ⟨⟩
        exact ⟨c, rfl, List.mem_cons_self⟩

/-- A row that a publication writes says what its transaction tells. -/
theorem tells_of_publication {sent : Submitted} {c : Call}
    (hhash : fromhex sent.backtest.strategy_hash = some sent.strategy_hash)
    (hc : attest_publication publisher sent = some c) :
    c.sender = publisher ∧
      Tells c sent.backtest.strategy_hash (some sent.backtest.metrics) := by
  obtain ⟨dataset_hash, -, hc⟩ := Option.bind_eq_some_iff.mp hc
  obtain ⟨hsender, hstrategy, -, hmetrics⟩ := attest_backtest_some hc
  exact ⟨hsender, ⟨_, hhash, hstrategy⟩, congrArg some hmetrics⟩

theorem Attested.request {w w' : World β} {user : User} {r : Request} (h : Attested publisher w)
    (hw : w.submit (submission env publisher w.market.hub user r) = some w') :
    Attested publisher { w' with market := handle env w.market user r } := by
  obtain ⟨h', hmarket, -, -, hsubmitted⟩ := submit_some h hw
  refine ⟨?_, h'.distinct, h'.known, h'.stands⟩
  intro mp' hmp' tx_hash htx
  by_cases hr : ∀ strategy_id answers, r ≠ .strategies (.publish strategy_id answers)
  · obtain ⟨mp, hmp, hsame⟩ := kept_handle hr mp' hmp'
    rw [hsame.attest_tx] at htx
    obtain ⟨c, hc, hsender, htells⟩ := h'.told mp (hmarket ▸ hmp) tx_hash htx
    refine ⟨c, hc, hsender, ?_⟩
    rw [hsame.code_hash, hsame.metrics]
    exact htells
  · simp only [not_forall, not_not] at hr
    obtain ⟨strategy_id, answers, rfl⟩ := hr
    rcases publish_rows hmp' with hold | ⟨sent, hsent, hcode, hmetrics, hattest⟩
    · exact h'.told mp' (hmarket ▸ hold) tx_hash htx
    · have hsubmission : submission env publisher w.market.hub user
          (.strategies (.publish strategy_id answers)) =
          some (tx_hash, attest_publication publisher sent) := by
        simp only [submission, hsent]
        rw [← hattest, htx]
        rfl
      obtain ⟨c, hc, hmem⟩ := hsubmitted _ _ hsubmission
      obtain ⟨hsender, htells⟩ := tells_of_publication (submit_publication_some hsent) hc
      refine ⟨c, hmem, hsender, ?_⟩
      rw [hcode, hmetrics]
      exact htells

theorem attested_step {w w' : World β} {e : Event} (h : Attested publisher w)
    (hw : step env publisher w e = some w') : Attested publisher w' := by
  cases e with
  | request user r =>
      obtain ⟨w₁, hsubmit, hw⟩ := Option.bind_eq_some_iff.mp hw
      obtain ⟨market, hmarket, hw⟩ := Option.bind_eq_some_iff.mp hw
      obtain ⟨-, hmarket⟩ := Option.ite_none_right_eq_some.mp hmarket
      cases hw
      cases hmarket
      rw [(submit_some h hsubmit).2.1]
      exact h.request hsubmit
  | mined tx_hash timestamp => exact h.mine hw
  | called c timestamp =>
      cases hw
      exact h.transact c timestamp

end Runs

def attesting : Env Tokens :=
  { sample with registry_enabled := true, sha256_hex := fun _ => List.replicate 64 '1' }

/-- The user `a` publishes a strategy, and its attestation is mined after another. -/
def publication : List Event :=
  [.request (member "a") (.strategies
      (.create { name := "s".toList, code := "c".toList, params_schema := none } "r".toList)),
    .request (member "a") (.strategies (.publish "r".toList
      { new_id := "m".toList
        backtest := .ok
          { strategy_hash := List.replicate 64 '1', dataset_hash := List.replicate 64 '2'
            metrics := ⟨140, 1200, -35, 5500, 42⟩ }
        registry_tx := none, attest_tx := some "t".toList, mint := .unsent })),
    .called ⟨3, 1, 0, 0, 0, 0, 0, 0⟩ 8, .mined "t".toList 9]

end ArticTrader.AttestedMetrics
