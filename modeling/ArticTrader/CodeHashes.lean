import Mathlib.Data.Set.Function
import ArticTrader.StrategyTables

/-!
The code of strategies and its hashes: on the hub with any requests in progress, and
in the table of the user server. What the user server has validated for a publication
is noted beside them.
-/

namespace ArticTrader.CodeHashes

open ArticTrader.ConcurrentCalls
open ArticTrader.LabelledRuns
open ArticTrader.MarketplaceRoutes hiding step Request handle
open ArticTrader.PythonText
open ArticTrader.StrategyRoutes hiding step Request handle
open ArticTrader.StrategySessions hiding step
open ArticTrader.StrategyTables

/-- A row of `strategies` on the user server. -/
structure Strategy where
  id : Text
  source : Text
  name : Text
  code_hash : Option Text
  code_blob : Option Text
  marketplace_id : Option Text
  deriving DecidableEq, Repr

structure InstallBody where
  source : Text
  name : Text
  code_blob : Option Text
  marketplace_id : Option Text
  deriving DecidableEq, Repr

inductive Invalid where
  | invalid_source (source : Text)
  | unknown_builtin (name : Text)
  | code_blob_required
  deriving DecidableEq, Repr

def VALID_SOURCES : List Text := ["builtin".toList, "marketplace".toList, "authored".toList]

def BUILTINS : List Text := ["simple_momentum".toList]

/-- The code and the hash of a publication that the user server has answered. -/
structure Backtested where
  marketplace_id : Text
  code : Text
  hash : Text
  deriving DecidableEq, Repr

/-- `validated` is what the user server has last answered to each request. -/
structure World (ι : Type*) (β : Type) where
  hub : State ι β
  strategies : List Strategy
  validated : ι → Option (Text × Text)
  backtested : List Backtested

inductive Event (ι : Type*) where
  | hub (e : StrategySessions.Event ι)
  | install (body : InstallBody) (new_id : Text)
  | remove (id : Text)

variable {ι : Type*} {β : Type} (env : Env β)

/-- `service.install` of the user server. -/
def install (body : InstallBody) (new_id : Text) : Except Invalid Strategy :=
  if body.source ∉ VALID_SOURCES then .error (.invalid_source body.source)
  else if body.source = "builtin".toList ∧ body.name ∉ BUILTINS then
    .error (.unknown_builtin body.name)
  else if body.source ≠ "builtin".toList ∧ truthy body.code_blob = false then
    .error .code_blob_required
  else
    .ok
      { id := new_id, source := body.source, name := body.name,
        code_hash := if truthy body.code_blob then body.code_blob.map env.sha256_hex else none,
        code_blob := body.code_blob, marketplace_id := body.marketplace_id }

/-- What the user server answers to a request, and for which code. -/
def answer_of : Phase → Input → Option (Text × Text)
  | .backtesting _ _ code_blob, .answered outcome _ _ =>
      (validate_and_backtest env code_blob outcome).toOption.map fun backtest =>
        (code_blob, backtest.strategy_hash)
  | _, _ => none

/-- The marketplace row that a commit publishes. -/
def published_id : Phase → Input → Option Text
  | .publishing _ _ none _, .insert new_id => some new_id
  | .publishing _ _ (some existing) _, .go => some existing.id
  | _, _ => none

def returned : Phase → Bool
  | .done .returned => true
  | _ => false

/-- The publication that a step commits, with what was validated for it. -/
def backtested_by (validated : Option (Text × Text)) (p p' : Phase) (x : Input) :
    Option Backtested :=
  match published_id p x, validated with
  | some marketplace_id, some (code, hash) =>
      if returned p' then some { marketplace_id, code, hash } else none
  | _, _ => none

def step [DecidableEq ι] (w : World ι β) : Event ι → Option (World ι β)
  | .hub (.call i user request) =>
      (StrategySessions.step env w.hub (.call i user request)).map fun hub => { w with hub }
  | .hub (.input i x) =>
      (StrategySessions.step env w.hub (.input i x)).map fun hub =>
        { w with
          hub
          validated :=
            match answer_of env (w.hub.calls i) x with
            | none => w.validated
            | some answer => Function.update w.validated i (some answer)
          backtested :=
            match backtested_by (w.validated i) (w.hub.calls i) (hub.calls i) x with
            | none => w.backtested
            | some backtested => backtested :: w.backtested }
  | .install body new_id =>
      match install env body new_id with
      | .error _ => some w
      | .ok s => some { w with strategies := w.strategies ++ [s] }
  | .remove id => some { w with strategies := w.strategies.filter (·.id ≠ id) }

/-- The tables are empty and no request is in progress. -/
def opening (users : List User) : World ι β where
  hub :=
    { shared := { hub := start env users, reports := [], inserting := [], issued := [] }
      calls := fun _ => .done .returned }
  strategies := []
  validated := fun _ => none
  backtested := []

/-- The code that a request to the hub carries. -/
def codes : Event ι → List Text
  | .hub (.call _ _ (.create body)) => [body.code]
  | .hub (.call _ _ (.patch _ body)) => body.code.toList
  | _ => []

/-- Every hash there is belongs to the code beside it, to the code that was validated for
the publication, and to the code of the copies. -/
structure Agree (w : World ι β) : Prop where
  library : ∀ r ∈ w.hub.shared.hub.user_strategies, ∀ hash ∈ r.code_hash,
    ∃ code ∈ r.code_blob, hash = env.sha256_hex code
  marketplace : ∀ mp ∈ w.hub.shared.hub.marketplace_strategies,
    mp.code_hash = env.sha256_hex mp.code_blob
  server : ∀ s ∈ w.strategies, ∀ hash ∈ s.code_hash,
    ∃ code ∈ s.code_blob, hash = env.sha256_hex code
  validated : ∀ mp ∈ w.hub.shared.hub.marketplace_strategies,
    (∃ b ∈ w.backtested, b.marketplace_id = mp.id) ∧
      ∀ b ∈ w.backtested, b.marketplace_id = mp.id →
        b.code = mp.code_blob ∧ b.hash = mp.code_hash
  copies : ∀ mp ∈ w.hub.shared.hub.marketplace_strategies,
    ∀ r ∈ w.hub.shared.hub.user_strategies, r.marketplace_id = some mp.id →
      r.code_hash = some mp.code_hash
  server_copies : ∀ mp ∈ w.hub.shared.hub.marketplace_strategies, ∀ s ∈ w.strategies,
    s.code_blob = some mp.code_blob → ∀ hash ∈ s.code_hash, hash = mp.code_hash

def CodedRow (C : Set Text) (r : UserStrategy) : Prop :=
  ∃ code ∈ C, r.code_blob = some code ∧ r.code_hash = some (env.sha256_hex code)

def CodedMp (C : Set Text) (mp : MarketplaceStrategy) : Prop :=
  mp.code_blob ∈ C ∧ mp.code_hash = env.sha256_hex mp.code_blob

/-- The code that is published is the one that was validated. -/
def CodedSent (C : Set Text) (validated : Option (Text × Text)) (sent : Submitted) : Prop :=
  sent.code_blob ∈ C ∧ sent.backtest.strategy_hash = env.sha256_hex sent.code_blob ∧
    validated = some (sent.code_blob, sent.backtest.strategy_hash)

/-- What a request carries from one await to the next. -/
def Carries (C : Set Text) (s : Database β) (validated : Option (Text × Text)) : Phase → Prop
  | .creating row => CodedRow env C row
  | .loading _ _ (.patch body) => ∀ code ∈ body.code, code ∈ C
  | .patching loaded assigned =>
      CodedRow env C loaded ∧ CodedRow env C assigned ∧ Remembers s loaded ∧
        loaded.marketplace_id = none
  | .checking _ mp | .installing _ mp => CodedMp env C mp
  | .backtesting _ _ code_blob => code_blob ∈ C
  | .searching _ sent => CodedSent env C validated sent
  | .minting _ sent existing | .publishing _ sent existing _ =>
      CodedSent env C validated sent ∧ ∀ mp ∈ existing, CodedMp env C mp
  | _ => True

/-- The rows and their copies carry the hashes of their code. -/
structure Coded (C : Set Text) (s : Database β) : Prop where
  rows : ∀ r ∈ s.hub.user_strategies, CodedRow env C r
  published : ∀ mp ∈ s.hub.marketplace_strategies, CodedMp env C mp
  copies : ∀ mp ∈ s.hub.marketplace_strategies, ∀ r ∈ s.hub.user_strategies,
    r.marketplace_id = some mp.id → r.code_hash = some mp.code_hash

/-- The rows that are published are those that were validated. -/
structure Noted (s : Database β) (backtested : List Backtested) : Prop where
  covers : ∀ mp ∈ s.hub.marketplace_strategies, ∃ b ∈ backtested, b.marketplace_id = mp.id
  issued : ∀ b ∈ backtested, b.marketplace_id ∈ s.issued
  agrees : ∀ b ∈ backtested, ∀ mp ∈ s.hub.marketplace_strategies, b.marketplace_id = mp.id →
    b.code = mp.code_blob ∧ b.hash = mp.code_hash

variable {env} {C : Set Text} {s : Database β}

theorem Carries.evolves {s' : Database β} {validated : Option (Text × Text)} {p : Phase}
    (h : Evolves s s') (hp : Carries env C s validated p) : Carries env C s' validated p := by
  unfold Carries at hp ⊢
  split at hp
  next => exact hp
  next => exact hp
  next => exact ⟨hp.1, hp.2.1, h.remembers hp.2.2.1, hp.2.2.2⟩
  next => exact hp
  next => exact hp
  next => exact hp
  next => exact hp
  next => exact hp
  next => exact hp
  next => trivial

/-- Two columns that are written together. -/
theorem column_coded {c₀ c₁ c₂ : Text} (hsha : C.InjOn env.sha256_hex) (h₀ : c₀ ∈ C)
    (h₁ : c₁ ∈ C) : column (some (env.sha256_hex c₀)) (some (env.sha256_hex c₁))
      (some (env.sha256_hex c₂)) = (column (some c₀) (some c₁) (some c₂)).map env.sha256_hex := by
  unfold column
  by_cases heq : c₁ = c₀
  · rw [heq, if_pos rfl, if_pos rfl]
    rfl
  · have hhash : env.sha256_hex c₁ ≠ env.sha256_hex c₀ := fun h => heq (hsha h₁ h₀ h)
    rw [if_neg (by simpa using hhash), if_neg (by simpa using heq)]
    rfl

theorem coded_written_row {loaded assigned current : UserStrategy}
    (hsha : C.InjOn env.sha256_hex) (h₀ : CodedRow env C loaded) (h₁ : CodedRow env C assigned)
    (h₂ : CodedRow env C current) : CodedRow env C (written_row loaded assigned current) := by
  obtain ⟨c₀, hc₀, hblob₀, hhash₀⟩ := h₀
  obtain ⟨c₁, hc₁, hblob₁, hhash₁⟩ := h₁
  obtain ⟨c₂, hc₂, hblob₂, hhash₂⟩ := h₂
  have hblob : (written_row loaded assigned current).code_blob =
      column (some c₀) (some c₁) (some c₂) := by
    rw [← hblob₀, ← hblob₁, ← hblob₂]
    rfl
  have hhash : (written_row loaded assigned current).code_hash =
      (column (some c₀) (some c₁) (some c₂)).map env.sha256_hex := by
    rw [← column_coded hsha hc₀ hc₁, ← hhash₀, ← hhash₁, ← hhash₂]
    rfl
  unfold CodedRow
  rw [hblob, hhash]
  unfold column
  split
  next => exact ⟨c₂, hc₂, rfl, rfl⟩
  next => exact ⟨c₁, hc₁, rfl, rfl⟩

theorem coded_patched {row : UserStrategy} {body : StrategyPatch}
    (hbody : ∀ code ∈ body.code, code ∈ C) (h : CodedRow env C row) :
    CodedRow env C (patched env row body) := by
  obtain ⟨code, hcode, hblob, hhash⟩ := h
  unfold CodedRow patched
  dsimp only
  cases hnew : body.code with
  | none => exact ⟨code, hcode, hblob, hhash⟩
  | some new => exact ⟨new, hbody new hnew, rfl, rfl⟩

theorem coded_installed_row {user : User} {mp : MarketplaceStrategy} {new_id : Text}
    (h : CodedMp env C mp) : CodedRow env C (installed_row user mp new_id) :=
  ⟨mp.code_blob, h.1, rfl, congrArg some h.2⟩

/-- An `UPDATE` that does not change the code. -/
theorem columns_code {loaded assigned mp : MarketplaceStrategy}
    (hblob : assigned.code_blob = loaded.code_blob) :
    (if mp.id = loaded.id then written loaded assigned mp else mp).code_blob = mp.code_blob := by
  split
  next =>
      change column loaded.code_blob assigned.code_blob mp.code_blob = _
      rw [hblob, column_same]
  next => rfl

/-- The row is coded, and carries the hash of the marketplace row that it is a copy of. -/
def CodedCopy (env : Env β) (C : Set Text) (s : Database β) (r : UserStrategy) : Prop :=
  CodedRow env C r ∧ ∀ mp ∈ s.hub.marketplace_strategies,
    r.marketplace_id = some mp.id → r.code_hash = some mp.code_hash

theorem hash_of_hasRow {mp mp' : MarketplaceStrategy} (hs : Tables s) (h : HasRow s mp)
    (hmp' : mp' ∈ s.hub.marketplace_strategies) (hid : mp'.id = mp.id) :
    mp'.code_hash = mp.code_hash := by
  obtain ⟨current, hcurrent, hcid, hhash⟩ := h
  rw [List.inj_on_of_nodup_map hs.keyed hmp' hcurrent (hid.trans hcid.symm)]
  exact hhash

theorem uninstall_mps (hub : Hub β) (mp : Option MarketplaceStrategy) :
    (uninstall hub mp).marketplace_strategies = hub.marketplace_strategies ∨
      ∃ loaded, (uninstall hub mp).marketplace_strategies = (update_columns hub loaded
        { loaded with installs_count := loaded.installs_count - 1 }).marketplace_strategies := by
  unfold uninstall
  split
  next mp =>
      split
      next => exact .inr ⟨mp, rfl⟩
      next => exact .inl rfl
  next => exact .inl rfl

theorem coded_update_row {row : UserStrategy} {hub : Hub β}
    (hc : ∀ r ∈ s.hub.user_strategies, CodedCopy env C s r)
    (hrow : CodedCopy env C s row) (hupdate : s.hub.update_row row = some hub) :
    ∀ r ∈ hub.user_strategies, CodedCopy env C s r := by
  obtain ⟨-, hupdate⟩ := Option.ite_none_right_eq_some.mp hupdate
  cases hupdate
  intro r' hr'
  obtain ⟨r, hr, rfl⟩ := List.mem_map.mp hr'
  split
  next => exact hrow
  next => exact hc r hr

theorem rows_resumed {validated : Option (Text × Text)} {p : Phase} {x : Input}
    {r : Database β × Phase} (hsha : C.InjOn env.sha256_hex) (hs : Tables s)
    (hc : Coded env C s) (hk : Knows s p) (hp : Carries env C s validated p)
    (hr : Resumed env s p x r) : ∀ r' ∈ r.1.hub.user_strategies, CodedCopy env C s r' := by
  have hold : ∀ r ∈ s.hub.user_strategies, CodedCopy env C s r :=
    fun r hr => ⟨hc.rows r hr, fun mp hmp => hc.copies mp hmp r hr⟩
  cases hr with
  | read => exact hold
  | aborted => exact hold
  | created row new_id hub hnew hinsert =>
      have hnone : row.marketplace_id = none := hk
      intro r' hr'
      change r' ∈ hub.user_strategies at hr'
      rw [(insert_row_rows hinsert).2] at hr'
      rcases List.mem_append.mp hr' with hbefore | hnow
      · exact hold r' hbefore
      · rw [List.mem_singleton.mp hnow]
        refine ⟨hp, ?_⟩
        intro mp hmp hid
        exact absurd (hnone.symm.trans hid) nofun
  | patched loaded assigned current hub hcurrent hid hupdate =>
      obtain ⟨h₀, h₁, hremembers, hnone⟩ := hp
      refine coded_update_row hold ⟨?_, ?_⟩ hupdate
      · exact coded_written_row hsha h₀ h₁ (hc.rows current hcurrent)
      · intro mp hmp hreference
        have hmp' : (written_row loaded assigned current).marketplace_id =
            current.marketplace_id := by
          change column loaded.marketplace_id assigned.marketplace_id current.marketplace_id = _
          rw [hk.2, column_same]
        have hcurrentNone := (hremembers.2 current hcurrent hid).trans hnone
        exact absurd ((hmp'.trans hcurrentNone).symm.trans hreference) nofun
  | deleted row mp =>
      intro r' hr'
      have hmem := List.mem_of_mem_filter hr'
      rw [uninstall_rows] at hmem
      exact hold r' hmem
  | installed user mp new_id hub hnew hinsert =>
      have hrow : HasRow s mp := hk
      intro r' hr'
      change r' ∈ hub.user_strategies at hr'
      rw [(insert_row_rows hinsert).2] at hr'
      rcases List.mem_append.mp hr' with hbefore | hnow
      · exact hold r' hbefore
      · rw [List.mem_singleton.mp hnow]
        refine ⟨coded_installed_row hp, ?_⟩
        intro mp' hmp' hid
        have hid' : mp'.id = mp.id := (Option.some.inj hid).symm
        exact congrArg some (hash_of_hasRow hs hrow hmp' hid').symm
  | granted user mp delivery =>
      intro r' hr'
      change r' ∈ (grant_usage env s.hub user mp delivery).user_strategies at hr'
      rw [(grant_usage_tables ..).2] at hr'
      exact hold r' hr'
  | minted => exact hold
  | published user sent token new_id hub hnew hinsert =>
      obtain ⟨-, hinsert⟩ := Option.ite_none_left_eq_some.mp hinsert
      cases hinsert
      exact hold
  | republished => exact hold
  | flushed => exact hold
  | recorded => exact hold

/-- A marketplace row after a step: with the code it had, or published just now. -/
def Kept (s : Database β) (p : Phase) (x : Input) (r : Database β × Phase)
    (mp' : MarketplaceStrategy) : Prop :=
  (∃ mp ∈ s.hub.marketplace_strategies,
      mp.id = mp'.id ∧ mp.code_blob = mp'.code_blob ∧ mp.code_hash = mp'.code_hash) ∨
    ∃ user sent token, p = .publishing user sent none token ∧ x = .insert mp'.id ∧
      mp'.id ∉ s.issued ∧ r.2 = .done .returned ∧ mp'.code_blob = sent.code_blob ∧
        mp'.code_hash = sent.backtest.strategy_hash

theorem kept_same {p : Phase} {x : Input} {r : Database β × Phase}
    (h : r.1.hub.marketplace_strategies = s.hub.marketplace_strategies) :
    ∀ mp ∈ r.1.hub.marketplace_strategies, Kept s p x r mp :=
  fun mp hmp => .inl ⟨mp, h ▸ hmp, rfl, rfl, rfl⟩

theorem kept_columns {p : Phase} {x : Input} {r : Database β × Phase} {hub : Hub β}
    {loaded assigned : MarketplaceStrategy}
    (h : r.1.hub.marketplace_strategies =
      (update_columns hub loaded assigned).marketplace_strategies)
    (hmps : hub.marketplace_strategies = s.hub.marketplace_strategies)
    (hblob : assigned.code_blob = loaded.code_blob)
    (hhash : assigned.code_hash = loaded.code_hash) :
    ∀ mp ∈ r.1.hub.marketplace_strategies, Kept s p x r mp := by
  rw [h]
  intro mp' hmp'
  obtain ⟨mp, hmp, rfl⟩ := mem_update_columns.mp hmp'
  obtain ⟨hid, hkept⟩ := updated_columns hhash
  exact .inl ⟨mp, hmps ▸ hmp, hid.symm, (columns_code hblob).symm, hkept.symm⟩

/-- The code of an existing row is the one that is published again. -/
theorem existing_code {validated : Option (Text × Text)} {user : User} {sent : Submitted}
    {existing : MarketplaceStrategy} {token : Option (ℕ × Text)}
    (hsha : C.InjOn env.sha256_hex) (hk : Knows s (.publishing user sent (some existing) token))
    (hp : Carries env C s validated (.publishing user sent (some existing) token)) :
    sent.code_blob = existing.code_blob := by
  obtain ⟨⟨hcode, hhash, -⟩, hexisting⟩ := hp
  obtain ⟨hcode', hhash'⟩ := hexisting existing rfl
  refine hsha hcode hcode' ?_
  rw [← hhash, ← hhash', (hk existing rfl).2]

theorem mps_resumed {validated : Option (Text × Text)} {p : Phase} {x : Input}
    {r : Database β × Phase} (hsha : C.InjOn env.sha256_hex) (hk : Knows s p)
    (hp : Carries env C s validated p) (hr : Resumed env s p x r) :
    ∀ mp ∈ r.1.hub.marketplace_strategies, Kept s p x r mp := by
  cases hr with
  | read => exact kept_same rfl
  | aborted => exact kept_same rfl
  | created row new_id hub hnew hinsert => exact kept_same (insert_row_rows hinsert).1
  | patched loaded assigned current hub hcurrent hid hupdate =>
      exact kept_same (update_row_rows hupdate)
  | deleted row mp =>
      rcases uninstall_mps s.hub mp with hsame | ⟨loaded, hcounted⟩
      · exact kept_same hsame
      · exact kept_columns hcounted rfl rfl rfl
  | installed user mp new_id hub hnew hinsert =>
      exact kept_columns rfl (insert_row_rows hinsert).1 rfl rfl
  | granted user mp delivery => exact kept_same (grant_usage_tables ..).1
  | minted => exact kept_same rfl
  | published user sent token new_id hub hnew hinsert =>
      obtain ⟨-, hinsert⟩ := Option.ite_none_left_eq_some.mp hinsert
      cases hinsert
      intro mp' hmp'
      rcases List.mem_append.mp hmp' with hbefore | hnow
      · exact .inl ⟨mp', hbefore, rfl, rfl, rfl⟩
      · rw [List.mem_singleton.mp hnow]
        have hid := with_mint_id (published_row user new_id sent none) token
        have hid' : (published_row user new_id sent none).id = new_id := rfl
        refine .inr ⟨user, sent, token, rfl, ?_, ?_, rfl, with_mint_code_blob _ token,
          with_mint_code_hash _ token⟩
        · rw [hid, hid']
        · rw [hid, hid']
          exact hnew
  | republished user sent existing token =>
      refine kept_columns rfl rfl ?_ (hash_republished user sent existing token)
      rw [with_mint_code_blob]
      exact existing_code hsha hk hp
  | flushed => exact kept_same rfl
  | recorded => exact kept_columns rfl rfl rfl rfl

theorem bind_ok {ε γ δ : Type} {a : Except ε γ} {f : γ → Except ε δ} {d : δ}
    (h : a >>= f = .ok d) : ∃ c, a = .ok c ∧ f c = .ok d := by
  cases a with
  | error e => cases h
  | ok c => exact ⟨c, rfl, h⟩

theorem submitted_ok {row : UserStrategy} {code_blob : Text} {answer : Except Failure Backtest}
    {registry_tx attest_tx : Option Text} {sent : Submitted}
    (h : submitted env row code_blob answer registry_tx attest_tx = .ok sent) :
    answer = .ok sent.backtest ∧ sent.code_blob = code_blob := by
  unfold submitted at h
  obtain ⟨backtest, hanswer, h⟩ := bind_ok h
  obtain ⟨strategy_hash, -, h⟩ := bind_ok h
  obtain ⟨registry, -, h⟩ := bind_ok h
  obtain ⟨dataset_hash, -, h⟩ := bind_ok h
  obtain ⟨attest, -, h⟩ := bind_ok h
  cases h
  exact ⟨hanswer, rfl⟩

/-- What the user server has answered to the request after a step. -/
def answered (env : Env β) (validated : Option (Text × Text)) (p : Phase) (x : Input) :
    Option (Text × Text) :=
  match answer_of env p x with
  | none => validated
  | some answer => some answer

theorem carries_submit {validated : Option (Text × Text)} {user : User} {row : UserStrategy}
    {code_blob : Text} {sent : Submitted} {x : Input} (hcode : code_blob ∈ C)
    (hr : resume env s (.backtesting user row code_blob) x = some (s, .searching user sent)) :
    CodedSent env C (answered env validated (.backtesting user row code_blob) x) sent := by
  cases x with
  | answered outcome registry_tx attest_tx =>
      have hphase := (Prod.mk.inj (Option.some.inj hr)).2
      unfold submit at hphase
      split at hphase
      next => cases hphase
      next sent' hsent =>
          cases hphase
          obtain ⟨hanswer, rfl⟩ := submitted_ok hsent
          have hhash : sent.backtest.strategy_hash = env.sha256_hex sent.code_blob := by
            cases outcome with
            | error e => cases hanswer
            | ok metrics => exact congrArg Backtest.strategy_hash (Except.ok.inj hanswer).symm
          refine ⟨hcode, hhash, ?_⟩
          unfold answered answer_of
          dsimp only
          rw [hanswer]
          rfl
  | go => cases hr
  | insert => cases hr
  | delivered => cases hr
  | raised => cases (Prod.mk.inj (Option.some.inj hr)).2

theorem carries_read {validated : Option (Text × Text)} {p p' : Phase} {x : Input}
    (hs : Tables s) (hc : Coded env C s) (hp : Carries env C s validated p)
    (hr : resume env s p x = some (s, p')) (h : Reads env s p p') :
    Carries env C s (answered env validated p x) p' := by
  cases h with
  | ended => trivial
  | patching user strategy_id body row hrow hauthored =>
      refine ⟨hc.rows row hrow, coded_patched hp (hc.rows row hrow), hs.remembers hrow, ?_⟩
      cases hid : row.marketplace_id with
      | none => rfl
      | some id =>
          have hsource := (hs.references row hrow id hid).1
          rw [hauthored] at hsource
          cases hsource
  | counting => trivial
  | deleting => trivial
  | counted => trivial
  | backtesting user strategy_id row code_blob hrow hcode =>
      obtain ⟨code, hmem, hblob, -⟩ := hc.rows row hrow
      rw [hcode] at hblob
      cases hblob
      exact hmem
  | checking user strategy_id mp hmp => exact hc.published mp hmp
  | installing user mp => exact hp
  | searching user row code_blob _ _ _ sent _ => exact carries_submit hp hr
  | minting user sent existing hexisting =>
      refine ⟨hp, ?_⟩
      intro mp hmp
      exact hc.published mp (List.mem_of_mem_filter (hexisting mp hmp))
  | reporting => trivial
  | tallied => trivial

theorem carries_resumed {validated : Option (Text × Text)} {p : Phase} {x : Input}
    {r : Database β × Phase} (hs : Tables s) (hc : Coded env C s)
    (hp : Carries env C s validated p) (hr : resume env s p x = some r) :
    Carries env C r.1 (answered env validated p x) r.2 := by
  have hresumed := resumed_of_resume hr
  cases hresumed with
  | read _ _ p' hreads => exact carries_read hs hc hp hr hreads
  | minted user sent existing delivery =>
      unfold mint
      dsimp only
      split
      next => trivial
      next => exact hp
  | aborted => trivial
  | created => trivial
  | patched => trivial
  | deleted => trivial
  | installed => trivial
  | granted => trivial
  | published => trivial
  | republished => trivial
  | flushed => trivial
  | recorded => trivial

theorem carries_call {validated : Option (Text × Text)} {user : User}
    {request : StrategySessions.Request} {i : ι}
    (hcodes : ∀ code ∈ codes (.hub (.call i user request)), code ∈ C) :
    Carries env C s validated (call env user request) := by
  cases request with
  | create body =>
      unfold call
      dsimp only
      split_ifs
      · trivial
      · trivial
      · exact ⟨body.code, hcodes _ List.mem_cons_self, rfl, rfl⟩
  | patch strategy_id body =>
      unfold call
      dsimp only
      split_ifs
      · trivial
      · intro code hcode
        exact hcodes code (Option.mem_toList.mpr hcode)
  | delete strategy_id => trivial
  | install strategy_id => trivial
  | publish strategy_id => trivial
  | report strategy_id reason =>
      unfold call
      dsimp only
      split_ifs <;> trivial

theorem rows_published {user : User} {sent : Submitted} {token : Option (ℕ × Text)}
    {new_id : Text} {r : Database β × Phase}
    (hr : Resumed env s (.publishing user sent none token) (.insert new_id) r) :
    r.1.hub.user_strategies = s.hub.user_strategies := by
  cases hr with
  | read => rfl
  | published _ _ _ _ hub hnew hinsert =>
      obtain ⟨-, hinsert⟩ := Option.ite_none_left_eq_some.mp hinsert
      cases hinsert
      rfl

theorem coded_resumed {validated : Option (Text × Text)} {p : Phase} {x : Input}
    {r : Database β × Phase} (hsha : C.InjOn env.sha256_hex) (hs : Tables s)
    (hc : Coded env C s) (hk : Knows s p) (hp : Carries env C s validated p)
    (hr : Resumed env s p x r) : Coded env C r.1 := by
  have hrows := rows_resumed hsha hs hc hk hp hr
  have hmps := mps_resumed hsha hk hp hr
  refine ⟨fun r' hr' => (hrows r' hr').1, ?_, ?_⟩
  · intro mp' hmp'
    rcases hmps mp' hmp' with ⟨mp, hmp, -, hblob, hhash⟩ |
      ⟨user, sent, token, rfl, -, -, -, hblob, hhash⟩
    · unfold CodedMp
      rw [← hblob, ← hhash]
      exact hc.published mp hmp
    · obtain ⟨⟨hcode, hsent, -⟩, -⟩ := hp
      unfold CodedMp
      rw [hblob, hhash]
      exact ⟨hcode, hsent⟩
  · intro mp' hmp' r' hr' hid
    rcases hmps mp' hmp' with ⟨mp, hmp, hmpid, -, hhash⟩ | ⟨user, sent, token, rfl, rfl, hnew, -⟩
    · rw [← hhash]
      exact (hrows r' hr').2 mp hmp (hid.trans (congrArg some hmpid.symm))
    · rw [rows_published hr] at hr'
      obtain ⟨-, mp, hmp, hmpid⟩ := hs.references r' hr' mp'.id hid
      exact absurd (hs.published mp hmp) (hmpid ▸ hnew)

theorem backtested_by_some {validated : Option (Text × Text)} {p p' : Phase} {x : Input}
    {b : Backtested} (h : backtested_by validated p p' x = some b) :
    published_id p x = some b.marketplace_id ∧ validated = some (b.code, b.hash) ∧
      p' = .done .returned := by
  unfold backtested_by at h
  split at h
  next marketplace_id code hash hid =>
      obtain ⟨hreturned, h⟩ := Option.ite_none_right_eq_some.mp h
      cases h
      refine ⟨hid, rfl, ?_⟩
      unfold returned at hreturned
      split at hreturned
      next => rfl
      next => cases hreturned
  next => cases h

/-- A publication that is committed has an id that was not given out before. -/
theorem publish_returned {user : User} {sent : Submitted} {token : Option (ℕ × Text)}
    {new_id : Text} {r : Database β × Phase}
    (hr : resume env s (.publishing user sent none token) (.insert new_id) = some r)
    (hreturned : r.2 = .done .returned) : new_id ∉ s.issued ∧ new_id ∈ r.1.issued := by
  obtain ⟨hnew, hr⟩ := Option.ite_none_left_eq_some.mp hr
  cases hr
  refine ⟨hnew, ?_⟩
  unfold commit_publish at hreturned ⊢
  split at hreturned
  next => cases hreturned
  next => exact List.mem_cons_self

theorem agrees_old {backtested : List Backtested} {p : Phase} {x : Input}
    {r : Database β × Phase} (hn : Noted s backtested)
    (hmps : ∀ mp ∈ r.1.hub.marketplace_strategies, Kept s p x r mp) :
    ∀ b ∈ backtested, ∀ mp ∈ r.1.hub.marketplace_strategies, b.marketplace_id = mp.id →
      b.code = mp.code_blob ∧ b.hash = mp.code_hash := by
  intro b hb mp' hmp' hid
  rcases hmps mp' hmp' with ⟨mp, hmp, hmpid, hblob, hhash⟩ | ⟨_, _, _, -, -, hnew, -⟩
  · rw [← hblob, ← hhash]
    exact hn.agrees b hb mp hmp (hid.trans hmpid.symm)
  · exact absurd (hn.issued b hb) (hid ▸ hnew)

/-- The note of a publication is right about its row. -/
theorem agrees_new {validated : Option (Text × Text)} {p : Phase} {x : Input}
    {r : Database β × Phase} {b : Backtested} (hsha : C.InjOn env.sha256_hex) (hs : Tables s)
    (hc : Coded env C s) (hk : Knows s p) (hp : Carries env C s validated p)
    (hr : resume env s p x = some r) (hnote : backtested_by validated p r.2 x = some b) :
    b.marketplace_id ∈ r.1.issued ∧ ∀ mp ∈ r.1.hub.marketplace_strategies,
      b.marketplace_id = mp.id → b.code = mp.code_blob ∧ b.hash = mp.code_hash := by
  have hmps := mps_resumed hsha hk hp (resumed_of_resume hr)
  have hevolves := (follows_resumed hs hk (resumed_of_resume hr)).1.evolves
  obtain ⟨hid, hvalidated, hreturned⟩ := backtested_by_some hnote
  unfold published_id at hid
  split at hid
  next user sent token new_id =>
      obtain ⟨⟨-, -, hsent⟩, -⟩ := hp
      obtain ⟨hnew, hissued⟩ := publish_returned hr hreturned
      obtain ⟨hcode, hhash⟩ := Prod.mk.inj (Option.some.inj (hvalidated.symm.trans hsent))
      cases hid
      refine ⟨hissued, ?_⟩
      intro mp' hmp' hmpid
      rcases hmps mp' hmp' with ⟨mp, hmp, hmpid', -⟩ |
        ⟨_, _, _, hsame, -, -, -, hblob', hhash'⟩
      · have hbefore := hs.published mp hmp
        rw [hmpid', ← hmpid] at hbefore
        exact absurd hbefore hnew
      · cases hsame
        exact ⟨hcode.trans hblob'.symm, hhash.trans hhash'.symm⟩
  next user sent existing token =>
      obtain ⟨⟨hmem, hsenthash, hsent⟩, -⟩ := hp
      obtain ⟨hrow, hexisting⟩ := hk existing rfl
      obtain ⟨hcode, hhash⟩ := Prod.mk.inj (Option.some.inj (hvalidated.symm.trans hsent))
      rw [← Option.some.inj hid]
      refine ⟨?_, ?_⟩
      · obtain ⟨current, hcurrent, hcid, -⟩ := hrow
        exact hcid ▸ hevolves.issued (hs.published current hcurrent)
      intro mp' hmp' hmpid
      rcases hmps mp' hmp' with ⟨mp, hmp, hmpid', hblob, hmphash⟩ | ⟨_, _, _, hsame, -⟩
      · have hcurrent := hash_of_hasRow hs hrow hmp (hmpid'.trans hmpid.symm)
        obtain ⟨hmpcode, hmpcoded⟩ := hc.published mp hmp
        have hequal : sent.code_blob = mp.code_blob := by
          refine hsha hmem hmpcode ?_
          rw [← hsenthash, ← hmpcoded, hcurrent, hexisting]
        exact ⟨hcode.trans (hequal.trans hblob), hhash.trans
          (hexisting.symm.trans (hcurrent.symm.trans hmphash))⟩
      · cases hsame
  next => cases hid

theorem noted_resumed {validated : Option (Text × Text)} {backtested : List Backtested}
    {p : Phase} {x : Input} {r : Database β × Phase} (hsha : C.InjOn env.sha256_hex)
    (hs : Tables s) (hc : Coded env C s) (hn : Noted s backtested) (hk : Knows s p)
    (hp : Carries env C s validated p) (hr : resume env s p x = some r) :
    Noted r.1 (match backtested_by validated p r.2 x with
      | none => backtested
      | some b => b :: backtested) := by
  have hmps := mps_resumed hsha hk hp (resumed_of_resume hr)
  have hevolves := (follows_resumed hs hk (resumed_of_resume hr)).1.evolves
  have hold := agrees_old hn hmps
  have hissued : ∀ b ∈ backtested, b.marketplace_id ∈ r.1.issued :=
    fun b hb => hevolves.issued (hn.issued b hb)
  have hcovers : ∀ mp' ∈ r.1.hub.marketplace_strategies,
      (∃ b ∈ backtested, b.marketplace_id = mp'.id) ∨
        ∃ b, backtested_by validated p r.2 x = some b ∧ b.marketplace_id = mp'.id := by
    intro mp' hmp'
    rcases hmps mp' hmp' with ⟨mp, hmp, hmpid, -⟩ | ⟨user, sent, token, rfl, rfl, -, hdone, -⟩
    · obtain ⟨b, hb, hid⟩ := hn.covers mp hmp
      exact .inl ⟨b, hb, hid.trans hmpid⟩
    · obtain ⟨⟨-, -, hvalidated⟩, -⟩ := hp
      refine .inr ⟨⟨mp'.id, sent.code_blob, sent.backtest.strategy_hash⟩, ?_, rfl⟩
      rw [hdone, hvalidated]
      rfl
  cases hnote : backtested_by validated p r.2 x with
  | none =>
      refine ⟨?_, hissued, hold⟩
      intro mp hmp
      rcases hcovers mp hmp with hbefore | ⟨b, hb, -⟩
      · exact hbefore
      · rw [hnote] at hb
        cases hb
  | some b =>
      obtain ⟨hnow, hagrees⟩ := agrees_new hsha hs hc hk hp hr hnote
      refine ⟨?_, List.forall_mem_cons.mpr ⟨hnow, hissued⟩,
        List.forall_mem_cons.mpr ⟨hagrees, hold⟩⟩
      intro mp hmp
      rcases hcovers mp hmp with ⟨b', hb', hid⟩ | ⟨b', hb', hid⟩
      · exact ⟨b', List.mem_cons_of_mem _ hb', hid⟩
      · rw [hnote] at hb'
        cases hb'
        exact ⟨b, List.mem_cons_self, hid⟩

/-- Whatever the user server installs carries the hash of its code. -/
theorem install_coded {body : InstallBody} {new_id : Text} {row : Strategy}
    (h : install env body new_id = .ok row) :
    ∀ hash ∈ row.code_hash, ∃ code ∈ row.code_blob, hash = env.sha256_hex code := by
  unfold install at h
  split_ifs at h with _ _ _ hcode
  · cases h
    intro hash hhash
    obtain ⟨code, hblob, rfl⟩ := Option.map_eq_some_iff.mp hhash
    exact ⟨code, hblob, rfl⟩
  · cases h
    intro hash hhash
    cases hhash

/-- What holds of the hub and the user server after any requests. -/
structure Tidy (env : Env β) (C : Set Text) (w : World ι β) : Prop where
  sound : Sound w.hub
  coded : Coded env C w.hub.shared
  noted : Noted w.hub.shared w.backtested
  carries : ∀ i, Carries env C w.hub.shared (w.validated i) (w.hub.calls i)
  server : ∀ s ∈ w.strategies, ∀ hash ∈ s.code_hash,
    ∃ code ∈ s.code_blob, hash = env.sha256_hex code

theorem tidy_opening (C : Set Text) (users : List User) :
    Tidy env C (opening env users : World ι β) where
  sound := ⟨⟨List.nodup_nil, List.nodup_nil, List.forall_mem_nil _, List.forall_mem_nil _,
    List.forall_mem_nil _⟩, fun _ => trivial⟩
  coded := ⟨List.forall_mem_nil _, List.forall_mem_nil _, List.forall_mem_nil _⟩
  noted := ⟨List.forall_mem_nil _, List.forall_mem_nil _, List.forall_mem_nil _⟩
  carries := fun _ => trivial
  server := List.forall_mem_nil _

theorem Tidy.agree {w : World ι β} (h : Tidy env C w) : Agree env w where
  library := by
    intro r hr hash hhash
    obtain ⟨code, -, hblob, hcoded⟩ := h.coded.rows r hr
    rw [hcoded] at hhash
    cases hhash
    exact ⟨code, hblob, rfl⟩
  marketplace := fun mp hmp => (h.coded.published mp hmp).2
  server := h.server
  validated := fun mp hmp =>
    ⟨h.noted.covers mp hmp, fun b hb hid => h.noted.agrees b hb mp hmp hid⟩
  copies := h.coded.copies
  server_copies := by
    intro mp hmp s hs hblob hash hhash
    obtain ⟨code, hcode, rfl⟩ := h.server s hs hash hhash
    rw [hblob] at hcode
    cases hcode
    exact (h.coded.published mp hmp).2.symm

section

variable [DecidableEq ι]

theorem tidy_input {w w' : World ι β} {i : ι} {x : Input} (hsha : C.InjOn env.sha256_hex)
    (h : Tidy env C w) (hstep : step env w (.hub (.input i x)) = some w') : Tidy env C w' := by
  obtain ⟨hub, hhub, rfl⟩ := Option.map_eq_some_iff.mp hstep
  have hsound := sound_step h.sound hhub
  obtain ⟨r, hr, rfl⟩ := Option.map_eq_some_iff.mp hhub
  have hresumed := resumed_of_resume hr
  have hknows := h.sound.knows i
  have hcarries := h.carries i
  have hevolves := (follows_resumed h.sound.tables hknows hresumed).1.evolves
  have hself : ((w.hub.write r.1).set i r.2).calls i = r.2 := System.set_self _ _ _
  refine ⟨hsound, coded_resumed hsha h.sound.tables h.coded hknows hcarries hresumed, ?_, ?_,
    h.server⟩
  · dsimp only
    rw [hself]
    exact noted_resumed hsha h.sound.tables h.coded h.noted hknows hcarries hr
  · have hnow := carries_resumed h.sound.tables h.coded hcarries hr
    intro j
    rcases (w.hub.write r.1).set_cases i j r.2 with ⟨rfl, heq⟩ | ⟨hne, heq⟩
    · dsimp only
      rw [heq]
      unfold answered at hnow
      cases hanswer : answer_of env (w.hub.calls j) x with
      | none =>
          rw [hanswer] at hnow
          exact hnow
      | some answer =>
          rw [hanswer] at hnow
          dsimp only
          rw [Function.update_self]
          exact hnow
    · dsimp only
      rw [heq]
      have hlater := (h.carries j).evolves hevolves
      cases hanswer : answer_of env (w.hub.calls i) x with
      | none => exact hlater
      | some answer =>
          dsimp only
          rw [Function.update_of_ne hne]
          exact hlater

theorem tidy_step {w w' : World ι β} {e : Event ι} (hsha : C.InjOn env.sha256_hex)
    (h : Tidy env C w) (hcodes : ∀ code ∈ codes e, code ∈ C)
    (hstep : step env w e = some w') : Tidy env C w' := by
  cases e with
  | hub e =>
      cases e with
      | call i user request =>
          obtain ⟨hub, hhub, rfl⟩ := Option.map_eq_some_iff.mp hstep
          have hsound := sound_step h.sound hhub
          obtain ⟨-, hhub⟩ := Option.ite_none_right_eq_some.mp hhub
          cases hhub
          refine ⟨hsound, h.coded, h.noted, ?_, h.server⟩
          exact System.forall_set
            (P := fun j (q : Phase) => Carries env C w.hub.shared (w.validated j) q)
            (carries_call hcodes) fun j _ => h.carries j
      | input i x => exact tidy_input hsha h hstep
  | install body new_id =>
      unfold step at hstep
      dsimp only at hstep
      split at hstep
      next =>
          cases hstep
          exact h
      next row hrow =>
          cases hstep
          refine ⟨h.sound, h.coded, h.noted, h.carries, ?_⟩
          intro s hs
          rcases List.mem_append.mp hs with hbefore | hnow
          · exact h.server s hbefore
          · rw [List.mem_singleton.mp hnow]
            exact install_coded hrow
  | remove id =>
      cases hstep
      exact ⟨h.sound, h.coded, h.noted, h.carries,
        fun s hs => h.server s (List.mem_of_mem_filter hs)⟩

end

/-- The hashes of two codes. -/
def two_hashes (code : Text) : Text :=
  if code = "c".toList then
    "2e7d2c03a9507ae265ecf5b5356885a53393a2029d241394997265a1a25aefc6".toList
  else if code = "d".toList then
    "18ac3e7343f016890c510e93f935261169d9e3f565436429830faf0934f4f8e4".toList
  else []

def hashing : Env TokenStandard.Tokens := { sample with sha256_hex := two_hashes }

/-- A strategy is patched while it is backtested for its publication, and installed. -/
def patched_meanwhile : List (Event Bool) :=
  [.hub (.call false (member "a")
      (.create { name := "s".toList, code := "c".toList, params_schema := none })),
    .hub (.input false (.insert "r".toList)),
    .hub (.call false (member "a") (.publish "r".toList)), .hub (.input false .go),
    .hub (.call true (member "a")
      (.patch "r".toList { name := none, code := some "d".toList, params_schema := none })),
    .hub (.input true .go), .hub (.input true .go),
    .hub (.input false (.answered (.ok (List.replicate 64 '0', ⟨0, 0, 0, 0, 0⟩)) none none)),
    .hub (.input false .go), .hub (.input false (.delivered .unsent)),
    .hub (.input false (.insert "m".toList)),
    .hub (.call true (member "b") (.install "m".toList)), .hub (.input true .go),
    .hub (.input true .go), .hub (.input true (.insert "i".toList)),
    .install { source := "marketplace".toList, name := "s".toList,
               code_blob := some "c".toList, marketplace_id := some "m".toList } "u".toList]

end ArticTrader.CodeHashes
