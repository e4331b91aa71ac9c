import ArticTrader.StrategyRoutes

/-!
Who may use an installed strategy: what the requests of the hub do to the
contract, and what they never make it record.
-/

namespace ArticTrader.UsageGrants

open ArticTrader.LabelledRuns
open ArticTrader.PythonText
open ArticTrader.TokenStandard
open ArticTrader.StrategyINFT (exec exec_mint_some begin_mint_some set_usage_some)
open ArticTrader.InftClient (word)
open ArticTrader.StrategyRoutes

variable {β : Type} (env : Env β)

/-- What a request of the user can do to the contract. -/
inductive ChainEffect (user : User) (s : StrategyINFT.State β) : StrategyINFT.State β → Prop where
  | unchanged : ChainEffect user s s
  | minted {recipient : Address} {metadataHash sealedConfigHash : Word}
      {s' : StrategyINFT.State β} {events : List StrategyINFT.Event}
      (hrecipient : env.to_checksum_address user.wallet_address = some recipient)
      (h : exec env.token s (.mint env.signer recipient metadataHash sealedConfigHash true []) =
        some (s', events)) : ChainEffect user s s'
  | authorized {tokenId : Word} {buyer : Address} {s' : StrategyINFT.State β}
      {events : List StrategyINFT.Event}
      (h : exec env.token s (.authorizeUsage env.signer tokenId buyer) = some (s', events)) :
      ChainEffect user s s'

theorem insert_row_some {hub hub' : Hub β} {row : UserStrategy}
    (h : hub.insert_row row = some hub') : hub'.users = hub.users ∧ hub'.inft = hub.inft := by
  obtain ⟨-, h⟩ := Option.ite_none_right_eq_some.mp h
  cases h
  exact ⟨rfl, rfl⟩

theorem update_row_some {hub hub' : Hub β} {row : UserStrategy}
    (h : hub.update_row row = some hub') : hub'.users = hub.users ∧ hub'.inft = hub.inft := by
  obtain ⟨-, h⟩ := Option.ite_none_right_eq_some.mp h
  cases h
  exact ⟨rfl, rfl⟩

theorem insert_marketplace_some {hub hub' : Hub β} {mp : MarketplaceStrategy}
    (h : hub.insert_marketplace mp = some hub') :
    hub'.users = hub.users ∧ hub'.inft = hub.inft := by
  obtain ⟨-, h⟩ := Option.ite_none_left_eq_some.mp h
  cases h
  exact ⟨rfl, rfl⟩

@[simp] theorem update_marketplace_inft (hub : Hub β) (mp : MarketplaceStrategy) :
    (hub.update_marketplace mp).inft = hub.inft := rfl

theorem uninstalled_frame (hub : Hub β) (row : UserStrategy) :
    (uninstalled hub row).users = hub.users ∧ (uninstalled hub row).inft = hub.inft := by
  unfold uninstalled
  split
  · split
    · split_ifs <;> exact ⟨rfl, rfl⟩
    · exact ⟨rfl, rfl⟩
  · exact ⟨rfl, rfl⟩

theorem authorize_usage_effect (user : User) (inft : StrategyINFT.State β) (token_id : ℕ)
    (user_address : Text) (delivery : Delivery) :
    ChainEffect env user inft (authorize_usage env inft token_id user_address delivery) := by
  unfold authorize_usage
  split
  · split_ifs
    · exact .unchanged
    · split
      · rename_i h
        exact .authorized h
      · exact .unchanged
  · exact .unchanged

theorem mint_inft_effect (user : User) (inft : StrategyINFT.State β)
    (metadata_hash sealed_config_hash : List UInt8) (delivery : Delivery) :
    ChainEffect env user inft
      (mint_inft env inft user.wallet_address metadata_hash sealed_config_hash delivery).1 := by
  unfold mint_inft
  split
  · rename_i recipient _ hrecipient
    split_ifs
    · exact .unchanged
    · cases h : exec env.token inft (.mint env.signer recipient (word metadata_hash)
        (word sealed_config_hash) true []) with
      | none => exact .unchanged
      | some r => exact .minted hrecipient h
  · exact .unchanged

theorem create_frame (hub : Hub β) (user : User) (body : StrategyCreate) (new_id : Text) :
    (create_authored env hub user body new_id).1.users = hub.users ∧
      (create_authored env hub user body new_id).1.inft = hub.inft := by
  unfold create_authored
  split_ifs
  · exact ⟨rfl, rfl⟩
  · exact ⟨rfl, rfl⟩
  · dsimp only
    split
    · exact ⟨rfl, rfl⟩
    · rename_i h
      exact insert_row_some h

theorem patch_frame (hub : Hub β) (user : User) (strategy_id : Text) (body : StrategyPatch) :
    (patch_strategy env hub user strategy_id body).1.users = hub.users ∧
      (patch_strategy env hub user strategy_id body).1.inft = hub.inft := by
  unfold patch_strategy
  split_ifs
  · exact ⟨rfl, rfl⟩
  · split
    · exact ⟨rfl, rfl⟩
    · split_ifs
      · exact ⟨rfl, rfl⟩
      · dsimp only
        split
        · exact ⟨rfl, rfl⟩
        · rename_i h
          exact update_row_some h

theorem delete_frame (hub : Hub β) (user : User) (strategy_id : Text) :
    (delete_strategy hub user strategy_id).1.users = hub.users ∧
      (delete_strategy hub user strategy_id).1.inft = hub.inft := by
  unfold delete_strategy
  split
  · exact ⟨rfl, rfl⟩
  · split_ifs
    · exact ⟨rfl, rfl⟩
    · exact uninstalled_frame hub _

theorem grant_usage_effect (hub : Hub β) (user : User) (mp : MarketplaceStrategy)
    (delivery : Delivery) :
    (grant_usage env hub user mp delivery).users = hub.users ∧
      ChainEffect env user hub.inft (grant_usage env hub user mp delivery).inft := by
  unfold grant_usage
  split
  · exact ⟨rfl, .unchanged⟩
  · split_ifs
    · exact ⟨rfl, authorize_usage_effect env user _ _ _ _⟩
    · exact ⟨rfl, .unchanged⟩

theorem install_effect (hub : Hub β) (user : User) (strategy_id new_id : Text)
    (delivery : Delivery) :
    (install_marketplace env hub user strategy_id new_id delivery).1.users = hub.users ∧
      ChainEffect env user hub.inft
        (install_marketplace env hub user strategy_id new_id delivery).1.inft := by
  unfold install_marketplace
  split
  · exact ⟨rfl, .unchanged⟩
  · rename_i mp _
    split_ifs
    · exact ⟨rfl, .unchanged⟩
    · split
      · exact ⟨rfl, .unchanged⟩
      · exact ⟨rfl, .unchanged⟩
      · dsimp only
        split
        · exact ⟨rfl, .unchanged⟩
        · rename_i hub' h
          obtain ⟨husers, hinft⟩ := insert_row_some h
          obtain ⟨hgranted, heffect⟩ := grant_usage_effect env
            (hub'.update_marketplace { mp with installs_count := mp.installs_count + 1 }) user mp
            delivery
          rw [update_marketplace_inft, hinft] at heffect
          exact ⟨hgranted.trans husers, heffect⟩

theorem mint_publication_effect (inft : StrategyINFT.State β) (user : User) (sent : Submitted)
    (delivery : Delivery) :
    ChainEffect env user inft (mint_publication env inft user sent delivery).1 := by
  unfold mint_publication
  split_ifs
  · exact mint_inft_effect env user _ _ _ _
  · exact .unchanged

theorem write_publication_some {hub hub' : Hub β} {existing : Option MarketplaceStrategy}
    {mp : MarketplaceStrategy} (h : hub.write_publication existing mp = some hub') :
    hub'.users = hub.users ∧ hub'.inft = hub.inft := by
  cases existing with
  | none => exact insert_marketplace_some h
  | some _ =>
      cases h
      exact ⟨rfl, rfl⟩

theorem publish_effect (hub : Hub β) (user : User) (strategy_id : Text)
    (answers : PublishAnswers) :
    (publish_strategy env hub user strategy_id answers).1.users = hub.users ∧
      ChainEffect env user hub.inft
        (publish_strategy env hub user strategy_id answers).1.inft := by
  unfold publish_strategy
  split
  · exact ⟨rfl, .unchanged⟩
  · rename_i sent _
    have heffect := mint_publication_effect env hub.inft user sent answers.mint
    split
    · exact ⟨rfl, .unchanged⟩
    · dsimp only
      split
      · exact ⟨rfl, heffect⟩
      · split
        · exact ⟨rfl, heffect⟩
        · rename_i h
          obtain ⟨husers, hinft⟩ := write_publication_some h
          exact ⟨husers, hinft ▸ heffect⟩

variable {env}

/-- A request changes the contract only by a mint to its user or by a grant of
the platform account. -/
theorem step_effect {hub hub' : Hub β} {r : User × Request}
    (h : step env hub r = some hub') :
    r.1 ∈ hub.users ∧ hub'.users = hub.users ∧ ChainEffect env r.1 hub.inft hub'.inft := by
  obtain ⟨huser, h⟩ := Option.ite_none_right_eq_some.mp h
  cases h
  refine ⟨huser, ?_⟩
  obtain ⟨user, request⟩ := r
  cases request with
  | create body new_id =>
      obtain ⟨husers, hinft⟩ := create_frame env hub user body new_id
      refine ⟨husers, ?_⟩
      change ChainEffect env user hub.inft (create_authored env hub user body new_id).1.inft
      rw [hinft]
      exact .unchanged
  | patch strategy_id body =>
      obtain ⟨husers, hinft⟩ := patch_frame env hub user strategy_id body
      refine ⟨husers, ?_⟩
      change ChainEffect env user hub.inft (patch_strategy env hub user strategy_id body).1.inft
      rw [hinft]
      exact .unchanged
  | delete strategy_id =>
      obtain ⟨husers, hinft⟩ := delete_frame hub user strategy_id
      refine ⟨husers, ?_⟩
      change ChainEffect env user hub.inft (delete_strategy hub user strategy_id).1.inft
      rw [hinft]
      exact .unchanged
  | install strategy_id new_id delivery =>
      exact install_effect env hub user strategy_id new_id delivery
  | publish strategy_id answers => exact publish_effect env hub user strategy_id answers

structure Ungranted (env : Env β) (hub : Hub β) : Prop where
  users : ∀ user ∈ hub.users, env.to_checksum_address user.wallet_address ≠ some env.signer
  tokens : ∀ tokenId, hub.inft.ownerOf env.token tokenId ≠ some env.signer
  usage : ∀ tokenId user, hub.inft.usageAuthorized tokenId user = false

theorem ungranted_start {users : List User}
    (husers : ∀ user ∈ users, env.to_checksum_address user.wallet_address ≠ some env.signer) :
    Ungranted env (start env users) := by
  refine ⟨husers, ?_, fun _ _ => rfl⟩
  intro tokenId
  change env.token.ownerOf env.token.empty tokenId ≠ _
  rw [env.token.ownerOf_empty]
  simp

theorem ungranted_step {hub hub' : Hub β} {r : User × Request} (hs : Ungranted env hub)
    (h : step env hub r = some hub') : Ungranted env hub' := by
  obtain ⟨huser, husers, heffect⟩ := step_effect h
  obtain ⟨hforeign, htokens, husage⟩ := hs
  suffices hchain : (∀ tokenId, hub'.inft.ownerOf env.token tokenId ≠ some env.signer) ∧
      ∀ tokenId user, hub'.inft.usageAuthorized tokenId user = false from
    ⟨husers ▸ hforeign, hchain.1, hchain.2⟩
  generalize hub'.inft = inft at heffect ⊢
  cases heffect with
  | unchanged => exact ⟨htokens, husage⟩
  | minted hrecipient hmint =>
      obtain ⟨m, hm, -, hs', -⟩ := exec_mint_some hmint
      obtain ⟨-, -, -, howner, -, hkept⟩ := begin_mint_some hm
      rw [hs', StrategyINFT.execs, hkept]
      refine ⟨?_, husage⟩
      intro tokenId
      rw [howner]
      rcases eq_or_ne tokenId hub.inft.nextTokenId with rfl | hne
      · rw [Function.update_self, ← hrecipient]
        exact hforeign r.1 huser
      · rw [Function.update_of_ne hne]
        exact htokens tokenId
  | authorized hgrant =>
      simp only [exec, Option.bind_eq_bind, Option.bind_eq_some_iff] at hgrant
      obtain ⟨m, hm, -⟩ := hgrant
      exact absurd (set_usage_some hm).1 (htokens _)

def UsageGranted (hub : Hub β) (token_id : ℕ) (buyer : Address) : Prop :=
  hub.inft.usageAuthorized (BitVec.ofNat 256 token_id) buyer = true

/-- A buyer with a 0G wallet installs a row that has a recorded token, and the
route returns success. -/
structure Installs (env : Env β) (hub : Hub β) (user : User) (strategy_id new_id : Text)
    (delivery : Delivery) (token_id : ℕ) (buyer : Address) (hub' : Hub β) : Prop where
  member : user ∈ hub.users
  wallet : user.holds_inft = true
  address : env.to_checksum_address user.wallet_address = some buyer
  recorded : ∃ mp, hub.marketplace_strategy strategy_id = some mp ∧ mp.inft_token_id = some token_id
  success : ∃ out, install_marketplace env hub user strategy_id new_id delivery = (hub', .ok out)

theorem Installs.step {hub hub' : Hub β} {user : User} {strategy_id new_id : Text}
    {delivery : Delivery} {token_id : ℕ} {buyer : Address}
    (h : Installs env hub user strategy_id new_id delivery token_id buyer hub') :
    StrategyRoutes.step env hub (user, .install strategy_id new_id delivery) = some hub' := by
  obtain ⟨out, hout⟩ := h.success
  rw [StrategyRoutes.step, if_pos h.member, handle, hout]

/-- No install grants usage: not when it returns, and not after any requests
that follow. -/
theorem install_grants_nothing {users : List User}
    (husers : ∀ user ∈ users, env.to_checksum_address user.wallet_address ≠ some env.signer)
    {before after : List (User × Request)} {hub hub' hub'' : Hub β} {user : User}
    {strategy_id new_id : Text} {delivery : Delivery} {token_id : ℕ} {buyer : Address}
    (hbefore : run (step env) (start env users) before = some hub)
    (hinstall : Installs env hub user strategy_id new_id delivery token_id buyer hub')
    (hafter : run (step env) hub' after = some hub'') :
    ¬ UsageGranted hub'' token_id buyer := by
  have hreached := run_invariant (fun s e s' => ungranted_step) hbefore (ungranted_start husers)
  have hinstalled := ungranted_step hreached hinstall.step
  have hlater := run_invariant (fun s e s' => ungranted_step) hafter hinstalled
  rw [UsageGranted, hlater.usage]
  simp

def author : User where
  id := "a".toList
  wallet_address := "0xaa".toList
  wallet_chain := "0g".toList

def buyer : User where
  id := "b".toList
  wallet_address := "0xbb".toList
  wallet_chain := "0g".toList

def sample : Env Tokens where
  token := standard
  keccak := fun _ => 0
  signer := 1
  inft_enabled := true
  registry_enabled := false
  sha256_hex := fun _ => List.replicate 64 '0'
  sha3_256 := fun _ => List.replicate 32 0
  to_checksum_address := fun a =>
    if a = author.wallet_address then some 2
    else if a = buyer.wallet_address then some 3
    else none

def publication : List (User × Request) :=
  [(author, .create { name := "s".toList, code := "c".toList, params_schema := none } "r".toList),
    (author, .publish "r".toList
      { new_id := "m".toList
        backtest := .ok
          { strategy_hash := List.replicate 64 '0', dataset_hash := List.replicate 64 '0'
            metrics := ⟨0, 0, 0, 0, 0⟩ }
        registry_tx := none, attest_tx := none, mint := .mined "0xab".toList })]

theorem install_grants_nothing_sample :
    ∃ hub hub', run (step sample) (start sample [author, buyer]) publication = some hub ∧
      Installs sample hub buyer "m".toList "i".toList (.mined "0xcd".toList) 0 3 hub' ∧
        ¬ UsageGranted hub' 0 3 :=
  have installs : Installs sample _ buyer "m".toList "i".toList (.mined "0xcd".toList) 0 3 _ :=
    ⟨by decide, by decide, rfl, ⟨_, rfl, rfl⟩, ⟨_, rfl⟩⟩
  ⟨_, _, rfl, installs, @install_grants_nothing Tokens sample [author, buyer] (by decide)
    publication [] _ _ _ _ _ _ _ _ _ rfl installs rfl⟩

/-- The buyer's install of the published strategy succeeds without a grant. -/
theorem install_without_grant :
    ¬ ∀ (env : Env Tokens) (users : List User) (before : List (User × Request))
      (hub hub' : Hub Tokens) (user : User) (strategy_id new_id : Text) (delivery : Delivery)
      (token_id : ℕ) (buyer : Address),
      (∀ user ∈ users, env.to_checksum_address user.wallet_address ≠ some env.signer) →
      run (step env) (start env users) before = some hub →
      Installs env hub user strategy_id new_id delivery token_id buyer hub' →
      UsageGranted hub' token_id buyer := by
  intro h
  have hgranted := h sample [author, buyer] publication _ _ buyer "m".toList "i".toList
    (.mined "0xcd".toList) 0 3 (by decide) rfl
    ⟨by decide, by decide, rfl, ⟨_, rfl, rfl⟩, ⟨_, rfl⟩⟩
  exact Bool.false_ne_true hgranted

end ArticTrader.UsageGrants
