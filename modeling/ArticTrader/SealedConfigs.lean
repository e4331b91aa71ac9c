import ArticTrader.StrategyMoves

/-!
For whom the sealed config of a token was made: the oracle answers the events of
the transfers, and the chain may order an answer after a later transfer.
-/

namespace ArticTrader.SealedConfigs

open ArticTrader.LabelledRuns
open ArticTrader.TokenStandard
open ArticTrader.StrategyINFT
open ArticTrader.StrategyMoves

/-- The arguments of a `MetadataReencrypted` event. -/
structure Request where
  tokenId : Word
  source : Address
  to_ : Address
  oldSealedConfigHash : Word
  deriving DecidableEq, Repr

def Request.event (r : Request) : Event :=
  .MetadataReencrypted r.tokenId r.source r.to_ r.oldSealedConfigHash

/-- A move of the contract, or the answer to a request: a hash sealed for the
request's recipient. -/
inductive Act where
  | of (m : Move)
  | respond (sender : Address) (r : Request) (newHash : Word)
  deriving DecidableEq, Repr

def Act.move : Act → Move
  | .of m => m
  | .respond sender r newHash => .setSealedConfigHash sender r.tokenId newHash

/-- Config hashes are only set in answer to a request of the log. -/
def Act.answers (log : List Event) : Act → Bool
  | .of (.setSealedConfigHash _ _ _) => false
  | .of _ => true
  | .respond _ r _ => r.event ∈ log

variable {β : Type}

/-- The state and the log, and for whom each token's config was last sealed. -/
structure World (β : Type) where
  ledger : State β × List Event
  sealed_for : Word → Address

def World.sealed_by (w : World β) : Act → Word → Address
  | .of (.mint _ to_ _ _) => Function.update w.sealed_for w.ledger.1.nextTokenId to_
  | .respond _ r _ => Function.update w.sealed_for r.tokenId r.to_
  | _ => w.sealed_for

variable (T : Erc721 β)

def start (deployer : Address) : World β := ⟨(initial T deployer, []), fun _ => 0⟩

def step (w : World β) (a : Act) : Option (World β) :=
  if a.answers w.ledger.2 then
    (move T w.ledger a.move).map fun ledger => ⟨ledger, w.sealed_by a⟩
  else none

/-- Each config there is was sealed for the owner of the token. -/
def SealedForOwner (w : World β) : Prop :=
  ∀ tokenId, w.ledger.1.sealedConfigHash tokenId ≠ 0 →
    w.ledger.1.ownerOf T tokenId = some (w.sealed_for tokenId)

/-- A config arrives while its recipient has the token. -/
def InTime (w : World β) : Act → Prop
  | .of _ => True
  | .respond _ r newHash => newHash ≠ 0 → w.ledger.1.ownerOf T r.tokenId = some r.to_

variable {T}

theorem step_some_iff {w w' : World β} {a : Act} :
    step T w a = some w' ↔
      a.answers w.ledger.2 = true ∧ move T w.ledger a.move = some w'.ledger ∧
        w'.sealed_for = w.sealed_by a := by
  constructor
  · intro h
    obtain ⟨hanswers, h⟩ := Option.ite_none_right_eq_some.mp h
    obtain ⟨ledger, hmove, rfl⟩ := Option.map_eq_some_iff.mp h
    exact ⟨hanswers, hmove, rfl⟩
  · rintro ⟨hanswers, hmove, hsealed⟩
    obtain ⟨ledger, sealed_for⟩ := w'
    cases hsealed
    exact Option.ite_none_right_eq_some.mpr
      ⟨hanswers, Option.map_eq_some_iff.mpr ⟨ledger, hmove, rfl⟩⟩

theorem step_effect {w w' : World β} {a : Act} (h : step T w a = some w') :
    Effect T w.ledger.1 w'.ledger.1 a.move := by
  obtain ⟨-, hmove, -⟩ := step_some_iff.mp h
  obtain ⟨s, events, happly, heq⟩ := move_some_iff.mp hmove
  rw [heq]
  exact apply_effect happly

/-- What the acts do is what their moves do. -/
theorem run_moves {w w' : World β} {acts : List Act} (h : run (step T) w acts = some w') :
    run (move T) w.ledger (acts.map Act.move) = some w'.ledger := by
  induction acts generalizing w with
  | nil =>
      cases h
      rfl
  | cons a acts ih =>
      obtain ⟨w'', hstep, hrest⟩ := run_cons_iff.mp h
      exact run_cons_iff.mpr ⟨w''.ledger, (step_some_iff.mp hstep).2.1, ih hrest⟩

theorem sealed_start (deployer : Address) : SealedForOwner T (start T deployer) := by
  intro tokenId hsealed
  exact absurd rfl hsealed

/-- A config that is left as it is, of a token that keeps its owner. -/
theorem kept_config {w w' : World β} {tokenId : Word} (hs : SealedForOwner T w)
    (hsealed : w'.ledger.1.sealedConfigHash tokenId = w.ledger.1.sealedConfigHash tokenId)
    (howner : w'.ledger.1.ownerOf T tokenId = w.ledger.1.ownerOf T tokenId)
    (hfor : w'.sealed_for tokenId = w.sealed_for tokenId)
    (hset : w'.ledger.1.sealedConfigHash tokenId ≠ 0) :
    w'.ledger.1.ownerOf T tokenId = some (w'.sealed_for tokenId) := by
  rw [howner, hfor]
  exact hs tokenId (hsealed ▸ hset)

theorem sealed_same {w w' : World β} (hs : SealedForOwner T w)
    (h : Same T w.ledger.1 w'.ledger.1) (hfor : w'.sealed_for = w.sealed_for) :
    SealedForOwner T w' := by
  intro tokenId hset
  exact kept_config hs (congrFun h.sealedConfigHash tokenId) (congrFun h.ownerOf tokenId)
    (congrFun hfor tokenId) hset

theorem sealed_mint {w w' : World β} {sender to_ : Address}
    {metadataHash sealedConfigHash : Word} (hs : SealedForOwner T w)
    (h : Effect T w.ledger.1 w'.ledger.1 (.mint sender to_ metadataHash sealedConfigHash))
    (hfor : w'.sealed_for = Function.update w.sealed_for w.ledger.1.nextTokenId to_) :
    SealedForOwner T w' := by
  cases h with
  | mint hfree howner husage hsealed =>
      intro tokenId hset
      by_cases htoken : tokenId = w.ledger.1.nextTokenId
      · subst tokenId
        rw [howner, hfor, Function.update_self, Function.update_self]
      · refine kept_config hs ?_ ?_ ?_ hset
        · rw [hsealed, Function.update_of_ne htoken]
        · rw [howner, Function.update_of_ne htoken]
        · rw [hfor, Function.update_of_ne htoken]

theorem sealed_transfer {w w' : World β} {sender source to_ : Address} {moved : Word}
    (hs : SealedForOwner T w)
    (h : Effect T w.ledger.1 w'.ledger.1 (.transferFrom sender source to_ moved))
    (hfor : w'.sealed_for = w.sealed_for) : SealedForOwner T w' := by
  cases h with
  | transferFrom howned howner husage hsealed =>
      intro tokenId hset
      have htoken : tokenId ≠ moved := by
        rintro rfl
        rw [hsealed, Function.update_self] at hset
        exact hset rfl
      refine kept_config hs ?_ ?_ (congrFun hfor tokenId) hset
      · rw [hsealed, Function.update_of_ne htoken]
      · rw [howner, Function.update_of_ne htoken]

/-- An answer is good where it clears the config or its recipient has the token. -/
theorem sealed_respond_iff {w w' : World β} {sender : Address} {r : Request} {newHash : Word}
    (hs : SealedForOwner T w)
    (h : Effect T w.ledger.1 w'.ledger.1 (.setSealedConfigHash sender r.tokenId newHash))
    (hfor : w'.sealed_for = Function.update w.sealed_for r.tokenId r.to_) :
    SealedForOwner T w' ↔
      (newHash ≠ 0 → w.ledger.1.ownerOf T r.tokenId = some r.to_) := by
  cases h with
  | setSealedConfigHash howner husage hsealed =>
      constructor
      · intro hs' hset
        have hr := hs' r.tokenId
        rw [hsealed, howner, hfor, Function.update_self, Function.update_self] at hr
        exact hr hset
      · intro htime tokenId hset
        by_cases htoken : tokenId = r.tokenId
        · subst tokenId
          rw [hsealed, Function.update_self] at hset
          rw [howner, hfor, Function.update_self, htime hset]
        · refine kept_config hs ?_ (congrFun howner tokenId) ?_ hset
          · rw [hsealed, Function.update_of_ne htoken]
          · rw [hfor, Function.update_of_ne htoken]

theorem sealed_move {w w' : World β} {m : Move} (hs : SealedForOwner T w)
    (h : step T w (.of m) = some w') : SealedForOwner T w' := by
  have heffect := step_effect h
  obtain ⟨hanswers, -, hfor⟩ := step_some_iff.mp h
  simp only [Act.move] at heffect
  cases m with
  | mint sender to_ metadataHash sealedConfigHash => exact sealed_mint hs heffect hfor
  | transferFrom sender source to_ tokenId => exact sealed_transfer hs heffect hfor
  | setSealedConfigHash sender tokenId newHash => cases hanswers
  | authorizeUsage sender tokenId user =>
      cases heffect with
      | authorizeUsage howned howner husage hsealed =>
          intro tokenId hset
          exact kept_config hs (congrFun hsealed tokenId) (congrFun howner tokenId)
            (congrFun hfor tokenId) hset
  | revokeUsage sender tokenId user =>
      cases heffect with
      | revokeUsage howner husage hsealed =>
          intro tokenId hset
          exact kept_config hs (congrFun hsealed tokenId) (congrFun howner tokenId)
            (congrFun hfor tokenId) hset
  | minted _ _ _ _ | setOracle _ _ | transferOwnership _ _ | approval _ _ _ | elsewhere _ =>
      cases heffect with
      | _ hsame => exact sealed_same hs hsame hfor

theorem sealed_step_iff {w w' : World β} {a : Act} (hs : SealedForOwner T w)
    (h : step T w a = some w') : InTime T w a ↔ SealedForOwner T w' := by
  cases a with
  | of m => exact iff_of_true trivial (sealed_move hs h)
  | respond sender r newHash =>
      exact (sealed_respond_iff hs (step_effect h) (step_some_iff.mp h).2.2).symm

/-- However calls, hooks and answers are ordered, every config is sealed for the
owner of its token exactly where each answer arrives in time. -/
theorem sealed_for_owner_iff (T : Erc721 β) (deployer : Address) (calls : List Call)
    {acts : List Act} {w : World β}
    (htrace : acts.map Act.move = traces T (initial T deployer) calls)
    (hrun : run (step T) (start T deployer) acts = some w) :
    w.ledger = execs T (initial T deployer) calls ∧
      (AllSteps (step T) (InTime T) (start T deployer) acts ↔
        ∀ m later, Passes (step T) (start T deployer) acts m later → SealedForOwner T m) := by
  constructor
  · have hmoves := run_moves hrun
    rw [htrace] at hmoves
    have hcalls := run_traces (T := T) calls (initial T deployer) []
    rw [List.nil_append] at hcalls
    exact Option.some.inj (hmoves.symm.trans hcalls)
  · apply allSteps_iff_passes (P := SealedForOwner T) _ _ (fun _ hs => hs) hrun
      (sealed_start deployer)
    · intro w a w' hs hC h
      exact (sealed_step_iff hs h).mp hC
    · intro w a w' hs h
      exact sealed_step_iff hs h

def resale : List Call :=
  [.mint 1 2 7 8 true [], .transferFrom 2 2 3 1, .setSealedConfigHash 1 1 9,
    .transferFrom 3 3 4 1]

def resaleActs : List Act :=
  [.of (.mint 1 2 7 8), .of (.minted 1 2 7 8), .of (.transferFrom 2 2 3 1),
    .respond 1 ⟨1, 2, 3, 8⟩ 9, .of (.transferFrom 3 3 4 1)]

theorem sealed_for_owner_resale :
    ∃ w, run (step standard) (start standard 1) resaleActs = some w ∧
      w.ledger = execs standard (initial standard 1) resale ∧
      (AllSteps (step standard) (InTime standard) (start standard 1) resaleActs ↔
        ∀ m later, Passes (step standard) (start standard 1) resaleActs m later →
          SealedForOwner standard m) := by
  obtain ⟨w, hrun, -⟩ : ∃ w ∈ run (step standard) (start standard 1) resaleActs, True := by
    decide
  have hiff := sealed_for_owner_iff standard 1 resale (by decide) hrun
  exact ⟨w, hrun, hiff.1, hiff.2⟩

/-- The answer to the first sale is mined after the second. -/
def lateAnswer : List Act :=
  [.of (.mint 1 2 7 8), .of (.minted 1 2 7 8), .of (.transferFrom 2 2 3 1),
    .of (.transferFrom 3 3 4 1), .respond 1 ⟨1, 2, 3, 8⟩ 9]

theorem late_answer_sealed_for_seller :
    ∃ w ∈ run (step standard) (start standard 1) lateAnswer,
      w.ledger.1.ownerOf standard 1 = some 4 ∧ w.ledger.1.sealedConfigHash 1 = 9 ∧
      w.sealed_for 1 = 3 ∧ ¬ SealedForOwner standard w := by
  obtain ⟨w, hrun, howner, hsealed, hfor⟩ :
      ∃ w ∈ run (step standard) (start standard 1) lateAnswer,
        w.ledger.1.ownerOf standard 1 = some 4 ∧ w.ledger.1.sealedConfigHash 1 = 9 ∧
        w.sealed_for 1 = 3 := by
    decide
  refine ⟨w, hrun, howner, hsealed, hfor, ?_⟩
  intro hs
  have hset : w.ledger.1.sealedConfigHash 1 ≠ 0 := by
    rw [hsealed]
    decide
  have howned := hs 1 hset
  rw [howner, hfor] at howned
  exact absurd howned (by decide)

end ArticTrader.SealedConfigs
