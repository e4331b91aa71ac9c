import ArticTrader.PythonNumbers
import ArticTrader.StrategyINFT

/-!
The hub's client of `StrategyINFT`: what it reads out of a receipt, and which
token it takes a mint to have made.
-/

namespace ArticTrader.InftClient

open ArticTrader.PythonNumbers
open ArticTrader.PythonText (Text)
open ArticTrader.TokenStandard
open ArticTrader.StrategyINFT

structure Receipt where
  status : Bool
  logs : List Log
  deriving DecidableEq, Repr

/-- The receipt of a mined transaction. A reverted one has no logs. -/
def receipt {β : Type} (keccak : Text → Word) : Option (State β × List Event) → Receipt
  | none => { status := false, logs := [] }
  | some (_, events) => { status := true, logs := events.map (Event.log keccak) }

def token_id : List Log → ℕ
  | [] => 0
  | log :: logs =>
      match log.topics with
      | _ :: topic :: _ => topic.toNat
      | _ => token_id logs

def word (bytes : List UInt8) : Word :=
  bytes.foldl (fun w b => w * 256 + BitVec.ofNat 256 b.toNat) 0

/-- `mint`, given the transaction hash and the receipt that the node answers,
or `none` where a step of `_send` raises. -/
def mint (enabled : Bool) (metadata_hash sealed_config_hash : List UInt8)
    (answer : Option (Text × Receipt)) : Except PyError (Option (ℕ × Text)) :=
  if enabled = false then .ok none
  else if metadata_hash.length ≠ 32 ∨ sealed_config_hash.length ≠ 32 then .error .ValueError
  else .ok (answer.map fun sent => (token_id sent.2.logs, sent.1))

def authorize_usage (enabled : Bool) (answer : Option Text) : Option Text :=
  if enabled = false then none else answer

/-- The id that the client returns is the one minted, and its owner is the
recipient unless the recipient itself passed the token on. -/
def IdentifiesMinted {β : Type} (T : Erc721 β) (s s' : State β) (to_ : Address)
    (hook : List Call) (id : ℕ) : Prop :=
  id = s.nextTokenId.toNat ∧
    (moves_any s.nextTokenId hook = false →
      s'.ownerOf T (BitVec.ofNat 256 id) = some to_)

theorem topic_zero : (topic 0).toNat = 0 := by decide

theorem token_id_mint {β : Type} {T : Erc721 β} {keccak : Text → Word} {s s' : State β}
    {sender to_ : Address} {metadataHash sealedConfigHash : Word} {accepts : Bool}
    {hook : List Call} {events : List Event}
    (h : exec T s (.mint sender to_ metadataHash sealedConfigHash accepts hook) =
      some (s', events)) :
    token_id (events.map (Event.log keccak)) = 0 := by
  obtain ⟨m, -, -, -, rfl⟩ := exec_mint_some h
  exact topic_zero

theorem nextTokenId_eq_zero_iff {β : Type} {s : State β} :
    s.nextTokenId = 0 ↔ s.nextId = BitVec.allOnes 256 := by
  have hmax : (BitVec.allOnes 256).toNat = 2 ^ 256 - 1 := BitVec.toNat_allOnes
  rw [State.nextTokenId]
  constructor
  · intro h
    bv_omega
  · intro h
    bv_omega

theorem mint_ok {enabled : Bool} {metadata_hash sealed_config_hash : List UInt8}
    {answer : Option (Text × Receipt)} {id : ℕ} {tx_hash : Text}
    (h : mint enabled metadata_hash sealed_config_hash answer = .ok (some (id, tx_hash))) :
    ∃ r, answer = some (tx_hash, r) ∧ id = token_id r.logs := by
  unfold mint at h
  split_ifs at h with henabled hlength
  · cases h
  · obtain ⟨sent, hsent, h⟩ := Option.map_eq_some_iff.mp (Except.ok.inj h)
    cases h
    exact ⟨sent.2, hsent, rfl⟩

/-- The client identifies the minted token exactly when the counter wraps
around to zero. -/
theorem mint_identifiesMinted_iff {β : Type} {T : Erc721 β} {keccak : Text → Word}
    {s s' : State β} {sender to_ : Address} {metadata_hash sealed_config_hash : List UInt8}
    {accepts enabled : Bool} {hook : List Call} {events : List Event} {sent_hash tx_hash : Text}
    {id : ℕ}
    (hmint : exec T s (.mint sender to_ (word metadata_hash) (word sealed_config_hash)
      accepts hook) = some (s', events))
    (hclient : mint enabled metadata_hash sealed_config_hash
      (some (sent_hash, receipt keccak (some (s', events)))) = .ok (some (id, tx_hash))) :
    IdentifiesMinted T s s' to_ hook id ↔ s.nextId = BitVec.allOnes 256 := by
  obtain ⟨r, hr, rfl⟩ := mint_ok hclient
  cases hr
  have hid : token_id (receipt keccak (some (s', events))).logs = 0 := token_id_mint hmint
  rw [IdentifiesMinted, hid, ← nextTokenId_eq_zero_iff]
  constructor
  · rintro ⟨hzero, -⟩
    exact BitVec.eq_of_toNat_eq hzero.symm
  · intro hzero
    refine ⟨by rw [hzero]; rfl, ?_⟩
    intro hkeeps
    have howner := mint_ownerOf hmint hkeeps
    rwa [hzero] at howner

def zero_hash : List UInt8 := List.replicate 32 0

theorem mint_identifiesMinted_first :
    ∃ s' events, exec standard (initial standard 1)
        (.mint 1 2 (word zero_hash) (word zero_hash) true []) = some (s', events) ∧
      (IdentifiesMinted standard (initial standard 1) s' 2 [] 0 ↔
        (initial standard 1).nextId = BitVec.allOnes 256) :=
  ⟨_, _, rfl, @mint_identifiesMinted_iff Tokens standard (fun _ => 0) _ _ 1 2 zero_hash zero_hash
    true true [] _ "0xab".toList _ _ rfl rfl⟩

/-- The first mint makes token 1, and the client returns 0. -/
theorem first_mint_misidentified :
    ¬ ∀ (keccak : Text → Word) (deployer : Address) (calls : List Call) (to_ : Address)
      (metadata_hash sealed_config_hash : List UInt8) (s' : State Tokens) (events : List Event)
      (sent_hash tx_hash : Text) (id : ℕ),
      let s := (execs standard (initial standard deployer) calls).1
      exec standard s (.mint s.owner to_ (word metadata_hash) (word sealed_config_hash)
        true []) = some (s', events) →
      mint true metadata_hash sealed_config_hash
        (some (sent_hash, receipt keccak (some (s', events)))) = .ok (some (id, tx_hash)) →
      IdentifiesMinted standard s s' to_ [] id := by
  intro h
  have hfirst := h (fun _ => 0) 1 [] 2 zero_hash zero_hash _ _ "0xab".toList _ _ rfl rfl
  exact absurd hfirst.1 (by decide)

end ArticTrader.InftClient
