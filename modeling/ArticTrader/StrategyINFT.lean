import ArticTrader.PythonText
import ArticTrader.TokenStandard

/-!
The contract `StrategyINFT`: its state, its external functions, and the
transactions that reach it. A recipient that is a contract may call anything
back from its receive hook, so a call carries the calls it causes.
-/

namespace ArticTrader.StrategyINFT

open ArticTrader.PythonText (Text)
open ArticTrader.TokenStandard

structure State (β : Type) where
  base : β
  metadataHash : Word → Word
  sealedConfigHash : Word → Word
  usageAuthorized : Word → Address → Bool
  owner : Address
  oracle : Address
  nextId : Word

inductive Event where
  | Transfer (source to_ : Address) (tokenId : Word)
  | Minted (tokenId : Word) (to_ : Address) (metadataHash sealedConfigHash : Word)
  | UsageAuthorized (tokenId : Word) (user : Address)
  | UsageRevoked (tokenId : Word) (user : Address)
  | MetadataReencrypted (tokenId : Word) (source to_ : Address) (oldSealedConfigHash : Word)
  | SealedConfigUpdated (tokenId : Word) (newSealedConfigHash : Word)
  | other (log : Log)
  deriving DecidableEq, Repr

def topic (a : Address) : Word := a.setWidth 256

/-- The log record of an event: the hash of its signature, then the indexed
arguments, as topics. -/
def Event.log (keccak : Text → Word) : Event → Log
  | .Transfer source to_ tokenId =>
      { topics := [keccak "Transfer(address,address,uint256)".toList,
          topic source, topic to_, tokenId]
        data := [] }
  | .Minted tokenId to_ metadataHash sealedConfigHash =>
      { topics := [keccak "Minted(uint256,address,bytes32,bytes32)".toList, tokenId, topic to_]
        data := [metadataHash, sealedConfigHash] }
  | .UsageAuthorized tokenId user =>
      { topics := [keccak "UsageAuthorized(uint256,address)".toList, tokenId, topic user]
        data := [] }
  | .UsageRevoked tokenId user =>
      { topics := [keccak "UsageRevoked(uint256,address)".toList, tokenId, topic user]
        data := [] }
  | .MetadataReencrypted tokenId source to_ oldSealedConfigHash =>
      { topics := [keccak "MetadataReencrypted(uint256,address,address,bytes32)".toList,
          tokenId, topic source, topic to_]
        data := [oldSealedConfigHash] }
  | .SealedConfigUpdated tokenId newSealedConfigHash =>
      { topics := [keccak "SealedConfigUpdated(uint256,bytes32)".toList, tokenId]
        data := [newSealedConfigHash] }
  | .other log => log

/-- A call of an external function. `accepts` and `hook` say what the recipient
of a token does when it is told: whether it returns the expected value, and the
calls it makes before. An account without code accepts and makes none.
`elsewhere` is a call of another contract. -/
inductive Call where
  | mint (sender to_ : Address) (metadataHash sealedConfigHash : Word) (accepts : Bool)
      (hook : List Call)
  | authorizeUsage (sender : Address) (tokenId : Word) (user : Address)
  | revokeUsage (sender : Address) (tokenId : Word) (user : Address)
  | setSealedConfigHash (sender : Address) (tokenId newHash : Word)
  | setOracle (sender newOracle : Address)
  | transferOwnership (sender newOwner : Address)
  | transferFrom (sender source to_ : Address) (tokenId : Word)
  | safeTransferFrom (sender source to_ : Address) (tokenId : Word) (accepts : Bool)
      (hook : List Call)
  | approval (sender : Address) (a : Approval) (log : Log)
  | elsewhere (logs : List Log)

variable {β : Type} (T : Erc721 β)

def initial (deployer : Address) : State β where
  base := T.empty
  metadataHash := fun _ => 0
  sealedConfigHash := fun _ => 0
  usageAuthorized := fun _ _ => false
  owner := deployer
  oracle := deployer
  nextId := 0

def State.ownerOf (s : State β) (tokenId : Word) : Option Address := T.ownerOf s.base tokenId

def State.nextTokenId (s : State β) : Word := s.nextId + 1

def State.begin_mint (s : State β) (sender to_ : Address)
    (metadataHash sealedConfigHash : Word) : Option (State β) :=
  if sender = s.owner then
    (T.mint s.base to_ s.nextTokenId).map fun base =>
      { s with
        base
        metadataHash := Function.update s.metadataHash s.nextTokenId metadataHash
        sealedConfigHash := Function.update s.sealedConfigHash s.nextTokenId sealedConfigHash
        nextId := s.nextTokenId }
  else none

/-- A transfer with the effects that `_update` adds to it. -/
def State.transfer (s : State β) (sender source to_ : Address) (tokenId : Word) :
    Option (State β × List Event) :=
  (T.transferFrom s.base sender source to_ tokenId).map fun base =>
    ({ s with base, sealedConfigHash := Function.update s.sealedConfigHash tokenId 0 },
      [.Transfer source to_ tokenId,
        .MetadataReencrypted tokenId source to_ (s.sealedConfigHash tokenId)])

def State.set_usage (s : State β) (sender : Address) (tokenId : Word) (user : Address)
    (value : Bool) : Option (State β) :=
  if s.ownerOf T tokenId = some sender then
    some { s with
      usageAuthorized :=
        Function.update s.usageAuthorized tokenId
          (Function.update (s.usageAuthorized tokenId) user value) }
  else none

mutual

def exec (s : State β) : Call → Option (State β × List Event)
  | .mint sender to_ metadataHash sealedConfigHash accepts hook => do
      let s' ← s.begin_mint T sender to_ metadataHash sealedConfigHash
      let called := execs s' hook
      if accepts then
        return (called.1, .Transfer 0 to_ s.nextTokenId :: called.2 ++
          [.Minted s.nextTokenId to_ metadataHash sealedConfigHash])
      else none
  | .authorizeUsage sender tokenId user => do
      let s' ← s.set_usage T sender tokenId user true
      return (s', [.UsageAuthorized tokenId user])
  | .revokeUsage sender tokenId user => do
      let s' ← s.set_usage T sender tokenId user false
      return (s', [.UsageRevoked tokenId user])
  | .setSealedConfigHash sender tokenId newHash =>
      if sender = s.oracle ∧ (s.ownerOf T tokenId).isSome then
        some ({ s with
          sealedConfigHash := Function.update s.sealedConfigHash tokenId newHash },
          [.SealedConfigUpdated tokenId newHash])
      else none
  | .setOracle sender newOracle =>
      if sender = s.owner then some ({ s with oracle := newOracle }, []) else none
  | .transferOwnership sender newOwner =>
      if sender = s.owner then some ({ s with owner := newOwner }, []) else none
  | .transferFrom sender source to_ tokenId => s.transfer T sender source to_ tokenId
  | .safeTransferFrom sender source to_ tokenId accepts hook => do
      let (s', events) ← s.transfer T sender source to_ tokenId
      let called := execs s' hook
      if accepts then return (called.1, events ++ called.2) else none
  | .approval sender a log => do
      let base ← T.approval s.base sender a
      return ({ s with base }, [.other log])
  | .elsewhere logs => some (s, logs.map .other)

/-- Calls one after another; one that reverts leaves no trace. -/
def execs (s : State β) : List Call → State β × List Event
  | [] => (s, [])
  | c :: cs =>
      match exec s c with
      | none => execs s cs
      | some (s', events) =>
          let rest := execs s' cs
          (rest.1, events ++ rest.2)

end

mutual

/-- The call, or one that it causes, transfers the token. -/
def Call.moves (tokenId : Word) : Call → Bool
  | .mint _ _ _ _ _ hook => moves_any tokenId hook
  | .transferFrom _ _ _ moved => moved = tokenId
  | .safeTransferFrom _ _ _ moved _ hook => moved = tokenId || moves_any tokenId hook
  | _ => false

def moves_any (tokenId : Word) : List Call → Bool
  | [] => false
  | c :: cs => c.moves tokenId || moves_any tokenId cs

end

variable {T}

theorem begin_mint_some {s s' : State β} {sender to_ : Address}
    {metadataHash sealedConfigHash : Word}
    (h : s.begin_mint T sender to_ metadataHash sealedConfigHash = some s') :
    sender = s.owner ∧ to_ ≠ 0 ∧ s.ownerOf T s.nextTokenId = none ∧
      s'.ownerOf T = Function.update (s.ownerOf T) s.nextTokenId (some to_) ∧
      s'.owner = s.owner ∧ s'.usageAuthorized = s.usageAuthorized := by
  obtain ⟨hsender, h⟩ := Option.ite_none_right_eq_some.mp h
  obtain ⟨base, hmint, rfl⟩ := Option.map_eq_some_iff.mp h
  obtain ⟨hto, hfree, howner⟩ := T.mint_some hmint
  exact ⟨hsender, hto, hfree, howner, rfl, rfl⟩

theorem exec_mint_some {s s' : State β} {sender to_ : Address}
    {metadataHash sealedConfigHash : Word} {accepts : Bool} {hook : List Call}
    {events : List Event}
    (h : exec T s (.mint sender to_ metadataHash sealedConfigHash accepts hook) =
      some (s', events)) :
    ∃ m, s.begin_mint T sender to_ metadataHash sealedConfigHash = some m ∧
      accepts = true ∧ s' = (execs T m hook).1 ∧
      events = .Transfer 0 to_ s.nextTokenId :: (execs T m hook).2 ++
        [.Minted s.nextTokenId to_ metadataHash sealedConfigHash] := by
  simp only [exec, Option.bind_eq_bind, Option.bind_eq_some_iff] at h
  obtain ⟨m, hm, h⟩ := h
  obtain ⟨haccepts, h⟩ := Option.ite_none_right_eq_some.mp h
  cases h
  exact ⟨m, hm, haccepts, rfl, rfl⟩

theorem transfer_some {s s' : State β} {sender source to_ : Address} {tokenId : Word}
    {events : List Event} (h : s.transfer T sender source to_ tokenId = some (s', events)) :
    s.ownerOf T tokenId = some source ∧
      s'.ownerOf T = Function.update (s.ownerOf T) tokenId (some to_) := by
  obtain ⟨base, htransfer, h⟩ := Option.map_eq_some_iff.mp h
  cases h
  exact (T.transferFrom_some htransfer).2

theorem set_usage_some {s s' : State β} {sender user : Address} {tokenId : Word} {value : Bool}
    (h : s.set_usage T sender tokenId user value = some s') :
    s.ownerOf T tokenId = some sender ∧ s'.ownerOf T = s.ownerOf T ∧ s'.owner = s.owner := by
  obtain ⟨howner, h⟩ := Option.ite_none_right_eq_some.mp h
  cases h
  exact ⟨howner, rfl, rfl⟩

theorem ownerOf_update_of_ne {f g : Word → Option Address} {moved tokenId : Word}
    {new : Option Address} (h : g = Function.update f moved new) (hne : moved ≠ tokenId) :
    g tokenId = f tokenId := by
  rw [h, Function.update_of_ne (Ne.symm hne)]

mutual

/-- Who owns a token keeps it through calls that do not transfer it. -/
theorem exec_ownerOf {tokenId : Word} {a : Address} :
    ∀ (c : Call) {s s' : State β} {events : List Event}, exec T s c = some (s', events) →
      c.moves tokenId = false → s.ownerOf T tokenId = some a → s'.ownerOf T tokenId = some a
  | .mint _ _ _ _ _ hook, s, s', events, h, hmoves, howned => by
      obtain ⟨m, hm, -, rfl, -⟩ := exec_mint_some h
      obtain ⟨-, -, hfree, howner, -⟩ := begin_mint_some hm
      have hne : s.nextTokenId ≠ tokenId := by
        intro heq
        rw [heq, howned] at hfree
        cases hfree
      refine execs_ownerOf hook (by simpa only [Call.moves] using hmoves) ?_
      rw [ownerOf_update_of_ne howner hne, howned]
  | .authorizeUsage _ _ _, s, s', events, h, _, howned => by
      simp only [exec, Option.bind_eq_bind, Option.bind_eq_some_iff] at h
      obtain ⟨m, hm, h⟩ := h
      cases h
      rw [(set_usage_some hm).2.1, howned]
  | .revokeUsage _ _ _, s, s', events, h, _, howned => by
      simp only [exec, Option.bind_eq_bind, Option.bind_eq_some_iff] at h
      obtain ⟨m, hm, h⟩ := h
      cases h
      rw [(set_usage_some hm).2.1, howned]
  | .setSealedConfigHash _ _ _, s, s', events, h, _, howned => by
      obtain ⟨-, h⟩ := Option.ite_none_right_eq_some.mp h
      cases h
      exact howned
  | .setOracle _ _, s, s', events, h, _, howned => by
      obtain ⟨-, h⟩ := Option.ite_none_right_eq_some.mp h
      cases h
      exact howned
  | .transferOwnership _ _, s, s', events, h, _, howned => by
      obtain ⟨-, h⟩ := Option.ite_none_right_eq_some.mp h
      cases h
      exact howned
  | .transferFrom _ _ _ moved, s, s', events, h, hmoves, howned => by
      have hne : moved ≠ tokenId := by simpa only [Call.moves, decide_eq_false_iff_not] using hmoves
      rw [ownerOf_update_of_ne (transfer_some h).2 hne, howned]
  | .safeTransferFrom _ _ _ moved _ hook, s, s', events, h, hmoves, howned => by
      simp only [exec, Option.bind_eq_bind, Option.bind_eq_some_iff] at h
      obtain ⟨⟨m, transferred⟩, hm, h⟩ := h
      obtain ⟨-, h⟩ := Option.ite_none_right_eq_some.mp h
      cases h
      simp only [Call.moves, Bool.or_eq_false_iff, decide_eq_false_iff_not] at hmoves
      refine execs_ownerOf hook hmoves.2 ?_
      rw [ownerOf_update_of_ne (transfer_some hm).2 hmoves.1, howned]
  | .approval _ _ _, s, s', events, h, _, howned => by
      simp only [exec, Option.bind_eq_bind, Option.bind_eq_some_iff] at h
      obtain ⟨base, hbase, h⟩ := h
      cases h
      rw [State.ownerOf, T.approval_some hbase]
      exact howned
  | .elsewhere _, s, s', events, h, _, howned => by
      simp only [exec, Option.some.injEq] at h
      cases h
      exact howned

theorem execs_ownerOf {tokenId : Word} {a : Address} :
    ∀ (cs : List Call) {s : State β}, moves_any tokenId cs = false →
      s.ownerOf T tokenId = some a → (execs T s cs).1.ownerOf T tokenId = some a
  | [], _, _, howned => howned
  | c :: cs, s, hmoves, howned => by
      simp only [moves_any, Bool.or_eq_false_iff] at hmoves
      cases h : exec T s c with
      | none =>
          simp only [execs, h]
          exact execs_ownerOf cs hmoves.2 howned
      | some r =>
          simp only [execs, h]
          exact execs_ownerOf cs hmoves.2 (exec_ownerOf c h hmoves.1 howned)

end

theorem mint_ownerOf {s s' : State β} {sender to_ : Address}
    {metadataHash sealedConfigHash : Word} {accepts : Bool} {hook : List Call}
    {events : List Event}
    (h : exec T s (.mint sender to_ metadataHash sealedConfigHash accepts hook) =
      some (s', events)) (hkeeps : moves_any s.nextTokenId hook = false) :
    s'.ownerOf T s.nextTokenId = some to_ := by
  obtain ⟨m, hm, -, rfl, -⟩ := exec_mint_some h
  obtain ⟨-, -, -, howner, -⟩ := begin_mint_some hm
  exact execs_ownerOf hook hkeeps (by rw [howner, Function.update_self])

end ArticTrader.StrategyINFT
