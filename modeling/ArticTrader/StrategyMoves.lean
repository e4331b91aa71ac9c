import ArticTrader.LabelledRuns
import ArticTrader.StrategyINFT

/-!
The calls of `StrategyINFT` taken apart: what a call does before it calls a
receive hook, what the hook does, and what the call does after it are moves of
their own. Calls that reenter the contract are runs of moves.
-/

namespace ArticTrader.StrategyMoves

open ArticTrader.LabelledRuns
open ArticTrader.TokenStandard
open ArticTrader.StrategyINFT

/-- `mint` ends where the recipient is told of the token; `minted` is what is left
of the call then. -/
inductive Move where
  | mint (sender to_ : Address) (metadataHash sealedConfigHash : Word)
  | minted (tokenId : Word) (to_ : Address) (metadataHash sealedConfigHash : Word)
  | authorizeUsage (sender : Address) (tokenId : Word) (user : Address)
  | revokeUsage (sender : Address) (tokenId : Word) (user : Address)
  | setSealedConfigHash (sender : Address) (tokenId newHash : Word)
  | setOracle (sender newOracle : Address)
  | transferOwnership (sender newOwner : Address)
  | transferFrom (sender source to_ : Address) (tokenId : Word)
  | approval (sender : Address) (a : Approval) (log : Log)
  | elsewhere (logs : List Log)
  deriving DecidableEq, Repr

variable {β : Type} (T : Erc721 β)

def apply (s : State β) : Move → Option (State β × List Event)
  | .mint sender to_ metadataHash sealedConfigHash =>
      (s.begin_mint T sender to_ metadataHash sealedConfigHash).map fun s' =>
        (s', [.Transfer 0 to_ s.nextTokenId])
  | .minted tokenId to_ metadataHash sealedConfigHash =>
      some (s, [.Minted tokenId to_ metadataHash sealedConfigHash])
  | .authorizeUsage sender tokenId user => exec T s (.authorizeUsage sender tokenId user)
  | .revokeUsage sender tokenId user => exec T s (.revokeUsage sender tokenId user)
  | .setSealedConfigHash sender tokenId newHash =>
      exec T s (.setSealedConfigHash sender tokenId newHash)
  | .setOracle sender newOracle => exec T s (.setOracle sender newOracle)
  | .transferOwnership sender newOwner => exec T s (.transferOwnership sender newOwner)
  | .transferFrom sender source to_ tokenId => s.transfer T sender source to_ tokenId
  | .approval sender a log => exec T s (.approval sender a log)
  | .elsewhere logs => exec T s (.elsewhere logs)

/-- A move on the state and the events so far. -/
def move (l : State β × List Event) (m : Move) : Option (State β × List Event) :=
  (apply T l.1 m).map fun r => (r.1, l.2 ++ r.2)

mutual

/-- The moves of a call that does not revert. -/
def trace (s : State β) : Call → List Move
  | .mint sender to_ metadataHash sealedConfigHash _ hook =>
      match s.begin_mint T sender to_ metadataHash sealedConfigHash with
      | none => []
      | some s' =>
          .mint sender to_ metadataHash sealedConfigHash :: traces s' hook ++
            [.minted s.nextTokenId to_ metadataHash sealedConfigHash]
  | .authorizeUsage sender tokenId user => [.authorizeUsage sender tokenId user]
  | .revokeUsage sender tokenId user => [.revokeUsage sender tokenId user]
  | .setSealedConfigHash sender tokenId newHash => [.setSealedConfigHash sender tokenId newHash]
  | .setOracle sender newOracle => [.setOracle sender newOracle]
  | .transferOwnership sender newOwner => [.transferOwnership sender newOwner]
  | .transferFrom sender source to_ tokenId => [.transferFrom sender source to_ tokenId]
  | .safeTransferFrom sender source to_ tokenId _ hook =>
      match s.transfer T sender source to_ tokenId with
      | none => []
      | some (s', _) => .transferFrom sender source to_ tokenId :: traces s' hook
  | .approval sender a log => [.approval sender a log]
  | .elsewhere logs => [.elsewhere logs]

def traces (s : State β) : List Call → List Move
  | [] => []
  | c :: cs =>
      match exec T s c with
      | none => traces s cs
      | some (s', _) => trace s c ++ traces s' cs

end

variable {T}

theorem move_some_iff {l l' : State β × List Event} {m : Move} :
    move T l m = some l' ↔
      ∃ s events, apply T l.1 m = some (s, events) ∧ l' = (s, l.2 ++ events) := by
  constructor
  · intro h
    obtain ⟨⟨s, events⟩, happly, rfl⟩ := Option.map_eq_some_iff.mp h
    exact ⟨s, events, happly, rfl⟩
  · rintro ⟨s, events, happly, rfl⟩
    exact Option.map_eq_some_iff.mpr ⟨(s, events), happly, rfl⟩

theorem run_single {s s' : State β} {events : List Event} {m : Move}
    (h : apply T s m = some (s', events)) (log : List Event) :
    run (move T) (s, log) [m] = some (s', log ++ events) :=
  run_cons_iff.mpr ⟨_, move_some_iff.mpr ⟨s', events, h, rfl⟩, rfl⟩

theorem run_one_move {s s' : State β} {c : Call} {m : Move} {events : List Event}
    (htrace : trace T s c = [m]) (happly : apply T s m = exec T s c)
    (h : exec T s c = some (s', events)) (log : List Event) :
    run (move T) (s, log) (trace T s c) = some (s', log ++ events) := by
  rw [htrace]
  exact run_single (happly.trans h) log

theorem run_mint {s m s' : State β} {sender to_ : Address} {metadataHash sealedConfigHash : Word}
    {called : List Event} {inner : List Move} {log : List Event}
    (hm : s.begin_mint T sender to_ metadataHash sealedConfigHash = some m)
    (hrun : run (move T) (m, log ++ [.Transfer 0 to_ s.nextTokenId]) inner =
      some (s', log ++ [.Transfer 0 to_ s.nextTokenId] ++ called)) :
    run (move T) (s, log) (.mint sender to_ metadataHash sealedConfigHash :: inner ++
        [.minted s.nextTokenId to_ metadataHash sealedConfigHash]) =
      some (s', log ++ (.Transfer 0 to_ s.nextTokenId :: called ++
        [.Minted s.nextTokenId to_ metadataHash sealedConfigHash])) := by
  have hbegin : move T (s, log) (.mint sender to_ metadataHash sealedConfigHash) =
      some (m, log ++ [.Transfer 0 to_ s.nextTokenId]) := by
    refine move_some_iff.mpr ⟨m, [.Transfer 0 to_ s.nextTokenId], ?_, rfl⟩
    simp only [apply, hm, Option.map_some]
  rw [List.cons_append]
  refine run_cons_iff.mpr ⟨_, hbegin, run_append_iff.mpr ⟨_, hrun, ?_⟩⟩
  have hlast := run_single (T := T) (s := s')
    (m := .minted s.nextTokenId to_ metadataHash sealedConfigHash) rfl
    (log ++ [.Transfer 0 to_ s.nextTokenId] ++ called)
  simpa only [List.append_assoc, List.cons_append, List.nil_append] using hlast

mutual

theorem run_trace : ∀ (c : Call) {s s' : State β} {events : List Event},
    exec T s c = some (s', events) → ∀ log : List Event,
      run (move T) (s, log) (trace T s c) = some (s', log ++ events)
  | .mint _ _ _ _ _ hook, s, s', events, h, log => by
      obtain ⟨m, hm, -, rfl, rfl⟩ := exec_mint_some h
      simp only [trace, hm]
      exact run_mint hm (run_traces hook m _)
  | .authorizeUsage _ _ _, s, s', events, h, log => run_one_move (by rw [trace]) rfl h log
  | .revokeUsage _ _ _, s, s', events, h, log => run_one_move (by rw [trace]) rfl h log
  | .setSealedConfigHash _ _ _, s, s', events, h, log => run_one_move (by rw [trace]) rfl h log
  | .setOracle _ _, s, s', events, h, log => run_one_move (by rw [trace]) rfl h log
  | .transferOwnership _ _, s, s', events, h, log => run_one_move (by rw [trace]) rfl h log
  | .transferFrom _ _ _ _, s, s', events, h, log => run_one_move (by rw [trace]) rfl h log
  | .safeTransferFrom _ _ _ _ _ hook, s, s', events, h, log => by
      simp only [exec, Option.bind_eq_bind, Option.bind_eq_some_iff] at h
      obtain ⟨⟨m, transferred⟩, hm, h⟩ := h
      obtain ⟨-, h⟩ := Option.ite_none_right_eq_some.mp h
      cases h
      simp only [trace, hm]
      rw [← List.append_assoc]
      exact run_cons_iff.mpr
        ⟨_, move_some_iff.mpr ⟨m, transferred, hm, rfl⟩, run_traces hook m _⟩
  | .approval _ _ _, s, s', events, h, log => run_one_move (by rw [trace]) rfl h log
  | .elsewhere _, s, s', events, h, log => run_one_move (by rw [trace]) rfl h log

/-- Calls, and the calls they cause, do what their moves do one after another. -/
theorem run_traces : ∀ (cs : List Call) (s : State β) (log : List Event),
    run (move T) (s, log) (traces T s cs) =
      some ((execs T s cs).1, log ++ (execs T s cs).2)
  | [], s, log => by simp only [traces, execs, run_nil, List.append_nil]
  | c :: cs, s, log => by
      cases h : exec T s c with
      | none =>
          simp only [traces, execs, h]
          exact run_traces cs s log
      | some r =>
          obtain ⟨s', events⟩ := r
          simp only [traces, execs, h]
          rw [← List.append_assoc]
          exact run_append_iff.mpr ⟨_, run_trace c h log, run_traces cs s' _⟩

end

/-- Nothing of what is owned, authorized or sealed differs. -/
structure Same (T : Erc721 β) (s s' : State β) : Prop where
  ownerOf : s'.ownerOf T = s.ownerOf T
  usageAuthorized : s'.usageAuthorized = s.usageAuthorized
  sealedConfigHash : s'.sealedConfigHash = s.sealedConfigHash

/-- What a move that does not revert does to the tokens. -/
inductive Effect (T : Erc721 β) (s s' : State β) : Move → Prop where
  | mint {sender to_ : Address} {metadataHash sealedConfigHash : Word}
      (hfree : s.ownerOf T s.nextTokenId = none)
      (howner : s'.ownerOf T = Function.update (s.ownerOf T) s.nextTokenId (some to_))
      (husage : s'.usageAuthorized = s.usageAuthorized)
      (hsealed : s'.sealedConfigHash =
        Function.update s.sealedConfigHash s.nextTokenId sealedConfigHash) :
      Effect T s s' (.mint sender to_ metadataHash sealedConfigHash)
  | minted {tokenId : Word} {to_ : Address} {metadataHash sealedConfigHash : Word}
      (h : Same T s s') : Effect T s s' (.minted tokenId to_ metadataHash sealedConfigHash)
  | authorizeUsage {sender : Address} {tokenId : Word} {user : Address}
      (howned : s.ownerOf T tokenId = some sender) (howner : s'.ownerOf T = s.ownerOf T)
      (husage : s'.usageAuthorized = Function.update s.usageAuthorized tokenId
        (Function.update (s.usageAuthorized tokenId) user true))
      (hsealed : s'.sealedConfigHash = s.sealedConfigHash) :
      Effect T s s' (.authorizeUsage sender tokenId user)
  | revokeUsage {sender : Address} {tokenId : Word} {user : Address}
      (howner : s'.ownerOf T = s.ownerOf T)
      (husage : s'.usageAuthorized = Function.update s.usageAuthorized tokenId
        (Function.update (s.usageAuthorized tokenId) user false))
      (hsealed : s'.sealedConfigHash = s.sealedConfigHash) :
      Effect T s s' (.revokeUsage sender tokenId user)
  | setSealedConfigHash {sender : Address} {tokenId newHash : Word}
      (howner : s'.ownerOf T = s.ownerOf T) (husage : s'.usageAuthorized = s.usageAuthorized)
      (hsealed : s'.sealedConfigHash = Function.update s.sealedConfigHash tokenId newHash) :
      Effect T s s' (.setSealedConfigHash sender tokenId newHash)
  | setOracle {sender newOracle : Address} (h : Same T s s') :
      Effect T s s' (.setOracle sender newOracle)
  | transferOwnership {sender newOwner : Address} (h : Same T s s') :
      Effect T s s' (.transferOwnership sender newOwner)
  | transferFrom {sender source to_ : Address} {tokenId : Word}
      (howned : s.ownerOf T tokenId = some source)
      (howner : s'.ownerOf T = Function.update (s.ownerOf T) tokenId (some to_))
      (husage : s'.usageAuthorized = s.usageAuthorized)
      (hsealed : s'.sealedConfigHash = Function.update s.sealedConfigHash tokenId 0) :
      Effect T s s' (.transferFrom sender source to_ tokenId)
  | approval {sender : Address} {a : Approval} {log : Log} (h : Same T s s') :
      Effect T s s' (.approval sender a log)
  | elsewhere {logs : List Log} (h : Same T s s') : Effect T s s' (.elsewhere logs)

theorem begin_mint_sealed {s s' : State β} {sender to_ : Address}
    {metadataHash sealedConfigHash : Word}
    (h : s.begin_mint T sender to_ metadataHash sealedConfigHash = some s') :
    s'.sealedConfigHash = Function.update s.sealedConfigHash s.nextTokenId sealedConfigHash := by
  obtain ⟨-, h⟩ := Option.ite_none_right_eq_some.mp h
  obtain ⟨base, -, rfl⟩ := Option.map_eq_some_iff.mp h
  rfl

theorem apply_effect {s s' : State β} {m : Move} {events : List Event}
    (h : apply T s m = some (s', events)) : Effect T s s' m := by
  cases m with
  | mint sender to_ metadataHash sealedConfigHash =>
      obtain ⟨m, hm, h⟩ := Option.map_eq_some_iff.mp h
      cases h
      obtain ⟨-, -, hfree, howner, -, husage⟩ := begin_mint_some hm
      exact .mint hfree howner husage (begin_mint_sealed hm)
  | minted tokenId to_ metadataHash sealedConfigHash =>
      cases h
      exact .minted ⟨rfl, rfl, rfl⟩
  | authorizeUsage sender tokenId user =>
      simp only [apply, exec, Option.bind_eq_bind, Option.bind_eq_some_iff] at h
      obtain ⟨m, hm, h⟩ := h
      cases h
      obtain ⟨howned, hm⟩ := Option.ite_none_right_eq_some.mp hm
      cases hm
      exact .authorizeUsage howned rfl rfl rfl
  | revokeUsage sender tokenId user =>
      simp only [apply, exec, Option.bind_eq_bind, Option.bind_eq_some_iff] at h
      obtain ⟨m, hm, h⟩ := h
      cases h
      obtain ⟨-, hm⟩ := Option.ite_none_right_eq_some.mp hm
      cases hm
      exact .revokeUsage rfl rfl rfl
  | setSealedConfigHash sender tokenId newHash =>
      obtain ⟨-, h⟩ := Option.ite_none_right_eq_some.mp h
      cases h
      exact .setSealedConfigHash rfl rfl rfl
  | setOracle sender newOracle =>
      obtain ⟨-, h⟩ := Option.ite_none_right_eq_some.mp h
      cases h
      exact .setOracle ⟨rfl, rfl, rfl⟩
  | transferOwnership sender newOwner =>
      obtain ⟨-, h⟩ := Option.ite_none_right_eq_some.mp h
      cases h
      exact .transferOwnership ⟨rfl, rfl, rfl⟩
  | transferFrom sender source to_ tokenId =>
      obtain ⟨howned, howner⟩ := transfer_some h
      obtain ⟨base, -, h⟩ := Option.map_eq_some_iff.mp h
      cases h
      exact .transferFrom howned howner rfl rfl
  | approval sender a log =>
      simp only [apply, exec, Option.bind_eq_bind, Option.bind_eq_some_iff] at h
      obtain ⟨base, hbase, h⟩ := h
      cases h
      exact .approval ⟨T.approval_some hbase, rfl, rfl⟩
  | elsewhere logs =>
      simp only [apply, exec, Option.some.injEq] at h
      cases h
      exact .elsewhere ⟨rfl, rfl, rfl⟩

end ArticTrader.StrategyMoves
