import Mathlib.Data.Nat.Notation
import Mathlib.Logic.Function.Basic
import ArticTrader.TokenStandard

/-!
The contract `BacktestAttest`: anyone attests, and what has been attested stays.
-/

namespace ArticTrader.BacktestAttest

open ArticTrader.TokenStandard (Address Word)

structure Attestation where
  strategyHash : Word
  datasetHash : Word
  sharpeBps : BitVec 32
  maxDdBps : BitVec 16
  totalReturnBps : BitVec 32
  winRateBps : BitVec 16
  nTrades : BitVec 32
  attester : Address
  timestamp : BitVec 64
  deriving DecidableEq, Repr

structure State where
  attestations : Word → List Attestation

structure Event where
  strategyHash : Word
  datasetHash : Word
  sharpeBps : BitVec 32
  maxDdBps : BitVec 16
  totalReturnBps : BitVec 32
  winRateBps : BitVec 16
  nTrades : BitVec 32
  attester : Address
  deriving DecidableEq, Repr

inductive Revert where
  | NoAttestations
  | StrategyHashZero
  deriving DecidableEq, Repr

/-- A call of `attest`. -/
structure Call where
  sender : Address
  strategyHash : Word
  datasetHash : Word
  sharpeBps : BitVec 32
  maxDdBps : BitVec 16
  totalReturnBps : BitVec 32
  winRateBps : BitVec 16
  nTrades : BitVec 32
  deriving DecidableEq, Repr

def deployed : State where
  attestations := fun _ => []

def Call.attestation (c : Call) (timestamp : Word) : Attestation where
  strategyHash := c.strategyHash
  datasetHash := c.datasetHash
  sharpeBps := c.sharpeBps
  maxDdBps := c.maxDdBps
  totalReturnBps := c.totalReturnBps
  winRateBps := c.winRateBps
  nTrades := c.nTrades
  attester := c.sender
  timestamp := timestamp.setWidth 64

def Call.event (c : Call) : Event where
  strategyHash := c.strategyHash
  datasetHash := c.datasetHash
  sharpeBps := c.sharpeBps
  maxDdBps := c.maxDdBps
  totalReturnBps := c.totalReturnBps
  winRateBps := c.winRateBps
  nTrades := c.nTrades
  attester := c.sender

def State.attest (s : State) (timestamp : Word) (c : Call) : Except Revert (State × List Event) :=
  if c.strategyHash = 0 then .error .StrategyHashZero
  else
    .ok ({ s with
        attestations := Function.update s.attestations c.strategyHash
          (s.attestations c.strategyHash ++ [c.attestation timestamp]) },
      [c.event])

def State.getAttestations (s : State) (strategyHash : Word) : List Attestation :=
  s.attestations strategyHash

def State.latest (s : State) (strategyHash : Word) : Except Revert Attestation :=
  match (s.attestations strategyHash).getLast? with
  | none => .error .NoAttestations
  | some a => .ok a

def State.count (s : State) (strategyHash : Word) : ℕ := (s.attestations strategyHash).length

/-- What a transaction leaves of the contract: a revert undoes it. -/
def State.transact (s : State) (timestamp : Word) (c : Call) : State :=
  match s.attest timestamp c with
  | .error _ => s
  | .ok (s', _) => s'

variable {s : State} {timestamp : Word} {c : Call}

theorem attest_of_zero (h : c.strategyHash = 0) :
    s.attest timestamp c = .error .StrategyHashZero := by
  unfold State.attest
  rw [if_pos h]

theorem transact_of_zero (h : c.strategyHash = 0) : s.transact timestamp c = s := by
  unfold State.transact
  rw [attest_of_zero h]

theorem attestations_of_ne_zero (h : c.strategyHash ≠ 0) :
    (s.transact timestamp c).attestations =
      Function.update s.attestations c.strategyHash
        (s.attestations c.strategyHash ++ [c.attestation timestamp]) := by
  unfold State.transact State.attest
  rw [if_neg h]

/-- What has been attested stays where it is. -/
theorem attestations_grow (s : State) (timestamp : Word) (c : Call) (strategyHash : Word) :
    s.attestations strategyHash <+: (s.transact timestamp c).attestations strategyHash := by
  by_cases hzero : c.strategyHash = 0
  · exact ⟨[], by rw [List.append_nil, transact_of_zero hzero]⟩
  · rw [attestations_of_ne_zero hzero]
    by_cases hhash : strategyHash = c.strategyHash
    · subst hhash
      rw [Function.update_self]
      exact List.prefix_append _ _
    · exact ⟨[], by rw [List.append_nil, Function.update_of_ne hhash]⟩

theorem latest_of_mem {strategyHash : Word} {a : Attestation}
    (h : a ∈ s.attestations strategyHash) : ∃ last, s.latest strategyHash = .ok last := by
  obtain ⟨last, hlast⟩ := Option.ne_none_iff_exists'.mp
    (mt List.getLast?_eq_none_iff.mp (List.ne_nil_of_mem h))
  refine ⟨last, ?_⟩
  unfold State.latest
  rw [hlast]

end ArticTrader.BacktestAttest
