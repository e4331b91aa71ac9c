import ArticTrader.BacktestDatasets
import ArticTrader.DecisionAttestation
import ArticTrader.StrategyRegistry
import ArticTrader.StrategyRoutes

/-!
The name of a strategy on its way to the registry: the hub bounds its characters,
the user server bounds them differently, and the contract bounds its bytes.
-/

namespace ArticTrader.StrategyNames

open ArticTrader.BacktestDatasets (ValidateAndBacktestBody DEFAULT_DAYS DEFAULT_GRANULARITY
  field_error)
open ArticTrader.DecisionAttestation (utf8)
open ArticTrader.PythonText (Text lower)
open ArticTrader.StrategyRegistry (MAX_NAME_BYTES Revert)
open ArticTrader.StrategyRoutes
open ArticTrader.TokenStandard

variable {β : Type}

/-- A create or a patch request of this name succeeds. -/
inductive Accepted (env : Env β) (name : Text) : Prop where
  | create {hub hub' : Hub β} {user : User} {body : StrategyCreate} {new_id : Text}
      {out : StrategyOut} (hname : body.name = name)
      (h : create_authored env hub user body new_id = (hub', .ok out)) : Accepted env name
  | patch {hub hub' : Hub β} {user : User} {strategy_id : Text} {body : StrategyPatch}
      {out : StrategyOut} (hname : body.name = some name)
      (h : patch_strategy env hub user strategy_id body = (hub', .ok out)) : Accepted env name

/-- What `_validate_and_backtest` of the hub posts, with the defaults of the rest. -/
def publish_body (code name : Text) : ValidateAndBacktestBody where
  code := code
  name := name
  symbol := "BTC/USDT".toList
  days := DEFAULT_DAYS
  granularity := DEFAULT_GRANULARITY

/-- Neither the user server nor the registry refuses a publication for its name,
whatever its code is and whatever the registry holds. -/
structure Publishable (name : Text) : Prop where
  body : ∀ code, "name".toList ∉ (publish_body code name).errors
  publish : ∀ (s : StrategyRegistry.State Address) (sender : Address)
    (timestamp strategyHash codeCID : Word),
    s.publish sender timestamp strategyHash codeCID (utf8 name) ≠ .error .NameEmpty ∧
      s.publish sender timestamp strategyHash codeCID (utf8 name) ≠ .error .NameTooLong

theorem accepted_length {env : Env β} {name : Text} (h : Accepted env name) :
    1 ≤ name.length ∧ name.length ≤ 128 := by
  cases h with
  | create hname h =>
      subst hname
      unfold create_authored at h
      split_ifs at h with hlength
      · cases h
      · cases h
      · omega
  | patch hname h =>
      unfold patch_strategy at h
      rw [hname] at h
      split_ifs at h with hlength
      · cases h
      · simp only [Option.any_some, Bool.or_eq_true, decide_eq_true_eq] at hlength
        omega

theorem length_le_utf8 (name : Text) : name.length ≤ (utf8 name).length := by
  induction name with
  | nil => exact Nat.zero_le _
  | cons c name ih =>
      have hsize := c.utf8Size_pos
      simp only [utf8, List.flatMap_cons, List.length_append, String.length_utf8EncodeChar,
        List.length_cons] at ih ⊢
      omega

theorem mem_field_error {field field' : Text} {valid : Bool} :
    field' ∈ field_error field valid ↔ field' = field ∧ valid = false := by
  cases valid <;> simp [field_error]

theorem body_refuses_name_iff {body : ValidateAndBacktestBody} :
    "name".toList ∈ body.errors ↔ body.name.length < 1 ∨ 64 < body.name.length := by
  have hcode : "name".toList ≠ "code".toList := by decide
  have hdays : "name".toList ≠ "days".toList := by decide
  simp only [ValidateAndBacktestBody.errors, List.mem_append, mem_field_error, hcode, hdays,
    false_and, false_or, or_false, true_and, Bool.and_eq_false_iff, decide_eq_false_iff_not]
  omega

variable {s : StrategyRegistry.State Address} {sender : Address}
  {timestamp strategyHash codeCID : Word}

theorem publish_nameEmpty {name : List UInt8}
    (h : s.publish sender timestamp strategyHash codeCID name = .error .NameEmpty) :
    name.length = 0 := by
  unfold StrategyRegistry.State.publish at h
  dsimp only at h
  split_ifs at h with hhash hempty hlong hpublished
  · cases h
  · exact hempty
  · cases h
  · cases h

theorem publish_nameTooLong {name : List UInt8}
    (h : s.publish sender timestamp strategyHash codeCID name = .error .NameTooLong) :
    MAX_NAME_BYTES < name.length := by
  unfold StrategyRegistry.State.publish at h
  dsimp only at h
  split_ifs at h with hhash hempty hlong hpublished
  · cases h
  · cases h
  · exact hlong
  · cases h

theorem publish_of_long {name : List UInt8} (hhash : strategyHash ≠ 0)
    (hlong : MAX_NAME_BYTES < name.length) :
    s.publish sender timestamp strategyHash codeCID name = .error .NameTooLong := by
  unfold StrategyRegistry.State.publish
  have hempty : name.length ≠ 0 := by omega
  simp only [if_neg hhash, if_neg hempty, if_pos hlong]

/-- Of the names that the hub takes, those can be published whose UTF-8 encoding fits
the registry. -/
theorem publishable_iff {env : Env β} {name : Text} (h : Accepted env name) :
    Publishable name ↔ (utf8 name).length ≤ MAX_NAME_BYTES := by
  have hbytes := length_le_utf8 name
  have haccepted := accepted_length h
  constructor
  · intro hpublishable
    by_contra hlong
    have hone : (1 : Word) ≠ 0 := by decide
    exact (hpublishable.publish ⟨fun _ => StrategyRegistry.zeroed, fun _ => [], 0⟩ 0 0 1 0).2
      (publish_of_long hone (by omega))
  · intro hshort
    unfold MAX_NAME_BYTES at hshort
    refine ⟨?_, fun s sender timestamp strategyHash codeCID => ⟨?_, ?_⟩⟩
    · intro code hrefused
      have hlength : name.length < 1 ∨ 64 < name.length := body_refuses_name_iff.mp hrefused
      omega
    · intro hempty
      have hlength := publish_nameEmpty hempty
      omega
    · intro hlong
      have hlength := publish_nameTooLong hlong
      unfold MAX_NAME_BYTES at hlength
      omega

def sample : Env Tokens where
  token := standard
  keccak := fun _ => 0
  signer := 1
  inft_enabled := false
  registry_enabled := true
  sha256_hex := id
  sha3_256 := fun _ => []
  to_checksum_address := fun _ => none

def author : User where
  id := "u1".toList
  wallet_address := "0xa".toList
  wallet_chain := "0g".toList

def draft (name : Text) : StrategyCreate where
  name := name
  code := "pass".toList
  params_schema := none

theorem accepted_draft {name : Text}
    (h : (create_authored sample (start sample []) author (draft name)
      "s1".toList).2.toOption.isSome = true) : Accepted sample name := by
  obtain ⟨⟨hub', result⟩, hresult⟩ : ∃ r,
      create_authored sample (start sample []) author (draft name) "s1".toList = r := ⟨_, rfl⟩
  rw [hresult] at h
  cases result with
  | error e => cases h
  | ok out => exact .create rfl hresult

theorem publishable_iff_hold :
    Accepted sample "hold".toList ∧
      (Publishable "hold".toList ↔ (utf8 "hold".toList).length ≤ MAX_NAME_BYTES) := by
  have h : Accepted sample "hold".toList := accepted_draft (by decide)
  exact ⟨h, publishable_iff h⟩

def long_name : Text := List.replicate 65 'a'

theorem long_name_not_publishable :
    Accepted sample long_name ∧ ¬ Publishable long_name := by
  refine ⟨accepted_draft (by decide), ?_⟩
  intro h
  exact h.body [] (by decide)

end ArticTrader.StrategyNames
