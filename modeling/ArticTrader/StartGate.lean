import ArticTrader.DotSegments
import ArticTrader.WakeProxy

/-!
The wallet gate in front of agent starts. The hub tests the path it was sent; the
user server routes what is left of it after the rewriting and after the removal
of dot segments from the URL that is requested.
-/

namespace ArticTrader.StartGate

open ArticTrader.DotSegments
open ArticTrader.PythonText
open ArticTrader.WakeProxy

def AGENTS : Text := "/agents/".toList

def START : Text := "start".toList

def START_ALL : Text := "start-all".toList

/-- The agent of a path that matches `/agents/{agent_id}/start`. -/
def start_agent (path : Text) : Option Text :=
  if startswith path AGENTS then
    let rest := path.drop AGENTS.length
    let agent_id := rest.takeWhile notSlash
    if agent_id ≠ [] ∧ rest.dropWhile notSlash = '/' :: START then some agent_id else none
  else none

def start_all (path : Text) : Bool := path == AGENTS ++ START_ALL

/-- The path is routed to one of the two handlers that start agents. -/
def StartsAgents (path : Text) : Prop := (start_agent path).isSome ∨ start_all path

instance (path : Text) : Decidable (StartsAgents path) := inferInstanceAs (Decidable (_ ∨ _))

def requested_path (path : Text) : Text := removeDotSegments (rewrite_path path)

/-- If the request starts agents, the gate has seen it, and the balance was read
before it was forwarded. -/
def Covered (a : Answers) (path target : Text) : Prop :=
  StartsAgents (requested_path path) →
    is_start_path path = true ∧ ∃ before after address,
      (dispatch a path).1 = before ++ .forward target :: after ∧
        .get_balance_og address ∈ before

theorem start_agent_suffix {path : Text} (h : (start_agent path).isSome) :
    '/' :: START <:+ path := by
  unfold start_agent at h
  split at h
  · rename_i hprefix
    obtain ⟨rest, rfl⟩ := startswith_iff.mp hprefix
    rw [List.drop_left] at h
    simp only [Option.isSome_ite] at h
    rw [← h.2]
    exact (List.dropWhile_suffix notSlash).trans (List.suffix_append ..)
  · cases h

theorem start_all_suffix {path : Text} (h : start_all path = true) :
    '/' :: START_ALL <:+ path := by
  rw [beq_iff_eq.mp h]
  exact ⟨"/agents".toList, by decide⟩

theorem is_start_path_iff {path : Text} (h : startswith path PREFIX = true) :
    is_start_path path = true ↔
      '/' :: START <:+ path_tail path ∨ path_tail path = AGENTS ++ START_ALL := by
  rw [is_start_path, if_pos h, Bool.or_eq_true, endswith_iff, beq_iff_eq]
  exact Iff.rfl

/-- What the rewriting leaves of a path ends as its tail does. -/
theorem rewrite_path_suffix {path w : Text} (h : startswith path PREFIX = true) (hne : w ≠ [])
    (hw : '/' :: w <:+ rewrite_path path) : '/' :: w <:+ path_tail path := by
  obtain ⟨tail, rfl⟩ := startswith_iff.mp h
  rw [ rewrite_path_prefix] at hw
  rw [path_tail, List.drop_left]
  split at hw
  · have hlength := hw.length_le
    have hpos := List.length_pos_of_ne_nil hne
    simp only [List.length_cons] at hlength
    change w.length + 1 ≤ 1 at hlength
    omega
  · exact hw

theorem start_gate_open {a : Answers} {path : Text} {gated : List Call}
    (hstart : is_start_path path = true) (h : start_gate a path = (gated, none)) :
    ∃ address, .get_balance_og address ∈ gated := by
  rw [start_gate, if_pos hstart] at h
  split at h
  · cases h
  · rename_i chain_address _
    dsimp only at h
    split at h
    · cases h
      exact ⟨chain_address.getD [], by simp⟩
    · cases h

/-- The gate comes before the request that is forwarded. -/
theorem dispatch_gated {a : Answers} {path target : Text} (hstart : is_start_path path = true)
    (hsent : .forward target ∈ (dispatch a path).1) :
    ∃ before after address, (dispatch a path).1 = before ++ .forward target :: after ∧
      .get_balance_og address ∈ before := by
  obtain ⟨haccept, endpoint, hresolved, rfl⟩ := dispatch_forward hsent
  have hgate := forward_not_mem_start_gate a path (target_url endpoint path)
  unfold dispatch at hsent ⊢
  rw [if_pos haccept] at hsent ⊢
  split at hsent
  · rename_i huser
    rw [if_pos huser]
    cases hopen : start_gate a path with
    | mk gated refused =>
        rw [hopen] at hgate hsent
        cases refused with
        | some r => exact absurd hsent hgate
        | none =>
            obtain ⟨address, haddress⟩ := start_gate_open hstart hopen
            cases hresolve : resolve_endpoint a with
            | mk resolved answer =>
                rw [hresolve] at hresolved
                dsimp only at hresolved
                subst hresolved
                simp only [forward_request]
                split
                · exact ⟨gated ++ resolved, [.touch], address, by simp, by simp [haddress]⟩
                · exact ⟨gated ++ resolved, [], address, by simp, by simp [haddress]⟩
  · cases hsent

def funded_vm : Answers := { running_vm with user_row := some (some "0xab".toList), balance_og := 1 }

end ArticTrader.StartGate
