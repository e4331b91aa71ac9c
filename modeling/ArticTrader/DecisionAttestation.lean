import ArticTrader.ConcurrentCalls
import ArticTrader.LabelledRuns
import ArticTrader.PythonText

/-!
The reasoning CID and the TEE signature of an LLM call reach the record of a
decision through two variables of the planner's module. The calls of the planners
and of the supervisor run on the event loop and in worker threads; a step is what
one call does up to its next access of a variable.
-/

namespace ArticTrader.DecisionAttestation

open ArticTrader.ConcurrentCalls
open ArticTrader.LabelledRuns
open ArticTrader.PythonText (Text truthy startswith fromhex)

inductive Provider where
  | openai
  | anthropic
  | deepseek
  | gemini
  | og_compute
  deriving DecidableEq, Repr

inductive Call where
  | plan
  | explain
  | supervise (tp_sl_mode : Text)
  deriving DecidableEq, Repr

inductive Action where
  | keep
  | close
  | adjust_tp_sl
  deriving DecidableEq, Repr

structure SupervisorResponse where
  action : Action
  reasoning : Text
  deriving DecidableEq, Repr

/-- `answered` says that the response was read from an LLM's answer and is no fallback. -/
structure Decision where
  response : SupervisorResponse
  answered : Bool
  deriving DecidableEq, Repr

/-- The values that `json.loads` returns, as far as they are looked into. -/
inductive Json where
  | string (value : Text)
  | object (fields : List (Text × Json))
  | other

/-- The configuration, and `json.loads`, `str.upper` and the message of the exception
that the reading of an answer raises. -/
structure Env where
  onchain_enabled : Bool
  hub_enabled : Bool
  agent_id : Text
  loads : Text → Option Json
  upper : Text → Text
  parse_error : Text → Text

def Env.reports (env : Env) : Bool := !env.agent_id.isEmpty && env.hub_enabled

def isspace (c : Char) : Bool :=
  let n := c.toNat
  (9 ≤ n && n ≤ 13) || (28 ≤ n && n ≤ 32) || n = 0x85 || n = 0xa0 || n = 0x1680 ||
    (0x2000 ≤ n && n ≤ 0x200a) || n = 0x2028 || n = 0x2029 || n = 0x202f || n = 0x205f || n = 0x3000

def strip (s : Text) : Text := (s.dropWhile isspace).rdropWhile isspace

def utf8 (s : Text) : List UInt8 := s.flatMap String.utf8EncodeChar

def hex_to_bytes (s : Text) : List UInt8 :=
  if s = [] then []
  else
    let s := strip s
    let s := if startswith s "0x".toList || startswith s "0X".toList then s.drop 2 else s
    (fromhex s).getD (utf8 s)

/-- What stands before and after the first `marker`. -/
def partition (marker : Text) : Text → Option (Text × Text)
  | [] => none
  | c :: cs =>
      if startswith (c :: cs) marker then some ([], (c :: cs).drop marker.length)
      else (partition marker cs).map fun (before, after) => (c :: before, after)

def fenced (content : Text) : Text :=
  strip ((partition "```".toList content).elim content Prod.fst)

def unfence (content : Text) : Text :=
  match partition "```json".toList content, partition "```".toList content with
  | some (_, after), _ => fenced after
  | none, some (_, after) => fenced after
  | none, none => content

/-- The text up to the brace that closes the first one. -/
def balanced (depth : ℕ) : Text → Option Text
  | [] => none
  | c :: cs =>
      if c = '\x7b' then (balanced (depth + 1) cs).map (c :: ·)
      else if c = '\x7d' then if depth = 1 then some [c] else (balanced (depth - 1) cs).map (c :: ·)
      else (balanced depth cs).map (c :: ·)

def extract (content : Text) : Text :=
  (balanced 0 (content.dropWhile (· ≠ '\x7b'))).getD content

def to_action (tp_sl_mode action : Text) : Action :=
  if action = "CLOSE".toList then .close
  else if action = "ADJUST_TP_SL".toList ∧ tp_sl_mode = "dynamic".toList then .adjust_tp_sl
  else .keep

def supervisor_response (env : Env) (tp_sl_mode content : Text) : Option SupervisorResponse :=
  match env.loads (extract (unfence content)) with
  | some (.object data) =>
      match (data.lookup "action".toList).getD (.string "KEEP".toList),
        (data.lookup "reasoning".toList).getD (.string []) with
      | .string action, .string reasoning =>
          some { action := to_action tp_sl_mode (env.upper action), reasoning }
      | _, _ => none
  | _ => none

/-- A value of the module, and the call that wrote it. -/
structure Written (ι α : Type*) where
  value : α
  writer : Option ι
  deriving DecidableEq

/-- `onchain` holds the bytes whose hash is logged, `hub` what is pushed to the user server. -/
inductive Record (ι : Type*) where
  | onchain (call : ι) (decision : Decision) (signature : Written ι Text)
      (cid : Written ι (Option Text)) (hashed : List UInt8)
  | hub (call : ι) (decision : Decision) (cid : Written ι (Option Text)) (tx_hash : Option Text)
  deriving DecidableEq

structure Process (ι : Type*) where
  LAST_TEE_SIGNATURE : Written ι Text
  LAST_REASONING_CID : Written ι (Option Text)
  records : List (Record ι)

/-- Where a call stands: its LLM call is under way, has returned, its answer is being
uploaded; a supervisor's decision is to be recorded, has its signature read, is being
logged, is to be reported. -/
inductive Phase (ι : Type*) where
  | idle
  | asked (provider : Provider)
  | answered (content : Text)
  | uploading (content : Text)
  | decided (decision : Decision)
  | hashing (decision : Decision) (signature : Written ι Text)
  | logging (decision : Decision)
  | logged (decision : Decision) (tx_hash : Option Text)
  | finished
  deriving DecidableEq

inductive Reply where
  | raised (error : Text)
  | returned (content signature : Text)
  deriving DecidableEq, Repr

inductive Upload where
  | raised
  | returned (cid : Option Text)
  deriving DecidableEq, Repr

inductive Step (ι : Type*) where
  | call (i : ι) (provider : Option Provider)
  | answer (i : ι) (reply : Reply)
  | stash (i : ι)
  | upload (i : ι) (result : Upload)
  | log_decision (i : ι)
  | hash (i : ι)
  | logged (i : ι) (tx_hash : Option Text)
  | report (i : ι)

abbrev State (ι : Type*) := System ι (Process ι) (Phase ι)

variable {ι : Type*}

def initial : State ι where
  shared := {
    LAST_TEE_SIGNATURE := { value := [], writer := none }
    LAST_REASONING_CID := { value := none, writer := none }
    records := [] }
  calls := fun _ => .idle

def fallback (reasoning : Text) : Decision where
  response := { action := .keep, reasoning }
  answered := false

/-- What a call becomes without a provider. -/
def without_llm : Call → Phase ι
  | .supervise _ => .decided (fallback "No LLM key.".toList)
  | _ => .finished

def chat_raised (error : Text) : Call → Phase ι
  | .supervise _ => .decided (fallback ("Supervisor error: ".toList ++ error))
  | _ => .finished

def chat_returned (content : Text) : Call → Phase ι
  | .explain => .finished
  | _ => .answered content

def stashed (env : Env) (content : Text) : Call → Phase ι
  | .supervise tp_sl_mode =>
      match supervisor_response env tp_sl_mode content with
      | some response => .decided { response, answered := true }
      | none => .decided (fallback ("Supervisor error: ".toList ++ env.parse_error content))
  | _ => .finished

def Process.sign (g : Process ι) (i : ι) (signature : Text) : Process ι :=
  { g with LAST_TEE_SIGNATURE := { value := signature, writer := some i } }

def Process.point (g : Process ι) (i : ι) (cid : Option Text) : Process ι :=
  { g with LAST_REASONING_CID := { value := cid, writer := some i } }

def Process.record (g : Process ι) (r : Record ι) : Process ι :=
  { g with records := g.records ++ [r] }

/-- `_chat` before it asks the LLM. -/
def Process.reset (g : Process ι) (i : ι) (provider : Provider) : Process ι :=
  if provider ≠ .og_compute then g.sign i [] else g

/-- `_chat` once the LLM has answered. -/
def Process.attest (g : Process ι) (i : ι) (provider : Provider) (signature : Text) : Process ι :=
  if provider = .og_compute then g.sign i signature else g

/-- `_stash_reasoning` once the upload has returned or raised. -/
def Process.cache (g : Process ι) (i : ι) : Upload → Process ι
  | .raised => g
  | .returned cid => g.point i cid

def reasoning_payload (reasoning : Text) (cid : Option Text) : Text :=
  if truthy cid then "og:".toList ++ cid.getD [] else reasoning

/-- What `log_decision` hashes. -/
def hash_input (reasoning : Text) (signature : Text) (cid : Option Text) : List UInt8 :=
  let tee_sig_bytes := hex_to_bytes signature
  let payload := utf8 (reasoning_payload reasoning cid)
  if tee_sig_bytes ≠ [] then payload ++ utf8 "|tee:".toList ++ tee_sig_bytes else payload

def signed (signature : Text) : Bool := !(hex_to_bytes signature).isEmpty

/-- The value is the call's own or is empty. -/
def Written.OwnOf {α : Type*} (carries : α → Bool) (w : Written ι α) (i : ι) : Prop :=
  carries w.value = true → w.writer = some i

/-- The value, unless it is empty, is from the LLM call that the decision was read from. -/
def Attests {α : Type*} (carries : α → Bool) (w : Written ι α) (i : ι) (d : Decision) : Prop :=
  carries w.value = true → d.answered = true ∧ w.writer = some i

def Record.Own : Record ι → Prop
  | .onchain i d signature cid hashed => Attests signed signature i d ∧ Attests truthy cid i d ∧
      (d.answered = false → hashed = utf8 d.response.reasoning)
  | .hub i d cid _ => Attests truthy cid i d

def OwnRecords (s : State ι) : Prop := ∀ r ∈ s.shared.records, r.Own

/-- A supervisor call has done its part on the signature, and a record may come to read it. -/
def awaits_signature (env : Env) : Call → Phase ι → Bool
  | .supervise _, .asked provider => env.onchain_enabled && provider ≠ .og_compute
  | .supervise _, .answered _ => env.onchain_enabled
  | .supervise _, .uploading _ => env.onchain_enabled
  | _, .decided d => env.onchain_enabled && d.answered
  | _, _ => false

def awaits_cid (env : Env) : Call → Phase ι → Bool
  | .supervise _, .uploading _ => env.onchain_enabled || env.reports
  | _, .decided d => d.answered && (env.onchain_enabled || env.reports)
  | _, .hashing d _ => d.answered
  | _, .logging d => d.answered && env.reports
  | _, .logged d _ => d.answered && env.reports
  | _, _ => false

/-- No other call leaves a signature or a CID while a decision waits for its own. -/
def Undisturbed (env : Env) (requests : ι → Call) (s : State ι) : Step ι → Prop
  | .answer i (.returned _ signature) =>
      s.calls i = .asked .og_compute → signed signature = true →
        ∀ j, j ≠ i → awaits_signature env (requests j) (s.calls j) = false
  | .upload i (.returned cid) =>
      truthy cid = true → ∀ j, j ≠ i → awaits_cid env (requests j) (s.calls j) = false
  | _ => True

/-- A decision that is recorded was read from an LLM's answer, or there is no signature and
no CID to record with it. -/
def Phase.Clean (env : Env) (cid : Option Text) : Phase ι → Prop
  | .hashing d signature =>
      d.answered = false → signed signature.value = false ∧ truthy cid = false
  | .logged d _ => env.reports = true → d.answered = false → truthy cid = false
  | _ => True

def Clean (env : Env) (s : State ι) : Step ι → Prop
  | .hash i => (s.calls i).Clean env s.shared.LAST_REASONING_CID.value
  | .report i => (s.calls i).Clean env s.shared.LAST_REASONING_CID.value
  | _ => True

theorem hash_input_of_empty (reasoning : Text) {signature : Text} {cid : Option Text}
    (hsigned : signed signature = false) (htruthy : truthy cid = false) :
    hash_input reasoning signature cid = utf8 reasoning := by
  have hbytes : hex_to_bytes signature = [] := by simpa [signed] using hsigned
  simp [hash_input, reasoning_payload, hbytes, htruthy]

theorem attests_iff {α : Type*} {carries : α → Bool} {w : Written ι α} {i : ι} {d : Decision}
    (h : d.answered = true → w.OwnOf carries i) :
    Attests carries w i d ↔ (d.answered = false → carries w.value = false) := by
  constructor
  · intro hattests hfallback
    by_contra hcarries
    have hanswered := (hattests (by simpa using hcarries)).1
    simp [hfallback] at hanswered
  · intro hempty hcarries
    cases hanswered : d.answered with
    | false => simp [hempty hanswered] at hcarries
    | true => exact ⟨rfl, h hanswered hcarries⟩

/-- What is kept of a call in phase `p`: what it waits to have recorded is its own. -/
structure Tracked (env : Env) (request : Call) (g : Process ι) (i : ι) (p : Phase ι) : Prop where
  signature : awaits_signature env request p = true → g.LAST_TEE_SIGNATURE.OwnOf signed i
  cid : awaits_cid env request p = true → g.LAST_REASONING_CID.OwnOf truthy i
  hashing : ∀ d signature, p = .hashing d signature → d.answered = true →
    signature.OwnOf signed i

def Kept (env : Env) (requests : ι → Call) (s : State ι) : Prop :=
  ∀ i, Tracked env (requests i) s.shared i (s.calls i)

theorem Tracked.sign {env : Env} {request : Call} {g : Process ι} {i j : ι} {p : Phase ι}
    {signature : Text} (h : Tracked env request g i p)
    (hsigned : signed signature = true → awaits_signature env request p = false) :
    Tracked env request (g.sign j signature) i p where
  signature := by
    intro hawaits hcarries
    rw [hsigned hcarries] at hawaits
    cases hawaits
  cid := h.cid
  hashing := h.hashing

theorem Tracked.point {env : Env} {request : Call} {g : Process ι} {i j : ι} {p : Phase ι}
    {cid : Option Text} (h : Tracked env request g i p)
    (hpointed : truthy cid = true → awaits_cid env request p = false) :
    Tracked env request (g.point j cid) i p where
  signature := h.signature
  cid := by
    intro hawaits hcarries
    rw [hpointed hcarries] at hawaits
    cases hawaits
  hashing := h.hashing

theorem Tracked.record {env : Env} {request : Call} {g : Process ι} {i : ι} {p : Phase ι}
    (h : Tracked env request g i p) (r : Record ι) : Tracked env request (g.record r) i p :=
  ⟨h.signature, h.cid, h.hashing⟩

theorem tracked_fallback (env : Env) (request : Call) (g : Process ι) (i : ι) (reasoning : Text) :
    Tracked env request g i (.decided (fallback reasoning)) where
  signature := by simp [awaits_signature, fallback]
  cid := by simp [awaits_cid, fallback]
  hashing := by simp

theorem tracked_finished (env : Env) (request : Call) (g : Process ι) (i : ι) :
    Tracked env request g i .finished where
  signature := by simp [awaits_signature]
  cid := by simp [awaits_cid]
  hashing := by simp

theorem tracked_without_llm (env : Env) (request : Call) (g : Process ι) (i : ι) :
    Tracked env request g i (without_llm request) := by
  cases request with
  | supervise tp_sl_mode => exact tracked_fallback env _ g i _
  | _ => exact tracked_finished env _ g i

theorem tracked_asked (env : Env) (request : Call) (g : Process ι) (i : ι) (provider : Provider) :
    Tracked env request (g.reset i provider) i (.asked provider) where
  signature := by
    intro hawaits
    cases request with
    | supervise tp_sl_mode =>
        have hprovider : provider ≠ .og_compute := by simp_all [awaits_signature]
        rw [Process.reset, if_pos hprovider]
        exact fun _ => rfl
    | _ => cases hawaits
  cid := by simp [awaits_cid]
  hashing := by simp

theorem tracked_chat_raised (env : Env) (request : Call) (g : Process ι) (i : ι) (error : Text) :
    Tracked env request g i (chat_raised error request) := by
  cases request with
  | supervise tp_sl_mode => exact tracked_fallback env _ g i _
  | _ => exact tracked_finished env _ g i

theorem Tracked.chat_returned {env : Env} {request : Call} {g : Process ι} {i : ι}
    {provider : Provider} (h : Tracked env request g i (.asked provider))
    (content signature : Text) :
    Tracked env request (g.attest i provider signature) i (chat_returned content request) := by
  cases request with
  | plan => exact ⟨nofun, nofun, nofun⟩
  | explain => exact tracked_finished env _ _ i
  | supervise tp_sl_mode =>
      refine ⟨?_, nofun, nofun⟩
      intro hawaits
      unfold Process.attest
      split
      · exact fun _ => rfl
      · apply h.signature
        simp_all [awaits_signature, DecisionAttestation.chat_returned]

theorem Tracked.stash {env : Env} {request : Call} {g : Process ι} {i : ι} {content : Text}
    (h : Tracked env request g i (.answered content)) :
    Tracked env request (g.point i none) i (.uploading content) where
  signature := by
    intro hawaits
    apply h.signature
    cases request <;> simp_all [awaits_signature]
  cid := fun _ _ => rfl
  hashing := by simp

theorem Tracked.upload {env : Env} {request : Call} {g : Process ι} {i : ι} {content : Text}
    (h : Tracked env request g i (.uploading content)) (result : Upload) :
    Tracked env request (g.cache i result) i (stashed env content request) := by
  cases request with
  | supervise tp_sl_mode =>
      cases hresponse : supervisor_response env tp_sl_mode content with
      | none =>
          simp only [stashed, hresponse]
          exact tracked_fallback env _ _ i _
      | some response =>
          simp only [stashed, hresponse]
          refine ⟨?_, ?_, by simp⟩
          · intro hawaits
            have hsignature := h.signature (by simp_all [awaits_signature])
            cases result with
            | raised => exact hsignature
            | returned cid => exact hsignature
          · intro hawaits
            cases result with
            | raised => exact h.cid (by simp_all [awaits_cid])
            | returned cid => exact fun _ => rfl
  | _ => exact tracked_finished env _ _ i

/-- A call that waits for no more than before is tracked as before. -/
theorem Tracked.later {env : Env} {request : Call} {g : Process ι} {i : ι} {p p' : Phase ι}
    (h : Tracked env request g i p) (hsignature : awaits_signature env request p' = false)
    (hcid : awaits_cid env request p' = true → awaits_cid env request p = true)
    (hhashing : ∀ d signature, p' ≠ .hashing d signature) : Tracked env request g i p' where
  signature := by
    intro hawaits
    rw [hsignature] at hawaits
    cases hawaits
  cid := fun hawaits => h.cid (hcid hawaits)
  hashing := fun d signature hphase => absurd hphase (hhashing d signature)

theorem Tracked.log_decision {env : Env} {request : Call} {g : Process ι} {i : ι} {d : Decision}
    (h : Tracked env request g i (.decided d)) :
    Tracked env request g i (if env.onchain_enabled then .hashing d g.LAST_TEE_SIGNATURE
      else .logged d none) := by
  split
  · refine ⟨by simp [awaits_signature], ?_, ?_⟩
    · intro hawaits
      apply h.cid
      simp_all [awaits_cid]
    · intro d' signature hphase hanswered
      cases hphase
      apply h.signature
      simp_all [awaits_signature]
  · exact h.later (by simp [awaits_signature]) (by simp_all [awaits_cid]) (by simp)

theorem Tracked.logging {env : Env} {request : Call} {g : Process ι} {i : ι} {d : Decision}
    {signature : Written ι Text} (h : Tracked env request g i (.hashing d signature)) :
    Tracked env request g i (.logging d) :=
  h.later (by simp [awaits_signature]) (by simp_all [awaits_cid]) (by simp)

theorem Tracked.logged {env : Env} {request : Call} {g : Process ι} {i : ι} {d : Decision}
    (h : Tracked env request g i (.logging d)) (tx_hash : Option Text) :
    Tracked env request g i (.logged d tx_hash) :=
  h.later (by simp [awaits_signature]) (by simp [awaits_cid]) (by simp)

theorem Kept.at {env : Env} {requests : ι → Call} {s : State ι} (hs : Kept env requests s)
    {i : ι} {p : Phase ι} (hphase : s.calls i = p) :
    Tracked env (requests i) s.shared i p :=
  hphase ▸ hs i

theorem ownRecords_of_records {s s' : State ι} (h : s'.shared.records = s.shared.records) :
    OwnRecords s' ↔ OwnRecords s ∧ True := by
  rw [OwnRecords, h, and_true]
  rfl

theorem ownRecords_append {s s' : State ι} {r : Record ι}
    (h : s'.shared.records = s.shared.records ++ [r]) :
    OwnRecords s' ↔ OwnRecords s ∧ r.Own := by
  rw [OwnRecords, h, List.forall_mem_append, List.forall_mem_singleton]
  rfl

theorem Tracked.onchain_own_iff {env : Env} {request : Call} {g : Process ι} {i : ι}
    {d : Decision} {signature : Written ι Text}
    (h : Tracked env request g i (.hashing d signature)) :
    (Record.onchain i d signature g.LAST_REASONING_CID (hash_input d.response.reasoning
      signature.value g.LAST_REASONING_CID.value)).Own ↔
        (d.answered = false →
          signed signature.value = false ∧ truthy g.LAST_REASONING_CID.value = false) := by
  have hsignature : d.answered = true → signature.OwnOf signed i := h.hashing d signature rfl
  have hcid : d.answered = true → g.LAST_REASONING_CID.OwnOf truthy i := by
    intro hanswered
    exact h.cid (by simpa [awaits_cid] using hanswered)
  rw [Record.Own, attests_iff hsignature, attests_iff hcid]
  constructor
  · rintro ⟨hsigned, htruthy, -⟩ hfallback
    exact ⟨hsigned hfallback, htruthy hfallback⟩
  · intro hempty
    refine ⟨fun h => (hempty h).1, fun h => (hempty h).2, fun h => ?_⟩
    exact hash_input_of_empty _ (hempty h).1 (hempty h).2

theorem Tracked.hub_own_iff {env : Env} {request : Call} {g : Process ι} {i : ι} {d : Decision}
    {tx_hash : Option Text} (h : Tracked env request g i (.logged d tx_hash))
    (hreports : env.reports = true) :
    (Record.hub i d g.LAST_REASONING_CID tx_hash).Own ↔
      (d.answered = false → truthy g.LAST_REASONING_CID.value = false) := by
  apply attests_iff
  intro hanswered
  exact h.cid (by simp [awaits_cid, hanswered, hreports])

theorem initial_kept (env : Env) (requests : ι → Call) :
    Kept env requests (initial : State ι) := by
  intro i
  exact ⟨by simp [initial, awaits_signature], by simp [initial, awaits_cid], by simp [initial]⟩

variable [DecidableEq ι]

def step (env : Env) (requests : ι → Call) (s : State ι) : Step ι → Option (State ι)
  | .call i provider =>
      match s.calls i, provider with
      | .idle, none => some (s.set i (without_llm (requests i)))
      | .idle, some p => some ((s.write (s.shared.reset i p)).set i (.asked p))
      | _, _ => none
  | .answer i reply =>
      match s.calls i, reply with
      | .asked _, .raised error => some (s.set i (chat_raised error (requests i)))
      | .asked p, .returned content signature =>
          some ((s.write (s.shared.attest i p signature)).set i
            (chat_returned content (requests i)))
      | _, _ => none
  | .stash i =>
      match s.calls i with
      | .answered content => some ((s.write (s.shared.point i none)).set i (.uploading content))
      | _ => none
  | .upload i result =>
      match s.calls i with
      | .uploading content =>
          some ((s.write (s.shared.cache i result)).set i (stashed env content (requests i)))
      | _ => none
  | .log_decision i =>
      match s.calls i with
      | .decided d =>
          some (s.set i (if env.onchain_enabled then .hashing d s.shared.LAST_TEE_SIGNATURE
            else .logged d none))
      | _ => none
  | .hash i =>
      match s.calls i with
      | .hashing d signature =>
          let cid := s.shared.LAST_REASONING_CID
          some ((s.write (s.shared.record (.onchain i d signature cid
            (hash_input d.response.reasoning signature.value cid.value)))).set i (.logging d))
      | _ => none
  | .logged i tx_hash =>
      match s.calls i with
      | .logging d => some (s.set i (.logged d tx_hash))
      | _ => none
  | .report i =>
      match s.calls i with
      | .logged d tx_hash =>
          some ((s.write (if env.reports then
            s.shared.record (.hub i d s.shared.LAST_REASONING_CID tx_hash)
            else s.shared)).set i .finished)
      | _ => none

variable {env : Env} {requests : ι → Call} {s s' : State ι} {e : Step ι}

theorem Kept.write (hs : Kept env requests s) {g : Process ι} {i : ι} {p : Phase ι}
    (hi : Tracked env (requests i) g i p)
    (h : ∀ j, j ≠ i → Tracked env (requests j) s.shared j (s.calls j) →
      Tracked env (requests j) g j (s.calls j)) :
    Kept env requests ((s.write g).set i p) := by
  refine System.forall_set (P := fun j p => Tracked env (requests j) g j p) hi ?_
  intro j hj
  exact h j hj (hs j)

theorem Kept.move (hs : Kept env requests s) {i : ι} {p : Phase ι}
    (hi : Tracked env (requests i) s.shared i p) : Kept env requests (s.set i p) :=
  hs.write hi fun _ _ h => h

/-- What a step can do. -/
inductive Moved (env : Env) (requests : ι → Call) (s : State ι) : Step ι → State ι → Prop where
  | without_llm {i : ι} (hphase : s.calls i = .idle) :
      Moved env requests s (.call i none) (s.set i (without_llm (requests i)))
  | asks {i : ι} (p : Provider) (hphase : s.calls i = .idle) :
      Moved env requests s (.call i (some p)) ((s.write (s.shared.reset i p)).set i (.asked p))
  | raises {i : ι} {p : Provider} (error : Text) (hphase : s.calls i = .asked p) :
      Moved env requests s (.answer i (.raised error)) (s.set i (chat_raised error (requests i)))
  | returns {i : ι} {p : Provider} (content signature : Text) (hphase : s.calls i = .asked p) :
      Moved env requests s (.answer i (.returned content signature))
        ((s.write (s.shared.attest i p signature)).set i (chat_returned content (requests i)))
  | stashes {i : ι} {content : Text} (hphase : s.calls i = .answered content) :
      Moved env requests s (.stash i)
        ((s.write (s.shared.point i none)).set i (.uploading content))
  | uploads {i : ι} {content : Text} (result : Upload) (hphase : s.calls i = .uploading content) :
      Moved env requests s (.upload i result)
        ((s.write (s.shared.cache i result)).set i (stashed env content (requests i)))
  | logs {i : ι} {d : Decision} (hphase : s.calls i = .decided d) :
      Moved env requests s (.log_decision i)
        (s.set i (if env.onchain_enabled then .hashing d s.shared.LAST_TEE_SIGNATURE
          else .logged d none))
  | hashes {i : ι} {d : Decision} {signature : Written ι Text}
      (hphase : s.calls i = .hashing d signature) :
      Moved env requests s (.hash i)
        ((s.write (s.shared.record (.onchain i d signature s.shared.LAST_REASONING_CID
          (hash_input d.response.reasoning signature.value
            s.shared.LAST_REASONING_CID.value)))).set i (.logging d))
  | sends {i : ι} {d : Decision} (tx_hash : Option Text) (hphase : s.calls i = .logging d) :
      Moved env requests s (.logged i tx_hash) (s.set i (.logged d tx_hash))
  | reports {i : ι} {d : Decision} {tx_hash : Option Text}
      (hphase : s.calls i = .logged d tx_hash) :
      Moved env requests s (.report i)
        ((s.write (if env.reports then
          s.shared.record (.hub i d s.shared.LAST_REASONING_CID tx_hash)
          else s.shared)).set i .finished)

theorem step_moved (h : step env requests s e = some s') : Moved env requests s e s' := by
  cases e with
  | call i provider =>
      cases hphase : s.calls i <;> simp only [step, hphase, reduceCtorEq] at h
      cases provider with
      | none =>
          cases h
          exact .without_llm hphase
      | some p =>
          cases h
          exact .asks p hphase
  | answer i reply =>
      cases hphase : s.calls i <;> simp only [step, hphase, reduceCtorEq] at h
      cases reply with
      | raised error =>
          cases h
          exact .raises error hphase
      | returned content signature =>
          cases h
          exact .returns content signature hphase
  | stash i =>
      cases hphase : s.calls i <;> simp only [step, hphase, reduceCtorEq] at h
      cases h
      exact .stashes hphase
  | upload i result =>
      cases hphase : s.calls i <;> simp only [step, hphase, reduceCtorEq] at h
      cases h
      exact .uploads result hphase
  | log_decision i =>
      cases hphase : s.calls i <;> simp only [step, hphase, reduceCtorEq] at h
      cases h
      exact .logs hphase
  | hash i =>
      cases hphase : s.calls i <;> simp only [step, hphase, reduceCtorEq] at h
      cases h
      exact .hashes hphase
  | logged i tx_hash =>
      cases hphase : s.calls i <;> simp only [step, hphase, reduceCtorEq] at h
      cases h
      exact .sends tx_hash hphase
  | report i =>
      cases hphase : s.calls i <;> simp only [step, hphase, reduceCtorEq] at h
      cases h
      exact .reports hphase

theorem step_kept (hs : Kept env requests s) (he : Undisturbed env requests s e)
    (h : step env requests s e = some s') : Kept env requests s' := by
  cases step_moved h with
  | without_llm hphase => exact hs.move (tracked_without_llm env _ _ _)
  | asks p hphase =>
      apply hs.write (tracked_asked env _ _ _ p)
      intro j _ hj
      unfold Process.reset
      split
      · exact hj.sign fun hempty => by cases hempty
      · exact hj
  | raises error hphase => exact hs.move (tracked_chat_raised env _ _ _ error)
  | returns content signature hphase =>
      apply hs.write ((hs.at hphase).chat_returned content signature)
      intro j hne hj
      unfold Process.attest
      split
      next hprovider =>
        subst hprovider
        exact hj.sign fun hsigned => he hphase hsigned j hne
      next => exact hj
  | stashes hphase =>
      apply hs.write (hs.at hphase).stash
      intro j _ hj
      exact hj.point fun hempty => by cases hempty
  | uploads result hphase =>
      apply hs.write ((hs.at hphase).upload result)
      intro j hne hj
      cases result with
      | raised => exact hj
      | returned cid => exact hj.point fun htruthy => he htruthy j hne
  | logs hphase => exact hs.move (hs.at hphase).log_decision
  | hashes hphase => exact hs.write ((hs.at hphase).logging.record _) fun j _ hj => hj.record _
  | sends tx_hash hphase => exact hs.move ((hs.at hphase).logged tx_hash)
  | reports hphase =>
      apply hs.write (tracked_finished env _ _ _)
      intro j _ hj
      split
      · exact hj.record _
      · exact hj

/-- A step makes at most one record, and it is its decision's own exactly if the step is
clean. -/
theorem step_own (hs : Kept env requests s) (h : step env requests s e = some s') :
    OwnRecords s' ↔ OwnRecords s ∧ Clean env s e := by
  cases step_moved h with
  | without_llm hphase => exact ownRecords_of_records rfl
  | asks p hphase =>
      apply ownRecords_of_records
      rw [System.set_shared, System.write_shared, Process.reset]
      split <;> rfl
  | raises error hphase => exact ownRecords_of_records rfl
  | returns content signature hphase =>
      apply ownRecords_of_records
      rw [System.set_shared, System.write_shared, Process.attest]
      split <;> rfl
  | stashes hphase => exact ownRecords_of_records rfl
  | uploads result hphase =>
      apply ownRecords_of_records
      cases result <;> rfl
  | logs hphase => exact ownRecords_of_records rfl
  | hashes hphase =>
      rw [ownRecords_append rfl, (hs.at hphase).onchain_own_iff, Clean, hphase]
      rfl
  | sends tx_hash hphase => exact ownRecords_of_records rfl
  | reports hphase =>
      rw [Clean, hphase, Phase.Clean]
      by_cases hreports : env.reports = true
      · rw [if_pos hreports, ownRecords_append rfl, (hs.at hphase).hub_own_iff hreports]
        apply and_congr_right
        intro _
        exact (imp_iff_right hreports).symm
      · rw [if_neg hreports, ownRecords_of_records rfl]
        apply and_congr_right
        intro _
        exact (iff_true_intro fun h => absurd h hreports).symm

/-- In a run in which no other call leaves its signature or CID to a decision that waits for
its own, every record attests its own reasoning exactly if each is made of an LLM's answer
or while there is nothing to attest. -/
theorem records_attest_own_reasoning {es : List (Step ι)} {t : State ι}
    (hrun : run (step env requests) initial es = some t)
    (hundisturbed : AllSteps (step env requests) (Undisturbed env requests) initial es) :
    OwnRecords t ↔ AllSteps (step env requests) (Clean env) initial es := by
  rw [final_iff_of_allSteps (I := OwnRecords) (fun _ _ _ hs he h => step_kept hs he h)
    (fun _ _ _ hs h => step_own hs h) hrun hundisturbed (initial_kept env requests)]
  apply and_iff_right
  intro r hr
  cases hr

instance {α : Type} (carries : α → Bool) (w : Written ι α) (i : ι) (d : Decision) :
    Decidable (Attests carries w i d) :=
  inferInstanceAs (Decidable (carries w.value = true → d.answered = true ∧ w.writer = some i))

instance (r : Record ι) : Decidable r.Own :=
  match r with
  | .onchain i d signature cid hashed =>
      inferInstanceAs (Decidable (Attests signed signature i d ∧ Attests truthy cid i d ∧
        (d.answered = false → hashed = utf8 d.response.reasoning)))
  | .hub i d cid _ => inferInstanceAs (Decidable (Attests truthy cid i d))

instance (s : State ι) : Decidable (OwnRecords s) :=
  inferInstanceAs (Decidable (∀ r ∈ s.shared.records, r.Own))

instance (env : Env) (cid : Option Text) (p : Phase ι) : Decidable (p.Clean env cid) :=
  match p with
  | .hashing d signature => inferInstanceAs (Decidable
      (d.answered = false → signed signature.value = false ∧ truthy cid = false))
  | .logged d _ => inferInstanceAs (Decidable
      (env.reports = true → d.answered = false → truthy cid = false))
  | .idle | .asked _ | .answered _ | .uploading _ | .decided _ | .logging _ | .finished =>
      .isTrue trivial

instance (env : Env) (s : State ι) (e : Step ι) : Decidable (Clean env s e) :=
  match e with
  | .hash i => inferInstanceAs (Decidable ((s.calls i).Clean env _))
  | .report i => inferInstanceAs (Decidable ((s.calls i).Clean env _))
  | .call _ _ | .answer _ _ | .stash _ | .upload _ _ | .log_decision _ | .logged _ _ =>
      .isTrue trivial

instance (env : Env) (requests : Bool → Call) (s : State Bool) (e : Step Bool) :
    Decidable (Undisturbed env requests s e) :=
  match e with
  | .answer i (.returned _ signature) => inferInstanceAs (Decidable
      (s.calls i = .asked .og_compute → signed signature = true →
        ∀ j, j ≠ i → awaits_signature env (requests j) (s.calls j) = false))
  | .upload i (.returned cid) => inferInstanceAs (Decidable
      (truthy cid = true → ∀ j, j ≠ i → awaits_cid env (requests j) (s.calls j) = false))
  | .answer _ (.raised _) | .upload _ .raised => .isTrue trivial
  | .call _ _ | .stash _ | .log_decision _ | .hash _ | .logged _ _ | .report _ =>
      .isTrue trivial

def close_answer : Text :=
  "```json\n\x7b\"action\": \"close\", \"reasoning\": \"reversal\"\x7d\n```".toList

def demo_env : Env where
  onchain_enabled := true
  hub_enabled := true
  agent_id := "a1".toList
  loads := fun text =>
    if text = "\x7b\"action\": \"close\", \"reasoning\": \"reversal\"\x7d".toList then
      some (.object [("action".toList, .string "close".toList),
        ("reasoning".toList, .string "reversal".toList)])
    else none
  upper := PythonText.upper
  parse_error := fun _ => "Expecting value: line 1 column 1 (char 0)".toList

/-- The planner's call and a check of the supervisor. -/
def demo_calls : Bool → Call
  | false => .plan
  | true => .supervise "fixed".toList

def recorded : List (Step Bool) :=
  [.log_decision true, .hash true, .logged true (some "0x01".toList), .report true]

/-- The planner's answer is uploaded while the supervisor asks. -/
def attested : List (Step Bool) :=
  [.call false (some .og_compute), .answer false (.returned "plan".toList "0xcd".toList),
    .stash false, .call true (some .og_compute), .upload false (.returned (some "plan".toList)),
    .answer true (.returned close_answer "0xab".toList), .stash true,
    .upload true (.returned (some "close".toList))] ++ recorded

theorem attested_records :
    ∃ t, run (step demo_env demo_calls) initial attested = some t ∧
      t.shared.records.length = 2 ∧ OwnRecords t := by
  have hrun : run (step demo_env demo_calls) initial attested = some _ := rfl
  exact ⟨_, hrun, rfl, (records_attest_own_reasoning hrun (by decide)).mpr (by decide)⟩

/-- The LLM call of the supervisor fails after the planner's. -/
def stale : List (Step Bool) :=
  [.call false (some .og_compute), .answer false (.returned "plan".toList "0xcd".toList),
    .stash false, .upload false (.returned (some "plan".toList)), .call true (some .og_compute),
    .answer true (.raised "timeout".toList)] ++ recorded

theorem stale_attests_other_reasoning :
    ¬ ∀ (env : Env) (requests : Bool → Call) (es : List (Step Bool)) (t : State Bool),
      run (step env requests) initial es = some t → OwnRecords t := by
  intro h
  have hrun : run (step demo_env demo_calls) initial stale = some _ := rfl
  exact absurd (h demo_env demo_calls stale _ hrun) (by decide)

end ArticTrader.DecisionAttestation
