import ArticTrader.StorageSidecar
import ArticTrader.TradePushes

/-!
What the language model has answered, from the planner that stores it, past the reports
and the rows of a trade, to the route that serves it.
-/

namespace ArticTrader.ReasoningDocuments

open ArticTrader.HubCallback
open ArticTrader.JsonPrinter
open ArticTrader.JsonTexts
open ArticTrader.LabelledRuns
open ArticTrader.PythonText (Text)
open ArticTrader.StorageSidecar
open ArticTrader.TradePushes

/-- What `_stash_reasoning` finds of a call. -/
structure Reasoning where
  timestamp : Text
  model : Text
  prompt_summary : Text
  raw_response : Text
  tee_signature : Text
  tee_verified : Bool
  deriving DecidableEq, Repr

def reasoning_document (r : Reasoning) : List (List ℕ × Json) :=
  [field "timestamp".toList (text_value (r.timestamp ++ ['Z'])),
    field "model".toList (text_value r.model),
    field "prompt_summary".toList (text_value (r.prompt_summary.take 4000)),
    field "raw_response".toList (text_value (r.raw_response.take 8000)),
    field "tee_signature".toList
      (if r.tee_signature = [] then .null else text_value r.tee_signature),
    field "tee_verified".toList (.bool r.tee_verified)]

/-- A string among the values that are not `None`. -/
def as_text : Json → Option Text
  | .string codes => some (codes.map Char.ofNat)
  | _ => none

/-- `LAST_REASONING_CID` and `LAST_REASONING_TX` after a call. -/
def _stash_reasoning (upload : Json → Json × Json) (r : Reasoning) : Option Text × Option Text :=
  let (cid, tx) := upload (.object (reasoning_document r))
  (as_text cid, as_text tx)

inductive ReasoningResponse where
  | not_found
  | found (reasoning_cid : Option Text) (reasoning : Option (List (List ℕ × Json)))
  | invalid

variable {τ : Type}

def get_trade_reasoning (trades : τ → Option (Trade τ)) (download : Text → Json) (trade_id : τ) :
    ReasoningResponse :=
  match trades trade_id with
  | none => .not_found
  | some trade =>
      match trade.reasoning_cid with
      | none => .found none none
      | some cid =>
          if cid = [] then .found none none
          else
            match download cid with
            | .null => .found (some cid) none
            | .object reasoning => .found (some cid) (some reasoning)
            | _ => .invalid

theorem reasoning_printable (r : Reasoning) : Printable true (.object (reasoning_document r)) := by
  have htext : ∀ t, Printable true (text_value t) := codes_code_points
  have hsignature : Printable true
      (if r.tee_signature = [] then .null else text_value r.tee_signature) := by
    split_ifs
    · trivial
    · exact htext _
  exact ⟨codes_code_points _, htext _, codes_code_points _, htext _, codes_code_points _, htext _,
    codes_code_points _, htext _, codes_code_points _, hsignature, codes_code_points _, trivial,
    trivial⟩

theorem reasoning_joined (r : Reasoning) :
    joined (.object (reasoning_document r)) = .object (reasoning_document r) := by
  simp only [reasoning_document, field, joined, joined_members, join_code_points, text_value]
  split_ifs
  · rfl
  · rw [joined, join_code_points]

theorem as_text_text_value (t : Text) : as_text (text_value t) = some t :=
  congrArg some (text_of_code_points t)

theorem stashed_root {net : Network} {ready : Bool} {r : Reasoning} {cid : Text}
    (h : (_stash_reasoning (upload_json ready net.uploads) r).1 = some cid) :
    cid = net.merkle_root (payload (.object (reasoning_document r))) := by
  change as_text (upload_json ready net.uploads (.object (reasoning_document r))).1 = some cid at h
  have hne : (upload_json ready net.uploads (.object (reasoning_document r))).1 ≠ .null := by
    intro hnull
    rw [hnull] at h
    cases h
  rw [upload_json_root hne, as_text_text_value] at h
  exact (Option.some.inj h).symm

section Served

variable {trades : (id : τ) → Messages id} {id : τ} {cid : Text}

/-- A row keeps the reasoning that its trade was opened with. -/
theorem row_reasoning {t : State τ} (h : Kept trades t) (hne : cid ≠ [])
    (hopened : t.calls (id, .open_report) = .handled)
    (hcid : (trades id).opened.reasoning_cid = some cid) :
    ∃ row, t.shared id = some row ∧ row.reasoning_cid = some cid := by
  refine ⟨_, (h id).after hopened, ?_⟩
  have htruthy : PythonText.truthy (some cid) = true := by simp [PythonText.truthy, hne]
  simp [Messages.row, Messages.latest_cid, hcid, htruthy]

theorem trade_payload_reasoning {trade : TradingEngine.TradeReport} {entry : τ × ℤ}
    {c : ReportContext} {body : TradePush τ} (h : trade_payload trade entry c = some body) :
    body.reasoning_cid = c.last_reasoning_cid := by
  simp only [trade_payload, Option.bind_eq_bind, Option.bind_eq_some_iff] at h
  obtain ⟨_, _, _, _, _, _, hbody⟩ := h
  cases hbody
  rfl

variable [DecidableEq τ]

end Served

def sample_reasoning : Reasoning where
  timestamp := "2025-01-01T00:00:00".toList
  model := "default".toList
  prompt_summary := "plan symbol=BTCUSDT".toList
  raw_response := "momentum".toList
  tee_signature := []
  tee_verified := false

def SAMPLE_CID : Text := "0xab".toList

def sample_root (text : Text) : Text :=
  if text = payload (.object (reasoning_document sample_reasoning)) then SAMPLE_CID
  else "0x".toList

theorem sample_root_printing (text : Text) : Printing (sample_root text) := by
  unfold sample_root
  split_ifs
  all_goals
    intro c hc
    simpa only [decide_eq_true_eq] using
      List.all_eq_true (p := fun c : Char => decide (32 < c.toNat ∧ c.toNat < 127)) |>.mp
        (by decide) c hc

def sample_upload : Upload := ⟨["uploading".toList], .ok none, nofun⟩

/-- A network that takes every document and gives the sample out. -/
def sample_network : Network where
  merkle_root := sample_root
  upload := fun _ => some sample_upload
  download := fun _ =>
    some ⟨["downloading".toList], .ok (payload (.object (reasoning_document sample_reasoning)))⟩
  root_ne_nil := by
    intro text
    unfold sample_root
    split_ifs <;> decide
  root_printing := sample_root_printing

theorem sample_merkle_root : sample_network.merkle_root = sample_root := rfl

theorem sample_stashed :
    (_stash_reasoning (upload_json true sample_network.uploads) sample_reasoning).1 =
      some SAMPLE_CID := by
  have hroot : sample_root (payload (.object (reasoning_document sample_reasoning))) = SAMPLE_CID :=
    if_pos rfl
  have hupload : sample_network.upload (payload (.object (reasoning_document sample_reasoning))) =
    some sample_upload := rfl
  have hok : sample_upload.outcome = .ok none := rfl
  have hstored := upload_json_ok hupload hok
  rw [_stash_reasoning, hstored]
  dsimp only
  rw [as_text_text_value, sample_merkle_root, hroot]

def sample_opening : TradingEngine.TradeReport where
  agent_id := "a1".toList
  side := "long".toList
  entry_price := some 100
  exit_price := none
  size_usdt := some 100
  leverage := some 5
  strategy := some "momentum".toList
  pnl := none
  close_reason := none

def sample_context : ReportContext := ⟨10, 20, none, some SAMPLE_CID⟩

/-- A trade that stays open. -/
def reasoned_trade (id : ℕ) : Messages id where
  opened := { opened_at_100 id with reasoning_cid := some SAMPLE_CID }
  closed := none
  open_tx := none
  close_tx := none
  opened_id := rfl
  closed_id := fun _ h => absurd h (Option.not_mem_none _)
  unhashed := fun _ h => absurd h (Option.not_mem_none _)

end ArticTrader.ReasoningDocuments
