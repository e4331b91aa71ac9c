import Mathlib.Data.List.Lex
import Mathlib.Data.List.Sort
import ArticTrader.JsonPrinter
import ArticTrader.SessionRevocation

/-!
The bytes of a request that its client signs, and what a signature over them is worth.
-/

namespace ArticTrader.CanonicalRequests

open ArticTrader.JsonPrinter
open ArticTrader.JsonTexts
open ArticTrader.LabelledRuns
open ArticTrader.PythonText (Text upper)
open ArticTrader.SessionNonce (AuthSessionKey CanonicalRequest Primitives Request canonical_request)
open ArticTrader.SessionRevocation

/-- The members of a dict in the order of its keys. -/
def sort_keys (ms : List (List ℕ × Json)) : List (List ℕ × Json) :=
  ms.insertionSort fun m m' => m.1 ≤ m'.1

def text_value (t : Text) : Json := .string (code_points t)

/-- The dict of `canonical_request`, with its keys in the order of the source. -/
def document (d : CanonicalRequest) : List (List ℕ × Json) :=
  [(code_points "method".toList, text_value d.method),
    (code_points "path".toList, text_value d.path),
    (code_points "body_sha256".toList, text_value d.body_sha256),
    (code_points "session_id".toList, text_value d.session_id),
    (code_points "nonce".toList, .number (int_text d.nonce))]

def canonical_text (d : CanonicalRequest) : Text :=
  dumps_compact.value (.object (sort_keys (document d)))

def canonical_bytes (d : CanonicalRequest) : ByteArray :=
  (String.ofList (canonical_text d)).toUTF8

theorem sort_document (d : CanonicalRequest) : sort_keys (document d) =
    [(code_points "body_sha256".toList, text_value d.body_sha256),
      (code_points "method".toList, text_value d.method),
      (code_points "nonce".toList, .number (int_text d.nonce)),
      (code_points "path".toList, text_value d.path),
      (code_points "session_id".toList, text_value d.session_id)] := by
  rfl

theorem document_printable (d : CanonicalRequest) (lenient : Bool) :
    Printable lenient (.object (sort_keys (document d))) := by
  rw [sort_document]
  have htext : ∀ t, Printable lenient (text_value t) := codes_code_points
  exact ⟨codes_code_points _, htext _, codes_code_points _, htext _, codes_code_points _,
    numeral_int_text lenient _, codes_code_points _, htext _, codes_code_points _, htext _, trivial⟩

theorem document_joined (d : CanonicalRequest) :
    joined (.object (sort_keys (document d))) = .object (sort_keys (document d)) := by
  rw [sort_document]
  simp only [joined, joined_members, text_value, join_code_points]

/-- The text that is signed is read as the dict it is made from. -/
theorem loads_canonical (d : CanonicalRequest) (lenient : Bool) :
    loads lenient (canonical_text d) = some (.object (sort_keys (document d))) := by
  rw [canonical_text, loads_value _ (document_printable d lenient), document_joined]

theorem canonical_text_injective : Function.Injective canonical_text := by
  intro d d' h
  have hread := loads_canonical d false
  rw [h, loads_canonical d' false, sort_document, sort_document] at hread
  simp only [text_value, Option.some.injEq, Json.object.injEq, List.cons.injEq, Prod.mk.injEq,
    Json.string.injEq, Json.number.injEq, true_and, and_true] at hread
  obtain ⟨hbody, hmethod, hnonce, hpath, hsession⟩ := hread
  cases d
  cases d'
  rw [CanonicalRequest.mk.injEq]
  exact ⟨(code_points_injective hmethod).symm, (code_points_injective hpath).symm,
    (code_points_injective hbody).symm, (code_points_injective hsession).symm,
    (int_text_injective hnonce).symm⟩

theorem canonical_bytes_injective : Function.Injective canonical_bytes := by
  intro d d' h
  apply canonical_text_injective
  exact String.ofList_injective (String.toByteArray_inj.mp h)

/-- What a client has signed. -/
structure Message where
  method : Text
  path : Text
  body : Text
  session_id : Text
  nonce : ℤ
  deriving DecidableEq, Repr

def Message.document (sha256_hexdigest : Text → Text) (m : Message) : CanonicalRequest where
  method := upper m.method
  path := m.path
  body_sha256 := sha256_hexdigest m.body
  session_id := m.session_id
  nonce := m.nonce

/-- A signature is checked over the bytes of a document. -/
def over_bytes (int : Text → Option ℤ) (sha256_hexdigest : Text → Text)
    (verify : Text → ByteArray → Text → Bool) : Primitives where
  int := int
  sha256_hexdigest := sha256_hexdigest
  verify_session_signature := fun session_pub d signature =>
    verify session_pub (canonical_bytes d) signature

/-- The request is the message, but for the case of its method. -/
structure Carries (int : Text → Option ℤ) (r : Request) (session_id : Text) (m : Message) :
    Prop where
  method : upper r.method = upper m.method
  path : r.path = m.path
  body : r.body = m.body
  session : session_id = m.session_id
  nonce : ∃ raw_nonce, r.raw_nonce = some raw_nonce ∧ int raw_nonce = some m.nonce

variable {ι : Type*} [DecidableEq ι] {int : Text → Option ℤ} {sha256_hexdigest : Text → Text}
  {verify : Text → ByteArray → Text → Bool} {requests : ι → Request} {deletes : ι → Bool}
  {row : AuthSessionKey} {sent : Set Message}

/-- The key verifies no bytes but those of a message that its holder has sent. -/
def Unforgeable (sha256_hexdigest : Text → Text) (verify : Text → ByteArray → Text → Bool)
    (session_pub : Text) (sent : Set Message) : Prop :=
  ∀ bytes signature, verify session_pub bytes signature = true →
    ∃ m ∈ sent, bytes = canonical_bytes (m.document sha256_hexdigest)

/-- No body of a request has the hash of another that was sent. -/
def CollisionFree (sha256_hexdigest : Text → Text) (requests : ι → Request) (sent : Set Message) :
    Prop :=
  ∀ i, ∀ m ∈ sent, sha256_hexdigest (requests i).body = sha256_hexdigest m.body →
    (requests i).body = m.body

omit [DecidableEq ι] in
theorem carries_of_signed (hverify : Unforgeable sha256_hexdigest verify row.session_pub sent)
    (hhash : CollisionFree sha256_hexdigest requests sent) {i : ι}
    (h : Signed (over_bytes int sha256_hexdigest verify) row (requests i)) :
    ∃ m ∈ sent, Carries int (requests i) row.id m := by
  obtain ⟨nonce, signature, ⟨raw_nonce, hraw, hnonce⟩, -, hsigned⟩ := h
  obtain ⟨m, hm, hbytes⟩ := hverify _ _ hsigned
  have hdocument := canonical_bytes_injective hbytes
  rw [canonical_request, Message.document, CanonicalRequest.mk.injEq] at hdocument
  obtain ⟨hmethod, hpath, hbody, hsession, rfl⟩ := hdocument
  exact ⟨m, hm, hmethod, hpath, hhash i m hm hbody, hsession, raw_nonce, hraw, hnonce⟩

/-- The one message of a client. -/
def message : Message where
  method := "POST".toList
  path := "/api/keys".toList
  body := []
  session_id := "s".toList
  nonce := 5

/-- A key that verifies the bytes of the message alone. -/
def sample_verify (_ : Text) (bytes : ByteArray) (_ : Text) : Bool :=
  decide (bytes.data.toList = (canonical_bytes (message.document id)).data.toList)

abbrev sample_primitives : Primitives := over_bytes SessionNonce.trusting.int id sample_verify

theorem sample_verify_message (session_pub signature : Text) :
    sample_verify session_pub (canonical_bytes (message.document id)) signature = true := by
  rw [sample_verify, decide_eq_true_eq]

theorem sample_bumped :
    SessionNonce.bump_nonce_atomic sample_primitives (SessionNonce.signed 0)
      (initial SessionNonce.session_row : State (Fin 2)).shared 5 "sig".toList = .bumped 5 := by
  have hverify : sample_primitives.verify_session_signature "pub".toList
      (canonical_request sample_primitives (SessionNonce.signed 0) "s".toList 5) "sig".toList =
        true := sample_verify_message "pub".toList "sig".toList
  unfold SessionNonce.bump_nonce_atomic
  exact (if_neg (fun h => Bool.noConfusion (hverify.symm.trans h))).trans rfl

theorem sample_message_unforgeable :
    Unforgeable id sample_verify SessionNonce.session_row.session_pub {message} :=
  fun _ _ h => ⟨message, rfl, ByteArray.ext (Array.toList_inj.mp (of_decide_eq_true h))⟩

end ArticTrader.CanonicalRequests
