import ArticTrader.Multimaps
import ArticTrader.WakeProxy

/-!
What the hub's forwarder makes of a request's query and headers, and of the headers of
the upstream's response. Names and values of headers are ASCII; the headers with which
a transport frames and routes a message are its own.
-/

namespace ArticTrader.Forwarder

open ArticTrader.Multimaps
open ArticTrader.PythonText

abbrev Headers := List (Text × Text)

def HOP_BY_HOP : List Text :=
  ["connection".toList, "keep-alive".toList, "proxy-authenticate".toList,
    "proxy-authorization".toList, "te".toList, "trailers".toList, "transfer-encoding".toList,
    "upgrade".toList, "host".toList, "content-length".toList]

def STRIPPED_REQUEST : List Text :=
  HOP_BY_HOP ++ ["authorization".toList, "cookie".toList, "x-api-key".toList]

/-- A server hands the names of the headers on in small letters. -/
def lowered (headers : Headers) : Headers := headers.map fun h => (lower h.1, h.2)

/-- The values of a header, whose name is given in small letters. -/
def header_values (name : Text) (headers : Headers) : List Text := values name (lowered headers)

structure Request where
  method : Text
  headers : Headers
  query_params : List (Text × Text)
  body : List UInt8
  deriving DecidableEq, Repr

structure UpstreamRequest where
  method : Text
  url : Text
  content : List UInt8
  headers : Headers
  params : List (Text × Text)
  deriving DecidableEq, Repr

structure Reply where
  status_code : ℕ
  headers : Headers
  content : List UInt8
  deriving DecidableEq, Repr

inductive TransportError where
  | timeout
  | request (message : Text)
  deriving DecidableEq, Repr

inductive Response where
  | passed (reply : Reply)
  | error (status : ℕ) (code message request_id : Text)
  deriving DecidableEq, Repr

/-- The hub's secret, the headers that its HTTP client sends with every request that does
not have them, and the identifier it makes up. -/
structure Hub where
  secret : Text
  accept_encoding : Text
  user_agent : Text
  uuid4 : Text
  uuid4_ne : uuid4 ≠ []

def filter_headers (items : Headers) (drop : List Text) : Headers :=
  dict (items.filter fun h => !drop.contains (lower h.1))

def request_id (hub : Hub) (r : Request) : Text :=
  match (lowered r.headers).lookup "x-request-id".toList with
  | some id => if id = [] then hub.uuid4 else id
  | none => hub.uuid4

def request_headers (hub : Hub) (r : Request) : Headers :=
  let headers := filter_headers (lowered r.headers) STRIPPED_REQUEST
  let headers := setitem headers "X-Hub-Secret".toList hub.secret
  setitem headers "X-Request-ID".toList (request_id hub r)

def client_headers (hub : Hub) : Headers :=
  [("Accept".toList, "*/*".toList), ("Accept-Encoding".toList, hub.accept_encoding),
    ("Connection".toList, "keep-alive".toList), ("User-Agent".toList, hub.user_agent)]

/-- The headers of the client that the request does not have, and those of the request. -/
def merge_headers (client headers : Headers) : Headers :=
  client.filter (fun h => !(headers.map fun h' => lower h'.1).contains (lower h.1)) ++ headers

def upstream_request (hub : Hub) (r : Request) (target_url : Text) : UpstreamRequest where
  method := r.method
  url := target_url
  content := r.body
  headers := merge_headers (client_headers hub) (request_headers hub r)
  params := dict r.query_params

/-- `upstream.headers.items()` -/
def reply_items (headers : Headers) : Headers :=
  merged (fun v w => v ++ ", ".toList ++ w) (lowered headers)

def passthrough_headers (reply : Reply) (request_id : Text) : Headers :=
  setitem (filter_headers (reply_items reply.headers) HOP_BY_HOP) "X-Request-ID".toList request_id

/-- What the client is answered, from what the call of the upstream comes to. -/
def respond (hub : Hub) (r : Request) : Except TransportError Reply → Response
  | .error .timeout =>
      .error 504 "UPSTREAM_TIMEOUT".toList "user-server read timeout".toList (request_id hub r)
  | .error (.request message) =>
      .error 502 "UPSTREAM_UNAVAILABLE".toList message (request_id hub r)
  | .ok reply =>
      .passed
        { status_code := reply.status_code
          headers := lowered (passthrough_headers reply (request_id hub r))
          content := reply.content }

/-- The upstream request has what the incoming one had, and the hub's secret. -/
structure Transparent (hub : Hub) (r : Request) (sent : UpstreamRequest) : Prop where
  query : ∀ name, values name sent.params = values name r.query_params
  headers : ∀ name, name ∈ (lowered r.headers).map (·.1) → name ∉ STRIPPED_REQUEST →
    name ≠ "x-hub-secret".toList → header_values name sent.headers = header_values name r.headers
  secret : header_values "x-hub-secret".toList sent.headers = [hub.secret]

/-- The client gets the end-to-end headers of the upstream's reply. -/
def PassesHeaders (reply : Reply) (response : Response) : Prop :=
  ∃ answer, response = .passed answer ∧
    ∀ name, name ∈ (lowered reply.headers).map (·.1) → name ∉ HOP_BY_HOP →
      header_values name answer.headers = header_values name reply.headers

/-- A request without repeated names that leaves the hub's own headers to the hub. A
request identifier may come twice, since the hub repeats it. -/
structure PlainRequest (r : Request) : Prop where
  query : ∀ name, (values name r.query_params).length ≤ 1
  headers : ∀ name, name ∉ STRIPPED_REQUEST → name ≠ "x-request-id".toList →
    (header_values name r.headers).length ≤ 1
  no_secret : header_values "x-hub-secret".toList r.headers = []
  request_id : header_values "x-request-id".toList r.headers = [] ∨
    ∃ id ≠ [], header_values "x-request-id".toList r.headers = [id, id]

structure PlainReply (reply : Reply) : Prop where
  headers : ∀ name, name ∉ HOP_BY_HOP → (header_values name reply.headers).length ≤ 1
  no_request_id : header_values "x-request-id".toList reply.headers = []

theorem toLower_toLower (c : Char) : c.toLower.toLower = c.toLower := by
  unfold Char.toLower
  by_cases h : c.val ≥ 'A'.val ∧ c.val ≤ 'Z'.val
  · rw [dif_pos h]
    apply dif_neg
    rintro ⟨-, hhigh⟩
    have hlow := UInt32.le_iff_toNat_le.mp h.1
    have hhigh := UInt32.le_iff_toNat_le.mp hhigh
    have hsmall := UInt32.le_iff_toNat_le.mp h.2
    rw [UInt32.toNat_add] at hhigh
    simp at hlow hhigh hsmall
    omega
  · rw [dif_neg h, dif_neg h]

theorem lower_lower (s : Text) : lower (lower s) = lower s := by
  unfold lower
  rw [List.map_map]
  exact List.map_congr_left fun c _ => toLower_toLower c

theorem lower_of_mem_lowered {headers : Headers} {name : Text}
    (h : name ∈ (lowered headers).map (·.1)) : lower name = name := by
  obtain ⟨p, hp, rfl⟩ := List.mem_map.mp h
  obtain ⟨q, -, rfl⟩ := List.mem_map.mp hp
  exact lower_lower q.1

theorem names_lowered (headers : Headers) :
    (lowered headers).map (·.1) = headers.map fun h => lower h.1 :=
  List.map_map

theorem lowered_of_lower {headers : Headers}
    (h : ∀ name ∈ headers.map (·.1), lower name = name) : lowered headers = headers := by
  unfold lowered
  conv_rhs => rw [← List.map_id headers]
  apply List.map_congr_left
  intro p hp
  rw [h p.1 (List.mem_map_of_mem hp)]
  rfl

theorem lowered_lowered (headers : Headers) : lowered (lowered headers) = lowered headers :=
  lowered_of_lower fun _ h => lower_of_mem_lowered h

theorem header_values_append (name : Text) (headers headers' : Headers) :
    header_values name (headers ++ headers') =
      header_values name headers ++ header_values name headers' := by
  unfold header_values lowered
  rw [List.map_append, values_append]

theorem header_values_eq_nil_iff {name : Text} {headers : Headers} :
    header_values name headers = [] ↔ name ∉ (lowered headers).map (·.1) := values_eq_nil_iff

theorem keys_filter_headers {items : Headers} {drop : List Text} {name : Text}
    (h : name ∈ (filter_headers items drop).map (·.1)) : name ∈ items.map (·.1) := by
  unfold filter_headers dict at h
  rw [mem_keys_merged_iff] at h
  obtain ⟨p, hp, rfl⟩ := List.mem_map.mp h
  exact List.mem_map_of_mem (List.mem_of_mem_filter hp)

theorem values_filter_headers (items : Headers) {drop : List Text} {name : Text}
    (hlower : lower name = name) (hkept : name ∉ drop) :
    values name (filter_headers items drop) =
      (reduce (fun _ v => v) (values name items)).toList := by
  have hkeep : (!drop.contains (lower name)) = true := by
    simpa [hlower] using hkept
  rw [filter_headers, dict, values_merged,
    values_filter fun name => !drop.contains (lower name), if_pos hkeep]

/-- A name with a capital letter is not among the names that a server hands on. -/
theorem lowered_setitem {headers : Headers} (h : ∀ name ∈ headers.map (·.1), lower name = name)
    {name : Text} (hname : lower name ≠ name) (value : Text) :
    setitem headers name value = headers ++ [(name, value)] := by
  apply upsert_of_not_mem
  intro hmem
  exact hname (h name hmem)

def own_values (name own value : Text) : List Text := if own = name then [value] else []

theorem header_values_singleton (name : Text) (h : Text × Text) :
    header_values name [h] = own_values name (lower h.1) h.2 :=
  values_singleton name (lower h.1, h.2)

section Request

variable (hub : Hub) (r : Request)

theorem filtered_lower : ∀ name ∈ (filter_headers (lowered r.headers) STRIPPED_REQUEST).map (·.1),
    lower name = name :=
  fun _ h => lower_of_mem_lowered (keys_filter_headers h)

theorem request_headers_eq :
    request_headers hub r = filter_headers (lowered r.headers) STRIPPED_REQUEST ++
      [("X-Hub-Secret".toList, hub.secret), ("X-Request-ID".toList, request_id hub r)] := by
  unfold request_headers
  dsimp only
  rw [lowered_setitem (filtered_lower r) (by decide)]
  unfold setitem
  rw [upsert_of_not_mem, List.append_assoc]
  · rfl
  · rw [List.map_append, List.mem_append]
    rintro (h | h)
    · exact absurd (filtered_lower r _ h) (by decide)
    · have hne : ("X-Request-ID".toList : Text) ≠ "X-Hub-Secret".toList := by decide
      exact hne (List.mem_singleton.mp h)

/-- Of each name the request has the last value, and beside it what the hub adds. -/
theorem header_values_request {name : Text} (hlower : lower name = name)
    (hkept : name ∉ STRIPPED_REQUEST) :
    header_values name (request_headers hub r) =
      (reduce (fun _ v => v) (header_values name r.headers)).toList ++
        own_values name "x-hub-secret".toList hub.secret ++
          own_values name "x-request-id".toList (request_id hub r) := by
  have hfiltered : header_values name (filter_headers (lowered r.headers) STRIPPED_REQUEST) =
      (reduce (fun _ v => v) (header_values name r.headers)).toList := by
    unfold header_values
    rw [lowered_of_lower (filtered_lower r), values_filter_headers _ hlower hkept]
  have hsecret : lower "X-Hub-Secret".toList = "x-hub-secret".toList := by decide
  have hid : lower "X-Request-ID".toList = "x-request-id".toList := by decide
  rw [request_headers_eq, header_values_append, hfiltered, ← List.singleton_append,
    header_values_append, header_values_singleton, header_values_singleton, hsecret, hid,
    List.append_assoc]

theorem header_values_merge {name : Text} {client headers : Headers}
    (h : header_values name headers ≠ []) :
    header_values name (merge_headers client headers) = header_values name headers := by
  have hmem : name ∈ (lowered headers).map (·.1) := by
    by_contra hmem
    exact h (header_values_eq_nil_iff.mpr hmem)
  unfold merge_headers
  rw [header_values_append]
  have hnone : header_values name (client.filter fun c =>
      !(headers.map fun h' => lower h'.1).contains (lower c.1)) = [] := by
    rw [header_values_eq_nil_iff]
    intro hclient
    rw [names_lowered] at hclient hmem
    obtain ⟨c, hc, rfl⟩ := List.mem_map.mp hclient
    have habsent := (List.mem_filter.mp hc).2
    rw [List.contains_iff_mem.mpr hmem] at habsent
    cases habsent
  rw [hnone, List.nil_append]

/-- The upstream sees of a header that the client sent, or that the hub adds, what the
request sends. -/
theorem header_values_sent {name : Text} (target : Text) (hlower : lower name = name)
    (hkept : name ∉ STRIPPED_REQUEST)
    (hsome : header_values name r.headers ≠ [] ∨ name = "x-hub-secret".toList) :
    header_values name (upstream_request hub r target).headers =
      (reduce (fun _ v => v) (header_values name r.headers)).toList ++
        own_values name "x-hub-secret".toList hub.secret ++
          own_values name "x-request-id".toList (request_id hub r) := by
  rw [← header_values_request hub r hlower hkept]
  apply header_values_merge
  rw [header_values_request hub r hlower hkept]
  intro hnil
  obtain ⟨hleft, -⟩ := List.append_eq_nil_iff.mp hnil
  obtain ⟨hnone, hown⟩ := List.append_eq_nil_iff.mp hleft
  rw [Option.toList_eq_nil_iff, reduce_eq_none_iff] at hnone
  rcases hsome with hsome | rfl
  · exact hsome hnone
  · rw [own_values, if_pos rfl] at hown
    cases hown

theorem secret_iff (target : Text) :
    header_values "x-hub-secret".toList (upstream_request hub r target).headers = [hub.secret] ↔
      header_values "x-hub-secret".toList r.headers = [] := by
  have hnot : ("x-request-id".toList : Text) ≠ "x-hub-secret".toList := by decide
  rw [header_values_sent hub r target (by decide) (by decide) (.inr rfl), own_values, if_pos rfl,
    own_values, if_neg hnot, List.append_nil]
  rw [← reduce_eq_none_iff (fun _ v => v), ← Option.toList_eq_nil_iff]
  exact List.append_left_eq_self

/-- An identifier of the request is repeated behind itself. -/
theorem request_id_iff (target : Text)
    (hsome : header_values "x-request-id".toList r.headers ≠ []) :
    header_values "x-request-id".toList (upstream_request hub r target).headers =
        header_values "x-request-id".toList r.headers ↔
      ∃ id ≠ [], header_values "x-request-id".toList r.headers = [id, id] := by
  have hnot : ("x-hub-secret".toList : Text) ≠ "x-request-id".toList := by decide
  have hlookup : (lowered r.headers).lookup "x-request-id".toList =
      (header_values "x-request-id".toList r.headers).head? := lookup_eq_head?_values _ _
  rw [header_values_sent hub r target (by decide) (by decide) (.inl hsome), own_values,
    if_neg hnot, own_values, if_pos rfl, List.append_nil, request_id, hlookup]
  generalize header_values "x-request-id".toList r.headers = ids at hsome ⊢
  match ids, hsome with
  | [id], _ => simp [reduce]
  | id :: other :: more :: rest, _ => simp [reduce]
  | [id, other], _ =>
      change [other, if id = [] then hub.uuid4 else id] = [id, other] ↔ _
      constructor
      · intro h
        obtain ⟨rfl, htail⟩ := List.cons.inj h
        by_cases hid : other = []
        · rw [if_pos hid, hid] at htail
          exact absurd (List.cons.inj htail).1 hub.uuid4_ne
        · exact ⟨other, hid, rfl⟩
      · rintro ⟨same, hsame, h⟩
        obtain ⟨rfl, htail⟩ := List.cons.inj h
        rw [(List.cons.inj htail).1, if_neg hsame]

theorem header_iff {name : Text} (target : Text) (hlower : lower name = name)
    (hkept : name ∉ STRIPPED_REQUEST) (hsecret : name ≠ "x-hub-secret".toList)
    (hid : name ≠ "x-request-id".toList) (hsome : header_values name r.headers ≠ []) :
    header_values name (upstream_request hub r target).headers = header_values name r.headers ↔
      (header_values name r.headers).length ≤ 1 := by
  rw [header_values_sent hub r target hlower hkept (.inl hsome), own_values,
    if_neg (Ne.symm hsecret), own_values, if_neg (Ne.symm hid), List.append_nil, List.append_nil]
  exact toList_reduce_eq_iff _ _

theorem present_iff {name : Text} {headers : Headers} :
    name ∈ (lowered headers).map (·.1) ↔ header_values name headers ≠ [] := by
  rw [Ne, header_values_eq_nil_iff, not_not]

theorem transparent_iff (target : Text) :
    Transparent hub r (upstream_request hub r target) ↔ PlainRequest r := by
  constructor
  · intro h
    have hsecret := (secret_iff hub r target).mp h.secret
    refine ⟨fun name => ?_, fun name hkept hid => ?_, hsecret, ?_⟩
    · exact (values_merged_eq_iff _ name r.query_params).mp (h.query name)
    · by_cases hsome : header_values name r.headers = []
      · rw [hsome]
        exact Nat.zero_le 1
      · have hpresent := present_iff.mpr hsome
        have hother : name ≠ "x-hub-secret".toList := by
          rintro rfl
          exact hsome hsecret
        exact (header_iff hub r target (lower_of_mem_lowered hpresent) hkept hother hid
          hsome).mp (h.headers name hpresent hkept hother)
    · by_cases hsome : header_values "x-request-id".toList r.headers = []
      · exact .inl hsome
      · exact .inr ((request_id_iff hub r target hsome).mp
          (h.headers _ (present_iff.mpr hsome) (by decide) (by decide)))
  · intro h
    refine ⟨fun name => ?_, fun name hpresent hkept hother => ?_,
      (secret_iff hub r target).mpr h.no_secret⟩
    · exact (values_merged_eq_iff _ name r.query_params).mpr (h.query name)
    · have hsome := present_iff.mp hpresent
      by_cases hid : name = "x-request-id".toList
      · subst hid
        exact (request_id_iff hub r target hsome).mpr (h.request_id.resolve_left hsome)
      · exact (header_iff hub r target (lower_of_mem_lowered hpresent) hkept hother hid hsome).mpr
          (h.headers name hkept hid)

end Request

section Reply

variable (reply : Reply) (id : Text)

theorem reply_items_lower : ∀ name ∈ (reply_items reply.headers).map (·.1), lower name = name :=
  fun name h => lower_of_mem_lowered ((mem_keys_merged_iff _ name _).mp h)

/-- Values of one name are joined, and the hub's identifier is added. -/
theorem header_values_passthrough {name : Text} (hlower : lower name = name)
    (hkept : name ∉ HOP_BY_HOP) :
    header_values name (passthrough_headers reply id) =
      (reduce (fun v w => v ++ ", ".toList ++ w) (header_values name reply.headers)).toList ++
        own_values name "x-request-id".toList id := by
  have hfiltered : ∀ name ∈ (filter_headers (reply_items reply.headers) HOP_BY_HOP).map (·.1),
      lower name = name := fun name h => reply_items_lower reply name (keys_filter_headers h)
  have hid : lower "X-Request-ID".toList = "x-request-id".toList := by decide
  unfold passthrough_headers
  rw [lowered_setitem hfiltered (by decide), header_values_append, header_values_singleton, hid]
  congr 1
  unfold header_values
  rw [lowered_of_lower hfiltered, values_filter_headers _ hlower hkept, reply_items, values_merged,
    reduce_toList]

/-- A second identifier cannot stand for one that the upstream has sent. -/
theorem joined_append_ne {vs : List Text} (hvs : vs ≠ []) :
    (reduce (fun v w => v ++ ", ".toList ++ w) vs).toList ++ [id] ≠ vs := by
  match vs, hvs with
  | [v], _ => simp [reduce]
  | v :: w :: x :: rest, _ => simp [reduce]
  | [v, w], _ =>
      intro h
      have hjoined : v ++ ", ".toList ++ w = v := (List.cons.inj h).1
      have hlength := congrArg List.length hjoined
      simp only [List.length_append] at hlength
      have hcomma : (", ".toList : Text).length = 2 := rfl
      omega

theorem passes_headers_iff (hub : Hub) (r : Request) :
    PassesHeaders reply (respond hub r (.ok reply)) ↔ PlainReply reply := by
  have hvalues : ∀ name, header_values name (lowered (passthrough_headers reply
      (request_id hub r))) = header_values name (passthrough_headers reply (request_id hub r)) := by
    intro name
    unfold header_values
    rw [lowered_lowered]
  constructor
  · rintro ⟨answer, hanswer, h⟩
    cases hanswer
    have hall : ∀ name, name ∉ HOP_BY_HOP → header_values name reply.headers ≠ [] →
        (reduce (fun v w => v ++ ", ".toList ++ w) (header_values name reply.headers)).toList ++
          own_values name "x-request-id".toList (request_id hub r) =
            header_values name reply.headers := by
      intro name hkept hsome
      have hpresent := present_iff.mpr hsome
      rw [← header_values_passthrough reply _ (lower_of_mem_lowered hpresent) hkept, ← hvalues]
      exact h name hpresent hkept
    have hnone : header_values "x-request-id".toList reply.headers = [] := by
      by_contra hsome
      have hids := hall _ (by decide) hsome
      rw [own_values, if_pos rfl] at hids
      exact joined_append_ne _ hsome hids
    refine ⟨fun name hkept => ?_, hnone⟩
    by_cases hsome : header_values name reply.headers = []
    · rw [hsome]
      exact Nat.zero_le 1
    · have hid : name ≠ "x-request-id".toList := by
        rintro rfl
        exact hsome hnone
      have hvalues := hall name hkept hsome
      rw [own_values, if_neg (Ne.symm hid), List.append_nil] at hvalues
      exact (toList_reduce_eq_iff _ _).mp hvalues
  · intro h
    refine ⟨_, rfl, fun name hpresent hkept => ?_⟩
    have hid : name ≠ "x-request-id".toList := by
      rintro rfl
      exact present_iff.mp hpresent h.no_request_id
    rw [hvalues, header_values_passthrough reply _ (lower_of_mem_lowered hpresent) hkept,
      own_values, if_neg (Ne.symm hid), List.append_nil, toList_reduce_eq_iff]
    exact h.headers name hkept

end Reply

/-- The proxy is transparent for a request and the reply to it exactly where neither
repeats a name and both leave the names to the hub that it adds. -/
theorem forward_transparent_iff (hub : Hub) (r : Request) (target : Text)
    (upstream : Except TransportError Reply) :
    (Transparent hub r (upstream_request hub r target) ∧
        ∀ reply, upstream = .ok reply → PassesHeaders reply (respond hub r upstream)) ↔
      PlainRequest r ∧ ∀ reply, upstream = .ok reply → PlainReply reply := by
  rw [transparent_iff]
  apply and_congr_right
  rintro -
  constructor
  · rintro h reply rfl
    exact (passes_headers_iff reply hub r).mp (h reply rfl)
  · rintro h reply rfl
    exact (passes_headers_iff reply hub r).mpr (h reply rfl)

def demo_hub : Hub where
  secret := "s3cret".toList
  accept_encoding := "gzip, deflate".toList
  user_agent := "python-httpx/0.27.0".toList
  uuid4 := "6f1c5a3e-0000-4000-8000-000000000000".toList
  uuid4_ne := by decide

/-- A client that sends the hub's own header. -/
def forged : Request where
  method := "GET".toList
  headers := [("X-Hub-Secret".toList, "mine".toList)]
  query_params := []
  body := []

/-- The upstream gets two secrets, and the client's is the first. -/
theorem forged_secret_sent :
    header_values "x-hub-secret".toList (upstream_request demo_hub forged []).headers =
        ["mine".toList, "s3cret".toList] ∧
      ¬ Transparent demo_hub forged (upstream_request demo_hub forged []) := by
  have hsent : header_values "x-hub-secret".toList (upstream_request demo_hub forged []).headers =
      ["mine".toList, "s3cret".toList] := by
    decide
  refine ⟨hsent, fun h => ?_⟩
  have hsecret := h.secret
  rw [hsent] at hsecret
  exact absurd hsecret (by decide)

end ArticTrader.Forwarder
