import ArticTrader.DecisionAttestation
import ArticTrader.PythonText
import Mathlib.Data.List.AList

/-!
A user's secrets on the hub, and the cache of the user server that a wake fills
with them.
-/

namespace ArticTrader.SecretsPush

open DecisionAttestation (strip)
open PythonText (Text rstrip)

/-- A `dict` from texts to texts. -/
abbrev Dict := AList fun _ : Text => Text

structure UserSecret where
  user_id : Text
  key_name : Text
  encrypted_value : Text
  deriving DecidableEq

/-- The cipher under the hub's key; `encrypt` also reads the nonce it draws, and `none`
stands for what is raised. -/
structure Crypto where
  encrypt : Text → Text → Option Text
  decrypt : Text → Option Text

/-- What was encrypted is decrypted to itself. -/
def Crypto.Opens (crypto : Crypto) : Prop :=
  ∀ plaintext nonce blob, crypto.encrypt plaintext nonce = some blob →
    crypto.decrypt blob = some plaintext

/-- The settings of the hub, and `HUB_SECRET` of the user servers. -/
structure Env where
  crypto : Crypto
  TWELVE_DATA_API_KEY : Option Text
  INTERNAL_SECRET : Text
  HUB_SECRET : Text

variable (env : Env)

def UserSecret.named (user_id key_name : Text) (row : UserSecret) : Bool :=
  row.user_id = user_id && row.key_name = key_name

def rewritten (user_id key_name ciphertext : Text) (row : UserSecret) : UserSecret :=
  if row.named user_id key_name then { row with encrypted_value := ciphertext } else row

/-- `none` stands for the 500 of a value that is not encrypted, or of several rows. -/
def put_secret (user_secrets : List UserSecret) (user_id key_name value nonce : Text) :
    Option (List UserSecret) :=
  (env.crypto.encrypt value nonce).bind fun ciphertext =>
    match user_secrets.filter (UserSecret.named user_id key_name) with
    | [] => some (user_secrets ++ [⟨user_id, key_name, ciphertext⟩])
    | [_] => some (user_secrets.map (rewritten user_id key_name ciphertext))
    | _ => none

def delete_secret (user_secrets : List UserSecret) (user_id key_name : Text) :
    Option (List UserSecret) :=
  match user_secrets.filter (UserSecret.named user_id key_name) with
  | [] => some user_secrets
  | [_] => some (user_secrets.filter fun row => !row.named user_id key_name)
  | _ => none

structure Post where
  url : Text
  x_hub_secret : Text
  secrets : Dict

def add_decrypted (payload : Dict) (row : UserSecret) : Dict :=
  match env.crypto.decrypt row.encrypted_value with
  | some value => payload.insert row.key_name value
  | none => payload

def ENV_KEY : Text := "TWELVE_DATA_API_KEY".toList

def Env.platform_key (env : Env) : Text := strip (env.TWELVE_DATA_API_KEY.getD [])

def payload (user_secrets : List UserSecret) (user_id : Text) : Dict :=
  let payload := (user_secrets.filter (·.user_id = user_id)).foldl (add_decrypted env) ∅
  if env.platform_key ≠ [] then payload.insert ENV_KEY env.platform_key else payload

/-- The request that `push` makes, if any. -/
def push (user_secrets : List UserSecret) (user_id vm_endpoint : Text) : Option Post :=
  let payload := payload env user_secrets user_id
  if payload.entries = [] then none
  else some ⟨rstrip vm_endpoint '/' ++ "/hub/secrets/refresh".toList, env.INTERNAL_SECRET, payload⟩

inductive ArticError where
  | auth_required (message : String)
  | auth_invalid (message : String)
  deriving DecidableEq

def hub_guard (x_hub_secret : Option Text) : Except ArticError Unit :=
  if env.HUB_SECRET = [] then .error (.auth_invalid "HUB_SECRET not configured on user-server")
  else if x_hub_secret = none then .error (.auth_required "X-Hub-Secret header required")
  else if x_hub_secret ≠ some env.HUB_SECRET then .error (.auth_invalid "X-Hub-Secret mismatch")
  else .ok ()

structure Refreshed where
  loaded : ℕ
  keys : List Text

/-- The order of texts, by their code points. -/
def text_le (s t : Text) : Bool := !t.lex s fun c d => decide (c.toNat < d.toNat)

def known_keys (_cache : Dict) : List Text := _cache.keys.mergeSort text_le

def refresh_secrets (secrets : Dict) : Refreshed × Dict :=
  let _cache : Dict := secrets ∪ ∅
  (⟨secrets.entries.length, known_keys _cache⟩, _cache)

def handle (_cache : Dict) (post : Post) : Except ArticError Refreshed × Dict :=
  match hub_guard env (some post.x_hub_secret) with
  | .ok _ => ((.ok (refresh_secrets post.secrets).1), (refresh_secrets post.secrets).2)
  | .error e => (.error e, _cache)

/-- The server that a wake finds: the process that ran in an instance it reuses, or one
that `launch_user_server` has started. -/
inductive Server where
  | resumed
  | launched
  deriving DecidableEq

/-- What becomes of a post, which the client may give up before or after it is served. -/
inductive Delivery where
  | answered
  | answer_lost
  | not_delivered
  deriving DecidableEq

inductive Label where
  | put_secret (user_id key_name value nonce : Text)
  | delete_secret (user_id key_name : Text)
  | wake (user_id vm_endpoint : Text) (server : Server) (delivery : Delivery)
  deriving DecidableEq

structure State where
  user_secrets : List UserSecret
  _cache : Text → Dict

/-- What the server that the wake finds has in memory. -/
def State.remembered (s : State) (user_id : Text) : Server → Dict
  | .resumed => s._cache user_id
  | .launched => ∅

def delivered (_cache : Dict) (delivery : Delivery) : Option Post → Dict
  | none => _cache
  | some post =>
      match delivery with
      | .not_delivered => _cache
      | _ => (handle env _cache post).2

def State.set_cache (s : State) (user_id : Text) (_cache : Dict) : State :=
  { s with _cache := Function.update s._cache user_id _cache }

def step (s : State) : Label → State
  | .put_secret user_id key_name value nonce =>
      { s with
        user_secrets :=
          (put_secret env s.user_secrets user_id key_name value nonce).getD s.user_secrets }
  | .delete_secret user_id key_name =>
      { s with
        user_secrets := (delete_secret s.user_secrets user_id key_name).getD s.user_secrets }
  | .wake user_id vm_endpoint server delivery =>
      s.set_cache user_id (delivered env (s.remembered user_id server) delivery
        (push env s.user_secrets user_id vm_endpoint))

/-- Answered 2xx, or nothing to post. -/
def Pushed (s : State) (user_id vm_endpoint : Text) (delivery : Delivery) : Prop :=
  ∀ post ∈ push env s.user_secrets user_id vm_endpoint,
    delivery = .answered ∧ hub_guard env (some post.x_hub_secret) = .ok ()

/-- One row a key of a user. -/
def Unique (user_secrets : List UserSecret) : Prop :=
  (user_secrets.map fun row => (row.user_id, row.key_name)).Nodup

def secrets (user_secrets : List UserSecret) (user_id key_name : Text) : Option Text :=
  (user_secrets.find? (UserSecret.named user_id key_name)).bind fun row =>
    env.crypto.decrypt row.encrypted_value

/-- The secrets as the requests wrote them. -/
def written (values : Text → Text → Option Text) : Label → Text → Text → Option Text
  | .put_secret user_id key_name value nonce => fun u k =>
      if (env.crypto.encrypt value nonce).isSome ∧ u = user_id ∧ k = key_name then some value
      else values u k
  | .delete_secret user_id key_name => fun u k =>
      if u = user_id ∧ k = key_name then none else values u k
  | .wake .. => values

/-- With the platform's key added. -/
def mirrored (values : Text → Option Text) (key_name : Text) : Option Text :=
  if key_name = ENV_KEY ∧ env.platform_key ≠ [] then some env.platform_key else values key_name

variable {env}

theorem named_iff {user_id key_name : Text} {row : UserSecret} :
    row.named user_id key_name = true ↔ row.user_id = user_id ∧ row.key_name = key_name := by
  rw [UserSecret.named, Bool.and_eq_true, decide_eq_true_eq, decide_eq_true_eq]

theorem find_of_notMem {rows : List UserSecret} {user_id key_name : Text}
    (h : (user_id, key_name) ∉ rows.map fun row => (row.user_id, row.key_name)) :
    rows.find? (UserSecret.named user_id key_name) = none := by
  rw [List.find?_eq_none]
  intro row hrow hnamed
  obtain ⟨rfl, rfl⟩ := named_iff.mp hnamed
  exact h (List.mem_map_of_mem hrow)

theorem lookup_foldl {rows : List UserSecret} (hunique : Unique rows) (user_id key_name : Text)
    (acc : Dict) :
    ((rows.filter (·.user_id = user_id)).foldl (add_decrypted env) acc).lookup key_name =
      (secrets env rows user_id key_name).or (acc.lookup key_name) := by
  induction rows generalizing acc with
  | nil => rfl
  | cons row rows ih =>
      obtain ⟨hnew, hrest⟩ := List.nodup_cons.mp hunique
      by_cases huser : row.user_id = user_id
      · rw [List.filter_cons_of_pos (by simpa using huser), List.foldl_cons, ih hrest]
        by_cases hkey : row.key_name = key_name
        · have hnone := find_of_notMem hnew
          rw [huser, hkey] at hnone
          have hfirst : row.named user_id key_name = true := named_iff.mpr ⟨huser, hkey⟩
          rw [secrets, hnone, Option.bind_none, Option.none_or, secrets,
            List.find?_cons_of_pos hfirst, Option.bind_some, add_decrypted]
          cases env.crypto.decrypt row.encrypted_value with
          | none => rfl
          | some value => rw [hkey, AList.lookup_insert, Option.some_or]
        · have hlater : ¬ row.named user_id key_name = true := fun h => hkey (named_iff.mp h).2
          rw [secrets, secrets, List.find?_cons_of_neg hlater, add_decrypted]
          cases env.crypto.decrypt row.encrypted_value with
          | none => rfl
          | some value => rw [AList.lookup_insert_ne (Ne.symm hkey)]
      · have hother : ¬ row.named user_id key_name = true := fun h => huser (named_iff.mp h).1
        rw [List.filter_cons_of_neg (by simpa using huser), ih hrest, secrets, secrets,
          List.find?_cons_of_neg hother]

theorem lookup_payload {rows : List UserSecret} (hunique : Unique rows) (user_id key_name : Text) :
    (payload env rows user_id).lookup key_name =
      mirrored env (secrets env rows user_id) key_name := by
  have hrows : ((rows.filter (·.user_id = user_id)).foldl (add_decrypted env) ∅).lookup key_name =
      (secrets env rows user_id key_name).or ((∅ : Dict).lookup key_name) :=
    lookup_foldl hunique user_id key_name ∅
  rw [AList.lookup_empty, Option.or_none] at hrows
  rw [payload, mirrored]
  by_cases hplatform : env.platform_key ≠ []
  · rw [if_pos hplatform]
    by_cases hkey : key_name = ENV_KEY
    · rw [if_pos ⟨hkey, hplatform⟩, hkey, AList.lookup_insert]
    · rw [if_neg fun h => hkey h.1, AList.lookup_insert_ne hkey, hrows]
  · rw [if_neg hplatform, if_neg fun h => hplatform h.2, hrows]

theorem filter_named {rows : List UserSecret} (hunique : Unique rows) (user_id key_name : Text) :
    rows.filter (UserSecret.named user_id key_name) = [] ∨
      ∃ row, rows.filter (UserSecret.named user_id key_name) = [row] := by
  induction rows with
  | nil => exact .inl rfl
  | cons row rows ih =>
      obtain ⟨hnew, hrest⟩ := List.nodup_cons.mp hunique
      by_cases hnamed : row.named user_id key_name = true
      · right
        refine ⟨row, ?_⟩
        obtain ⟨rfl, rfl⟩ := named_iff.mp hnamed
        rw [List.filter_cons_of_pos hnamed, List.filter_eq_nil_iff.mpr]
        exact List.find?_eq_none.mp (find_of_notMem hnew)
      · rw [List.filter_cons_of_neg hnamed]
        exact ih hrest

theorem secrets_append {rows : List UserSecret} {user_id key_name ciphertext : Text}
    (hnone : rows.filter (UserSecret.named user_id key_name) = []) (u k : Text) :
    secrets env (rows ++ [⟨user_id, key_name, ciphertext⟩]) u k =
      if u = user_id ∧ k = key_name then env.crypto.decrypt ciphertext
      else secrets env rows u k := by
  rw [secrets, List.find?_append]
  split
  next h =>
      obtain ⟨rfl, rfl⟩ := h
      have hnamed : UserSecret.named u k ⟨u, k, ciphertext⟩ = true := named_iff.mpr ⟨rfl, rfl⟩
      rw [List.find?_eq_none.mpr (List.filter_eq_nil_iff.mp hnone), Option.none_or,
        List.find?_cons_of_pos hnamed, Option.bind_some]
  next h =>
      have hother : ¬ UserSecret.named u k ⟨user_id, key_name, ciphertext⟩ = true :=
        fun hnamed => h ⟨(named_iff.mp hnamed).1.symm, (named_iff.mp hnamed).2.symm⟩
      rw [List.find?_cons_of_neg hother, List.find?_nil, Option.or_none, secrets]

@[simp] theorem rewritten_user_id (user_id key_name ciphertext : Text) (row : UserSecret) :
    (rewritten user_id key_name ciphertext row).user_id = row.user_id := by
  unfold rewritten
  split <;> rfl

@[simp] theorem rewritten_key_name (user_id key_name ciphertext : Text) (row : UserSecret) :
    (rewritten user_id key_name ciphertext row).key_name = row.key_name := by
  unfold rewritten
  split <;> rfl

theorem secrets_rewritten {rows : List UserSecret} {user_id key_name ciphertext : Text}
    {row : UserSecret} (hone : rows.filter (UserSecret.named user_id key_name) = [row])
    (u k : Text) :
    secrets env (rows.map (rewritten user_id key_name ciphertext)) u k =
      if u = user_id ∧ k = key_name then env.crypto.decrypt ciphertext
      else secrets env rows u k := by
  have hsame : UserSecret.named u k ∘ rewritten user_id key_name ciphertext =
      UserSecret.named u k := by
    funext row
    simp [UserSecret.named]
  rw [secrets, List.find?_map, hsame, secrets]
  split
  next h =>
      obtain ⟨rfl, rfl⟩ := h
      have hfind : rows.find? (UserSecret.named u k) = some row := by
        rw [← List.head?_filter, hone, List.head?_cons]
      have hnamed : row.named u k = true := List.find?_some hfind
      rw [hfind, Option.map_some, Option.bind_some, rewritten, if_pos hnamed]
  next h =>
      cases hfind : rows.find? (UserSecret.named u k) with
      | none => rfl
      | some found =>
          have hnamed := named_iff.mp (List.find?_some hfind)
          have hother : ¬ found.named user_id key_name = true := fun hn =>
            h ⟨hnamed.1.symm.trans (named_iff.mp hn).1, hnamed.2.symm.trans (named_iff.mp hn).2⟩
          rw [Option.map_some, rewritten, if_neg hother]

theorem secrets_removed (rows : List UserSecret) (user_id key_name u k : Text) :
    secrets env (rows.filter fun row => !row.named user_id key_name) u k =
      if u = user_id ∧ k = key_name then none else secrets env rows u k := by
  rw [secrets, List.find?_filter]
  split
  next h =>
      obtain ⟨rfl, rfl⟩ := h
      have hnone : rows.find? (fun row => decide ((!row.named u k) = true ∧ row.named u k = true)) =
          none := List.find?_eq_none.mpr fun row _ => by cases row.named u k <;> decide
      rw [hnone, Option.bind_none]
  next h =>
      rw [secrets]
      congr 2
      funext row
      rw [Bool.eq_iff_iff, decide_eq_true_eq, Bool.not_eq_true', and_iff_right_iff_imp]
      intro hnamed
      obtain ⟨rfl, rfl⟩ := named_iff.mp hnamed
      rw [Bool.eq_false_iff]
      exact fun hn => h (named_iff.mp hn)

theorem secrets_put_secret (hcrypto : env.crypto.Opens) {rows : List UserSecret}
    (hunique : Unique rows) (user_id key_name value nonce : Text) :
    secrets env ((put_secret env rows user_id key_name value nonce).getD rows) =
      written env (secrets env rows) (.put_secret user_id key_name value nonce) := by
  funext u k
  rw [put_secret, written]
  cases hblob : env.crypto.encrypt value nonce with
  | none => simp
  | some ciphertext =>
      have hopen := hcrypto value nonce ciphertext hblob
      simp only [Option.bind_some, Option.isSome_some, true_and]
      rcases filter_named hunique user_id key_name with hnone | ⟨row, hone⟩
      · rw [hnone, Option.getD_some, secrets_append hnone, hopen]
      · rw [hone, Option.getD_some]
        exact (secrets_rewritten hone u k).trans (by rw [hopen])

theorem secrets_delete_secret {rows : List UserSecret} (hunique : Unique rows)
    (user_id key_name : Text) :
    secrets env ((delete_secret rows user_id key_name).getD rows) =
      written env (secrets env rows) (.delete_secret user_id key_name) := by
  funext u k
  rw [delete_secret]
  simp only [written]
  rcases filter_named hunique user_id key_name with hnone | ⟨row, hone⟩
  · rw [hnone, Option.getD_some]
    split
    next h =>
        obtain ⟨rfl, rfl⟩ := h
        rw [secrets, List.find?_eq_none.mpr (List.filter_eq_nil_iff.mp hnone), Option.bind_none]
    next => rfl
  · rw [hone, Option.getD_some, secrets_removed]

theorem unique_step {s : State} (hunique : Unique s.user_secrets) (l : Label) :
    Unique (step env s l).user_secrets := by
  cases l with
  | put_secret user_id key_name value nonce =>
      rw [step, put_secret]
      cases env.crypto.encrypt value nonce with
      | none => exact hunique
      | some ciphertext =>
          rw [Option.bind_some]
          rcases filter_named hunique user_id key_name with hnone | ⟨row, hone⟩
          · rw [hnone, Option.getD_some, Unique, List.map_append, List.nodup_append']
            refine ⟨hunique, List.nodup_singleton _, ?_⟩
            rw [List.map_singleton, List.disjoint_singleton]
            intro hmem
            obtain ⟨row, hrow, hsame⟩ := List.mem_map.mp hmem
            rw [Prod.mk.injEq] at hsame
            exact List.filter_eq_nil_iff.mp hnone row hrow (named_iff.mpr hsame)
          · rw [hone, Option.getD_some, Unique, List.map_map]
            have hsame : ((fun row : UserSecret => (row.user_id, row.key_name)) ∘
                rewritten user_id key_name ciphertext) =
                fun row => (row.user_id, row.key_name) := by
              funext row
              simp
            rw [hsame]
            exact hunique
  | delete_secret user_id key_name =>
      rw [step, delete_secret]
      rcases filter_named hunique user_id key_name with hnone | ⟨row, hone⟩
      · rw [hnone]
        exact hunique
      · rw [hone]
        exact hunique.sublist (List.filter_sublist.map _)
  | wake => exact hunique

theorem secrets_step (hcrypto : env.crypto.Opens) {s : State} (hunique : Unique s.user_secrets)
    (l : Label) : secrets env (step env s l).user_secrets =
      written env (secrets env s.user_secrets) l := by
  cases l with
  | put_secret => exact secrets_put_secret hcrypto hunique ..
  | delete_secret => exact secrets_delete_secret hunique ..
  | wake => rfl

theorem secrets_foldl (hcrypto : env.crypto.Opens) {s : State} (hunique : Unique s.user_secrets)
    (es : List Label) :
    Unique (es.foldl (step env) s).user_secrets ∧
      secrets env (es.foldl (step env) s).user_secrets =
        es.foldl (written env) (secrets env s.user_secrets) := by
  induction es generalizing s with
  | nil => exact ⟨hunique, rfl⟩
  | cons l es ih =>
      have hnext : Unique (step env s l).user_secrets := unique_step hunique l
      have hrest := ih hnext
      rw [secrets_step hcrypto hunique l] at hrest
      exact hrest

theorem lookup_union_empty (d : Dict) (key_name : Text) :
    (d ∪ ∅).lookup key_name = d.lookup key_name := by
  rw [AList.union_empty]

theorem eq_empty_iff {d : Dict} : d = ∅ ↔ ∀ key_name, d.lookup key_name = none := by
  constructor
  · rintro rfl key_name
    exact AList.lookup_empty key_name
  · intro hnone
    apply AList.ext
    rw [AList.empty_entries, List.eq_nil_iff_forall_not_mem]
    intro entry hentry
    have hkey : entry.1 ∈ d := List.mem_map_of_mem hentry
    exact AList.lookup_eq_none.mp (hnone entry.1) hkey

theorem push_eq_none_iff {rows : List UserSecret} {user_id vm_endpoint : Text} :
    push env rows user_id vm_endpoint = none ↔ payload env rows user_id = ∅ := by
  rw [push]
  constructor
  · intro h
    split at h
    next hempty => exact AList.ext hempty
    next => nomatch h
  · intro h
    rw [if_pos (by rw [h, AList.empty_entries])]

theorem push_some {rows : List UserSecret} {user_id vm_endpoint : Text} {post : Post}
    (h : push env rows user_id vm_endpoint = some post) :
    post.secrets = payload env rows user_id := by
  rw [push] at h
  split at h
  next => nomatch h
  next => exact (congrArg Post.secrets (Option.some.inj h)).symm

theorem handle_of_guarded {post : Post} (h : hub_guard env (some post.x_hub_secret) = .ok ())
    (_cache : Dict) : (handle env _cache post).2 = post.secrets ∪ ∅ := by
  rw [handle, h, refresh_secrets]

@[simp] theorem set_cache_self (s : State) (user_id : Text) (_cache : Dict) :
    (s.set_cache user_id _cache)._cache user_id = _cache :=
  Function.update_self ..

/-- The wakes after which the claim is about the cache. -/
def Mirrors (env : Env) (s : State) (values : Text → Text → Option Text) : Label → Prop
  | .wake user_id vm_endpoint server delivery => Pushed env s user_id vm_endpoint delivery →
      ∀ key_name, ((step env s (.wake user_id vm_endpoint server delivery))._cache
        user_id).lookup key_name = mirrored env (values user_id) key_name
  | _ => True

/-- A wake with nothing to post finds nothing in the server's memory. -/
def FindsNothing (env : Env) (s : State) : Label → Prop
  | .wake user_id _ server _ => payload env s.user_secrets user_id = ∅ →
      s.remembered user_id server = ∅
  | _ => True

theorem mirrors_iff {s : State} (hunique : Unique s.user_secrets) (l : Label) :
    Mirrors env s (secrets env s.user_secrets) l ↔ FindsNothing env s l := by
  cases l with
  | put_secret => exact Iff.rfl
  | delete_secret => exact Iff.rfl
  | wake user_id vm_endpoint server delivery =>
      have hpayload : ∀ key_name, (payload env s.user_secrets user_id).lookup key_name =
          mirrored env (secrets env s.user_secrets user_id) key_name :=
        lookup_payload hunique user_id
      simp only [Mirrors, FindsNothing, step, set_cache_self, Pushed, ← hpayload]
      cases hpush : push env s.user_secrets user_id vm_endpoint with
      | none =>
          have hempty := push_eq_none_iff.mp hpush
          simp only [delivered, hempty, AList.lookup_empty, Option.not_mem_none, false_implies,
            implies_true, forall_const]
          exact eq_empty_iff.symm
      | some post =>
          have hposted : payload env s.user_secrets user_id ≠ ∅ := fun h => by
            rw [push_eq_none_iff.mpr h] at hpush
            nomatch hpush
          refine iff_of_true (fun hpushed key_name => ?_) fun h => absurd h hposted
          obtain ⟨rfl, hguard⟩ := hpushed post rfl
          show AList.lookup key_name (handle env (s.remembered user_id server) post).2 = _
          rw [handle_of_guarded hguard, lookup_union_empty, push_some hpush]

/-- The table of the hub, with one row a key of a user. -/
structure Table where
  rows : List UserSecret
  unique : Unique rows

theorem push_mirrors_iff (env : Env) (hcrypto : env.crypto.Opens) (table : Table)
    (_cache : Text → Dict) (es : List Label) :
    (∀ before l later, es = before ++ l :: later →
      Mirrors env (before.foldl (step env) ⟨table.rows, _cache⟩)
        (before.foldl (written env) (secrets env table.rows)) l) ↔
    ∀ before l later, es = before ++ l :: later →
      FindsNothing env (before.foldl (step env) ⟨table.rows, _cache⟩) l := by
  refine forall₄_congr fun before l later _ => ?_
  obtain ⟨hunique, hsecrets⟩ :=
    secrets_foldl (s := ⟨table.rows, _cache⟩) hcrypto table.unique before
  rw [← mirrors_iff hunique, hsecrets]

/-- A cipher that only marks the text. -/
def marking : Crypto where
  encrypt plaintext _ := some ('#' :: plaintext)
  decrypt
    | '#' :: plaintext => some plaintext
    | _ => none

def plain : Env := ⟨marking, none, "s".toList, "s".toList⟩

theorem marking_opens : plain.crypto.Opens := by
  intro plaintext nonce blob h
  cases h
  rfl

def removal (server : Server) : List Label :=
  [.put_secret "u".toList "k".toList "v".toList [], .wake "u".toList "e".toList .launched .answered,
    .delete_secret "u".toList "k".toList, .wake "u".toList "e".toList server .answered]

theorem push_mirrors_removal :
    (∀ before l later, removal .launched = before ++ l :: later →
      Mirrors plain (before.foldl (step plain) ⟨[], fun _ => ∅⟩)
        (before.foldl (written plain) (secrets plain [])) l) ↔
    ∀ before l later, removal .launched = before ++ l :: later →
      FindsNothing plain (before.foldl (step plain) ⟨[], fun _ => ∅⟩) l :=
  push_mirrors_iff plain marking_opens ⟨[], List.nodup_nil⟩ (fun _ => ∅) (removal .launched)

theorem deleted_secret_stays :
    ¬ ∀ (env : Env), env.crypto.Opens → ∀ (table : Table) (_cache : Text → Dict) (es : List Label),
      ∀ before l later, es = before ++ l :: later →
        Mirrors env (before.foldl (step env) ⟨table.rows, _cache⟩)
          (before.foldl (written env) (secrets env table.rows)) l := by
  intro h
  have hlast := h plain marking_opens ⟨[], List.nodup_nil⟩ (fun _ => ∅) (removal .resumed)
    ((removal .resumed).take 3) (.wake "u".toList "e".toList .resumed .answered) [] rfl
  have hnothing : push plain
      (((removal .resumed).take 3).foldl (step plain) ⟨[], fun _ => ∅⟩).user_secrets
      "u".toList "e".toList = none := by decide
  have hcache := hlast (fun post hpost => by rw [hnothing] at hpost; nomatch hpost) "k".toList
  revert hcache
  decide

end ArticTrader.SecretsPush
