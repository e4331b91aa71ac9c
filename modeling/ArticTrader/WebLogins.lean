import ArticTrader.IsoRoundTrips
import ArticTrader.WalletLogins

/-!
The login of the web client, from the nonce that it fetches to the session that it holds.
-/

namespace ArticTrader.WebLogins

open ArticTrader.Datetimes
open ArticTrader.IsoDates
open ArticTrader.IsoRoundTrips
open ArticTrader.LoginNonce (AuthNonce VerifyRequest issued verify_signature)
open ArticTrader.PythonText
open ArticTrader.SessionNonce (AuthSessionKey load_active_session)
open ArticTrader.SigninMessages
open ArticTrader.WalletLogins

structure BuildMessageArgs where
  chain : Text
  address : Text
  nonce : Text
  session_pub : Text
  session_scope : Text
  issued_at_iso : Text
  session_expires_at_iso : Text

def buildSigninMessage (args : BuildMessageArgs) : Text :=
  "artic.trade wants you to sign in with your ".toList ++ args.chain ++ " account:\n".toList ++
    (args.address ++ "\n".toList) ++
    "\n".toList ++
    ("Session public key: ".toList ++ args.session_pub ++ "\n".toList) ++
    ("Scope: ".toList ++ args.session_scope ++ "\n".toList) ++
    ("Nonce: ".toList ++ args.nonce ++ "\n".toList) ++
    ("Issued At: ".toList ++ args.issued_at_iso ++ "\n".toList) ++
    ("Expires At: ".toList ++ args.session_expires_at_iso)

structure NonceResponse where
  nonce : Text
  message : Text
  expires_at : Text
  issued_at : Text

/-- What `/auth/nonce` answers with its 200. -/
def nonce_response (settings : Settings) (recover : Recover) (address chain : Text)
    (tok : Fin 32 → UInt8) (expires_at created_at : ℤ) : NonceResponse where
  nonce := generate_nonce tok
  message := LoginNonce.build_signin_message (env settings recover) chain address
    (generate_nonce tok) "<session_pub>".toList "authenticated-actions".toList
    (isoformat created_at) "<session_expires_at>".toList
  expires_at := isoformat expires_at
  issued_at := isoformat created_at

def SESSION_SCOPE : Text := "authenticated-actions".toList
def SESSION_TTL_SECONDS : ℕ := 8 * 60 * 60

/-- Milliseconds from the start of the year 1 to the epoch of `Date`. -/
def EPOCH : ℕ := 62135596800000

/-- `new Date(ms)`; `none` stands for a year past 9999. -/
def new_Date (ms : ℕ) : Option Datetime :=
  if h : 1000 * (EPOCH + ms) < MAXORDINAL * DAY then some ⟨1000 * (EPOCH + ms), h⟩ else none

/-- The chain the page is built for, the address of the wallet, the fresh session key, and
how the wallet signs. -/
structure UseHubAuth where
  CHAIN : Text
  address : Text
  session_pub : Text
  signMessageAsync : Text → Text

/-- `fetchNonce` throws on an answer that is not ok, or lacks `issued_at`. -/
def fetchNonce (status_code : ℕ) (body : NonceResponse) : Option NonceResponse :=
  if status_code ≠ 200 ∨ body.issued_at = [] then none else some body

def UseHubAuth.args (page : UseHubAuth) (nonce : NonceResponse) (session_expires_at_iso : Text) :
    BuildMessageArgs where
  chain := page.CHAIN
  address := page.address
  nonce := nonce.nonce
  session_pub := page.session_pub
  session_scope := SESSION_SCOPE
  issued_at_iso := nonce.issued_at
  session_expires_at_iso := session_expires_at_iso

/-- The body of `verifySignature`, over what the wallet has signed. -/
def UseHubAuth.request (page : UseHubAuth) (nonce : NonceResponse)
    (session_expires_at_iso : Text) : VerifyRequest where
  address := page.address
  chain := page.CHAIN
  nonce := nonce.nonce
  signature := page.signMessageAsync (buildSigninMessage (page.args nonce session_expires_at_iso))
  pubkey := []
  session_pub := page.session_pub
  session_scope := SESSION_SCOPE
  session_expires_at := session_expires_at_iso

/-- What `run` posts to `/auth/verify`; `none` stands for what it throws. -/
def UseHubAuth.run (page : UseHubAuth) (status_code : ℕ) (body : NonceResponse)
    (date_now : ℕ) : Option VerifyRequest := do
  let nonce ← fetchNonce status_code body
  let session_expires_at ← new_Date (date_now + SESSION_TTL_SECONDS * 1000)
  return page.request nonce (toISOString session_expires_at)

/-- The session that a login makes, for the user it came to. -/
def session_key (s : WalletLogins.State) (body : VerifyRequest) (session_id : Text) :
    Option AuthSessionKey := do
  let login ← s.logins.getLast?
  let expires_at ← fromisoformat body.session_expires_at
  return {
    id := session_id
    user_id := login.user_id
    session_pub := body.session_pub
    scope := body.session_scope
    expires_at := expires_at
    last_nonce := 0
    revoked_at := none }

variable {settings : Settings} {recover : Recover}

theorem buildSigninMessage_eq (recover : Recover)
    (h : settings.AUTH_MESSAGE_DOMAIN = "artic.trade".toList) (args : BuildMessageArgs) :
    LoginNonce.build_signin_message (env settings recover) args.chain args.address args.nonce
      args.session_pub args.session_scope args.issued_at_iso args.session_expires_at_iso =
        buildSigninMessage args := by
  have hdomain : (env settings recover).AUTH_MESSAGE_DOMAIN = "artic.trade".toList := h
  have hfront : "artic.trade wants you to sign in with your ".toList =
      "artic.trade".toList ++ " wants you to sign in with your ".toList := by decide
  have hkey : "\n\nSession public key: ".toList =
      "\n".toList ++ ("\n".toList ++ "Session public key: ".toList) := rfl
  have hscope : "\nScope: ".toList = "\n".toList ++ "Scope: ".toList := rfl
  have hnonce : "\nNonce: ".toList = "\n".toList ++ "Nonce: ".toList := rfl
  have hissued : "\nIssued At: ".toList = "\n".toList ++ "Issued At: ".toList := rfl
  have hexpires : "\nExpires At: ".toList = "\n".toList ++ "Expires At: ".toList := rfl
  unfold LoginNonce.build_signin_message buildSigninMessage
  rw [hdomain]
  simp only [hfront, hkey, hscope, hnonce, hissued, hexpires, List.append_assoc]

/-- The nonce is in the table once, and is not used. -/
structure Waiting (row : AuthNonce) (s : WalletLogins.State) : Prop where
  mem : row ∈ s.auth_nonces
  alone : ∀ other ∈ s.auth_nonces, other.nonce = row.nonce → other = row

/-- The request is a login with the nonce. -/
def Presents (nonce : Text) : Request → Prop
  | .nonce .. => False
  | .verify body _ _ => body.nonce = nonce

theorem issue_nonce_waiting {s s' : WalletLogins.State} {address chain : Text}
    {tok : Fin 32 → UInt8} {expires_at created_at : ℤ}
    (h : issue_nonce settings s address chain tok expires_at created_at = (200, s')) :
    settings.AUTH_SUPPORTED_CHAINS.contains chain = true ∧
      Waiting (issued address chain (generate_nonce tok) expires_at created_at) s' := by
  unfold issue_nonce at h
  split_ifs at h with hempty hchain hfresh
  · cases h
  · cases h
  · cases h
  · obtain ⟨-, rfl⟩ := Prod.mk.inj h
    refine ⟨Bool.not_eq_false _ ▸ hchain, List.mem_append_right _ (List.mem_singleton_self _), ?_⟩
    intro other hother hsame
    rcases List.mem_append.mp hother with hold | hnew
    · exact absurd (List.mem_map.mpr ⟨other, hold, hsame⟩) hfresh
    · exact List.mem_singleton.mp hnew

theorem Waiting.issue_nonce {row : AuthNonce} {s : WalletLogins.State} (h : Waiting row s)
    (address chain : Text) (tok : Fin 32 → UInt8) (expires_at created_at : ℤ) :
    Waiting row (issue_nonce settings s address chain tok expires_at created_at).2 := by
  unfold WalletLogins.issue_nonce
  split_ifs with hempty hchain hfresh
  · exact h
  · exact h
  · exact h
  · refine ⟨List.mem_append_left _ h.mem, ?_⟩
    intro other hother hsame
    rcases List.mem_append.mp hother with hold | hnew
    · exact h.alone other hold hsame
    · have hnonce : generate_nonce tok = row.nonce := by
        rw [← hsame, List.mem_singleton.mp hnew]
        rfl
      exact absurd (List.mem_map.mpr ⟨row, h.mem, hnonce.symm⟩) hfresh

theorem mark_used_nonce (nonce : Text) (used_at : ℤ) (row : AuthNonce) :
    (mark_used nonce used_at row).nonce = row.nonce := by
  unfold mark_used
  split_ifs <;> rfl

theorem Waiting.mark_used {row : AuthNonce} {s s' : WalletLogins.State} (h : Waiting row s)
    {nonce : Text} {used_at : ℤ} (hne : nonce ≠ row.nonce)
    (hs' : s'.auth_nonces = s.auth_nonces.map (mark_used nonce used_at)) : Waiting row s' := by
  have hkept : WalletLogins.mark_used nonce used_at row = row := if_neg hne.symm
  refine ⟨?_, ?_⟩
  · rw [hs']
    exact List.mem_map.mpr ⟨row, h.mem, hkept⟩
  · intro other hother hsame
    rw [hs'] at hother
    obtain ⟨old, hold, rfl⟩ := List.mem_map.mp hother
    rw [mark_used_nonce] at hsame
    rw [h.alone old hold hsame, hkept]

theorem Waiting.verify {row : AuthNonce} {s : WalletLogins.State} (h : Waiting row s)
    {body : VerifyRequest} (hne : body.nonce ≠ row.nonce) (now : ℕ → ℤ) (new_id : Text) :
    Waiting row (verify settings recover s body now new_id).2 := by
  unfold WalletLogins.verify
  split
  next => exact h
  split
  next => exact h
  split
  next =>
      split
      next => exact h.mark_used hne rfl
      next => exact h
  next => exact h
  next => exact h

/-- A nonce waits while nobody logs in with it. -/
theorem Waiting.foldl {row : AuthNonce} {es : List Request} {s : WalletLogins.State}
    (h : Waiting row s) (hes : ∀ e ∈ es, ¬ Presents row.nonce e) :
    Waiting row (es.foldl (step settings recover) s) := by
  induction es generalizing s with
  | nil => exact h
  | cons e es ih =>
      obtain ⟨he, hes⟩ := List.forall_mem_cons.mp hes
      rw [List.foldl_cons]
      apply ih _ hes
      cases e with
      | nonce address chain tok expires_at created_at => exact h.issue_nonce ..
      | verify body now new_id => exact h.verify he now new_id

theorem Waiting.find {row : AuthNonce} {s : WalletLogins.State} (h : Waiting row s)
    {body : VerifyRequest} (hmatch : AuthNonce.matches row body = true) :
    s.auth_nonces.find? (AuthNonce.matches · body) = some row := by
  obtain ⟨found, hfound⟩ := Option.isSome_iff_exists.mp
    (List.find?_isSome (p := (AuthNonce.matches · body)).mpr ⟨row, h.mem, hmatch⟩)
  have hname : AuthNonce.matches found body = true :=
    List.find?_some (p := (AuthNonce.matches · body)) hfound
  rw [AuthNonce.matches, Bool.and_eq_true, decide_eq_true_eq] at hmatch hname
  rw [hfound, h.alone found (List.mem_of_find?_eq_some hfound) (hname.1.trans hmatch.1.symm)]

/-- When the session of the client is to end, in the microseconds of the hub. -/
def session_expires (date_now : ℕ) : ℤ :=
  (1000 * (EPOCH + (date_now + SESSION_TTL_SECONDS * 1000)) : ℕ)

theorem fromisoformat_new_Date {ms : ℕ} {t : Datetime} (h : new_Date ms = some t) :
    fromisoformat (toISOString t) = some ((1000 * (EPOCH + ms) : ℕ) : ℤ) := by
  unfold new_Date at h
  split at h
  next =>
      obtain rfl := Option.some.inj h
      exact fromisoformat_toISOString (Nat.mul_mod_right _ _)
  next => cases h

theorem run_inv {page : UseHubAuth} {status_code date_now : ℕ} {nonce : NonceResponse}
    {body : VerifyRequest} (h : page.run status_code nonce date_now = some body) :
    ∃ iso, fromisoformat iso = some (session_expires date_now) ∧ body = page.request nonce iso := by
  obtain ⟨fetched, hfetched, h⟩ := Option.bind_eq_some_iff.mp h
  obtain ⟨expires, hexpires, h⟩ := Option.bind_eq_some_iff.mp h
  obtain ⟨-, hfetched⟩ := Option.ite_none_left_eq_some.mp hfetched
  obtain rfl := Option.some.inj hfetched
  exact ⟨toISOString expires, fromisoformat_new_Date hexpires, (Option.some.inj h).symm⟩

/-- The nonce has not expired, and the session is to end later, but within its longest
lifetime. -/
structure InTime (settings : Settings) (expires_at session_expires : ℤ) (now : ℕ → ℤ) :
    Prop where
  nonce : now 0 < expires_at
  later : now 1 < session_expires
  lifetime : session_expires ≤ now 2 + settings.AUTH_SESSION_TTL

/-- What the wallet signs is recovered to its address. -/
def Signs (recover : Recover) (page : UseHubAuth) : Prop :=
  ∀ message, ∃ a, recover message (page.signMessageAsync message) = some a ∧
    lower a = lower page.address

section Verification

variable {page : UseHubAuth} {tok : Fin 32 → UInt8} {expires_at created_at : ℤ} {iso : Text}
  {date_now : ℕ}

/-- The hub rebuilds the text that the client has signed. -/
theorem signed_request (hdomain : settings.AUTH_MESSAGE_DOMAIN = "artic.trade".toList)
    (hsigns : Signs recover page) :
    let nonce := nonce_response settings recover page.address page.CHAIN tok expires_at created_at
    verify_evm_siwe recover page.address (LoginNonce.build_signin_message (env settings recover)
      page.CHAIN page.address (generate_nonce tok) page.session_pub SESSION_SCOPE
      (isoformat created_at) iso) (page.request nonce iso).signature [] = true := by
  intro nonce
  obtain ⟨a, hrecover, ha⟩ := hsigns (buildSigninMessage (page.args nonce iso))
  change verify_evm_siwe recover page.address (LoginNonce.build_signin_message
    (env settings recover) (page.args nonce iso).chain (page.args nonce iso).address
    (page.args nonce iso).nonce (page.args nonce iso).session_pub
    (page.args nonce iso).session_scope (page.args nonce iso).issued_at_iso
    (page.args nonce iso).session_expires_at_iso)
    (page.signMessageAsync (buildSigninMessage (page.args nonce iso))) [] = true
  rw [buildSigninMessage_eq recover hdomain, verify_evm_siwe, hrecover]
  exact decide_eq_true ha

theorem verify_signature_request (tok : Fin 32 → UInt8) (expires_at created_at : ℤ)
    (hdomain : settings.AUTH_MESSAGE_DOMAIN = "artic.trade".toList)
    (hchain : page.CHAIN = "0g-mainnet".toList)
    (hsupported : settings.AUTH_SUPPORTED_CHAINS.contains page.CHAIN = true)
    (hsigns : Signs recover page)
    (hiso : fromisoformat iso = some (session_expires date_now)) (now : ℕ → ℤ) :
    let row := issued page.address page.CHAIN (generate_nonce tok) expires_at created_at
    let body := page.request
      (nonce_response settings recover page.address page.CHAIN tok expires_at created_at) iso
    (InTime settings expires_at (session_expires date_now) now →
      verify_signature (env settings recover) row body now =
        .verified (now 3) (session_expires date_now)) ∧
      (¬ InTime settings expires_at (session_expires date_now) now →
        ∃ code, (code = 400 ∨ code = 401) ∧
          verify_signature (env settings recover) row body now = .failed code) := by
  intro row body
  have hverifier : (env settings recover).get_verifier body.chain =
      some (verify_evm_siwe recover) := by
    change get_verifier recover page.CHAIN = _
    rw [hchain]
    rfl
  have hsigned : verify_evm_siwe recover body.address (LoginNonce.build_signin_message
      (env settings recover) body.chain body.address body.nonce body.session_pub
      body.session_scope ((env settings recover).isoformat row.created_at)
      body.session_expires_at) body.signature body.pubkey = true := signed_request hdomain hsigns
  have hnames : ¬ (row.nonce ≠ body.nonce ∨ row.address ≠ body.address ∨ row.chain ≠ body.chain) :=
    fun h => by rcases h with h | h | h <;> exact h rfl
  have hread : (env settings recover).fromisoformat body.session_expires_at =
      some (session_expires date_now) := hiso
  have hlisted : ¬ (env settings recover).AUTH_SUPPORTED_CHAINS.contains body.chain = false :=
    fun h => Bool.noConfusion (hsupported.symm.trans h)
  have hunused : row.used_at ≠ none ∨ row.expires_at ≤ now 0 ↔ expires_at ≤ now 0 :=
    or_iff_right fun h => h rfl
  have heq : verify_signature (env settings recover) row body now =
      if expires_at ≤ now 0 then .failed 401
      else if session_expires date_now ≤ now 1 then .failed 400
      else if now 2 + settings.AUTH_SESSION_TTL < session_expires date_now then .failed 400
      else .verified (now 3) (session_expires date_now) := by
    unfold verify_signature
    rw [if_neg hlisted, if_neg hnames, hread, hverifier]
    dsimp only
    rw [if_pos hsigned, if_congr hunused rfl rfl]
    rfl
  rw [heq]
  constructor
  · intro h
    rw [if_neg (not_le.mpr h.nonce), if_neg (not_le.mpr h.later), if_neg (not_lt.mpr h.lifetime)]
  · intro h
    split_ifs with hexpired hpast hlong
    · exact ⟨401, .inr rfl, rfl⟩
    · exact ⟨400, .inl rfl, rfl⟩
    · exact ⟨400, .inl rfl, rfl⟩
    · exact absurd ⟨not_le.mp hexpired, not_le.mp hpast, not_lt.mp hlong⟩ h

theorem upsert_user_fresh {users : List User} {body : VerifyRequest} {new_id : Text}
    (h : new_id ∉ users.map (·.id)) :
    ∃ user users', upsert_user users body new_id = some (user, users') ∧ user ∈ users' ∧
      user.wallet_address = body.address ∧ user.wallet_chain = body.chain := by
  unfold upsert_user
  cases hfind : users.find? (User.matches · body) with
  | some user =>
      have hmatch : User.matches user body = true :=
        List.find?_some (p := (User.matches · body)) hfind
      rw [User.matches, Bool.and_eq_true, decide_eq_true_eq, decide_eq_true_eq] at hmatch
      exact ⟨user, users, rfl, List.mem_of_find?_eq_some hfind, hmatch⟩
  | none =>
      rw [if_neg h]
      exact ⟨_, _, rfl, List.mem_append_right _ (List.mem_singleton_self _), rfl, rfl⟩

/-- The session of the login that has just been recorded. -/
theorem session_key_concat {s : WalletLogins.State} {body : VerifyRequest} {login : Login}
    {logins : List Login} {expires_at : ℤ} (hlogins : s.logins = logins ++ [login])
    (hexpires : fromisoformat body.session_expires_at = some expires_at) (session_id : Text) :
    session_key s body session_id = some ⟨session_id, login.user_id, body.session_pub,
      body.session_scope, expires_at, 0, none⟩ := by
  rw [session_key, hlogins, List.getLast?_concat, hexpires]
  rfl

theorem load_fresh_iff {session_id user_id session_pub scope : Text} {expires_at last_nonce t : ℤ} :
    let sess : AuthSessionKey :=
      ⟨session_id, user_id, session_pub, scope, expires_at, last_nonce, none⟩
    load_active_session sess session_id user_id t = some sess ↔ t < expires_at := by
  intro sess
  have hown : ¬ (sess.id ≠ session_id ∨ sess.user_id ≠ user_id) := by
    rintro (h | h) <;> exact h rfl
  rw [load_active_session, if_neg hown, if_neg (fun h => h rfl)]
  split_ifs with hexpired
  · exact ⟨nofun, fun h => absurd hexpired (not_le.mpr h)⟩
  · exact ⟨fun _ => not_le.mp hexpired, fun _ => rfl⟩

/-- Whatever requests come in between, a login of the web client succeeds exactly when it is in
time, and its session lasts until the very millisecond that the client has asked for. -/
theorem web_login (hdomain : settings.AUTH_MESSAGE_DOMAIN = "artic.trade".toList)
    (hchain : page.CHAIN = "0g-mainnet".toList) (hsigns : Signs recover page)
    {s s' : WalletLogins.State} (hissue : issue_nonce settings s page.address page.CHAIN tok
      expires_at created_at = (200, s'))
    {es : List Request} (hes : ∀ e ∈ es, ¬ Presents (generate_nonce tok) e)
    {body : VerifyRequest} (hrun : page.run 200 (nonce_response settings recover page.address
      page.CHAIN tok expires_at created_at) date_now = some body)
    (now : ℕ → ℤ) {new_id : Text}
    (hid : new_id ∉ (es.foldl (step settings recover) s').users.map (·.id)) (session_id : Text) :
    let before := es.foldl (step settings recover) s'
    let after := verify settings recover before body now new_id
    (after.1 = 200 ↔ InTime settings expires_at (session_expires date_now) now) ∧
      (after.1 ≠ 200 → (after.1 = 400 ∨ after.1 = 401) ∧ after.2 = before) ∧
      (after.1 = 200 → ∃ user ∈ after.2.users, user.wallet_address = page.address ∧
        user.wallet_chain = page.CHAIN ∧ ∃ sess, session_key after.2 body session_id = some sess ∧
          sess.session_pub = page.session_pub ∧ ∀ t,
            load_active_session sess session_id user.id t = some sess ↔
              t < session_expires date_now) := by
  obtain ⟨hsupported, hwaiting⟩ := issue_nonce_waiting hissue
  obtain ⟨iso, hiso, rfl⟩ := run_inv hrun
  generalize hbody : page.request (nonce_response settings recover page.address page.CHAIN tok
    expires_at created_at) iso = body
  intro before after
  have hwaits : Waiting (issued page.address page.CHAIN (generate_nonce tok) expires_at created_at)
      before := hwaiting.foldl hes
  have hlisted : ¬ settings.AUTH_SUPPORTED_CHAINS.contains body.chain = false := by
    rw [← hbody]
    exact fun h => Bool.noConfusion (hsupported.symm.trans h)
  have hmatch : AuthNonce.matches (issued page.address page.CHAIN (generate_nonce tok) expires_at
      created_at) body = true := by
    simp [AuthNonce.matches, ← hbody, UseHubAuth.request, issued, nonce_response]
  have hverified := verify_signature_request tok expires_at created_at hdomain hchain hsupported
    hsigns hiso now
  rw [hbody] at hverified
  have hafter : after = verify settings recover before body now new_id := rfl
  rw [verify, if_neg hlisted, hwaits.find hmatch] at hafter
  by_cases hin : InTime settings expires_at (session_expires date_now) now
  · obtain ⟨user, users, hupsert, hmem, haddress, huser⟩ :
      ∃ user users, upsert_user before.users body new_id = some (user, users) ∧ user ∈ users ∧
        user.wallet_address = body.address ∧ user.wallet_chain = body.chain := upsert_user_fresh hid
    simp only [hverified.1 hin, hupsert] at hafter
    rw [hafter]
    refine ⟨iff_of_true rfl hin, fun h => absurd rfl h, fun _ => ?_⟩
    rw [← hbody] at haddress huser
    refine ⟨user, hmem, haddress, huser, _, session_key_concat rfl (hbody ▸ hiso) session_id, ?_,
      fun t => load_fresh_iff⟩
    rw [← hbody]
    rfl
  · obtain ⟨code, hcode, hfailed⟩ := hverified.2 hin
    simp only [hfailed] at hafter
    rw [hafter]
    have hne : code ≠ 200 := by
      rcases hcode with rfl | rfl <;> decide
    exact ⟨iff_of_false hne hin, fun _ => ⟨hcode, rfl⟩, fun h => absurd h hne⟩

end Verification

/-- A wallet whose signature of a text is the text, behind a mark. -/
def page : UseHubAuth where
  CHAIN := "0g-mainnet".toList
  address := wallet
  session_pub := "A1".toList
  signMessageAsync := fun message => '#' :: message

def recovering : Recover := fun message signature =>
  if signature = '#' :: message then some wallet else none

theorem page_signs : Signs recovering page := fun _ => ⟨wallet, if_pos rfl, rfl⟩

def fetched : WalletLogins.State :=
  (issue_nonce one_chain ⟨[], [], []⟩ wallet "0g-mainnet".toList (fun _ => 0)
    (new_year + 300000000) new_year).2

/-- Another wallet asks for a nonce. -/
def others : List Request :=
  [.nonce (spelled 'b') "0g-mainnet".toList (fun _ => 1) (new_year + 300000001) (new_year + 1)]

/-- What the page posts a millisecond into the year 2025. -/
def posted : VerifyRequest :=
  page.request (nonce_response one_chain recovering wallet "0g-mainnet".toList (fun _ => 0)
    (new_year + 300000000) new_year) "2025-01-01T08:00:00.001Z".toList

theorem run_posted : page.run 200 (nonce_response one_chain recovering wallet
    "0g-mainnet".toList (fun _ => 0) (new_year + 300000000) new_year) 1735689600001 =
      some posted := by
  have hdate : new_Date (1735689600001 + SESSION_TTL_SECONDS * 1000) =
      some ⟨1000 * (EPOCH + (1735689600001 + SESSION_TTL_SECONDS * 1000)), by decide⟩ :=
    dif_pos (by decide)
  have htext : toISOString ⟨1000 * (EPOCH + (1735689600001 + SESSION_TTL_SECONDS * 1000)),
      by decide⟩ = "2025-01-01T08:00:00.001Z".toList := by decide
  have hissued : isoformat new_year ≠ [] := by decide
  rw [UseHubAuth.run, hdate, fetchNonce, if_neg (by simp [nonce_response, hissued])]
  simp only [Option.bind_eq_bind, Option.bind_some, htext]
  rfl

theorem web_login_new_year :
    (verify one_chain recovering (others.foldl (step one_chain recovering) fetched) posted
      (fun _ => new_year + 60000000) "u".toList).1 = 200 := by
  have hissue : issue_nonce one_chain ⟨[], [], []⟩ wallet "0g-mainnet".toList (fun _ => 0)
    (new_year + 300000000) new_year = (200, fetched) := rfl
  have hothers : ∀ e ∈ others, ¬ Presents (generate_nonce fun _ => 0) e := by
    simp [others, Presents]
  exact (web_login rfl rfl page_signs hissue hothers run_posted _ (by decide) "s".toList).1.mpr
    ⟨by decide, by decide, by decide⟩

end ArticTrader.WebLogins
