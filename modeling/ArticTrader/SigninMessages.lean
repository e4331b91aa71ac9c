import ArticTrader.IsoDates
import ArticTrader.LoginNonce
import ArticTrader.Markers

/-!
The text that a wallet signs to log in, and what it says of the session that the
signature authorises.
-/

namespace ArticTrader.SigninMessages

open ArticTrader.Datetimes
open ArticTrader.IsoDates
open ArticTrader.LoginNonce
open ArticTrader.Markers
open ArticTrader.PythonText

def URLSAFE : Text :=
  "ABCDEFGHIJKLMNOPQRSTUVWXYZabcdefghijklmnopqrstuvwxyz0123456789-_".toList

def letter (n : ℕ) : Char := URLSAFE.getD (n % 64) 'A'

/-- `base64.urlsafe_b64encode` without its padding. -/
def urlsafe_b64encode : List UInt8 → Text
  | [] => []
  | [a] => [letter (a.toNat / 4), letter (a.toNat * 16)]
  | [a, b] => [letter (a.toNat / 4), letter (a.toNat * 16 + b.toNat / 16), letter (b.toNat * 4)]
  | a :: b :: c :: rest =>
      letter (a.toNat / 4) :: letter (a.toNat * 16 + b.toNat / 16) ::
        letter (b.toNat * 4 + c.toNat / 64) :: letter c.toNat :: urlsafe_b64encode rest

/-- `secrets.token_urlsafe(32)` from the bytes it draws. -/
def generate_nonce (tok : Fin 32 → UInt8) : Text := urlsafe_b64encode (List.ofFn tok)

/-- What `recover_message` says of a text and a signature; `none` stands for what it
raises, or the reading of the signature before it. -/
abbrev Recover := Text → Text → Option Text

def verify_evm_siwe (recover : Recover) (address message signature _pubkey_b64 : Text) : Bool :=
  match recover message signature with
  | some recovered => lower recovered = lower address
  | none => false

def VERIFIERS (recover : Recover) : List (Text × (Text → Text → Text → Text → Bool)) :=
  [("0g-mainnet".toList, verify_evm_siwe recover)]

def get_verifier (recover : Recover) (chain : Text) : Option (Text → Text → Text → Text → Bool) :=
  (VERIFIERS recover).lookup chain

/-- A column holds the dates that a `datetime` can be. -/
def isoformat (t : ℤ) : Text :=
  if h : t.toNat < MAXORDINAL * DAY then (Datetime.mk t.toNat h).isoformat else []

/-- The settings, with the lifetime of a session in microseconds. -/
structure Settings where
  AUTH_SUPPORTED_CHAINS : List Text
  AUTH_SESSION_TTL : ℤ
  AUTH_MESSAGE_DOMAIN : Text

def env (settings : Settings) (recover : Recover) : Env where
  AUTH_SUPPORTED_CHAINS := settings.AUTH_SUPPORTED_CHAINS
  AUTH_SESSION_TTL_SECONDS := settings.AUTH_SESSION_TTL
  AUTH_MESSAGE_DOMAIN := settings.AUTH_MESSAGE_DOMAIN
  fromisoformat := fromisoformat
  isoformat := isoformat
  get_verifier := get_verifier recover

/-- An address of the chain: `0x` and forty hexadecimal digits. -/
def HexAddress (a : Text) : Prop :=
  ∃ digits : Text, a = "0x".toList ++ digits ∧ digits.length = 40 ∧
    digits.all (fun c => (hexdigit c).isSome) = true

/-- The fields of a message. -/
structure Fields where
  chain : Text
  address : Text
  nonce : Text
  session_pub : Text
  session_scope : Text
  issued_at : Text
  session_expires_at : Text
  deriving DecidableEq

variable (settings : Settings) (recover : Recover)

def Fields.message (f : Fields) : Text :=
  build_signin_message (env settings recover) f.chain f.address f.nonce f.session_pub
    f.session_scope f.issued_at f.session_expires_at

def Fields.body (f : Fields) (signature pubkey : Text) : VerifyRequest :=
  ⟨f.address, f.chain, f.nonce, signature, pubkey, f.session_pub, f.session_scope,
    f.session_expires_at⟩

/-- `/auth/verify` goes on to the user of a request with these fields, for a nonce that
`/auth/nonce` has issued. -/
structure Accepted (f : Fields) : Prop where
  nonce : ∃ tok, f.nonce = generate_nonce tok
  verified : ∃ (expires_at created_at : ℤ) (signature pubkey : Text) (now : ℕ → ℤ)
    (used_at session_expires : ℤ), f.issued_at = isoformat created_at ∧
      verify_signature (env settings recover)
        (issued f.address f.chain f.nonce expires_at created_at)
        (f.body signature pubkey) now = .verified used_at session_expires

variable {settings recover}

theorem verified_inv {row : AuthNonce} {body : VerifyRequest} {now : ℕ → ℤ}
    {used_at session_expires : ℤ}
    (h : verify_signature (env settings recover) row body now = .verified used_at session_expires) :
    (fromisoformat body.session_expires_at).isSome ∧
      ∃ verifier, get_verifier recover body.chain = some verifier ∧
        verifier body.address (build_signin_message (env settings recover) body.chain body.address
          body.nonce body.session_pub body.session_scope (isoformat row.created_at)
          body.session_expires_at) body.signature body.pubkey = true := by
  unfold verify_signature at h
  split at h
  next => nomatch h
  split at h
  next => nomatch h
  split at h
  next => nomatch h
  split at h
  next => nomatch h
  next expires hexpires =>
      split at h
      next => nomatch h
      split at h
      next => nomatch h
      dsimp only at h
      split at h
      next => nomatch h
      next verifier hverifier =>
          split at h
          next hok => exact ⟨Option.isSome_iff_exists.mpr ⟨_, hexpires⟩, verifier, hverifier, hok⟩
          next => nomatch h

def NONCE : Text := "Nonce: ".toList
def ISSUED : Text := "Issued At: ".toList
def EXPIRES : Text := "Expires At: ".toList
def SCOPE : Text := "Scope: ".toList

def front (settings : Settings) (chain : Text) : Text :=
  settings.AUTH_MESSAGE_DOMAIN ++ " wants you to sign in with your ".toList ++ chain ++
    " account:\n".toList

def Fields.session (f : Fields) : Text := f.session_pub ++ ('\n' :: SCOPE ++ f.session_scope)

def Fields.head (settings : Settings) (f : Fields) : Text :=
  front settings f.chain ++
    (f.address ++ ('\n' :: [] ++ ("\nSession public key: ".toList ++ f.session)))

theorem message_eq (f : Fields) : f.message settings recover =
    f.head settings ++ ('\n' :: NONCE ++ f.nonce) ++ ('\n' :: ISSUED ++ f.issued_at) ++
      ('\n' :: EXPIRES ++ f.session_expires_at) := by
  have hnonce : "\nNonce: ".toList = '\n' :: NONCE := rfl
  have hissued : "\nIssued At: ".toList = '\n' :: ISSUED := rfl
  have hexpires : "\nExpires At: ".toList = '\n' :: EXPIRES := rfl
  have hscope : "\nScope: ".toList = '\n' :: SCOPE := rfl
  have hkey : "\n\nSession public key: ".toList = '\n' :: "\nSession public key: ".toList := rfl
  simp only [Fields.message, build_signin_message, env, Fields.head, Fields.session, front, hnonce,
    hissued, hexpires, hscope, hkey, List.append_assoc, List.cons_append, List.nil_append]

theorem newline_notMem_urlsafe (bytes : List UInt8) : '\n' ∉ urlsafe_b64encode bytes := by
  have hletter (n : ℕ) : letter n ≠ '\n' := by
    have hall : ∀ k < 64, URLSAFE.getD k 'A' ≠ '\n' := by decide +kernel
    exact hall (n % 64) (Nat.mod_lt n (by decide))
  induction bytes using urlsafe_b64encode.induct with
  | case1 => exact List.not_mem_nil
  | case2 a => simp [urlsafe_b64encode, (hletter _).symm]
  | case3 a b => simp [urlsafe_b64encode, (hletter _).symm]
  | case4 a b c rest ih => simp [urlsafe_b64encode, (hletter _).symm, ih]

theorem newline_notMem_isoformat (t : ℤ) : '\n' ∉ isoformat t := by
  unfold isoformat
  split
  next =>
      intro h
      exact absurd (mem_isoformat h) (by decide)
  next => exact List.not_mem_nil

theorem expires_not_infix {s : Text} (h : (fromisoformat s).isSome) : ¬ '\n' :: EXPIRES <:+: s := by
  intro hplace
  obtain ⟨t, ht⟩ := Option.isSome_iff_exists.mp h
  have hothers := (hplace.sublist.filter fun c => !iso_char c).length_le
  have htwo : 2 ≤ (('\n' :: EXPIRES).filter fun c => !iso_char c).length := by decide
  have hone := others_le_one ht
  omega

theorem toLower_ne_newline {c : Char} (h : c ≠ '\n') : c.toLower ≠ '\n' := by
  intro hlower
  unfold Char.toLower at hlower
  split at hlower
  next hupper =>
      have hval : c.val + 32 = 10 := congrArg Char.val hlower
      have hcode := congrArg UInt32.toNat hval
      have hlow := UInt32.le_iff_toNat_le.mp hupper.1
      have hhigh := UInt32.le_iff_toNat_le.mp hupper.2
      rw [UInt32.toNat_add] at hcode
      simp at hcode hlow hhigh
      omega
  next => exact h hlower

theorem newline_notMem_hexAddress {a : Text} (h : HexAddress a) : '\n' ∉ a := by
  obtain ⟨digits, rfl, -, hdigits⟩ := h
  intro hmem
  rcases List.mem_append.mp hmem with hmark | hdigit
  · exact absurd hmark (by decide)
  · exact absurd (List.all_eq_true.mp hdigits _ hdigit) (by decide)

theorem newline_notMem_of_lower {a b : Text} (ha : '\n' ∉ a) (h : lower a = lower b) :
    '\n' ∉ b := by
  intro hb
  have hlower : '\n' ∈ lower a := h ▸ List.mem_map_of_mem hb
  obtain ⟨c, hc, heq⟩ := List.mem_map.mp hlower
  exact toLower_ne_newline (fun hnew => ha (hnew ▸ hc)) heq

/-- What the fields of an accepted request are. -/
structure Plain (f : Fields) : Prop where
  chain : f.chain = "0g-mainnet".toList
  address : '\n' ∉ f.address
  nonce : '\n' ∉ f.nonce
  issued_at : '\n' ∉ f.issued_at
  session_expires_at : ¬ '\n' :: EXPIRES <:+: f.session_expires_at

theorem get_verifier_inv {chain : Text} {verifier : Text → Text → Text → Text → Bool}
    (h : get_verifier recover chain = some verifier) :
    chain = "0g-mainnet".toList ∧ verifier = verify_evm_siwe recover := by
  rw [get_verifier, VERIFIERS, List.lookup_cons, List.lookup_nil] at h
  cases hchain : chain == "0g-mainnet".toList with
  | true =>
      rw [hchain] at h
      exact ⟨beq_iff_eq.mp hchain, (Option.some.inj h).symm⟩
  | false =>
      rw [hchain] at h
      cases h

theorem signed_by_address {address message signature pubkey : Text}
    (h : verify_evm_siwe recover address message signature pubkey = true) :
    ∃ a, recover message signature = some a ∧ lower a = lower address := by
  rw [verify_evm_siwe] at h
  cases hrecovered : recover message signature with
  | some a =>
      rw [hrecovered] at h
      exact ⟨a, rfl, of_decide_eq_true h⟩
  | none =>
      rw [hrecovered] at h
      cases h

theorem Accepted.plain (hrecover : ∀ message signature a,
    recover message signature = some a → HexAddress a) {f : Fields}
    (h : Accepted settings recover f) : Plain f := by
  obtain ⟨⟨tok, hnonce⟩, expires_at, created_at, signature, pubkey, now, used_at, expires, hissued,
    hverify⟩ := h
  obtain ⟨hexpires, verifier, hverifier, hok⟩ := verified_inv hverify
  obtain ⟨hchain, rfl⟩ := get_verifier_inv hverifier
  obtain ⟨a, ha, haddress⟩ := signed_by_address hok
  exact {
    chain := hchain
    address := newline_notMem_of_lower (newline_notMem_hexAddress (hrecover _ _ _ ha)) haddress
    nonce := hnonce ▸ newline_notMem_urlsafe _
    issued_at := hissued ▸ newline_notMem_isoformat _
    session_expires_at := expires_not_infix hexpires }

/-- A text says all of its fields, but for where the session key ends and its scope
begins. -/
theorem session_eq_of_message {f g : Fields} (hf : Plain f) (hg : Plain g)
    (h : g.message settings recover = f.message settings recover) :
    g.session = f.session ∧ g.chain = f.chain ∧ g.address = f.address ∧ g.nonce = f.nonce ∧
      g.issued_at = f.issued_at ∧ g.session_expires_at = f.session_expires_at := by
  rw [message_eq, message_eq] at h
  obtain ⟨h, hexpires⟩ := marker_last (by decide) hg.session_expires_at hf.session_expires_at h
  obtain ⟨h, hissued⟩ := marker_last (by decide) (not_infix_of_notMem hg.issued_at)
    (not_infix_of_notMem hf.issued_at) h
  obtain ⟨h, hnonce⟩ := marker_last (by decide) (not_infix_of_notMem hg.nonce)
    (not_infix_of_notMem hf.nonce) h
  have hchain : g.chain = f.chain := hg.chain.trans hf.chain.symm
  rw [Fields.head, Fields.head, hchain] at h
  obtain ⟨haddress, h⟩ := marker_first List.not_mem_nil (not_infix_of_notMem hg.address)
    (not_infix_of_notMem hf.address) (List.append_cancel_left h)
  exact ⟨List.append_cancel_left h, hchain, haddress, hnonce, hissued, hexpires⟩

theorem verify_signature_of_message {env : Env} {row : AuthNonce} {body : VerifyRequest}
    {pub scope : Text} (h : build_signin_message env body.chain body.address body.nonce pub scope
        (env.isoformat row.created_at) body.session_expires_at =
      build_signin_message env body.chain body.address body.nonce body.session_pub
        body.session_scope (env.isoformat row.created_at) body.session_expires_at) (now : ℕ → ℤ) :
    verify_signature env row { body with session_pub := pub, session_scope := scope } now =
      verify_signature env row body now := by
  simp only [verify_signature, h]

/-- A request for another session that has the same text is accepted with it. -/
theorem Accepted.of_session {f : Fields} (h : Accepted settings recover f) {pub scope : Text}
    (hsession : pub ++ ('\n' :: SCOPE ++ scope) = f.session) :
    Accepted settings recover { f with session_pub := pub, session_scope := scope } ∧
      Fields.message settings recover { f with session_pub := pub, session_scope := scope } =
        f.message settings recover := by
  have hmessage : Fields.message settings recover
      { f with session_pub := pub, session_scope := scope } = f.message settings recover := by
    rw [message_eq, message_eq, Fields.head, Fields.head]
    simp only [Fields.session] at hsession ⊢
    rw [hsession]
  obtain ⟨hnonce, expires_at, created_at, signature, pubkey, now, used_at, expires, hissued,
    hverify⟩ := h
  refine ⟨⟨hnonce, expires_at, created_at, signature, pubkey, now, used_at, expires, hissued, ?_⟩,
    hmessage⟩
  rw [← hverify]
  apply @verify_signature_of_message _ _ (f.body signature pubkey) pub scope
  simp only [Fields.message, hissued] at hmessage
  exact hmessage

theorem text_determines_iff (settings : Settings) (recover : Recover)
    (hrecover : ∀ message signature a, recover message signature = some a → HexAddress a)
    (f : Fields) (hf : Accepted settings recover f) :
    (∀ g, Accepted settings recover g → g.message settings recover = f.message settings recover →
      g = f) ↔
    ¬ "\nScope: ".toList <:+: f.session_pub ∧ ¬ "\nScope: ".toList <:+: f.session_scope := by
  have hparted : SCOPE.contains '\n' = false := by decide
  have hscope : '\n' ∉ SCOPE := by simpa using hparted
  refine Iff.trans ?_ (parted_once_iff hscope)
  constructor
  · intro hall pub scope hsession
    obtain ⟨haccepted, hmessage⟩ := hf.of_session hsession
    have hsame := hall _ haccepted hmessage
    exact ⟨congrArg Fields.session_pub hsame, congrArg Fields.session_scope hsame⟩
  · intro hall g hg hmessage
    obtain ⟨hsession, hchain, haddress, hnonce, hissued, hexpires⟩ :=
      session_eq_of_message (hf.plain hrecover) (hg.plain hrecover) hmessage
    obtain ⟨hpub, hscope⟩ := hall _ _ hsession
    cases f
    cases g
    subst hchain haddress hnonce hissued hexpires hpub hscope
    rfl

def one_chain : Settings := ⟨["0g-mainnet".toList], DAY, "artic.trade".toList⟩

def wallet : Text := "0x".toList ++ List.replicate 40 'a'

def signer : Recover := fun _ _ => some wallet

theorem signer_hexAddress (message signature a : Text) (h : signer message signature = some a) :
    HexAddress a := by
  obtain rfl := Option.some.inj h
  exact ⟨_, rfl, by decide, by decide⟩

/-- The first of January 2025. -/
def new_year : ℤ := 63871286400000000

def login (session_pub session_scope : Text) : Fields where
  chain := "0g-mainnet".toList
  address := wallet
  nonce := generate_nonce fun _ => 0
  session_pub := session_pub
  session_scope := session_scope
  issued_at := isoformat new_year
  session_expires_at := "2025-01-01T12:00:00.000Z".toList

theorem accepted_login {session_pub session_scope : Text}
    (h : verify_signature (env one_chain signer)
      (issued (login session_pub session_scope).address (login session_pub session_scope).chain
        (login session_pub session_scope).nonce (new_year + 1) new_year)
      ((login session_pub session_scope).body [] []) (fun _ => new_year) =
        .verified new_year (new_year + 43200000000)) :
    Accepted one_chain signer (login session_pub session_scope) :=
  ⟨⟨fun _ => 0, rfl⟩, _, new_year, [], [], _, _, _, rfl, h⟩

theorem text_determines_login :
    (∀ g, Accepted one_chain signer g → g.message one_chain signer =
        (login "A1".toList "authenticated-actions".toList).message one_chain signer →
      g = login "A1".toList "authenticated-actions".toList) ↔
    ¬ "\nScope: ".toList <:+: "A1".toList ∧
      ¬ "\nScope: ".toList <:+: "authenticated-actions".toList :=
  text_determines_iff one_chain signer signer_hexAddress
    (login "A1".toList "authenticated-actions".toList) (accepted_login (by decide))

theorem one_text_two_sessions :
    ¬ ∀ (settings : Settings) (recover : Recover),
      (∀ message signature a, recover message signature = some a → HexAddress a) →
      ∀ f g, Accepted settings recover f → Accepted settings recover g →
        f.message settings recover = g.message settings recover → f = g := by
  intro h
  have hsame := h one_chain signer signer_hexAddress
    (login "K\nScope: S".toList "T".toList) (login "K".toList "S\nScope: T".toList)
    (accepted_login (by decide +kernel)) (accepted_login (by decide +kernel)) (by decide +kernel)
  exact absurd (congrArg Fields.session_pub hsame) (by decide)

end ArticTrader.SigninMessages
