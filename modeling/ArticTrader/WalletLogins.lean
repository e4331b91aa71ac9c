import ArticTrader.SigninMessages
import Mathlib.Data.List.Nodup

/-!
Nonces and logins in a row: which user the requests that wallets sign come to.
-/

namespace ArticTrader.WalletLogins

open ArticTrader.LoginNonce (AuthNonce VerifyRequest build_signin_message issued verify_signature)
open ArticTrader.PythonText
open ArticTrader.SigninMessages

structure User where
  id : Text
  wallet_address : Text
  wallet_chain : Text
  deriving DecidableEq

/-- A login that has succeeded: who signed it, and the user it came to. -/
structure Login where
  chain : Text
  address : Text
  signer : Option Text
  user_id : Text
  deriving DecidableEq

structure State where
  auth_nonces : List AuthNonce
  users : List User
  logins : List Login

/-- A request, with the nonce that is drawn and the times it is given, or with the
readings of the clock and the id of a user that it makes. -/
inductive Request where
  | nonce (address chain : Text) (tok : Fin 32 → UInt8) (expires_at created_at : ℤ)
  | verify (body : VerifyRequest) (now : ℕ → ℤ) (new_id : Text)

variable (settings : Settings) (recover : Recover)

/-- The status, and the tables after the request. -/
def issue_nonce (s : State) (address chain : Text) (tok : Fin 32 → UInt8)
    (expires_at created_at : ℤ) : ℕ × State :=
  if address = [] ∨ chain = [] then (422, s)
  else if settings.AUTH_SUPPORTED_CHAINS.contains chain = false then (400, s)
  else if generate_nonce tok ∈ s.auth_nonces.map (·.nonce) then (500, s)
  else (200, { s with
    auth_nonces := s.auth_nonces ++
      [issued address chain (generate_nonce tok) expires_at created_at] })

def AuthNonce.matches (row : AuthNonce) (body : VerifyRequest) : Bool :=
  row.nonce = body.nonce && (row.address = body.address && row.chain = body.chain)

def User.matches (user : User) (body : VerifyRequest) : Bool :=
  user.wallet_address = body.address && user.wallet_chain = body.chain

/-- The user, and the table of users; `none` stands for an id that is taken. -/
def upsert_user (users : List User) (body : VerifyRequest) (new_id : Text) :
    Option (User × List User) :=
  match users.find? (User.matches · body) with
  | some user => some (user, users)
  | none =>
      if new_id ∈ users.map (·.id) then none
      else some (⟨new_id, body.address, body.chain⟩, users ++ [⟨new_id, body.address, body.chain⟩])

def signer (row : AuthNonce) (body : VerifyRequest) : Option Text :=
  recover (build_signin_message (env settings recover) body.chain body.address body.nonce
    body.session_pub body.session_scope (isoformat row.created_at) body.session_expires_at)
    body.signature

def mark_used (nonce : Text) (used_at : ℤ) (row : AuthNonce) : AuthNonce :=
  if row.nonce = nonce then { row with used_at := some used_at } else row

def verify (s : State) (body : VerifyRequest) (now : ℕ → ℤ) (new_id : Text) : ℕ × State :=
  if settings.AUTH_SUPPORTED_CHAINS.contains body.chain = false then (400, s)
  else
    match s.auth_nonces.find? (AuthNonce.matches · body) with
    | none => (401, s)
    | some row =>
        match verify_signature (env settings recover) row body now with
        | .verified used_at _ =>
            match upsert_user s.users body new_id with
            | some (user, users) => (200, {
                auth_nonces := s.auth_nonces.map (mark_used body.nonce used_at)
                users := users
                logins := s.logins ++
                  [⟨body.chain, body.address, signer settings recover row body, user.id⟩] })
            | none => (500, s)
        | .failed code => (code, s)
        | _ => (500, s)

def step (s : State) : Request → State
  | .nonce address chain tok expires_at created_at =>
      (issue_nonce settings s address chain tok expires_at created_at).2
  | .verify body now new_id => (verify settings recover s body now new_id).2

/-- The constraints of the table of users. -/
structure UniqueUsers (users : List User) : Prop where
  id : (users.map (·.id)).Nodup
  wallet : (users.map fun user => (user.wallet_address, user.wallet_chain)).Nodup

/-- A login has its user in the table, and was signed by the wallet of its address. -/
structure Sound (s : State) : Prop where
  users : UniqueUsers s.users
  user : ∀ l ∈ s.logins, ⟨l.user_id, l.address, l.chain⟩ ∈ s.users
  signer : ∀ l ∈ s.logins, ∃ a, l.signer = some a ∧ lower a = lower l.address

variable {settings recover}

theorem upsert_user_sound {users users' : List User} {body : VerifyRequest} {new_id : Text}
    {user : User} (h : upsert_user users body new_id = some (user, users'))
    (hunique : UniqueUsers users) :
    UniqueUsers users' ∧ users ⊆ users' ∧ user ∈ users' ∧ user.wallet_address = body.address ∧
      user.wallet_chain = body.chain := by
  unfold upsert_user at h
  cases hfind : users.find? (User.matches · body) with
  | some found =>
      rw [hfind] at h
      obtain ⟨rfl, rfl⟩ := Prod.mk.inj (Option.some.inj h)
      have hmatch := List.find?_some hfind
      rw [User.matches, Bool.and_eq_true, decide_eq_true_eq, decide_eq_true_eq] at hmatch
      exact ⟨hunique, List.Subset.refl _, List.mem_of_find?_eq_some hfind, hmatch⟩
  | none =>
      rw [hfind] at h
      obtain ⟨hfresh, h⟩ := Option.ite_none_left_eq_some.mp h
      obtain ⟨rfl, rfl⟩ := Prod.mk.inj (Option.some.inj h)
      refine ⟨⟨?_, ?_⟩, List.subset_append_left _ _, by simp, rfl, rfl⟩
      · rw [List.map_append, List.nodup_append']
        exact ⟨hunique.id, List.nodup_singleton _, List.disjoint_singleton.mpr hfresh⟩
      · rw [List.map_append, List.nodup_append']
        refine ⟨hunique.wallet, List.nodup_singleton _, List.disjoint_singleton.mpr ?_⟩
        intro hmem
        obtain ⟨user, huser, hsame⟩ := List.mem_map.mp hmem
        obtain ⟨haddress, hchain⟩ := Prod.mk.inj hsame
        have hnone := List.find?_eq_none.mp hfind user huser
        rw [User.matches, haddress, hchain] at hnone
        exact hnone (by simp)

theorem signer_of_verified {row : AuthNonce} {body : VerifyRequest} {now : ℕ → ℤ}
    {used_at session_expires : ℤ}
    (h : verify_signature (env settings recover) row body now = .verified used_at session_expires) :
    ∃ a, signer settings recover row body = some a ∧ lower a = lower body.address := by
  obtain ⟨-, verifier, hverifier, hok⟩ := verified_inv h
  obtain ⟨-, rfl⟩ := get_verifier_inv hverifier
  exact signed_by_address hok

theorem sound_issue_nonce {s : State} (hs : Sound s) (address chain : Text) (tok : Fin 32 → UInt8)
    (expires_at created_at : ℤ) :
    Sound (issue_nonce settings s address chain tok expires_at created_at).2 := by
  unfold issue_nonce
  split_ifs
  · exact hs
  · exact hs
  · exact hs
  · exact ⟨hs.users, hs.user, hs.signer⟩

theorem sound_verify {s : State} (hs : Sound s) (body : VerifyRequest) (now : ℕ → ℤ)
    (new_id : Text) : Sound (verify settings recover s body now new_id).2 := by
  unfold verify
  split
  next => exact hs
  split
  next => exact hs
  next row _ =>
      split
      next used_at expires hverified =>
          split
          next user users hupsert =>
              obtain ⟨hunique, hsub, hmem, haddress, hchain⟩ := upsert_user_sound hupsert hs.users
              refine ⟨hunique, fun l hl => ?_, fun l hl => ?_⟩
              · rcases List.mem_append.mp hl with hold | hnew
                · exact hsub (hs.user l hold)
                · rw [List.mem_singleton.mp hnew, ← haddress, ← hchain]
                  exact hmem
              · rcases List.mem_append.mp hl with hold | hnew
                · exact hs.signer l hold
                · rw [List.mem_singleton.mp hnew]
                  exact signer_of_verified hverified
          next => exact hs
      next => exact hs
      next => exact hs

theorem sound_foldl {s : State} (hs : Sound s) (es : List Request) :
    Sound (es.foldl (step settings recover) s) := by
  induction es generalizing s with
  | nil => exact hs
  | cons e es ih =>
      cases e with
      | nonce => exact ih (sound_issue_nonce hs ..)
      | verify => exact ih (sound_verify hs ..)

/-- The table of users when the first request comes. -/
structure Users where
  rows : List User
  unique : UniqueUsers rows

def start (auth_nonces : List AuthNonce) (users : Users) : State := ⟨auth_nonces, users.rows, []⟩

theorem sound_start (auth_nonces : List AuthNonce) (users : Users) :
    Sound (start auth_nonces users) where
  users := users.unique
  user := fun _ h => absurd h List.not_mem_nil
  signer := fun _ h => absurd h List.not_mem_nil

theorem one_user_iff (settings : Settings) (recover : Recover) (auth_nonces : List AuthNonce)
    (users : Users) (es : List Request) :
    let s := es.foldl (step settings recover) (start auth_nonces users)
    (∀ l ∈ s.logins, ∃ a, l.signer = some a ∧ lower a = lower l.address) ∧
      ((∀ l ∈ s.logins, ∀ m ∈ s.logins, l.chain = m.chain → l.signer = m.signer →
          l.user_id = m.user_id) ↔
        ∀ l ∈ s.logins, ∀ m ∈ s.logins, l.chain = m.chain → l.signer = m.signer →
          l.address = m.address) := by
  intro s
  have hs : Sound s := sound_foldl (sound_start auth_nonces users) es
  refine ⟨hs.signer, forall₄_congr fun l hl m hm => forall₂_congr fun hchain _ => ?_⟩
  have hl' := hs.user l hl
  have hm' := hs.user m hm
  constructor
  · intro hid
    exact congrArg User.wallet_address (List.inj_on_of_nodup_map hs.users.id hl' hm' hid)
  · intro haddress
    exact congrArg User.id
      (List.inj_on_of_nodup_map hs.users.wallet hl' hm' (Prod.ext haddress hchain))

def spelled (a : Char) : Text := "0x".toList ++ List.replicate 40 a

def verify_request (a : Char) (tok : Fin 32 → UInt8) (new_id : Text) : Request :=
  .verify ⟨spelled a, "0g-mainnet".toList, generate_nonce tok, [], [], "K".toList, "S".toList,
    "2025-01-01T12:00:00.000Z".toList⟩ (fun _ => new_year) new_id

/-- The wallet asks for a nonce and logs in, spelling its address with `a`. -/
def login_with (a : Char) (tok : Fin 32 → UInt8) (new_id : Text) : List Request :=
  [.nonce (spelled a) "0g-mainnet".toList tok (new_year + 1) new_year,
    verify_request a tok new_id]

theorem two_users_one_wallet :
    ¬ ∀ (settings : Settings) (recover : Recover) (auth_nonces : List AuthNonce) (users : Users)
      (es : List Request),
      let s := es.foldl (step settings recover) (start auth_nonces users)
      ∀ l ∈ s.logins, ∀ m ∈ s.logins, l.chain = m.chain → l.signer = m.signer →
        l.user_id = m.user_id := by
  intro h
  have hsame := h one_chain SigninMessages.signer [] ⟨[], List.nodup_nil, List.nodup_nil⟩
    (login_with 'A' (fun _ => 0) "1".toList ++ login_with 'a' (fun _ => 1) "2".toList)
    ⟨"0g-mainnet".toList, spelled 'A', some (spelled 'a'), "1".toList⟩ (by decide)
    ⟨"0g-mainnet".toList, spelled 'a', some (spelled 'a'), "2".toList⟩ (by decide)
    rfl rfl
  exact absurd hsame (by decide)

end ArticTrader.WalletLogins
