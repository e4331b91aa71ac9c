import ArticTrader.LoginNonce

/-!
The end of a session key. A request of `DELETE /auth/session` is signed with the key
as any other, loads the row once more and stamps it as revoked. Other requests may be
under way on the same key, and the key expires by the clock.
-/

namespace ArticTrader.SessionRevocation

open ArticTrader.ConcurrentCalls
open ArticTrader.LabelledRuns
open ArticTrader.PythonText (Text)
open ArticTrader.SessionNonce (AuthSessionKey CanonicalRequest Primitives Request Storable
  bump_nonce_atomic bump_nonce_atomic_cases canonical_request load_active_session
  load_active_session_some require_session_key)

/-- Where a request stands. One that revokes the key has still to commit that once it is
`reloaded`. -/
inductive Phase where
  | signed (phase : SessionNonce.Phase)
  | reloaded
  | ended
  deriving DecidableEq, Repr

inductive Step (ι : Type*) where
  | load (i : ι) (now : ℤ)
  | bump (i : ι)
  | commit (i : ι)
  | reload (i : ι) (now : ℤ)
  | revoke (i : ι) (now : ℤ)
  deriving DecidableEq, Repr

variable {ι : Type*}

abbrev State (ι : Type*) := System ι AuthSessionKey Phase

def initial (row : AuthSessionKey) : State ι := { shared := row, calls := fun _ => .signed .idle }

/-- The dependency has let the request through to its route. -/
def Phase.admitted : Phase → Bool
  | .signed (.accepted _) => true
  | .reloaded => true
  | .ended => true
  | _ => false

/-- The header of the nonce has this number. -/
def Numbered (P : Primitives) (r : Request) (nonce : ℤ) : Prop :=
  ∃ raw_nonce, r.raw_nonce = some raw_nonce ∧ P.int raw_nonce = some nonce

/-- The request carries a signature over itself that the key of the row verifies. -/
def Signed (P : Primitives) (row : AuthSessionKey) (r : Request) : Prop :=
  ∃ nonce signature, Numbered P r nonce ∧ r.signature = some signature ∧
    P.verify_session_signature row.session_pub (canonical_request P r row.id nonce) signature = true

def Unrevoked (past : List (Step ι)) : Prop := ∀ j now, .revoke j now ∉ past

/-- The request has loaded the row before it expired and before any revocation. -/
def LoadedLive (row : AuthSessionKey) (past : List (Step ι)) (i : ι) : Prop :=
  ∃ before now after, past = before ++ .load i now :: after ∧ now < row.expires_at ∧
    Unrevoked before

variable [DecidableEq ι]

/-- `revoke_current_session` for the requests that `deletes` names, and another route
behind the same dependency for the others. -/
def step (P : Primitives) (requests : ι → Request) (deletes : ι → Bool) (s : State ι) :
    Step ι → Option (State ι)
  | .load i now =>
      match s.calls i with
      | .signed .idle => some (s.set i (.signed (require_session_key P s.shared (requests i) now)))
      | _ => none
  | .bump i =>
      match s.calls i with
      | .signed (.loaded sess nonce signature) =>
          some (s.set i (.signed (bump_nonce_atomic P (requests i) sess nonce signature)))
      | _ => none
  | .commit i =>
      match s.calls i with
      | .signed (.bumped nonce) =>
          if Storable nonce then
            some ((s.write { s.shared with last_nonce := nonce }).set i (.signed (.accepted nonce)))
          else some (s.set i (.signed (.failed 500)))
      | _ => none
  | .reload i now =>
      match s.calls i with
      | .signed (.accepted _) =>
          if deletes i then
            match load_active_session s.shared ((requests i).session_id.getD [])
              (requests i).user_id now with
            | some _ => some (s.set i .reloaded)
            | none => some (s.set i .ended)
          else none
      | _ => none
  | .revoke i now =>
      match s.calls i with
      | .reloaded => some ((s.write { s.shared with revoked_at := some now }).set i .ended)
      | _ => none

variable {P : Primitives} {requests : ι → Request} {deletes : ι → Bool} {row : AuthSessionKey}

/-- The request has still to be signed on the row, or is signed. -/
def Holds (P : Primitives) (row : AuthSessionKey) (r : Request) (past : List (Step ι)) (i : ι) :
    Phase → Prop
  | .signed (.loaded sess nonce signature) =>
      (Numbered P r nonce ∧ r.signature = some signature) ∧ sess.session_pub = row.session_pub ∧
        sess.id = row.id ∧ LoadedLive row past i
  | .signed (.bumped _) | .signed (.accepted _) | .reloaded | .ended =>
      Signed P row r ∧ LoadedLive row past i
  | _ => True

structure Kept (P : Primitives) (requests : ι → Request) (deletes : ι → Bool)
    (row : AuthSessionKey) (w : State ι × List (Step ι)) : Prop where
  expires_at : w.1.shared.expires_at = row.expires_at
  session_pub : w.1.shared.session_pub = row.session_pub
  id : w.1.shared.id = row.id
  revoked : w.1.shared.revoked_at = none ↔ Unrevoked w.2
  revoker : w.1.shared.revoked_at ≠ none → ∃ j, deletes j = true ∧ w.1.calls j = .ended
  reloaded : ∀ i, w.1.calls i = .reloaded → deletes i = true
  holds : ∀ i, Holds P row (requests i) w.2 i (w.1.calls i)

omit [DecidableEq ι] in
theorem unrevoked_concat {past : List (Step ι)} {e : Step ι} (he : ∀ j now, e ≠ .revoke j now) :
    Unrevoked (past ++ [e]) ↔ Unrevoked past := by
  constructor
  · intro h j now hmem
    exact h j now (List.mem_append_left _ hmem)
  · intro h j now hmem
    rcases List.mem_append.mp hmem with hmem | hmem
    · exact h j now hmem
    · exact he j now (List.mem_singleton.mp hmem).symm

omit [DecidableEq ι] in
theorem LoadedLive.concat {past : List (Step ι)} {i : ι} (h : LoadedLive row past i) (e : Step ι) :
    LoadedLive row (past ++ [e]) i := by
  obtain ⟨before, now, after, rfl, hnow, hbefore⟩ := h
  exact ⟨before, now, after ++ [e], by simp, hnow, hbefore⟩

omit [DecidableEq ι] in
theorem Holds.concat {r : Request} {past : List (Step ι)} {i : ι} {p : Phase}
    (h : Holds P row r past i p) (e : Step ι) : Holds P row r (past ++ [e]) i p := by
  cases p with
  | signed phase =>
      cases phase with
      | loaded sess nonce signature => exact ⟨h.1, h.2.1, h.2.2.1, h.2.2.2.concat e⟩
      | bumped nonce => exact ⟨h.1, h.2.concat e⟩
      | accepted nonce => exact ⟨h.1, h.2.concat e⟩
      | _ => trivial
  | reloaded => exact ⟨h.1, h.2.concat e⟩
  | ended => exact ⟨h.1, h.2.concat e⟩

theorem load_active_session_live {row sess : AuthSessionKey} {session_id user_id : Text}
    {now : ℤ} (h : load_active_session row session_id user_id now = some sess) :
    sess = row ∧ row.revoked_at = none ∧ now < row.expires_at := by
  have heq := load_active_session_some h
  unfold load_active_session at h
  split_ifs at h with _ hrevoked hexpired
  exact ⟨heq, not_not.mp hrevoked, not_le.mp hexpired⟩

/-- The dependency lets a request past the load on a live row only. -/
theorem require_session_key_live (P : Primitives) (row : AuthSessionKey) (r : Request) (now : ℤ) :
    (∃ nonce signature, require_session_key P row r now = .loaded row nonce signature ∧
      (Numbered P r nonce ∧ r.signature = some signature) ∧ row.revoked_at = none ∧
        now < row.expires_at) ∨
      ∃ status_code, require_session_key P row r now = .failed status_code := by
  unfold require_session_key
  split
  next session_id raw_nonce signature hid hraw hsignature =>
      split_ifs
      · exact .inr ⟨401, rfl⟩
      · split
        · exact .inr ⟨400, rfl⟩
        · rename_i hnonce
          split
          · exact .inr ⟨401, rfl⟩
          · rename_i hload
            obtain ⟨rfl, hrevoked, hexpired⟩ := load_active_session_live hload
            exact .inl ⟨_, signature, rfl, ⟨⟨raw_nonce, hraw, hnonce⟩, hsignature⟩, hrevoked,
              hexpired⟩
  next => exact .inr ⟨401, rfl⟩

theorem bump_nonce_atomic_verified (P : Primitives) (r : Request) (sess : AuthSessionKey)
    (nonce : ℤ) (signature : Text) :
    (P.verify_session_signature sess.session_pub (canonical_request P r sess.id nonce) signature =
        true ∧ bump_nonce_atomic P r sess nonce signature = .bumped nonce) ∨
      bump_nonce_atomic P r sess nonce signature = .failed 401 := by
  unfold bump_nonce_atomic
  split_ifs with hverify hle
  · exact .inr rfl
  · exact .inr rfl
  · exact .inl ⟨Bool.not_eq_false _ |>.mp hverify, rfl⟩

omit [DecidableEq ι] in
theorem initial_kept (hrow : row.revoked_at = none) :
    Kept P requests deletes row (initial row, []) where
  expires_at := rfl
  session_pub := rfl
  id := rfl
  revoked := iff_of_true hrow (fun _ _ => List.not_mem_nil)
  revoker := fun h => absurd hrow h
  reloaded := fun _ h => by cases h
  holds := fun _ => trivial

/-- A step that moves one request on, and of the row at most its nonce. -/
theorem Kept.move {s : State ι} {past : List (Step ι)} (h : Kept P requests deletes row (s, past))
    {e : Step ι} {i : ι} {p : Phase} {d : AuthSessionKey} (he : ∀ j now, e ≠ .revoke j now)
    (hi : s.calls i ≠ .ended) (hexpires : d.expires_at = s.shared.expires_at)
    (hpub : d.session_pub = s.shared.session_pub) (hid : d.id = s.shared.id)
    (hrevoked : d.revoked_at = s.shared.revoked_at) (hreloaded : p = .reloaded → deletes i = true)
    (hp : Holds P row (requests i) (past ++ [e]) i p) :
    Kept P requests deletes row ((s.write d).set i p, past ++ [e]) where
  expires_at := hexpires.trans h.expires_at
  session_pub := hpub.trans h.session_pub
  id := hid.trans h.id
  revoked := by
    rw [unrevoked_concat he, ← h.revoked, System.set_shared, System.write_shared, hrevoked]
  revoker := by
    intro hne
    rw [System.set_shared, System.write_shared, hrevoked] at hne
    obtain ⟨j, hj, hended⟩ := h.revoker hne
    refine ⟨j, hj, ?_⟩
    rw [System.set_of_ne _ _ (by rintro rfl; exact hi hended)]
    exact hended
  reloaded :=
    System.forall_set (P := fun (j : ι) (p : Phase) => p = .reloaded → deletes j = true) hreloaded
      fun j _ => h.reloaded j
  holds := System.forall_set (P := fun (j : ι) (p : Phase) =>
    Holds P row (requests j) (past ++ [e]) j p) hp
    fun j _ => (h.holds j).concat e

theorem Kept.step {w w' : State ι × List (Step ι)} {e : Step ι}
    (h : Kept P requests deletes row w)
    (hstep : recorded (step P requests deletes) w e = some w') :
    Kept P requests deletes row w' := by
  obtain ⟨s, past⟩ := w
  obtain ⟨s', past'⟩ := w'
  obtain ⟨hs, hpast⟩ := recorded_some_iff.mp hstep
  obtain rfl : past' = past ++ [e] := hpast
  replace hs : SessionRevocation.step P requests deletes s e = some s' := hs
  cases e with
  | load i now =>
      cases hi : s.calls i with
      | signed phase =>
          cases phase with
          | idle =>
              simp only [SessionRevocation.step, hi, Option.some.injEq] at hs
              subst hs
              have hlive : Holds P row (requests i) (past ++ [.load i now]) i
                  (.signed (require_session_key P s.shared (requests i) now)) := by
                rcases require_session_key_live P s.shared (requests i) now with
                  ⟨nonce, signature, heq, hsignature, hrevoked, hexpired⟩ | ⟨status_code, heq⟩
                · rw [heq]
                  refine ⟨hsignature, h.session_pub, h.id, past, now, [], rfl, ?_, ?_⟩
                  · exact hexpired.trans_eq h.expires_at
                  · exact h.revoked.mp hrevoked
                · rw [heq]
                  trivial
              exact h.move nofun (by rw [hi]; nofun) rfl rfl rfl rfl nofun hlive
          | _ => simp [SessionRevocation.step, hi] at hs
      | _ => simp [SessionRevocation.step, hi] at hs
  | bump i =>
      cases hi : s.calls i with
      | signed phase =>
          cases phase with
          | loaded sess nonce signature =>
              simp only [SessionRevocation.step, hi, Option.some.injEq] at hs
              subst hs
              have hloaded := h.holds i
              rw [hi] at hloaded
              obtain ⟨hsignature, hpub, hid, hlive⟩ := hloaded
              have hbumped : Holds P row (requests i) (past ++ [.bump i]) i
                  (.signed (bump_nonce_atomic P (requests i) sess nonce signature)) := by
                rcases bump_nonce_atomic_verified P (requests i) sess nonce signature with
                  ⟨hverify, heq⟩ | heq
                · rw [heq]
                  rw [hpub, hid] at hverify
                  exact ⟨⟨nonce, signature, hsignature.1, hsignature.2, hverify⟩, hlive.concat _⟩
                · rw [heq]
                  trivial
              exact h.move nofun (by rw [hi]; nofun) rfl rfl rfl rfl nofun hbumped
          | _ => simp [SessionRevocation.step, hi] at hs
      | _ => simp [SessionRevocation.step, hi] at hs
  | commit i =>
      cases hi : s.calls i with
      | signed phase =>
          cases phase with
          | bumped nonce =>
              have hbumped := h.holds i
              rw [hi] at hbumped
              have hended : s.calls i ≠ .ended := by rw [hi]; nofun
              simp only [SessionRevocation.step, hi] at hs
              split_ifs at hs with hstorable
              · cases hs
                exact h.move nofun hended rfl rfl rfl rfl nofun
                  ⟨hbumped.1, hbumped.2.concat _⟩
              · cases hs
                exact h.move nofun hended rfl rfl rfl rfl nofun trivial
          | _ => simp [SessionRevocation.step, hi] at hs
      | _ => simp [SessionRevocation.step, hi] at hs
  | reload i now =>
      cases hi : s.calls i with
      | signed phase =>
          cases phase with
          | accepted nonce =>
              have haccepted := h.holds i
              rw [hi] at haccepted
              have hended : s.calls i ≠ .ended := by rw [hi]; nofun
              simp only [SessionRevocation.step, hi] at hs
              split_ifs at hs with hdeletes
              split at hs
              · cases hs
                exact h.move nofun hended rfl rfl rfl rfl (fun _ => hdeletes)
                  ⟨haccepted.1, haccepted.2.concat _⟩
              · cases hs
                exact h.move nofun hended rfl rfl rfl rfl nofun
                  ⟨haccepted.1, haccepted.2.concat _⟩
          | _ => simp [SessionRevocation.step, hi] at hs
      | _ => simp [SessionRevocation.step, hi] at hs
  | revoke i now =>
      cases hi : s.calls i with
      | reloaded =>
          simp only [SessionRevocation.step, hi, Option.some.injEq] at hs
          subst hs
          have hreloaded := h.holds i
          rw [hi] at hreloaded
          have hended : Holds P row (requests i) (past ++ [.revoke i now]) i .ended :=
            ⟨hreloaded.1, hreloaded.2.concat _⟩
          constructor
          · exact h.expires_at
          · exact h.session_pub
          · exact h.id
          · apply iff_of_false (by simp)
            intro hnone
            exact hnone i now (List.mem_append_right _ (List.mem_singleton_self _))
          · intro _
            exact ⟨i, h.reloaded i hi, System.set_self ..⟩
          · exact System.forall_set
              (P := fun (j : ι) (p : Phase) => p = .reloaded → deletes j = true) nofun
              fun j _ => h.reloaded j
          · exact System.forall_set
              (P := fun (j : ι) (p : Phase) =>
                Holds P row (requests j) (past ++ [.revoke i now]) j p)
              hended fun j _ => (h.holds j).concat _
      | _ => simp [SessionRevocation.step, hi] at hs

theorem run_kept (hrow : row.revoked_at = none) {t : State ι} {es : List (Step ι)}
    (hrun : run (step P requests deletes) (initial row) es = some t) :
    Kept P requests deletes row (t, es) :=
  run_invariant (P := Kept P requests deletes row) (fun _ _ _ h hstep => h.step hstep)
    (run_recorded hrun []) (initial_kept hrow)

omit [DecidableEq ι] in
theorem Kept.of_admitted {t : State ι} {es : List (Step ι)}
    (h : Kept P requests deletes row (t, es)) {i : ι} (hi : (t.calls i).admitted = true) :
    Signed P row (requests i) ∧ LoadedLive row es i := by
  have hholds := h.holds i
  change Holds P row (requests i) es i (t.calls i) at hholds
  cases hphase : t.calls i with
  | signed phase =>
      rw [hphase] at hi hholds
      cases phase with
      | accepted nonce => exact hholds
      | _ => cases hi
  | reloaded =>
      rw [hphase] at hholds
      exact hholds
  | ended =>
      rw [hphase] at hholds
      exact hholds

/-- The first request ends the key while the second, on the next nonce, is under way. -/
def closing_steps (first second : ι) : List (Step ι) :=
  [.load first 1, .load second 1, .bump first, .commit first, .reload first 2, .revoke first 3]

def closes (first i : ι) : Bool := i = first

section Login

open ArticTrader.LoginNonce (Database Env VerifyRequest)

variable {env : Env} {bodies : ι → VerifyRequest}

/-- The handler has checked the expiry of the session against its clock. -/
def Bounded (env : Env) (past : List (LoginNonce.Step ι)) (i : ι) (session_expires : ℤ) : Prop :=
  ∃ now, .read i now ∈ past ∧ now 1 < session_expires ∧
    session_expires ≤ now 2 + env.AUTH_SESSION_TTL_SECONDS

/-- The expiry that a handler is to put into the session key. -/
def expiry : LoginNonce.Phase → Option ℤ
  | .verified _ session_expires => some session_expires
  | .marked _ session_expires _ => some session_expires
  | .upserted _ session_expires _ => some session_expires
  | .provisioning _ session_expires _ => some session_expires
  | .provisioned _ session_expires _ => some session_expires
  | _ => none

structure Issued (env : Env) (w : LoginNonce.State ι × List (LoginNonce.Step ι)) : Prop where
  pending : ∀ i, ∀ session_expires ∈ expiry (w.1.calls i), Bounded env w.2 i session_expires
  issued : ∀ i key, (i, key) ∈ w.1.shared.sessions →
    key.revoked_at = none ∧ Bounded env w.2 i key.expires_at

omit [DecidableEq ι] in
theorem Bounded.concat {past : List (LoginNonce.Step ι)} {i : ι} {session_expires : ℤ}
    (h : Bounded env past i session_expires) (e : LoginNonce.Step ι) :
    Bounded env (past ++ [e]) i session_expires := by
  obtain ⟨now, hmem, hbounds⟩ := h
  exact ⟨now, List.mem_append_left _ hmem, hbounds⟩

omit [DecidableEq ι] in
theorem initial_issued (env : Env) (nonce : LoginNonce.AuthNonce) (user : Option Text) (vm : Bool) :
    Issued env ((LoginNonce.initial nonce user vm : LoginNonce.State ι), []) where
  pending := fun _ _ hmem => by simp [LoginNonce.initial, expiry] at hmem
  issued := fun _ _ hmem => by simp [LoginNonce.initial] at hmem

theorem verify_signature_bounded {row : LoginNonce.AuthNonce} {body : VerifyRequest} {now : ℕ → ℤ}
    {session_expires : ℤ}
    (h : session_expires ∈ expiry (LoginNonce.verify_signature env row body now)) :
    now 1 < session_expires ∧ session_expires ≤ now 2 + env.AUTH_SESSION_TTL_SECONDS := by
  unfold LoginNonce.verify_signature at h
  split_ifs at h
  · cases h
  · cases h
  · cases h
  · split at h
    · cases h
    · rename_i session_expires' hparsed
      split_ifs at h with hpast hlong
      · cases h
      · cases h
      · dsimp only at h
        split at h
        · cases h
        · split_ifs at h
          · cases h
            exact ⟨not_le.mp hpast, not_lt.mp hlong⟩
          · cases h

/-- A step that moves one handler on and adds no session key. -/
theorem Issued.move {s : LoginNonce.State ι} {past : List (LoginNonce.Step ι)}
    (h : Issued env (s, past)) {e : LoginNonce.Step ι} {i : ι} {p : LoginNonce.Phase}
    {d : Database ι} (hd : d.sessions = s.shared.sessions)
    (hp : ∀ session_expires ∈ expiry p, Bounded env (past ++ [e]) i session_expires) :
    Issued env ((s.write d).set i p, past ++ [e]) where
  pending := System.forall_set (P := fun (j : ι) (p : LoginNonce.Phase) =>
    ∀ session_expires ∈ expiry p, Bounded env (past ++ [e]) j session_expires) hp
      fun j _ session_expires hmem => (h.pending j session_expires hmem).concat e
  issued := by
    intro j key hmem
    rw [System.set_shared, System.write_shared, hd] at hmem
    exact ⟨(h.issued j key hmem).1, (h.issued j key hmem).2.concat e⟩

theorem Issued.keep {s : LoginNonce.State ι} {past : List (LoginNonce.Step ι)}
    (h : Issued env (s, past)) {e : LoginNonce.Step ι} {i : ι} {p p' : LoginNonce.Phase}
    {d : Database ι} (hi : s.calls i = p) (hd : d.sessions = s.shared.sessions)
    (hp : expiry p' = expiry p) : Issued env ((s.write d).set i p', past ++ [e]) := by
  apply h.move hd
  intro session_expires hmem
  rw [hp, ← hi] at hmem
  exact (h.pending i session_expires hmem).concat e

theorem Issued.fail {s : LoginNonce.State ι} {past : List (LoginNonce.Step ι)}
    (h : Issued env (s, past)) (e : LoginNonce.Step ι) (i : ι) :
    Issued env (s.fail i, past ++ [e]) :=
  h.move rfl nofun

theorem Issued.step {w w' : LoginNonce.State ι × List (LoginNonce.Step ι)} {e : LoginNonce.Step ι}
    (h : Issued env w) (hstep : recorded (LoginNonce.step env bodies) w e = some w') :
    Issued env w' := by
  obtain ⟨s, past⟩ := w
  obtain ⟨s', past'⟩ := w'
  obtain ⟨hs, hpast⟩ := recorded_some_iff.mp hstep
  obtain rfl : past' = past ++ [e] := hpast
  replace hs : LoginNonce.step env bodies s e = some s' := hs
  cases e with
  | read i now =>
      cases hi : s.calls i with
      | idle =>
          simp only [LoginNonce.step, hi, Option.some.injEq] at hs
          subst hs
          apply h.move (d := s.shared) rfl
          intro session_expires hmem
          exact ⟨now, List.mem_append_right _ (List.mem_singleton_self _),
            verify_signature_bounded hmem⟩
      | _ => simp [LoginNonce.step, hi] at hs
  | mark i =>
      cases hi : s.calls i with
      | verified used_at session_expires =>
          simp only [LoginNonce.step, hi] at hs
          split_ifs at hs
          cases hs
          exact h.keep hi rfl rfl
      | _ => simp [LoginNonce.step, hi] at hs
  | upsert i new_id =>
      cases hi : s.calls i with
      | marked used_at session_expires user =>
          cases user with
          | some user_id =>
              simp only [LoginNonce.step, hi, Option.some.injEq] at hs
              subst hs
              exact h.keep (d := s.shared) hi rfl rfl
          | none =>
              simp only [LoginNonce.step, hi] at hs
              split_ifs at hs
              · cases hs
                exact h.keep hi rfl rfl
              · cases hs
                exact h.fail _ i
      | _ => simp [LoginNonce.step, hi] at hs
  | provision i =>
      cases hi : s.calls i with
      | upserted used_at session_expires user_id =>
          simp only [LoginNonce.step, hi] at hs
          split_ifs at hs
          · cases hs
            exact h.keep (d := s.shared) hi rfl rfl
          · cases hs
            exact h.keep (d := s.shared) hi rfl rfl
      | _ => simp [LoginNonce.step, hi] at hs
  | commit_vm i =>
      cases hi : s.calls i with
      | provisioning used_at session_expires user_id =>
          simp only [LoginNonce.step, hi] at hs
          split_ifs at hs
          · cases hs
            exact h.fail _ i
          · cases hs
            exact h.keep hi rfl rfl
      | _ => simp [LoginNonce.step, hi] at hs
  | create_session i new_id =>
      cases hi : s.calls i with
      | provisioned uncommitted session_expires user_id =>
          simp only [LoginNonce.step, hi, Option.some.injEq] at hs
          subst hs
          have hbounded := (h.pending i session_expires (by rw [hi]; rfl)).concat
            (.create_session i new_id)
          constructor
          · exact System.forall_set (P := fun (j : ι) (p : LoginNonce.Phase) =>
              ∀ session_expires ∈ expiry p, Bounded env _ j session_expires)
              (fun _ h => absurd h (Option.not_mem_none _))
              fun j _ session_expires hmem => (h.pending j session_expires hmem).concat _
          · intro j key hmem
            rcases List.mem_cons.mp hmem with heq | hmem
            · cases heq
              exact ⟨rfl, hbounded⟩
            · exact ⟨(h.issued j key hmem).1, (h.issued j key hmem).2.concat _⟩
      | _ => simp [LoginNonce.step, hi] at hs
  | fail i =>
      simp only [LoginNonce.step] at hs
      split_ifs at hs
      cases hs
      exact h.fail _ i
  | elsewhere user_id =>
      simp only [LoginNonce.step] at hs
      split_ifs at hs
      cases hs
      exact ⟨fun i session_expires hmem => (h.pending i session_expires hmem).concat _,
        fun i key hmem => ⟨(h.issued i key hmem).1, (h.issued i key hmem).2.concat _⟩⟩

/-- A request that a key of a login admits was begun within the longest life of a session,
counted from a clock reading of that login. -/
theorem admitted_within_ttl {nonce : LoginNonce.AuthNonce} {user : Option Text} {vm : Bool}
    {logins : List (LoginNonce.Step ι)} {db : LoginNonce.State ι}
    (hlogins : run (LoginNonce.step env bodies) (LoginNonce.initial nonce user vm) logins = some db)
    {login : ι} {key : AuthSessionKey} (hkey : (login, key) ∈ db.shared.sessions)
    {es : List (Step ι)} {t : State ι}
    (hrun : run (step P requests deletes) (initial key) es = some t) :
    ∃ clock, .read login clock ∈ logins ∧ ∀ i, (t.calls i).admitted = true →
      ∃ now, .load i now ∈ es ∧ now < clock 2 + env.AUTH_SESSION_TTL_SECONDS := by
  have hissued : Issued env (db, logins) :=
    run_invariant (P := Issued env) (fun _ _ _ h hstep => h.step hstep) (run_recorded hlogins [])
      (initial_issued env nonce user vm)
  obtain ⟨hrevoked, clock, hread, -, hbound⟩ := hissued.issued login key hkey
  refine ⟨clock, hread, ?_⟩
  intro i hi
  obtain ⟨-, before, now, after, rfl, hnow, -⟩ := (run_kept hrevoked hrun).of_admitted hi
  exact ⟨now, List.mem_append_right _ List.mem_cons_self, hnow.trans_le hbound⟩

/-- The key of the login that runs to its end below. -/
def first_key : AuthSessionKey where
  id := "s".toList
  user_id := "u".toList
  session_pub := "session".toList
  scope := "authenticated-actions".toList
  expires_at := 50
  last_nonce := 0
  revoked_at := none

theorem admitted_within_ttl_sample :
    ∃ t, run (step SessionNonce.trusting SessionNonce.signed (closes 0)) (initial first_key)
        (closing_steps 0 1) = some t ∧
      ∃ clock, .read 0 clock ∈ LoginNonce.sequential_logins ∧
        ∀ i, (t.calls i).admitted = true → ∃ now, .load i now ∈ (closing_steps 0 1) ∧
          now < clock 2 + LoginNonce.mainnet.AUTH_SESSION_TTL_SECONDS := by
  have hlogins : run (LoginNonce.step LoginNonce.mainnet LoginNonce.login)
    (LoginNonce.initial LoginNonce.challenge none false) LoginNonce.sequential_logins =
      some _ := rfl
  have hkey : ((0 : Fin 2), first_key) ∈ [(0, first_key)] := List.mem_singleton_self _
  have hrun : run (step SessionNonce.trusting SessionNonce.signed (closes 0)) (initial first_key)
    (closing_steps 0 1) = some _ := rfl
  exact ⟨_, hrun, admitted_within_ttl hlogins hkey hrun⟩

end Login

end ArticTrader.SessionRevocation
