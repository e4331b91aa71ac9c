import ArticTrader.SessionNonce

/-!
Concurrent `/auth/verify` requests that carry one login nonce. Every handler has
a transaction of its own under READ COMMITTED. The `UPDATE` that marks the nonce
used is sent with the next query and locks the row until the handler's commit.
-/

namespace ArticTrader.LoginNonce

open ArticTrader.ConcurrentCalls
open ArticTrader.LabelledRuns
open ArticTrader.PythonText
open ArticTrader.SessionNonce (AuthSessionKey)

structure AuthNonce where
  address : Text
  chain : Text
  nonce : Text
  expires_at : ℤ
  used_at : Option ℤ
  created_at : ℤ
  deriving DecidableEq, Repr

structure VerifyRequest where
  address : Text
  chain : Text
  nonce : Text
  signature : Text
  pubkey : Text
  session_pub : Text
  session_scope : Text
  session_expires_at : Text
  deriving DecidableEq, Repr

/-- The settings, the reading and writing of ISO dates (a date without a zone is
read as UTC) and the signature check of each chain. -/
structure Env where
  AUTH_SUPPORTED_CHAINS : List Text
  AUTH_SESSION_TTL_SECONDS : ℤ
  AUTH_MESSAGE_DOMAIN : Text
  fromisoformat : Text → Option ℤ
  isoformat : ℤ → Text
  get_verifier : Text → Option (Text → Text → Text → Text → Bool)

def build_signin_message (env : Env) (chain address nonce session_pub session_scope
    issued_at_iso session_expires_at_iso : Text) : Text :=
  env.AUTH_MESSAGE_DOMAIN ++ " wants you to sign in with your ".toList ++ chain ++
    " account:\n".toList ++ address ++ "\n\nSession public key: ".toList ++ session_pub ++
    "\nScope: ".toList ++ session_scope ++ "\nNonce: ".toList ++ nonce ++
    "\nIssued At: ".toList ++ issued_at_iso ++ "\nExpires At: ".toList ++ session_expires_at_iso

/-- Where a handler stands. From `marked` to `provisioning` its mark on the nonce
is not committed; `provisioned` says whether it still is not. -/
inductive Phase where
  | idle
  | verified (used_at session_expires : ℤ)
  | marked (used_at session_expires : ℤ) (user : Option Text)
  | upserted (used_at session_expires : ℤ) (user_id : Text)
  | provisioning (used_at session_expires : ℤ) (user_id : Text)
  | provisioned (uncommitted : Option ℤ) (session_expires : ℤ) (user_id : Text)
  | created
  | failed (status_code : ℕ)
  deriving DecidableEq, Repr

/-- The committed rows: the nonce, the wallet's user and whether it has a VM, and
the session keys with the handlers that made them. A handler may have the nonce
row `locked` and be `inserting` the user. -/
structure Database (ι : Type*) where
  nonce : AuthNonce
  locked : Bool
  inserting : Bool
  user : Option Text
  vm : Bool
  sessions : List (ι × AuthSessionKey)

/-- A step of `elsewhere` is a login of the same wallet with another nonce. -/
inductive Step (ι : Type*) where
  | read (i : ι) (now : ℕ → ℤ)
  | mark (i : ι)
  | upsert (i : ι) (new_id : Text)
  | provision (i : ι)
  | commit_vm (i : ι)
  | create_session (i : ι) (new_id : Text)
  | fail (i : ι)
  | elsewhere (user_id : Text)

/-- `verify_signature` up to the user it looks up; `now` gives the readings of
the clock in their order. -/
def verify_signature (env : Env) (row : AuthNonce) (body : VerifyRequest) (now : ℕ → ℤ) : Phase :=
  if env.AUTH_SUPPORTED_CHAINS.contains body.chain = false then .failed 400
  else if row.nonce ≠ body.nonce ∨ row.address ≠ body.address ∨ row.chain ≠ body.chain then
    .failed 401
  else if row.used_at ≠ none ∨ row.expires_at ≤ now 0 then .failed 401
  else
    match env.fromisoformat body.session_expires_at with
    | none => .failed 400
    | some session_expires =>
        if session_expires ≤ now 1 then .failed 400
        else if now 2 + env.AUTH_SESSION_TTL_SECONDS < session_expires then .failed 400
        else
          let message := build_signin_message env body.chain body.address body.nonce
            body.session_pub body.session_scope (env.isoformat row.created_at)
            body.session_expires_at
          match env.get_verifier body.chain with
          | none => .failed 401
          | some verifier =>
              if verifier body.address message body.signature body.pubkey then
                .verified (now 3) session_expires
              else .failed 401

/-- The handler's transaction holds the lock on the nonce row. -/
def Phase.holds : Phase → Bool
  | .marked .. => true
  | .upserted .. => true
  | .provisioning .. => true
  | .provisioned (some _) _ _ => true
  | _ => false

/-- The handler has marked the nonce and goes on to create a session key. -/
def Phase.staked : Phase → Bool
  | .provisioned none _ _ => true
  | p => p.holds

def Phase.finished : Phase → Bool
  | .idle => true
  | .created => true
  | .failed _ => true
  | _ => false

variable {ι : Type*}

abbrev State (ι : Type*) := System ι (Database ι) Phase

def Database.commit_mark (db : Database ι) (used_at : ℤ) : Database ι :=
  { db with
    nonce := { db.nonce with used_at := some used_at }
    locked := false
    inserting := false }

def Database.release (db : Database ι) (p : Phase) : Database ι :=
  { db with
    locked := db.locked && !p.holds
    inserting := db.inserting && !p.holds }

def Database.commit_provisioned (db : Database ι) : Option ℤ → Database ι
  | none => db
  | some used_at => db.commit_mark used_at

/-- The nonce as `/auth/nonce` has stored it. -/
def issued (address chain nonce : Text) (expires_at created_at : ℤ) : AuthNonce :=
  { address, chain, nonce, expires_at, used_at := none, created_at }

def initial (nonce : AuthNonce) (user : Option Text) (vm : Bool) : State ι where
  shared := { nonce, locked := false, inserting := false, user, vm, sessions := [] }
  calls := fun _ => .idle

/-- At the `UPDATE` of the nonce the committed row is still unused. -/
def MarksUnused (s : State ι) : Step ι → Prop
  | .mark _ => s.shared.nonce.used_at = none
  | _ => True

instance (s : State ι) : ∀ e : Step ι, Decidable (MarksUnused s e)
  | .mark _ => inferInstanceAs (Decidable (_ = _))
  | .read .. | .upsert .. | .provision _ | .commit_vm _ | .create_session .. | .fail _
  | .elsewhere _ => .isTrue trivial

def Phase.engaged (p : Phase) : Prop := p.staked = true ∨ p = .created

theorem staked_of_holds {p : Phase} (h : p.holds = true) : p.staked = true := by
  cases p with
  | provisioned uncommitted session_expires user_id => cases uncommitted <;> simp [Phase.staked, h]
  | _ => exact h

/-- One handler at a time is past its mark, and none once a session key exists. -/
structure SingleUse (s : State ι) : Prop where
  unique : ∀ i j, (s.calls i).staked = true → (s.calls j).staked = true → i = j
  pending : ∀ i, (s.calls i).staked = true → s.shared.sessions = []
  length : s.shared.sessions.length ≤ 1
  unused : s.shared.nonce.used_at = none → s.shared.sessions = [] ∧
    ∀ i, (s.calls i).staked = true → (s.calls i).holds = true ∧ s.shared.locked = true

/-- A nonce that is marked used was marked by a handler that is still past it. -/
def Spent (s : State ι) : Prop :=
  s.shared.nonce.used_at ≠ none → ∃ i, (s.calls i).engaged

def Recorded (s : State ι) : Prop :=
  ∀ i, s.calls i = .created → ∃ row, (i, row) ∈ s.shared.sessions

theorem created_of_engaged {p : Phase} (h : p.engaged) (hfinished : p.finished = true) :
    p = .created := by
  rcases h with hstaked | hcreated
  · cases p with
    | created => rfl
    | _ => simp [Phase.staked, Phase.holds, Phase.finished] at hstaked hfinished
  · exact hcreated

theorem Recorded.eq_of_created {s : State ι} (hs : Recorded s)
    (hlength : s.shared.sessions.length ≤ 1) {i j : ι} (hi : s.calls i = .created)
    (hj : s.calls j = .created) : i = j := by
  obtain ⟨row, hrow⟩ := hs i hi
  obtain ⟨row', hrow'⟩ := hs j hj
  match hsessions : s.shared.sessions with
  | [] => simp [hsessions] at hrow
  | [r] =>
      rw [hsessions, List.mem_singleton] at hrow hrow'
      exact congrArg Prod.fst (hrow.trans hrow'.symm)
  | _ :: _ :: _ => simp [hsessions] at hlength

variable {nonce : AuthNonce} {user : Option Text} {vm : Bool}

theorem initial_singleUse : SingleUse (initial nonce user vm : State ι) where
  unique := fun _ _ h => by simp [initial, Phase.staked, Phase.holds] at h
  pending := fun _ _ => rfl
  length := by simp [initial]
  unused := fun _ => ⟨rfl, fun _ h => by simp [initial, Phase.staked, Phase.holds] at h⟩

variable [DecidableEq ι]

def State.fail (s : State ι) (i : ι) : State ι :=
  (s.write (s.shared.release (s.calls i))).set i (.failed 500)

/-- A transaction that fails is rolled back: its mark is lost. -/
def step (env : Env) (requests : ι → VerifyRequest) (s : State ι) : Step ι → Option (State ι)
  | .read i now =>
      match s.calls i with
      | .idle => some (s.set i (verify_signature env s.shared.nonce (requests i) now))
      | _ => none
  | .mark i =>
      match s.calls i with
      | .verified used_at session_expires =>
          -- a second `UPDATE` of the row waits until the first is committed
          if s.shared.locked then none
          else some ((s.write { s.shared with locked := true }).set i
            (.marked used_at session_expires s.shared.user))
      | _ => none
  | .upsert i new_id =>
      match s.calls i with
      | .marked used_at session_expires (some user_id) =>
          some (s.set i (.upserted used_at session_expires user_id))
      | .marked used_at session_expires none =>
          if s.shared.user = none then
            some ((s.write { s.shared with inserting := true }).set i
              (.upserted used_at session_expires new_id))
          else some (s.fail i)
      | _ => none
  | .provision i =>
      match s.calls i with
      | .upserted used_at session_expires user_id =>
          if s.shared.vm then
            some (s.set i (.provisioned (some used_at) session_expires user_id))
          else some (s.set i (.provisioning used_at session_expires user_id))
      | _ => none
  | .commit_vm i =>
      match s.calls i with
      | .provisioning used_at session_expires user_id =>
          if s.shared.vm then some (s.fail i)
          else some ((s.write { s.shared.commit_mark used_at with
            user := some user_id, vm := true }).set i (.provisioned none session_expires user_id))
      | _ => none
  | .create_session i new_id =>
      match s.calls i with
      | .provisioned uncommitted session_expires user_id =>
          some ((s.write { s.shared.commit_provisioned uncommitted with
            user := some user_id
            sessions := (i,
              { id := new_id, user_id, session_pub := (requests i).session_pub,
                scope := (requests i).session_scope, expires_at := session_expires,
                last_nonce := 0, revoked_at := none }) :: s.shared.sessions }).set i .created)
      | _ => none
  | .fail i => if (s.calls i).finished then none else some (s.fail i)
  | .elsewhere user_id =>
      -- the unique wallet of a user that is being inserted holds other inserts back
      if s.shared.inserting then none
      else some (s.write { s.shared with user := some (s.shared.user.getD user_id), vm := true })

/-- No handler that has marked the nonce fails. -/
def Proceeds (env : Env) (requests : ι → VerifyRequest) (s : State ι) (e : Step ι) : Prop :=
  ∀ s' ∈ step env requests s e, ∀ i, (s.calls i).engaged → (s'.calls i).engaged

variable {env : Env} {requests : ι → VerifyRequest}

/-- What one step can do to the rows and to the handler that takes it. -/
inductive Move (s : State ι) : Step ι → State ι → Prop where
  | reads {i : ι} {now : ℕ → ℤ} {p : Phase} (hi : s.calls i = .idle)
      (hp : p.staked = false ∧ p ≠ .created) : Move s (.read i now) (s.set i p)
  | marks {i : ι} {used_at session_expires : ℤ} (hi : s.calls i = .verified used_at session_expires)
      (hunlocked : s.shared.locked = false) :
      Move s (.mark i) ((s.write { s.shared with locked := true }).set i
        (.marked used_at session_expires s.shared.user))
  | advances {i : ι} {e : Step ι} {p : Phase} {d : Database ι} (hi : (s.calls i).holds = true)
      (he : ∀ j, e ≠ .mark j) (hp : p.holds = true) (hnonce : d.nonce = s.shared.nonce)
      (hlocked : d.locked = s.shared.locked) (hsessions : d.sessions = s.shared.sessions) :
      Move s e ((s.write d).set i p)
  | commits {i : ι} {e : Step ι} {session_expires : ℤ} {user_id : Text} {d : Database ι}
      (hi : (s.calls i).holds = true) (he : ∀ j, e ≠ .mark j)
      (hnonce : d.nonce.used_at ≠ none) (hsessions : d.sessions = s.shared.sessions) :
      Move s e ((s.write d).set i (.provisioned none session_expires user_id))
  | creates {i : ι} {new_id : Text} {row : AuthSessionKey} {d : Database ι}
      (hi : (s.calls i).staked = true)
      (hnonce : (s.calls i).holds = true ∧ d.nonce.used_at ≠ none ∨
        (s.calls i).holds = false ∧ d.nonce = s.shared.nonce)
      (hsessions : d.sessions = (i, row) :: s.shared.sessions) :
      Move s (.create_session i new_id) ((s.write d).set i .created)
  | fails {i : ι} {e : Step ι} (hi : (s.calls i).finished = false) (he : ∀ j, e ≠ .mark j) :
      Move s e (s.fail i)
  | elsewhere {user_id : Text} {d : Database ι} (hnonce : d.nonce = s.shared.nonce)
      (hlocked : d.locked = s.shared.locked) (hsessions : d.sessions = s.shared.sessions) :
      Move s (.elsewhere user_id) (s.write d)

theorem verify_signature_unstaked (env : Env) (row : AuthNonce) (body : VerifyRequest)
    (now : ℕ → ℤ) : (verify_signature env row body now).staked = false ∧
      verify_signature env row body now ≠ .created := by
  unfold verify_signature
  split_ifs
  · exact ⟨rfl, by simp⟩
  · exact ⟨rfl, by simp⟩
  · exact ⟨rfl, by simp⟩
  · split
    · exact ⟨rfl, by simp⟩
    · split_ifs
      · exact ⟨rfl, by simp⟩
      · exact ⟨rfl, by simp⟩
      · dsimp only
        split
        · exact ⟨rfl, by simp⟩
        · split_ifs <;> exact ⟨rfl, by simp⟩

theorem step_move {s s' : State ι} {e : Step ι} (h : step env requests s e = some s') :
    Move s e s' := by
  cases e with
  | read i now =>
      cases hi : s.calls i <;> simp only [step, hi, Option.some.injEq, reduceCtorEq] at h
      subst h
      exact .reads hi (verify_signature_unstaked ..)
  | mark i =>
      cases hi : s.calls i with
      | verified used_at session_expires =>
          cases hl : s.shared.locked <;> simp [step, hi, hl] at h
          subst h
          exact .marks hi hl
      | _ => simp [step, hi] at h
  | upsert i new_id =>
      cases hi : s.calls i with
      | marked used_at session_expires user =>
          cases user with
          | some user_id =>
              simp only [step, hi, Option.some.injEq] at h
              subst h
              exact .advances (d := s.shared) (by simp [hi, Phase.holds]) (by simp) rfl rfl rfl rfl
          | none =>
              simp only [step, hi] at h
              split_ifs at h
              · cases h
                exact .advances (by simp [hi, Phase.holds]) (by simp) rfl rfl rfl rfl
              · cases h
                exact .fails (by simp [hi, Phase.finished]) (by simp)
      | _ => simp [step, hi] at h
  | provision i =>
      cases hi : s.calls i with
      | upserted used_at session_expires user_id =>
          simp only [step, hi] at h
          split_ifs at h
          · cases h
            exact .advances (d := s.shared) (by simp [hi, Phase.holds]) (by simp) rfl rfl rfl rfl
          · cases h
            exact .advances (d := s.shared) (by simp [hi, Phase.holds]) (by simp) rfl rfl rfl rfl
      | _ => simp [step, hi] at h
  | commit_vm i =>
      cases hi : s.calls i with
      | provisioning used_at session_expires user_id =>
          simp only [step, hi] at h
          split_ifs at h
          · cases h
            exact .fails (by simp [hi, Phase.finished]) (by simp)
          · cases h
            exact .commits (by simp [hi, Phase.holds]) (by simp) (by simp [Database.commit_mark]) rfl
      | _ => simp [step, hi] at h
  | create_session i new_id =>
      cases hi : s.calls i with
      | provisioned uncommitted session_expires user_id =>
          simp only [step, hi, Option.some.injEq] at h
          subst h
          cases uncommitted with
          | none =>
              exact .creates (by simp [hi, Phase.staked]) (.inr (by simp [hi, Phase.holds,
                Database.commit_provisioned])) rfl
          | some used_at =>
              exact .creates (by simp [hi, Phase.staked, Phase.holds]) (.inl (by simp [hi,
                Phase.holds, Database.commit_provisioned, Database.commit_mark])) rfl
      | _ => simp [step, hi] at h
  | fail i =>
      simp only [step] at h
      split_ifs at h with hi
      cases h
      exact .fails (by simpa using hi) (by simp)
  | elsewhere user_id =>
      simp only [step] at h
      split_ifs at h
      cases h
      exact .elsewhere rfl rfl rfl

theorem staked_set {s : State ι} {d : Database ι} {i j : ι} {p : Phase}
    (h : (((s.write d).set i p).calls j).staked = true) :
    j = i ∧ p.staked = true ∨ j ≠ i ∧ (s.calls j).staked = true := by
  rcases (s.write d).set_cases i j p with ⟨hj, heq⟩ | ⟨hj, heq⟩
  · exact .inl ⟨hj, heq ▸ h⟩
  · exact .inr ⟨hj, heq ▸ h⟩

/-- A handler past its mark moves on; the rows keep what matters to the others. -/
theorem SingleUse.advance {s : State ι} (hs : SingleUse s) {i : ι} {p : Phase} {d : Database ι}
    (hi : (s.calls i).staked = true) (hsessions : d.sessions = s.shared.sessions)
    (hunused : d.nonce.used_at = none → p.holds = true ∧ s.shared.nonce.used_at = none ∧
      d.locked = s.shared.locked) : SingleUse ((s.write d).set i p) := by
  have honly : ∀ j, (((s.write d).set i p).calls j).staked = true → j = i := by
    intro j hj
    rcases staked_set hj with ⟨rfl, -⟩ | ⟨-, hj⟩
    · rfl
    · exact hs.unique j i hj hi
  have hnil : s.shared.sessions = [] := hs.pending i hi
  constructor
  · intro j k hj hk
    rw [honly j hj, honly k hk]
  · intro _ _
    exact hsessions.trans hnil
  · simp [hsessions, hnil]
  · intro hnone
    obtain ⟨hp, hbefore, hlocked⟩ := hunused hnone
    refine ⟨hsessions.trans hnil, ?_⟩
    intro j hj
    obtain rfl := honly j hj
    exact ⟨by simpa using hp, hlocked.trans ((hs.unused hbefore).2 j hi).2⟩

/-- A handler goes back to where it holds nothing. -/
theorem SingleUse.leave {s : State ι} (hs : SingleUse s) {i : ι} {p : Phase} {d : Database ι}
    (hp : p.staked = false) (hnonce : d.nonce = s.shared.nonce)
    (hsessions : d.sessions = s.shared.sessions)
    (hlocked : (s.calls i).staked = false → d.locked = s.shared.locked) :
    SingleUse ((s.write d).set i p) := by
  have hback : ∀ j, (((s.write d).set i p).calls j).staked = true →
      j ≠ i ∧ (s.calls j).staked = true := by
    intro j hj
    rcases staked_set hj with ⟨-, h⟩ | h
    · rw [hp] at h
      cases h
    · exact h
  constructor
  · intro j k hj hk
    exact hs.unique j k (hback j hj).2 (hback k hk).2
  · intro j hj
    exact hsessions.trans (hs.pending j (hback j hj).2)
  · simpa [hsessions] using hs.length
  · intro hnone
    have hunused := hs.unused (hnonce ▸ hnone)
    refine ⟨hsessions.trans hunused.1, ?_⟩
    intro j hj
    obtain ⟨hne, hj⟩ := hback j hj
    have hi : (s.calls i).staked = false := by
      by_contra hi
      exact hne (hs.unique j i hj (by simpa using hi))
    rw [System.set_of_ne _ _ hne]
    exact ⟨(hunused.2 j hj).1, (hlocked hi).trans (hunused.2 j hj).2⟩

theorem SingleUse.mark {s : State ι} (hs : SingleUse s) {i : ι} {p : Phase}
    (hnone : s.shared.nonce.used_at = none) (hunlocked : s.shared.locked = false)
    (hp : p.holds = true) :
    SingleUse ((s.write { s.shared with locked := true }).set i p) := by
  obtain ⟨hnil, hstaked⟩ := hs.unused hnone
  have honly : ∀ j, (((s.write { s.shared with locked := true }).set i p).calls j).staked = true →
      j = i := by
    intro j hj
    rcases staked_set hj with ⟨rfl, -⟩ | ⟨-, hj⟩
    · rfl
    · have hlocked := (hstaked j hj).2
      rw [hunlocked] at hlocked
      cases hlocked
  constructor
  · intro j k hj hk
    rw [honly j hj, honly k hk]
  · exact fun _ _ => hnil
  · exact hs.length
  · refine fun _ => ⟨hnil, ?_⟩
    intro j hj
    obtain rfl := honly j hj
    exact ⟨by simpa using hp, rfl⟩

theorem SingleUse.create {s : State ι} (hs : SingleUse s) {i : ι} {row : AuthSessionKey}
    {d : Database ι} (hi : (s.calls i).staked = true)
    (hnonce : (s.calls i).holds = true ∧ d.nonce.used_at ≠ none ∨
      (s.calls i).holds = false ∧ d.nonce = s.shared.nonce)
    (hsessions : d.sessions = (i, row) :: s.shared.sessions) :
    SingleUse ((s.write d).set i .created) := by
  have hnone : ∀ j, (((s.write d).set i .created).calls j).staked ≠ true := by
    intro j hj
    rcases staked_set hj with ⟨-, h⟩ | ⟨hne, hj⟩
    · cases h
    · exact hne (hs.unique j i hj hi)
  have hused : d.nonce.used_at ≠ none := by
    rcases hnonce with ⟨-, hused⟩ | ⟨hheld, heq⟩
    · exact hused
    · intro hnone
      have hholds := ((hs.unused (heq ▸ hnone)).2 i hi).1
      rw [hheld] at hholds
      cases hholds
  constructor
  · exact fun j _ hj _ => absurd hj (hnone j)
  · exact fun j hj => absurd hj (hnone j)
  · simp [hsessions, hs.pending i hi]
  · exact fun h => absurd h hused

theorem Move.singleUse {s s' : State ι} {e : Step ι} (h : Move s e s') (hs : SingleUse s)
    (hmark : MarksUnused s e) : SingleUse s' := by
  cases h with
  | reads hi hp => exact hs.leave (d := s.shared) hp.1 rfl rfl fun _ => rfl
  | marks hi hunlocked => exact hs.mark hmark hunlocked rfl
  | advances hi he hp hnonce hlocked hsessions =>
      refine hs.advance (staked_of_holds hi) hsessions ?_
      intro hnone
      exact ⟨hp, hnonce ▸ hnone, hlocked⟩
  | commits hi he hnonce hsessions =>
      exact hs.advance (staked_of_holds hi) hsessions fun hnone => absurd hnone hnonce
  | creates hi hnonce hsessions => exact hs.create hi hnonce hsessions
  | @fails i e hi he =>
      refine hs.leave rfl rfl rfl ?_
      intro hunstaked
      have hholds : (s.calls i).holds = false := by
        by_contra hholds
        rw [staked_of_holds (by simpa using hholds)] at hunstaked
        cases hunstaked
      simp [Database.release, hholds]
  | elsewhere hnonce hlocked hsessions =>
      exact
        { unique := hs.unique
          pending := fun i hi => hsessions.trans (hs.pending i hi)
          length := by simpa [hsessions] using hs.length
          unused := by simpa [hnonce, hlocked, hsessions] using hs.unused }

theorem Move.spent {s s' : State ι} {e : Step ι} (h : Move s e s') (hs : Spent s)
    (hproceeds : ∀ i, (s.calls i).engaged → (s'.calls i).engaged) : Spent s' := by
  have hkeep : s'.shared.nonce = s.shared.nonce → Spent s' := by
    intro hnonce hused
    obtain ⟨i, hi⟩ := hs (hnonce ▸ hused)
    exact ⟨i, hproceeds i hi⟩
  cases h with
  | reads => exact hkeep rfl
  | marks => exact hkeep rfl
  | advances hi he hp hnonce => exact hkeep hnonce
  | @commits i => exact fun _ => ⟨i, .inl (by simp [Phase.staked])⟩
  | @creates i => exact fun _ => ⟨i, .inr (by simp)⟩
  | fails => exact hkeep rfl
  | elsewhere hnonce => exact hkeep hnonce

theorem Recorded.set {s : State ι} (hs : Recorded s) {i : ι} {p : Phase} {d : Database ι}
    (hp : p ≠ .created) (hsessions : d.sessions = s.shared.sessions) :
    Recorded ((s.write d).set i p) := by
  intro j hj
  rcases (s.write d).set_cases i j p with ⟨-, heq⟩ | ⟨-, heq⟩
  · exact absurd (heq.symm.trans hj) hp
  · obtain ⟨row, hrow⟩ := hs j (heq.symm.trans hj)
    exact ⟨row, by simpa [hsessions] using hrow⟩

theorem Move.recorded {s s' : State ι} {e : Step ι} (h : Move s e s') (hs : Recorded s) :
    Recorded s' := by
  cases h with
  | reads hi hp => exact hs.set (d := s.shared) hp.2 rfl
  | marks => exact hs.set (by simp) rfl
  | advances hi he hp hnonce hlocked hsessions =>
      refine hs.set ?_ hsessions
      rintro rfl
      cases hp
  | commits hi he hnonce hsessions => exact hs.set (by simp) hsessions
  | @creates i new_id row d hi hnonce hsessions =>
      intro j hj
      rcases (s.write d).set_cases i j .created with ⟨rfl, -⟩ | ⟨-, heq⟩
      · exact ⟨row, by simp [hsessions]⟩
      · obtain ⟨row', hrow'⟩ := hs j (heq.symm.trans hj)
        exact ⟨row', by simp [hsessions, hrow']⟩
  | fails => exact hs.set (by simp) rfl
  | elsewhere hnonce hlocked hsessions =>
      intro i hi
      obtain ⟨row, hrow⟩ := hs i hi
      exact ⟨row, by simpa [hsessions] using hrow⟩

theorem marks_of_not_marksUnused {s s' : State ι} {e : Step ι} (hnot : ¬ MarksUnused s e)
    (h : step env requests s e = some s') : ∃ i, e = .mark i ∧ ¬ (s.calls i).engaged ∧
      (s'.calls i).engaged ∧ s.shared.nonce.used_at ≠ none := by
  cases e with
  | mark i =>
      refine ⟨i, rfl, ?_⟩
      cases step_move h with
      | marks hi =>
          refine ⟨?_, .inl (by simp [Phase.staked, Phase.holds]), hnot⟩
          simp [hi, Phase.engaged, Phase.staked, Phase.holds]
      | advances _ he => exact absurd rfl (he i)
      | commits _ he => exact absurd rfl (he i)
      | fails _ he => exact absurd rfl (he i)
  | _ => exact absurd trivial hnot

/-- If every mark finds the nonce unused, no two session keys come from it. Where
no handler fails past its mark, and all are done, that is the only way. -/
theorem single_use_iff {address chain text : Text} {expires_at created_at : ℤ}
    {es : List (Step ι)} {s : State ι}
    (hrun : run (step env requests)
      (initial (issued address chain text expires_at created_at) user vm) es = some s) :
    (AllSteps (step env requests) MarksUnused
        (initial (issued address chain text expires_at created_at) user vm) es →
      s.shared.sessions.length ≤ 1) ∧
    (AllSteps (step env requests) (Proceeds env requests)
        (initial (issued address chain text expires_at created_at) user vm) es →
      (∀ i, (s.calls i).finished = true) →
        (s.shared.sessions.length ≤ 1 ↔ AllSteps (step env requests) MarksUnused
          (initial (issued address chain text expires_at created_at) user vm) es)) := by
  have hsufficient := fun hall => (run_invariant_of_allSteps
    (fun _ _ _ hs hmark h => (step_move h).singleUse hs hmark) hrun hall initial_singleUse).length
  refine ⟨hsufficient, fun hproceeds hfinished => ⟨?_, hsufficient⟩⟩
  intro hlength
  by_contra hnot
  obtain ⟨before, e, after, m, m', rfl, hbefore, hviolates, hstep, hafter⟩ :=
    exists_violation hrun hnot
  obtain ⟨hproceedsBefore, hlater⟩ := allSteps_append_iff.mp hproceeds
  have hspent : Spent m := run_invariant_of_allSteps
    (fun _ _ _ hs hkeep h => (step_move h).spent hs (hkeep _ h)) hbefore hproceedsBefore
    fun hused => absurd rfl hused
  obtain ⟨i, rfl, hiBefore, hiAfter, hused⟩ := marks_of_not_marksUnused hviolates hstep
  obtain ⟨j, hj⟩ := hspent hused
  have hkept : ∀ k, (m'.calls k).engaged → (s.calls k).engaged := by
    intro k hk
    exact run_invariant_of_allSteps (P := fun s : State ι => (s.calls k).engaged)
      (fun _ _ _ hs hkeep h => hkeep _ h k hs) hafter ((hlater m hbefore).2 m' hstep) hk
  have hjAfter : (m'.calls j).engaged := (hlater m hbefore).1 m' hstep j hj
  have hrecorded : Recorded s := run_invariant (fun _ _ _ hs h => (step_move h).recorded hs) hrun
    fun _ h => by simp [initial] at h
  have heq : i = j := hrecorded.eq_of_created hlength
    (created_of_engaged (hkept i hiAfter) (hfinished i))
    (created_of_engaged (hkept j hjAfter) (hfinished j))
  exact hiBefore (heq ▸ hj)

/-- The deployment's one chain, with a signature check that accepts. -/
def mainnet : Env where
  AUTH_SUPPORTED_CHAINS := ["0g-mainnet".toList]
  AUTH_SESSION_TTL_SECONDS := 1000
  AUTH_MESSAGE_DOMAIN := "artic.trade".toList
  fromisoformat := fun text => if text = "50".toList then some 50 else none
  isoformat := fun _ => "0".toList
  get_verifier := fun chain =>
    if chain = "0g-mainnet".toList then some fun _ _ _ _ => true else none

def login (_ : Fin 2) : VerifyRequest where
  address := "0xab".toList
  chain := "0g-mainnet".toList
  nonce := "n".toList
  signature := "sig".toList
  pubkey := "pub".toList
  session_pub := "session".toList
  session_scope := "authenticated-actions".toList
  session_expires_at := "50".toList

abbrev challenge : AuthNonce := issued "0xab".toList "0g-mainnet".toList "n".toList 10 0

def sequential_logins : List (Step (Fin 2)) :=
  [.read 0 fun _ => 1, .mark 0, .upsert 0 "u".toList, .provision 0, .commit_vm 0,
    .create_session 0 "s".toList, .read 1 fun _ => 2]

/-- Both handlers read the nonce before either marks it; the second is let go on
by the commit that provisions the VM. -/
def overlapping_logins : List (Step (Fin 2)) :=
  [.read 0 fun _ => 1, .read 1 fun _ => 1, .mark 0, .upsert 0 "u".toList, .provision 0,
    .commit_vm 0, .mark 1, .upsert 1 "v".toList, .provision 1, .create_session 1 "t".toList,
    .create_session 0 "s".toList]

theorem single_use_sequential :
    ∃ s, run (step mainnet login) (initial challenge none false) sequential_logins = some s ∧
      s.shared.sessions.length ≤ 1 := by
  have hrun : run (step mainnet login) (initial challenge none false) sequential_logins =
    some _ := rfl
  exact ⟨_, hrun, (single_use_iff hrun).1 (by decide)⟩

theorem nonce_used_twice :
    ¬ ∀ (env : Env) (requests : Fin 2 → VerifyRequest) (address chain text : Text)
      (expires_at created_at : ℤ) (user : Option Text) (vm : Bool) (es : List (Step (Fin 2)))
      (s : State (Fin 2)),
      run (step env requests)
        (initial (issued address chain text expires_at created_at) user vm) es = some s →
      s.shared.sessions.length ≤ 1 := by
  intro h
  have hlength := h mainnet login "0xab".toList "0g-mainnet".toList "n".toList 10 0 none false
    overlapping_logins _ rfl
  exact absurd hlength (by decide)

end ArticTrader.LoginNonce
