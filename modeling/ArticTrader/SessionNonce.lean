import Mathlib.Algebra.Order.Group.Int
import ArticTrader.ConcurrentCalls
import ArticTrader.LabelledRuns
import ArticTrader.PythonText

/-!
Signed requests on one session key. Every request works in a database session of
its own under READ COMMITTED: it sees the row as committed when it loads it, and
its write takes effect at its commit. The table of the model holds that one row.
-/

namespace ArticTrader.SessionNonce

open ArticTrader.ConcurrentCalls
open ArticTrader.LabelledRuns
open ArticTrader.PythonText

structure AuthSessionKey where
  id : Text
  user_id : Text
  session_pub : Text
  scope : Text
  expires_at : ℤ
  last_nonce : ℤ
  revoked_at : Option ℤ
  deriving DecidableEq, Repr

/-- A request of the authenticated user, with its three signature headers. -/
structure Request where
  method : Text
  path : Text
  body : Text
  user_id : Text
  session_id : Option Text
  raw_nonce : Option Text
  signature : Option Text
  deriving DecidableEq, Repr

/-- The document whose canonical JSON text the client signs. -/
structure CanonicalRequest where
  method : Text
  path : Text
  body_sha256 : Text
  session_id : Text
  nonce : ℤ
  deriving DecidableEq, Repr

/-- `int(raw)` (`none` for the `ValueError`), `hashlib.sha256(body).hexdigest()`
and the secp256k1 check of a signature over a document. -/
structure Primitives where
  int : Text → Option ℤ
  sha256_hexdigest : Text → Text
  verify_session_signature : Text → CanonicalRequest → Text → Bool

def canonical_request (P : Primitives) (r : Request) (session_id : Text) (nonce : ℤ) :
    CanonicalRequest where
  method := upper r.method
  path := r.path
  body_sha256 := P.sha256_hexdigest r.body
  session_id := session_id
  nonce := nonce

/-- Where a request stands: `loaded` has still to read its body, `bumped` has
still to commit its nonce. -/
inductive Phase where
  | idle
  | loaded (sess : AuthSessionKey) (nonce : ℤ) (signature : Text)
  | bumped (nonce : ℤ)
  | accepted (nonce : ℤ)
  | failed (status_code : ℕ)
  deriving DecidableEq, Repr

inductive Step (ι : Type*) where
  | load (i : ι) (now : ℤ)
  | bump (i : ι)
  | commit (i : ι)
  | revoke (i : ι) (now : ℤ)
  deriving DecidableEq, Repr

def load_active_session (row : AuthSessionKey) (session_id user_id : Text) (now : ℤ) :
    Option AuthSessionKey :=
  if row.id ≠ session_id ∨ row.user_id ≠ user_id then none
  else if row.revoked_at ≠ none then none
  else if row.expires_at ≤ now then none
  else some row

/-- `require_session_key` up to the body it awaits. -/
def require_session_key (P : Primitives) (row : AuthSessionKey) (r : Request) (now : ℤ) : Phase :=
  match r.session_id, r.raw_nonce, r.signature with
  | some session_id, some raw_nonce, some signature =>
      if session_id = [] ∨ raw_nonce = [] ∨ signature = [] then .failed 401
      else
        match P.int raw_nonce with
        | none => .failed 400
        | some nonce =>
            match load_active_session row session_id r.user_id now with
            | none => .failed 401
            | some sess => .loaded sess nonce signature
  | _, _, _ => .failed 401

/-- The rest of `require_session_key`, up to the commit `bump_nonce_atomic` awaits. -/
def bump_nonce_atomic (P : Primitives) (r : Request) (sess : AuthSessionKey) (nonce : ℤ)
    (signature : Text) : Phase :=
  if P.verify_session_signature sess.session_pub (canonical_request P r sess.id nonce)
      signature = false then .failed 401
  else if nonce ≤ sess.last_nonce then .failed 401
  else .bumped nonce

/-- What the `BigInteger` column can hold. -/
def Storable (nonce : ℤ) : Prop := -2 ^ 63 ≤ nonce ∧ nonce < 2 ^ 63

instance (nonce : ℤ) : Decidable (Storable nonce) := inferInstanceAs (Decidable (_ ∧ _))

variable {ι : Type*}

abbrev State (ι : Type*) := System ι AuthSessionKey Phase

def initial (row : AuthSessionKey) : State ι := { shared := row, calls := fun _ => .idle }

def NoncesDistinct (s : State ι) : Prop :=
  ∀ i j nonce, s.calls i = .accepted nonce → s.calls j = .accepted nonce → i = j

/-- The nonce a commit is about to store is above the one in the row by then. -/
def AboveStored (s : State ι) : Step ι → Prop
  | .commit i => ∀ nonce, s.calls i = .bumped nonce → Storable nonce → s.shared.last_nonce < nonce
  | _ => True

/-- What a request has read of the row is still there, or another request has
stored its own nonce since. -/
def Overtaken (s : State ι) : Phase → Prop
  | .loaded sess _ _ =>
      sess.last_nonce = s.shared.last_nonce ∨ ∃ j, s.calls j = .accepted s.shared.last_nonce
  | .bumped nonce =>
      s.shared.last_nonce < nonce ∨ ∃ j, s.calls j = .accepted s.shared.last_nonce
  | _ => True

/-- The nonces accepted so far are distinct and none is above the stored one. -/
structure Ordered (s : State ι) : Prop where
  distinct : NoncesDistinct s
  le : ∀ i nonce, s.calls i = .accepted nonce → nonce ≤ s.shared.last_nonce

theorem initial_overtaken (row : AuthSessionKey) (i : ι) :
    Overtaken (initial row : State ι) ((initial row : State ι).calls i) := trivial

theorem initial_ordered (row : AuthSessionKey) : Ordered (initial row : State ι) :=
  ⟨fun _ _ _ h => by simp [initial] at h, fun _ _ h => by simp [initial] at h⟩

variable [DecidableEq ι]

/-- An `UPDATE` writes the changed column of the row, whatever the others hold by
now; a nonce out of range makes it raise. -/
def step (P : Primitives) (requests : ι → Request) (s : State ι) : Step ι → Option (State ι)
  | .load i now =>
      match s.calls i with
      | .idle => some (s.set i (require_session_key P s.shared (requests i) now))
      | _ => none
  | .bump i =>
      match s.calls i with
      | .loaded sess nonce signature =>
          some (s.set i (bump_nonce_atomic P (requests i) sess nonce signature))
      | _ => none
  | .commit i =>
      match s.calls i with
      | .bumped nonce =>
          if Storable nonce then
            some ((s.write { s.shared with last_nonce := nonce }).set i (.accepted nonce))
          else some (s.set i (.failed 500))
      | _ => none
  | .revoke i now =>
      match s.calls i with
      | .accepted _ => some (s.write { s.shared with revoked_at := some now })
      | _ => none

variable {P : Primitives} {requests : ι → Request}

def NonceKept (P : Primitives) (requests : ι → Request) (s : State ι) (e : Step ι) : Prop :=
  ∀ s' ∈ step P requests s e, s.shared.last_nonce ≤ s'.shared.last_nonce

theorem load_active_session_some {row sess : AuthSessionKey} {session_id user_id : Text}
    {now : ℤ} (h : load_active_session row session_id user_id now = some sess) : sess = row := by
  unfold load_active_session at h
  split_ifs at h
  exact (Option.some.inj h).symm

/-- What the request has when it is let past the load. -/
theorem require_session_key_cases (P : Primitives) (row : AuthSessionKey) (r : Request) (now : ℤ) :
    (∃ nonce signature, require_session_key P row r now = .loaded row nonce signature) ∨
      ∃ status_code, require_session_key P row r now = .failed status_code := by
  unfold require_session_key
  split
  · split_ifs
    · exact .inr ⟨401, rfl⟩
    · split
      · exact .inr ⟨400, rfl⟩
      · split
        · exact .inr ⟨401, rfl⟩
        · rename_i hload
          obtain rfl := load_active_session_some hload
          exact .inl ⟨_, _, rfl⟩
  · exact .inr ⟨401, rfl⟩

theorem bump_nonce_atomic_cases (P : Primitives) (r : Request) (sess : AuthSessionKey) (nonce : ℤ)
    (signature : Text) :
    (sess.last_nonce < nonce ∧ bump_nonce_atomic P r sess nonce signature = .bumped nonce) ∨
      bump_nonce_atomic P r sess nonce signature = .failed 401 := by
  unfold bump_nonce_atomic
  split_ifs with hverify hle
  · exact .inr rfl
  · exact .inr rfl
  · exact .inl ⟨Int.not_le.mp hle, rfl⟩

/-- What one step can do to the row and to the request that takes it. -/
inductive Move (s : State ι) : Step ι → State ι → Prop where
  | loads {i : ι} {now nonce : ℤ} {signature : Text} (hi : s.calls i = .idle) :
      Move s (.load i now) (s.set i (.loaded s.shared nonce signature))
  | bumps {i : ι} {sess : AuthSessionKey} {nonce : ℤ} {signature : Text}
      (hi : s.calls i = .loaded sess nonce signature) (hlt : sess.last_nonce < nonce) :
      Move s (.bump i) (s.set i (.bumped nonce))
  | commits {i : ι} {nonce : ℤ} (hi : s.calls i = .bumped nonce) (hstorable : Storable nonce) :
      Move s (.commit i)
        ((s.write { s.shared with last_nonce := nonce }).set i (.accepted nonce))
  | fails {i : ι} {e : Step ι} {status_code : ℕ} (hi : ∀ nonce, s.calls i ≠ .accepted nonce)
      (he : ∀ nonce, s.calls i = .bumped nonce → ¬ Storable nonce) :
      Move s e (s.set i (.failed status_code))
  | revokes {i : ι} {now : ℤ} :
      Move s (.revoke i now) (s.write { s.shared with revoked_at := some now })

theorem step_move {s s' : State ι} {e : Step ι} (h : step P requests s e = some s') :
    Move s e s' := by
  cases e with
  | load i now =>
      cases hi : s.calls i <;> simp only [step, hi, Option.some.injEq, reduceCtorEq] at h
      subst h
      rcases require_session_key_cases P s.shared (requests i) now with
        ⟨nonce, signature, heq⟩ | ⟨status_code, heq⟩
      · rw [heq]
        exact .loads hi
      · rw [heq]
        exact .fails (by simp [hi]) (by simp [hi])
  | bump i =>
      cases hi : s.calls i with
      | loaded sess nonce signature =>
          simp only [step, hi, Option.some.injEq] at h
          subst h
          rcases bump_nonce_atomic_cases P (requests i) sess nonce signature with
            ⟨hlt, heq⟩ | heq
          · rw [heq]
            exact .bumps hi hlt
          · rw [heq]
            exact .fails (by simp [hi]) (by simp [hi])
      | _ => simp [step, hi] at h
  | commit i =>
      cases hi : s.calls i with
      | bumped nonce =>
          simp only [step, hi] at h
          split_ifs at h with hstorable
          · cases h
            exact .commits hi hstorable
          · cases h
            exact .fails (by simp [hi]) (by simpa [hi] using hstorable)
      | _ => simp [step, hi] at h
  | revoke i now =>
      cases hi : s.calls i <;> simp only [step, hi, Option.some.injEq, reduceCtorEq] at h
      subst h
      exact .revokes

theorem Move.accepted {s s' : State ι} {e : Step ι} (h : Move s e s') {j : ι} {nonce : ℤ}
    (hj : s.calls j = .accepted nonce) : s'.calls j = .accepted nonce := by
  cases h with
  | loads hi =>
      rw [System.set_of_ne _ _ (by rintro rfl; simp [hi] at hj)]
      exact hj
  | bumps hi _ =>
      rw [System.set_of_ne _ _ (by rintro rfl; simp [hi] at hj)]
      exact hj
  | commits hi _ =>
      rw [System.set_of_ne _ _ (by rintro rfl; simp [hi] at hj)]
      exact hj
  | fails hi _ =>
      rw [System.set_of_ne _ _ (by rintro rfl; exact hi nonce hj)]
      exact hj
  | revokes => exact hj

theorem accepted_run {s t : State ι} {es : List (Step ι)} {j : ι} {nonce : ℤ}
    (hrun : run (step P requests) s es = some t) (hj : s.calls j = .accepted nonce) :
    t.calls j = .accepted nonce :=
  run_invariant (P := fun s => s.calls j = .accepted nonce)
    (fun _ _ _ hs h => (step_move h).accepted hs) hrun hj

theorem Move.overtaken {s s' : State ι} {e : Step ι} (h : Move s e s')
    (hs : ∀ i, Overtaken s (s.calls i)) (i : ι) : Overtaken s' (s'.calls i) := by
  have hkeep : s'.shared.last_nonce = s.shared.last_nonce →
      ∀ j, Overtaken s (s.calls j) → Overtaken s' (s.calls j) := by
    intro hrow j hj
    cases hphase : s.calls j with
    | loaded sess nonce signature =>
        rw [hphase] at hj
        rcases hj with heq | ⟨k, hk⟩
        · exact .inl (heq.trans hrow.symm)
        · exact .inr ⟨k, hrow ▸ h.accepted hk⟩
    | bumped nonce =>
        rw [hphase] at hj
        rcases hj with hlt | ⟨k, hk⟩
        · exact .inl (hrow.symm ▸ hlt)
        · exact .inr ⟨k, hrow ▸ h.accepted hk⟩
    | _ => trivial
  cases h with
  | loads hi => exact System.forall_set (.inl rfl) (fun j _ => hkeep rfl j (hs j)) i
  | @bumps k sess nonce signature hi hlt =>
      refine System.forall_set ?_ (fun j _ => hkeep rfl j (hs j)) i
      have hk := hs k
      rw [hi] at hk
      rcases hk with heq | ⟨j, hj⟩
      · exact .inl (heq ▸ hlt)
      · refine .inr ⟨j, ?_⟩
        rw [System.set_of_ne _ _ (by rintro rfl; simp [hi] at hj)]
        exact hj
  | @commits k nonce hi hstorable =>
      have hstored : ∃ j, ((s.write { s.shared with last_nonce := nonce }).set k
          (.accepted nonce)).calls j = .accepted nonce := ⟨k, System.set_self ..⟩
      refine System.forall_set (P := fun _ => Overtaken _) ?_ (fun j _ => ?_) i
      · trivial
      · rw [System.write_calls]
        cases s.calls j with
        | loaded sess n signature => exact .inr hstored
        | bumped n => exact .inr hstored
        | _ => trivial
  | fails hi =>
      refine System.forall_set ?_ (fun j _ => hkeep rfl j (hs j)) i
      trivial
  | revokes => exact hkeep rfl i (hs i)

theorem Ordered.set {s : State ι} (hs : Ordered s) {i : ι} {p : Phase}
    (hp : ∀ nonce, p ≠ .accepted nonce) : Ordered (s.set i p) := by
  have hback : ∀ j nonce, (s.set i p).calls j = .accepted nonce →
      s.calls j = .accepted nonce := by
    intro j nonce hj
    rcases s.set_cases i j p with ⟨-, heq⟩ | ⟨-, heq⟩
    · exact absurd (heq.symm.trans hj) (hp nonce)
    · exact heq.symm.trans hj
  exact
    { distinct := fun j k nonce hj hk => hs.distinct j k nonce (hback j nonce hj) (hback k nonce hk)
      le := fun j nonce hj => hs.le j nonce (hback j nonce hj) }

theorem Ordered.commit {s : State ι} (hs : Ordered s) {i : ι} {nonce : ℤ}
    (hlt : s.shared.last_nonce < nonce) :
    Ordered ((s.write { s.shared with last_nonce := nonce }).set i (.accepted nonce)) := by
  have hcases : ∀ j n, ((s.write { s.shared with last_nonce := nonce }).set i
      (.accepted nonce)).calls j = .accepted n →
        (j = i ∧ n = nonce) ∨ n ≤ s.shared.last_nonce ∧ s.calls j = .accepted n := by
    intro j n hj
    rcases System.set_cases _ i j _ with ⟨rfl, heq⟩ | ⟨-, heq⟩
    · rw [heq] at hj
      exact .inl ⟨rfl, (Phase.accepted.inj hj).symm⟩
    · rw [heq] at hj
      exact .inr ⟨hs.le j n hj, hj⟩
  constructor
  · intro j k n hj hk
    rcases hcases j n hj with ⟨rfl, rfl⟩ | ⟨hle, hj⟩
    · rcases hcases k n hk with ⟨rfl, -⟩ | ⟨hle, -⟩
      · rfl
      · omega
    · rcases hcases k n hk with ⟨rfl, rfl⟩ | ⟨-, hk⟩
      · omega
      · exact hs.distinct j k n hj hk
  · intro j n hj
    rcases hcases j n hj with ⟨-, rfl⟩ | ⟨hle, -⟩
    · exact le_refl n
    · exact hle.trans hlt.le

theorem Move.ordered {s s' : State ι} {e : Step ι} (h : Move s e s') (hs : Ordered s)
    (habove : AboveStored s e) : Ordered s' := by
  cases h with
  | loads => exact hs.set (by simp)
  | bumps => exact hs.set (by simp)
  | commits hi hstorable => exact hs.commit (habove _ hi hstorable)
  | fails => exact hs.set (by simp)
  | revokes => exact ⟨hs.distinct, hs.le⟩

theorem nonceKept_of_aboveStored {s : State ι} {e : Step ι} (h : AboveStored s e) :
    NonceKept P requests s e := by
  intro s' hs'
  cases step_move hs' with
  | commits hi hstorable => exact (h _ hi hstorable).le
  | _ => exact le_refl _

/-- A commit that keeps the stored nonce and does not raise it repeats the nonce
of a request accepted before. -/
theorem repeated_of_not_aboveStored {s s' : State ι} {e : Step ι}
    (hs : ∀ i, Overtaken s (s.calls i)) (hkept : NonceKept P requests s e)
    (hnot : ¬ AboveStored s e) (h : step P requests s e = some s') : ¬ NoncesDistinct s' := by
  have hmove := step_move h
  cases e with
  | commit i =>
      simp only [AboveStored, not_forall] at hnot
      obtain ⟨nonce, hi, hstorable, hnlt⟩ := hnot
      have hs' : s' = (s.write { s.shared with last_nonce := nonce }).set i (.accepted nonce) := by
        simpa [step, hi, hstorable, eq_comm] using h
      have hle : s.shared.last_nonce ≤ nonce := by simpa [hs'] using hkept s' h
      obtain rfl : s.shared.last_nonce = nonce := by omega
      have hover := hs i
      rw [hi] at hover
      rcases hover with hlt | ⟨j, hj⟩
      · exact absurd hlt (lt_irrefl _)
      · intro hdistinct
        have hji : j = i := hdistinct j i _ (hmove.accepted hj) (by simp [hs'])
        rw [hji, hi] at hj
        cases hj
  | _ => exact absurd trivial hnot

/-- No nonce is accepted twice and the stored nonce never goes back exactly when
every commit raises the nonce it finds stored. -/
theorem replay_protected_iff {row : AuthSessionKey} {es : List (Step ι)} {s : State ι}
    (hrun : run (step P requests) (initial row) es = some s) :
    (NoncesDistinct s ∧ AllSteps (step P requests) (NonceKept P requests) (initial row) es) ↔
      AllSteps (step P requests) AboveStored (initial row) es := by
  constructor
  · rintro ⟨hdistinct, hkept⟩
    by_contra hnot
    obtain ⟨before, e, after, m, m', rfl, hbefore, hviolates, hstep, hafter⟩ :=
      exists_violation hrun hnot
    have hover : ∀ i, Overtaken m (m.calls i) :=
      run_invariant (P := fun s => ∀ i, Overtaken s (s.calls i))
        (fun _ _ _ hs h => (step_move h).overtaken hs) hbefore (initial_overtaken row)
    have hkeeps := ((allSteps_append_iff.mp hkept).2 m hbefore).1
    refine repeated_of_not_aboveStored hover hkeeps hviolates hstep ?_
    intro i j nonce hi hj
    exact hdistinct i j nonce (accepted_run hafter hi) (accepted_run hafter hj)
  · intro hall
    have hordered : Ordered s := run_invariant_of_allSteps
      (fun _ _ _ hs habove h => (step_move h).ordered hs habove) hrun hall (initial_ordered row)
    exact ⟨hordered.distinct, hall.mono fun _ _ => nonceKept_of_aboveStored⟩

def trusting : Primitives where
  int := fun raw => if raw = "5".toList then some 5 else none
  sha256_hexdigest := id
  verify_session_signature := fun _ _ _ => true

def session_row : AuthSessionKey where
  id := "s".toList
  user_id := "u".toList
  session_pub := "pub".toList
  scope := "authenticated-actions".toList
  expires_at := 100
  last_nonce := 0
  revoked_at := none

/-- One signed request and its replay, byte for byte the same. -/
def signed (_ : Fin 2) : Request where
  method := "POST".toList
  path := "/api/keys".toList
  body := []
  user_id := "u".toList
  session_id := some "s".toList
  raw_nonce := some "5".toList
  signature := some "sig".toList

theorem replay_protected_sequential :
    ∃ s, run (step trusting signed) (initial session_row)
        [.load 0 1, .bump 0, .commit 0, .load 1 2, .bump 1] = some s ∧
      ((NoncesDistinct s ∧ AllSteps (step trusting signed) (NonceKept trusting signed)
          (initial session_row) [.load 0 1, .bump 0, .commit 0, .load 1 2, .bump 1]) ↔
        AllSteps (step trusting signed) AboveStored (initial session_row)
          [.load 0 1, .bump 0, .commit 0, .load 1 2, .bump 1]) :=
  ⟨_, rfl, replay_protected_iff rfl⟩

/-- Both requests load the row before either commits. -/
theorem replay_accepted_twice :
    ¬ ∀ (P : Primitives) (requests : Fin 2 → Request) (row : AuthSessionKey)
      (es : List (Step (Fin 2))) (s : State (Fin 2)),
      run (step P requests) (initial row) es = some s →
      NoncesDistinct s ∧ AllSteps (step P requests) (NonceKept P requests) (initial row) es := by
  intro h
  obtain ⟨hdistinct, -⟩ := h trusting signed session_row
    [.load 0 1, .load 1 1, .bump 0, .commit 0, .bump 1, .commit 1] _ rfl
  exact absurd (hdistinct 0 1 5 rfl rfl) (by decide)

end ArticTrader.SessionNonce
