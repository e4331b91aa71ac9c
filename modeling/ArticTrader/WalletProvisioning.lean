import Mathlib.Logic.Function.Basic
import ArticTrader.LabelledRuns
import ArticTrader.PythonText

/-!
Concurrent `ensure_wallet` calls on one user's row. Every call works in its own
database session under READ COMMITTED: it sees the row as committed when it
loads or refreshes it, and its write takes effect at its commit.
-/

namespace ArticTrader.WalletProvisioning

open ArticTrader.LabelledRuns
open ArticTrader.PythonText

structure User where
  chain_address : Option Text
  chain_privkey : Option Text
  deriving DecidableEq, Repr

def User.has_wallet (u : User) : Bool := truthy u.chain_address && truthy u.chain_privkey

variable {ι : Type*}

/-- The private keys that `Account.create()` gives to the calls. Whoever holds
the key of an address moves the funds deposited there; key generation does not
repeat itself. -/
structure KeySource (ι : Type*) where
  address_of : Text → Text
  key : ι → Text
  key_ne : ∀ i, key i ≠ []
  address_ne : ∀ i, address_of (key i) ≠ []
  fresh : ∀ i j, address_of (key i) = address_of (key j) → i = j

def KeySource.account (K : KeySource ι) (i : ι) : User :=
  { chain_address := some (K.address_of (K.key i)), chain_privkey := some (K.key i) }

/-- Where a call stands. A call that has committed still has to refresh. -/
inductive Phase where
  | idle
  | loaded (user : User)
  | committed
  | returned (user : User)
  deriving DecidableEq, Repr

structure State (ι : Type*) where
  row : User
  calls : ι → Phase

def State.write (s : State ι) (user : User) : State ι := { s with row := user }

def initial (row : User) : State ι := { row, calls := fun _ => .idle }

inductive Step (ι : Type*) where
  | load (i : ι)
  | ensure_wallet (i : ι)
  | refresh (i : ι)
  deriving DecidableEq, Repr

/-- The wallet a call has obtained: it showed on the row the call loaded, or
the call has returned it. -/
def Phase.wallet : Phase → Option User
  | .loaded user => if user.has_wallet then some user else none
  | .returned user => some user
  | _ => none

def Phase.past_load : Phase → Bool
  | .committed => true
  | .returned _ => true
  | _ => false

def Phase.finished : Phase → Bool
  | .idle => true
  | .returned _ => true
  | _ => false

/-- The private key of every returned deposit address is the one in the row. -/
def KeysKept (K : KeySource ι) (s : State ι) : Prop :=
  ∀ i user, s.calls i = .returned user →
    ∃ address key, user.chain_address = some address ∧
      s.row.chain_privkey = some key ∧ K.address_of key = address

def WritesFirst (s : State ι) : Step ι → Prop
  | .ensure_wallet i =>
      ∀ user, s.calls i = .loaded user → user.has_wallet = false →
        ∀ j, (s.calls j).wallet = none
  | _ => True

def ProperRow (K : KeySource ι) (row : User) : Prop :=
  row.has_wallet = true →
    ∃ key, row.chain_privkey = some key ∧
      row.chain_address = some (K.address_of key) ∧
        ∀ i, K.address_of (K.key i) ≠ K.address_of key

/-- A wallet whose address belongs to its key, and to the key of a call only
once that call has written. -/
def Sound (K : KeySource ι) (s : State ι) (u : User) : Prop :=
  u.has_wallet = true ∧ ∃ key, u.chain_privkey = some key ∧
    u.chain_address = some (K.address_of key) ∧
      ∀ i, K.address_of (K.key i) = K.address_of key → (s.calls i).past_load = true

structure Consistent (K : KeySource ι) (s : State ι) : Prop where
  row : s.row.has_wallet = true → Sound K s s.row
  obtained : ∀ i user, (s.calls i).wallet = some user → Sound K s user
  committed : ∀ i, s.calls i = .committed → s.row.has_wallet = true

theorem account_has_wallet (K : KeySource ι) (i : ι) :
    (K.account i).has_wallet = true := by
  simp [User.has_wallet, KeySource.account, truthy, K.key_ne i, K.address_ne i]

theorem account_sound (K : KeySource ι) {s : State ι} {i : ι}
    (hi : (s.calls i).past_load = true) : Sound K s (K.account i) := by
  refine ⟨account_has_wallet K i, K.key i, rfl, rfl, ?_⟩
  intro j hj
  rw [K.fresh j i hj]
  exact hi

theorem Sound.mono {K : KeySource ι} {s s' : State ι} {u : User} (h : Sound K s u)
    (hle : ∀ i, (s.calls i).past_load = true → (s'.calls i).past_load = true) :
    Sound K s' u := by
  obtain ⟨hw, key, hkey, haddress, hfresh⟩ := h
  exact ⟨hw, key, hkey, haddress, fun i hi => hle i (hfresh i hi)⟩

theorem consistent_initial {K : KeySource ι} {row : User} (h : ProperRow K row) :
    Consistent K (initial row) := by
  refine ⟨?_, ?_, ?_⟩
  · intro hw
    obtain ⟨key, hkey, haddress, hfresh⟩ := h hw
    exact ⟨hw, key, hkey, haddress, fun i hi => absurd hi (hfresh i)⟩
  · intro i user hi
    simp [initial, Phase.wallet] at hi
  · intro i hi
    simp [initial] at hi

variable [DecidableEq ι]

def State.set (s : State ι) (i : ι) (p : Phase) : State ι :=
  { s with calls := Function.update s.calls i p }

def step (K : KeySource ι) (s : State ι) : Step ι → Option (State ι)
  | .load i =>
      match s.calls i with
      | .idle => some (s.set i (.loaded s.row))
      | _ => none
  | .ensure_wallet i =>
      match s.calls i with
      | .loaded user =>
          if user.has_wallet then some (s.set i (.returned user))
          else some ((s.write (K.account i)).set i .committed)
      | _ => none
  | .refresh i =>
      match s.calls i with
      | .committed => some (s.set i (.returned s.row))
      | _ => none

@[simp] theorem State.set_row (s : State ι) (i : ι) (p : Phase) :
    (s.set i p).row = s.row := rfl

@[simp] theorem State.set_self (s : State ι) (i : ι) (p : Phase) :
    (s.set i p).calls i = p := by
  simp [State.set]

theorem State.set_cases (s : State ι) (i j : ι) (p : Phase) :
    (j = i ∧ (s.set i p).calls j = p) ∨ (j ≠ i ∧ (s.set i p).calls j = s.calls j) := by
  by_cases h : j = i
  · subst h
    exact .inl ⟨rfl, s.set_self j p⟩
  · exact .inr ⟨h, by simp [State.set, h]⟩

theorem step_cases {K : KeySource ι} {s s' : State ι} {e : Step ι}
    (h : step K s e = some s') :
    (∃ i, e = .load i ∧ s.calls i = .idle ∧ s' = s.set i (.loaded s.row)) ∨
    (∃ i user, e = .ensure_wallet i ∧ s.calls i = .loaded user ∧
      user.has_wallet = true ∧ s' = s.set i (.returned user)) ∨
    (∃ i user, e = .ensure_wallet i ∧ s.calls i = .loaded user ∧
      user.has_wallet = false ∧
      s' = (s.write (K.account i)).set i .committed) ∨
    (∃ i, e = .refresh i ∧ s.calls i = .committed ∧
      s' = s.set i (.returned s.row)) := by
  cases e with
  | load i =>
      cases hi : s.calls i <;> simp [step, hi] at h
      exact .inl ⟨i, rfl, hi, h.symm⟩
  | ensure_wallet i =>
      cases hi : s.calls i with
      | loaded user =>
          cases hw : user.has_wallet <;> simp [step, hi, hw] at h
          · exact .inr (.inr (.inl ⟨i, user, rfl, hi, hw, h.symm⟩))
          · exact .inr (.inl ⟨i, user, rfl, hi, hw, h.symm⟩)
      | _ => simp [step, hi] at h
  | refresh i =>
      cases hi : s.calls i <;> simp [step, hi] at h
      exact .inr (.inr (.inr ⟨i, rfl, hi, h.symm⟩))

theorem past_load_set {s : State ι} {i : ι} {p : Phase}
    (hp : (s.calls i).past_load = true → p.past_load = true) (j : ι)
    (hj : (s.calls j).past_load = true) : ((s.set i p).calls j).past_load = true := by
  rcases s.set_cases i j p with ⟨rfl, h⟩ | ⟨-, h⟩
  · rw [h]
    exact hp hj
  · rw [h]
    exact hj

/-- Moving one call on keeps a state consistent if the wallet the call now has
is sound, and its commit leaves a wallet in the row. -/
theorem Consistent.set {K : KeySource ι} {s : State ι} {i : ι} {p : Phase}
    (h : Consistent K s) (hp : (s.calls i).past_load = true → p.past_load = true)
    (hwallet : ∀ user, p.wallet = some user → Sound K (s.set i p) user)
    (hcommit : p = .committed → s.row.has_wallet = true) :
    Consistent K (s.set i p) := by
  refine ⟨fun hrow => (h.row hrow).mono (past_load_set hp), ?_, ?_⟩
  · intro j user hj
    rcases s.set_cases i j p with ⟨rfl, heq⟩ | ⟨-, heq⟩
    · exact hwallet user (heq ▸ hj)
    · exact (h.obtained j user (heq ▸ hj)).mono (past_load_set hp)
  · intro j hj
    rcases s.set_cases i j p with ⟨rfl, heq⟩ | ⟨-, heq⟩
    · exact hcommit (heq ▸ hj)
    · exact h.committed j (heq ▸ hj)

theorem consistent_step {K : KeySource ι} {s s' : State ι} {e : Step ι}
    (hs : Consistent K s) (h : step K s e = some s') : Consistent K s' := by
  rcases step_cases h with ⟨i, -, hi, rfl⟩ | ⟨i, user, -, hi, hw, rfl⟩ |
    ⟨i, user, -, hi, hw, rfl⟩ | ⟨i, -, hi, rfl⟩
  · have hp : (s.calls i).past_load = true → (Phase.loaded s.row).past_load = true := by
      simp [hi, Phase.past_load]
    refine hs.set hp ?_ (by simp)
    intro u hu
    obtain ⟨hrow, rfl⟩ : s.row.has_wallet = true ∧ s.row = u := by
      simpa [Phase.wallet] using hu
    exact (hs.row hrow).mono (past_load_set hp)
  · refine hs.set (fun _ => rfl) ?_ (by simp)
    intro u hu
    have hheld : (s.calls i).wallet = some u := by
      simpa [hi, Phase.wallet, hw] using hu
    exact (hs.obtained i u hheld).mono (past_load_set fun _ => rfl)
  · have haccount : Sound K ((s.write (K.account i)).set i .committed)
        (K.account i) := account_sound K (by simp [Phase.past_load])
    refine ⟨fun _ => haccount, ?_, fun _ _ => account_has_wallet K i⟩
    intro j u hj
    rcases (s.write (K.account i)).set_cases i j .committed with
      ⟨rfl, heq⟩ | ⟨-, heq⟩
    · rw [heq] at hj
      simp [Phase.wallet] at hj
    · rw [heq] at hj
      exact (hs.obtained j u hj).mono
        (past_load_set (s := s.write (K.account i)) fun _ => rfl)
  · refine hs.set (fun _ => rfl) ?_ (by simp)
    intro u hu
    obtain rfl : s.row = u := by simpa [Phase.wallet] using hu
    exact (hs.row (hs.committed i hi)).mono (past_load_set fun _ => rfl)

def Current (s : State ι) : Prop :=
  ∀ i user, (s.calls i).wallet = some user → user = s.row

theorem current_step {K : KeySource ι} {s s' : State ι} {e : Step ι}
    (hs : Current s) (hfirst : WritesFirst s e) (h : step K s e = some s') :
    Current s' := by
  rcases step_cases h with ⟨i, -, hi, rfl⟩ | ⟨i, user, -, hi, hw, rfl⟩ |
    ⟨i, user, rfl, hi, hw, rfl⟩ | ⟨i, -, hi, rfl⟩
  · intro j u hj
    rcases s.set_cases i j (.loaded s.row) with ⟨rfl, heq⟩ | ⟨-, heq⟩
    · obtain ⟨-, rfl⟩ : s.row.has_wallet = true ∧ s.row = u := by
        simpa [heq, Phase.wallet] using hj
      rfl
    · exact hs j u (heq ▸ hj)
  · intro j u hj
    rcases s.set_cases i j (.returned user) with ⟨rfl, heq⟩ | ⟨-, heq⟩
    · refine hs j u ?_
      simpa [heq, hi, Phase.wallet, hw] using hj
    · exact hs j u (heq ▸ hj)
  · intro j u hj
    have hnone := hfirst user hi hw j
    rcases (s.write (K.account i)).set_cases i j .committed with
      ⟨rfl, heq⟩ | ⟨-, heq⟩
    · simp [Phase.wallet] at hj
    · rw [heq] at hj
      simp [State.write, hnone] at hj
  · intro j u hj
    rcases s.set_cases i j (.returned s.row) with ⟨rfl, heq⟩ | ⟨-, heq⟩
    · simpa [heq, Phase.wallet, eq_comm] using hj
    · exact hs j u (heq ▸ hj)

/-- A call holds a wallet whose key the row has lost for good. -/
def Lost (K : KeySource ι) (s : State ι) : Prop :=
  ∃ j user key, (s.calls j).wallet = some user ∧ user.chain_address = some (K.address_of key) ∧
    (∀ k, s.row.chain_privkey = some k → K.address_of k ≠ K.address_of key) ∧
      ∀ i, K.address_of (K.key i) = K.address_of key → (s.calls i).past_load = true

/-- Committing a fresh key loses every wallet obtained before. -/
theorem lost_write {K : KeySource ι} {s : State ι} {i j : ι} {user held : User} {key : Text}
    (hi : s.calls i = .loaded user) (hw : user.has_wallet = false)
    (hheld : (s.calls j).wallet = some held)
    (haddress : held.chain_address = some (K.address_of key))
    (hpast : ∀ i, K.address_of (K.key i) = K.address_of key →
      (s.calls i).past_load = true) :
    Lost K ((s.write (K.account i)).set i .committed) := by
  have hnew : K.address_of (K.key i) ≠ K.address_of key := by
    intro heq
    simpa [hi, Phase.past_load] using hpast i heq
  refine ⟨j, held, key, ?_, haddress, ?_, fun k hk =>
    past_load_set (s := s.write (K.account i)) (fun _ => rfl) k (hpast k hk)⟩
  · rcases (s.write (K.account i)).set_cases i j .committed with ⟨rfl, -⟩ | ⟨-, heq⟩
    · simp [hi, Phase.wallet, hw] at hheld
    · exact heq ▸ hheld
  · intro k hk
    obtain rfl : K.key i = k := Option.some.inj hk
    exact hnew

theorem lost_step {K : KeySource ι} {s s' : State ι} {e : Step ι}
    (hs : Lost K s) (h : step K s e = some s') : Lost K s' := by
  obtain ⟨j, held, key, hheld, haddress, hrow, hpast⟩ := hs
  rcases step_cases h with ⟨i, -, hi, rfl⟩ | ⟨i, user, -, hi, hw, rfl⟩ |
    ⟨i, user, -, hi, hw, rfl⟩ | ⟨i, -, hi, rfl⟩
  · refine ⟨j, held, key, ?_, haddress, hrow, fun k hk =>
      past_load_set (by simp [hi, Phase.past_load]) k (hpast k hk)⟩
    rcases s.set_cases i j (.loaded s.row) with ⟨rfl, -⟩ | ⟨-, heq⟩
    · simp [hi, Phase.wallet] at hheld
    · exact heq ▸ hheld
  · refine ⟨j, held, key, ?_, haddress, hrow, fun k hk =>
      past_load_set (fun _ => rfl) k (hpast k hk)⟩
    rcases s.set_cases i j (.returned user) with ⟨rfl, heq⟩ | ⟨-, heq⟩
    · simpa [heq, hi, Phase.wallet, hw] using hheld
    · exact heq ▸ hheld
  · exact lost_write hi hw hheld haddress hpast
  · refine ⟨j, held, key, ?_, haddress, hrow, fun k hk =>
      past_load_set (fun _ => rfl) k (hpast k hk)⟩
    rcases s.set_cases i j (.returned s.row) with ⟨rfl, -⟩ | ⟨-, heq⟩
    · simp [hi, Phase.wallet] at hheld
    · exact heq ▸ hheld

theorem lost_of_late_write {K : KeySource ι} {s s' : State ι} {e : Step ι}
    (hs : Consistent K s) (hlate : ¬ WritesFirst s e) (h : step K s e = some s') :
    Lost K s' := by
  cases e with
  | ensure_wallet i =>
      simp only [WritesFirst, not_forall] at hlate
      obtain ⟨user, hi, hw, j, hj⟩ := hlate
      obtain ⟨held, hheld⟩ := Option.ne_none_iff_exists'.mp hj
      obtain ⟨-, key, -, haddress, hpast⟩ := hs.obtained j held hheld
      have hs' : s' = (s.write (K.account i)).set i .committed := by
        simpa [step, hi, hw, eq_comm] using h
      subst hs'
      exact lost_write hi hw hheld haddress hpast
  | load i => exact absurd trivial hlate
  | refresh i => exact absurd trivial hlate

/-- Once all calls have finished, the keys of all returned addresses are in the
row exactly when no call wrote after another had obtained a wallet. -/
theorem keysKept_iff {K : KeySource ι} {row : User} (hrow : ProperRow K row)
    {es : List (Step ι)} {s : State ι}
    (hrun : run (step K) (initial row) es = some s)
    (hfinished : ∀ i, (s.calls i).finished = true) :
    KeysKept K s ↔ AllSteps (step K) WritesFirst (initial row) es := by
  have hconsistent := run_invariant (fun s e s' => consistent_step) hrun
    (consistent_initial hrow)
  constructor
  · intro hkept
    by_contra hnot
    obtain ⟨before, e, after, m, m', -, hbefore, hlate, hstep, hafter⟩ :=
      exists_violation hrun hnot
    have hm := run_invariant (fun s e s' => consistent_step) hbefore
      (consistent_initial hrow)
    have hlost := run_invariant (fun s e s' => lost_step) hafter
      (lost_of_late_write hm hlate hstep)
    obtain ⟨j, user, key, hj, haddress, hgone, -⟩ := hlost
    cases hphase : s.calls j with
    | returned u =>
        obtain rfl : u = user := by simpa [hphase, Phase.wallet] using hj
        obtain ⟨address, k, hu, hk, rfl⟩ := hkept j u hphase
        exact hgone k hk (Option.some.inj (hu.symm.trans haddress))
    | idle => simp [hphase, Phase.wallet] at hj
    | committed => simp [hphase, Phase.wallet] at hj
    | loaded u => simpa [hphase, Phase.finished] using hfinished j
  · intro hall
    have hcurrent : Current s := run_invariant_of_allSteps
      (fun s e s' => current_step) hrun hall (by intro i u h; simp [initial, Phase.wallet] at h)
    intro i user hi
    have hwallet : (s.calls i).wallet = some user := by simp [hi, Phase.wallet]
    obtain ⟨-, key, hkey, haddress, -⟩ := hconsistent.obtained i user hwallet
    have huser := hcurrent i user hwallet
    exact ⟨K.address_of key, key, haddress, huser ▸ hkey, rfl⟩

def two_keys : KeySource (Fin 2) where
  address_of := fun key => "0x".toList ++ key
  key := fun i => if i.val = 0 then "aa".toList else "bb".toList
  key_ne := by decide
  address_ne := by decide
  fresh := by decide

def no_wallet : User := { chain_address := none, chain_privkey := none }

theorem keysKept_sequential :
    ∃ s, run (step two_keys) (initial no_wallet)
        [.load 0, .ensure_wallet 0, .refresh 0, .load 1, .ensure_wallet 1] = some s ∧
      (KeysKept two_keys s ↔ AllSteps (step two_keys) WritesFirst (initial no_wallet)
        [.load 0, .ensure_wallet 0, .refresh 0, .load 1, .ensure_wallet 1]) :=
  ⟨_, rfl, keysKept_iff (by intro h; exact absurd h (by decide)) rfl (by decide)⟩

/-- Two calls load the empty row; the second commits after the first has
returned its address. -/
theorem second_write_loses_key :
    ¬ ∀ (K : KeySource (Fin 2)) (row : User) (es : List (Step (Fin 2)))
      (s : State (Fin 2)), ProperRow K row →
      run (step K) (initial row) es = some s →
      (∀ i, (s.calls i).finished = true) → KeysKept K s := by
  intro h
  have hkept := h two_keys no_wallet
    [.load 0, .load 1, .ensure_wallet 0, .refresh 0, .ensure_wallet 1, .refresh 1] _
    (by intro h; exact absurd h (by decide)) rfl (by decide)
  obtain ⟨address, key, haddress, hkey, howner⟩ := hkept 0 _ rfl
  cases haddress
  cases hkey
  exact absurd howner (by decide)

end ArticTrader.WalletProvisioning
