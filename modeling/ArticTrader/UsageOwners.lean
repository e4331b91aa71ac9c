import ArticTrader.StrategyMoves

/-!
Whose leave a usage flag of `StrategyINFT` stands for. A flag outlives a sale,
so it stands for the owner of the token only where tokens are sold unused.
-/

namespace ArticTrader.UsageOwners

open ArticTrader.LabelledRuns
open ArticTrader.TokenStandard
open ArticTrader.StrategyINFT
open ArticTrader.StrategyMoves

/-- The move gives the token to another account. -/
def sells (tokenId : Word) : Move → Bool
  | .transferFrom _ source to_ moved => moved = tokenId && source ≠ to_
  | _ => false

/-- The owner authorized the user, and has not parted with the token since. -/
def Granted (past : List Move) (tokenId : Word) (user owner : Address) : Prop :=
  ∃ before after, past = before ++ .authorizeUsage owner tokenId user :: after ∧
    ∀ m ∈ after, sells tokenId m = false

theorem granted_now (past : List Move) (tokenId : Word) (user owner : Address) :
    Granted (past ++ [.authorizeUsage owner tokenId user]) tokenId user owner :=
  ⟨past, [], rfl, nofun⟩

theorem Granted.concat {past : List Move} {tokenId : Word} {user owner : Address} {m : Move}
    (h : Granted past tokenId user owner) (hm : sells tokenId m = false) :
    Granted (past ++ [m]) tokenId user owner := by
  obtain ⟨before, after, rfl, hafter⟩ := h
  refine ⟨before, after ++ [m], by simp, ?_⟩
  intro m' hm'
  rcases List.mem_append.mp hm' with hm' | hm'
  · exact hafter m' hm'
  · rw [List.mem_singleton.mp hm']
    exact hm

theorem not_granted_sold {past : List Move} {tokenId : Word} {user owner : Address} {m : Move}
    (hm : sells tokenId m = true) : ¬ Granted (past ++ [m]) tokenId user owner := by
  rintro ⟨before, after, heq, hafter⟩
  rcases List.eq_nil_or_concat after with rfl | ⟨after, last, rfl⟩
  · have hlast := (List.append_inj' heq rfl).2
    rw [(List.cons.inj hlast).1] at hm
    cases hm
  · rw [List.concat_eq_append, ← List.cons_append, ← List.append_assoc] at heq
    have hlast := (List.cons.inj (List.append_inj' heq rfl).2).1
    have hkept := hafter last (by simp)
    rw [← hlast, hm] at hkept
    cases hkept

variable {β : Type} (T : Erc721 β)

/-- Every flag that is set was set by the token's owner, who has had it since. -/
def UsersOfOwner (w : (State β × List Event) × List Move) : Prop :=
  ∀ tokenId user, w.1.1.usageAuthorized tokenId user = true →
    ∃ owner, w.1.1.ownerOf T tokenId = some owner ∧ Granted w.2 tokenId user owner

/-- A token that is sold has no users. -/
def SoldUnused (w : (State β × List Event) × List Move) (m : Move) : Prop :=
  ∀ tokenId, sells tokenId m = true → ∀ user, w.1.1.usageAuthorized tokenId user = false

def start (deployer : Address) : (State β × List Event) × List Move :=
  ((initial T deployer, []), [])

variable {T}

theorem users_of_owner_start (deployer : Address) : UsersOfOwner T (start T deployer) := by
  intro tokenId user hused
  cases hused

/-- A flag of a token that keeps its owner. -/
theorem kept_user {w : (State β × List Event) × List Move} {s : State β} {m : Move}
    {tokenId : Word} {user : Address} (hs : UsersOfOwner T w)
    (hused : w.1.1.usageAuthorized tokenId user = true)
    (howner : s.ownerOf T tokenId = w.1.1.ownerOf T tokenId) (hm : sells tokenId m = false) :
    ∃ owner, s.ownerOf T tokenId = some owner ∧
      Granted (w.2 ++ [m]) tokenId user owner := by
  obtain ⟨owner, howned, hgranted⟩ := hs tokenId user hused
  exact ⟨owner, howner.trans howned, hgranted.concat hm⟩

theorem users_of_owner_same {w : (State β × List Event) × List Move} {s : State β}
    {events : List Event} {m : Move} (hs : UsersOfOwner T w) (h : Same T w.1.1 s)
    (hm : ∀ tokenId, sells tokenId m = false) :
    UsersOfOwner T ((s, events), w.2 ++ [m]) := by
  intro tokenId user hused
  rw [h.usageAuthorized] at hused
  exact kept_user hs hused (congrFun h.ownerOf tokenId) (hm tokenId)

theorem users_of_owner_effect {w : (State β × List Event) × List Move} {s : State β}
    {events : List Event} {m : Move} (hs : UsersOfOwner T w) (hC : SoldUnused w m)
    (h : Effect T w.1.1 s m) : UsersOfOwner T ((s, events), w.2 ++ [m]) := by
  cases h with
  | mint hfree howner husage hsealed =>
      intro tokenId user hused
      rw [husage] at hused
      obtain ⟨owner, howned, -⟩ := hs tokenId user hused
      refine kept_user hs hused (ownerOf_update_of_ne howner ?_) rfl
      intro heq
      rw [heq, howned] at hfree
      cases hfree
  | authorizeUsage howned howner husage hsealed =>
      rename_i sender authorized user
      intro tokenId other hused
      by_cases hsame : tokenId = authorized ∧ other = user
      · obtain ⟨rfl, rfl⟩ := hsame
        exact ⟨sender, (congrFun howner tokenId).trans howned, granted_now _ _ _ _⟩
      · refine kept_user hs ?_ (congrFun howner tokenId) rfl
        rw [husage] at hused
        by_cases htoken : tokenId = authorized
        · subst tokenId
          have hother : other ≠ user := fun heq => hsame ⟨rfl, heq⟩
          rwa [Function.update_self, Function.update_of_ne hother] at hused
        · rwa [Function.update_of_ne htoken] at hused
  | revokeUsage howner husage hsealed =>
      rename_i sender revoked user
      intro tokenId other hused
      refine kept_user hs ?_ (congrFun howner tokenId) rfl
      rw [husage] at hused
      by_cases htoken : tokenId = revoked
      · subst tokenId
        rw [Function.update_self] at hused
        by_cases hother : other = user
        · subst other
          rw [Function.update_self] at hused
          cases hused
        · rwa [Function.update_of_ne hother] at hused
      · rwa [Function.update_of_ne htoken] at hused
  | setSealedConfigHash howner husage hsealed =>
      intro tokenId user hused
      rw [husage] at hused
      exact kept_user hs hused (congrFun howner tokenId) rfl
  | transferFrom howned howner husage hsealed =>
      rename_i sender source to_ moved
      intro tokenId user hused
      rw [husage] at hused
      cases hsold : sells tokenId (.transferFrom sender source to_ moved) with
      | true =>
          rw [hC tokenId hsold user] at hused
          cases hused
      | false =>
          refine kept_user hs hused ?_ hsold
          by_cases hmoved : moved = tokenId
          · subst moved
            have hself : source = to_ := by simpa [sells] using hsold
            rw [howner, Function.update_self, howned, hself]
          · exact ownerOf_update_of_ne howner hmoved
  | minted h | setOracle h | transferOwnership h | approval h | elsewhere h =>
      exact users_of_owner_same hs h fun _ => rfl

/-- A sale leaves the flags as they are. -/
theorem sold_usage {s s' : State β} {m : Move} {tokenId : Word} (h : Effect T s s' m)
    (hsold : sells tokenId m = true) : s'.usageAuthorized = s.usageAuthorized := by
  cases h with
  | transferFrom howned howner husage hsealed => exact husage
  | _ => cases hsold

theorem effect_of_recorded {w w' : (State β × List Event) × List Move} {m : Move}
    (h : recorded (move T) w m = some w') :
    Effect T w.1.1 w'.1.1 m ∧ w' = ((w'.1.1, w'.1.2), w.2 ++ [m]) := by
  obtain ⟨hmove, hpast⟩ := recorded_some_iff.mp h
  obtain ⟨s, events, happly, heq⟩ := move_some_iff.mp hmove
  refine ⟨?_, Prod.ext rfl hpast⟩
  rw [heq]
  exact apply_effect happly

theorem users_of_owner_step_iff {w w' : (State β × List Event) × List Move} {m : Move}
    (hs : UsersOfOwner T w) (h : recorded (move T) w m = some w') :
    SoldUnused w m ↔ UsersOfOwner T w' := by
  obtain ⟨heffect, hw'⟩ := effect_of_recorded h
  constructor
  · intro hC
    rw [hw']
    exact users_of_owner_effect hs hC heffect
  · intro hs' tokenId hsold user
    by_contra hused
    have hkept : w'.1.1.usageAuthorized tokenId user = true := by
      rw [sold_usage heffect hsold]
      exact eq_true_of_ne_false hused
    obtain ⟨owner, -, hgranted⟩ := hs' tokenId user hkept
    rw [hw'] at hgranted
    exact not_granted_sold hsold hgranted

/-- In all that calls of any accounts do, hooks included, every usage flag stands
for the leave of the token's owner exactly where tokens are sold unused. -/
theorem users_of_owner_iff (T : Erc721 β) (deployer : Address) (calls : List Call) :
    run (recorded (move T)) (start T deployer) (traces T (initial T deployer) calls) =
        some (execs T (initial T deployer) calls, traces T (initial T deployer) calls) ∧
      (AllSteps (recorded (move T)) SoldUnused (start T deployer)
          (traces T (initial T deployer) calls) ↔
        ∀ w later, Passes (recorded (move T)) (start T deployer)
          (traces T (initial T deployer) calls) w later → UsersOfOwner T w) := by
  have hrun := run_recorded (run_traces (T := T) calls (initial T deployer) []) []
  rw [List.nil_append, List.nil_append] at hrun
  refine ⟨hrun, ?_⟩
  apply allSteps_iff_passes (P := UsersOfOwner T) _ _ (fun _ hs => hs) hrun
    (users_of_owner_start deployer)
  · intro w m w' hs hC h
    exact (users_of_owner_step_iff hs h).mp hC
  · intro w m w' hs h
    exact users_of_owner_step_iff hs h

/-- The first owner authorizes himself and sells the token. -/
def sale : List Call :=
  [.mint 1 2 7 8 true [], .authorizeUsage 2 1 2, .transferFrom 2 2 3 1]

theorem seller_keeps_usage :
    (execs standard (initial standard 1) sale).1.ownerOf standard 1 = some 3 ∧
      (execs standard (initial standard 1) sale).1.usageAuthorized 1 2 = true ∧
      ¬ UsersOfOwner standard
        (execs standard (initial standard 1) sale, traces standard (initial standard 1) sale) := by
  have htrace : traces standard (initial standard 1) sale =
      [.mint 1 2 7 8, .minted 1 2 7 8, .authorizeUsage 2 1 2] ++ [.transferFrom 2 2 3 1] := by
    decide
  have hused : (execs standard (initial standard 1) sale).1.usageAuthorized 1 2 = true := by
    decide
  refine ⟨by decide, hused, ?_⟩
  intro hs
  obtain ⟨owner, -, hgranted⟩ := hs 1 2 hused
  rw [htrace] at hgranted
  exact not_granted_sold (by decide) hgranted

end ArticTrader.UsageOwners
