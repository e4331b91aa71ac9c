import ArticTrader.OwnedKeys
import ArticTrader.TokenStandard

/-!
The contract `StrategyRegistry`: its records, its lists by author, and the calls
that reach it one after another. What it takes over from `Ownable` stays
abstract.
-/

namespace ArticTrader.StrategyRegistry

open ArticTrader.OwnedKeys
open ArticTrader.TokenStandard (Address Word)

def MAX_NAME_BYTES : Nat := 64

structure Strategy where
  strategyHash : Word
  author : Address
  codeCID : Word
  name : List UInt8
  publishedAt : BitVec 64
  delisted : Bool
  deriving DecidableEq, Repr

/-- What a record holds before it is first written. -/
def zeroed : Strategy where
  strategyHash := 0
  author := 0
  codeCID := 0
  name := []
  publishedAt := 0
  delisted := false

/-- The base contract; `none` stands for a revert, and the sender comes before
the arguments. -/
structure Ownable (β : Type) where
  construct : Address → Option β
  owner : β → Address
  transferOwnership : β → Address → Address → Option β
  renounceOwnership : β → Address → Option β
  construct_some : ∀ {b : β} {initialOwner : Address}, construct initialOwner = some b →
    owner b = initialOwner
  transferOwnership_some : ∀ {b b' : β} {sender newOwner : Address},
    transferOwnership b sender newOwner = some b' → sender = owner b ∧ owner b' = newOwner
  renounceOwnership_some : ∀ {b b' : β} {sender : Address},
    renounceOwnership b sender = some b' → sender = owner b ∧ owner b' = 0

/-- The documented behaviour: only the owner acts, and never for the zero account. -/
def ownable : Ownable Address where
  construct initialOwner := if initialOwner = 0 then none else some initialOwner
  owner b := b
  transferOwnership b sender newOwner :=
    if sender = b ∧ newOwner ≠ 0 then some newOwner else none
  renounceOwnership b sender := if sender = b then some 0 else none
  construct_some := by
    intro b initialOwner h
    exact (Option.some.inj (Option.ite_none_left_eq_some.mp h).2).symm
  transferOwnership_some := by
    intro b b' sender newOwner h
    obtain ⟨⟨hsender, -⟩, h⟩ := Option.ite_none_right_eq_some.mp h
    exact ⟨hsender, (Option.some.inj h).symm⟩
  renounceOwnership_some := by
    intro b b' sender h
    obtain ⟨hsender, h⟩ := Option.ite_none_right_eq_some.mp h
    exact ⟨hsender, (Option.some.inj h).symm⟩

structure State (β : Type) where
  strategies : Word → Strategy
  byAuthor : Address → List Word
  base : β

inductive Event where
  | StrategyPublished (strategyHash : Word) (author : Address) (codeCID : Word)
      (name : List UInt8)
  | StrategyDelisted (strategyHash : Word) (by_ : Address)
  | OwnershipTransferred (previousOwner newOwner : Address)
  deriving DecidableEq, Repr

inductive Revert where
  | AlreadyPublished
  | UnknownStrategy
  | NameEmpty
  | NameTooLong
  | HashZero
  | NotAuthorized
  | AlreadyDelisted
  | Ownable
  deriving DecidableEq, Repr

inductive Method where
  | publish (strategyHash codeCID : Word) (name : List UInt8)
  | delist (strategyHash : Word)
  | transferOwnership (newOwner : Address)
  | renounceOwnership
  deriving DecidableEq, Repr

structure Call where
  sender : Address
  timestamp : Word
  method : Method
  deriving DecidableEq, Repr

variable {β : Type} (O : Ownable β)

def State.get (s : State β) (strategyHash : Word) : Strategy := s.strategies strategyHash

def State.getByAuthor (s : State β) (author : Address) : List Word := s.byAuthor author

def State.owner (s : State β) : Address := O.owner s.base

def entry (sender : Address) (timestamp strategyHash codeCID : Word) (name : List UInt8) :
    Strategy where
  strategyHash := strategyHash
  author := sender
  codeCID := codeCID
  name := name
  publishedAt := timestamp.setWidth 64
  delisted := false

def State.publish (s : State β) (sender : Address) (timestamp strategyHash codeCID : Word)
    (name : List UInt8) : Except Revert (State β × List Event) :=
  let len := name.length
  if strategyHash = 0 then .error .HashZero
  else if len = 0 then .error .NameEmpty
  else if len > MAX_NAME_BYTES then .error .NameTooLong
  else if (s.strategies strategyHash).author ≠ 0 then .error .AlreadyPublished
  else
    .ok ({ s with
        strategies := Function.update s.strategies strategyHash
          (entry sender timestamp strategyHash codeCID name)
        byAuthor := Function.update s.byAuthor sender (s.byAuthor sender ++ [strategyHash]) },
      [.StrategyPublished strategyHash sender codeCID name])

def State.delist (s : State β) (sender : Address) (strategyHash : Word) :
    Except Revert (State β × List Event) :=
  let r := s.strategies strategyHash
  if r.author = 0 then .error .UnknownStrategy
  else if sender ≠ r.author ∧ sender ≠ s.owner O then .error .NotAuthorized
  else if r.delisted then .error .AlreadyDelisted
  else
    .ok ({ s with
        strategies := Function.update s.strategies strategyHash { r with delisted := true } },
      [.StrategyDelisted strategyHash sender])

/-- A call that the base contract answers. -/
def State.own (s : State β) : Option β → Except Revert (State β × List Event)
  | none => .error .Ownable
  | some base => .ok ({ s with base }, [.OwnershipTransferred (s.owner O) (O.owner base)])

def exec (s : State β) (c : Call) : Except Revert (State β × List Event) :=
  match c.method with
  | .publish strategyHash codeCID name =>
      s.publish c.sender c.timestamp strategyHash codeCID name
  | .delist strategyHash => s.delist O c.sender strategyHash
  | .transferOwnership newOwner => s.own O (O.transferOwnership s.base c.sender newOwner)
  | .renounceOwnership => s.own O (O.renounceOwnership s.base c.sender)

structure Receipt where
  call : Call
  outcome : Except Revert (List Event)

structure Chain (β : Type) where
  registry : State β
  receipts : List Receipt

/-- The registry as its constructor leaves it. -/
def deploy (deployer : Address) : Option (Chain β) :=
  (O.construct deployer).map fun base =>
    ⟨{ strategies := fun _ => zeroed, byAuthor := fun _ => [], base }, []⟩

/-- A call that reverts leaves nothing but its receipt. -/
def Chain.transact (ch : Chain β) (c : Call) : Chain β :=
  match exec O ch.registry c with
  | .error e => { ch with receipts := ch.receipts ++ [⟨c, .error e⟩] }
  | .ok (registry, events) => ⟨registry, ch.receipts ++ [⟨c, .ok events⟩]⟩

def Chain.transacts (ch : Chain β) (calls : List Call) : Chain β :=
  calls.foldl (Chain.transact O) ch

/-- The author and the hash that a call publishes. -/
def Call.publication (c : Call) : Option (Address × Word) :=
  match c.method with
  | .publish strategyHash _ _ => some (c.sender, strategyHash)
  | _ => none

/-- The owner that a call names. -/
def Call.newOwner (c : Call) : Option Address :=
  match c.method with
  | .transferOwnership newOwner => some newOwner
  | .renounceOwnership => some 0
  | _ => none

def Receipt.success (r : Receipt) : Option Call :=
  match r.outcome with
  | .ok _ => some r.call
  | .error _ => none

def publications (calls : List Call) : List (Address × Word) :=
  calls.filterMap Call.publication

def lastOwner (deployer : Address) (calls : List Call) : Address :=
  (calls.filterMap Call.newOwner).getLastD deployer

def Chain.successes (ch : Chain β) : List Call := ch.receipts.filterMap Receipt.success

/-- The hashes that have been published, in order. -/
def Chain.published (ch : Chain β) : List Word := (publications ch.successes).map Prod.snd

/-- What a call that does not revert does. -/
inductive Change (s : State β) (c : Call) : State β → Prop where
  | published {strategyHash codeCID : Word} {name : List UInt8}
      (hmethod : c.method = .publish strategyHash codeCID name)
      (hfree : (s.strategies strategyHash).author = 0) :
      Change s c { s with
        strategies := Function.update s.strategies strategyHash
          (entry c.sender c.timestamp strategyHash codeCID name)
        byAuthor := Function.update s.byAuthor c.sender (s.byAuthor c.sender ++ [strategyHash]) }
  | delisted {strategyHash : Word} (hmethod : c.method = .delist strategyHash)
      (hknown : (s.strategies strategyHash).author ≠ 0)
      (hby : c.sender = (s.strategies strategyHash).author ∨ c.sender = s.owner O)
      (hlisted : (s.strategies strategyHash).delisted = false) :
      Change s c { s with
        strategies := Function.update s.strategies strategyHash
          { s.strategies strategyHash with delisted := true } }
  | owned {base : β} (hpublication : c.publication = none)
      (hnewOwner : c.newOwner = some (O.owner base)) :
      Change s c { s with base }

variable {O}

theorem change_of_exec {s s' : State β} {c : Call} {events : List Event}
    (h : exec O s c = .ok (s', events)) : Change O s c s' := by
  unfold exec at h
  split at h
  next strategyHash codeCID name hmethod =>
      simp only [State.publish] at h
      split_ifs at h with _ _ _ hauthor
      cases h
      exact .published hmethod (not_not.mp hauthor)
  next strategyHash hmethod =>
      simp only [State.delist] at h
      split_ifs at h with hauthor hsender hdelisted
      cases h
      rw [not_and_or, not_not, not_not] at hsender
      exact .delisted hmethod hauthor hsender (Bool.not_eq_true _ ▸ hdelisted)
  next newOwner hmethod =>
      cases hbase : O.transferOwnership s.base c.sender newOwner with
      | none => simp [State.own, hbase] at h
      | some base =>
          simp only [State.own, hbase] at h
          cases h
          obtain ⟨-, howner⟩ := O.transferOwnership_some hbase
          refine .owned (by simp [Call.publication, hmethod]) ?_
          simp [Call.newOwner, hmethod, howner]
  next hmethod =>
      cases hbase : O.renounceOwnership s.base c.sender with
      | none => simp [State.own, hbase] at h
      | some base =>
          simp only [State.own, hbase] at h
          cases h
          obtain ⟨-, howner⟩ := O.renounceOwnership_some hbase
          refine .owned (by simp [Call.publication, hmethod]) ?_
          simp [Call.newOwner, hmethod, howner]

theorem transact_error {ch : Chain β} {c : Call} {e : Revert}
    (h : exec O ch.registry c = .error e) :
    (ch.transact O c).registry = ch.registry ∧ (ch.transact O c).successes = ch.successes := by
  simp [Chain.transact, h, Chain.successes, Receipt.success]

theorem transact_ok {ch : Chain β} {c : Call} {s' : State β} {events : List Event}
    (h : exec O ch.registry c = .ok (s', events)) :
    (ch.transact O c).registry = s' ∧ (ch.transact O c).successes = ch.successes ++ [c] := by
  simp [Chain.transact, h, Chain.successes, Receipt.success]

/-- A property of the registry and the successful calls so far is preserved by
every transaction if every change preserves it. -/
theorem transact_preserves {P : State β → List Call → Prop} {ch : Chain β} {c : Call}
    (hchange : ∀ s', Change O ch.registry c s' → P s' (ch.successes ++ [c]))
    (h : P ch.registry ch.successes) :
    P (ch.transact O c).registry (ch.transact O c).successes := by
  cases hexec : exec O ch.registry c with
  | error e =>
      obtain ⟨hregistry, hsuccesses⟩ := transact_error hexec
      rw [hregistry, hsuccesses]
      exact h
  | ok result =>
      obtain ⟨hregistry, hsuccesses⟩ := transact_ok hexec
      rw [hregistry, hsuccesses]
      exact hchange result.1 (change_of_exec hexec)

theorem publications_concat (calls : List Call) (c : Call) :
    publications (calls ++ [c]) = publications calls ++ c.publication.toList := by
  cases hc : c.publication <;> simp [publications, hc]

theorem lastOwner_concat (deployer : Address) (calls : List Call) (c : Call) :
    lastOwner deployer (calls ++ [c]) = c.newOwner.getD (lastOwner deployer calls) := by
  cases hc : c.newOwner <;> simp [lastOwner, hc]

/-- The records, the lists by author and the owner are what the successful calls
have made them. -/
structure Consistent (O : Ownable β) (deployer : Address) (s : State β) (calls : List Call) :
    Prop where
  distinct : ((publications calls).map Prod.snd).Nodup
  authored : ∀ {author strategyHash}, (author, strategyHash) ∈ publications calls ↔
    author ≠ 0 ∧ (s.strategies strategyHash).author = author
  listed : s.byAuthor = keysOf (publications calls)
  blank : ∀ strategyHash, (s.strategies strategyHash).author = 0 →
    s.strategies strategyHash = zeroed
  owned : s.owner O = lastOwner deployer calls

theorem consistent_deploy {deployer : Address} {ch : Chain β} (h : deploy O deployer = some ch) :
    Consistent O deployer ch.registry ch.successes := by
  obtain ⟨base, hbase, rfl⟩ := Option.map_eq_some_iff.mp h
  refine ⟨List.nodup_nil, ?_, rfl, fun _ _ => rfl, O.construct_some hbase⟩
  intro author strategyHash
  constructor
  · exact nofun
  · rintro ⟨hauthor, heq⟩
    exact absurd heq.symm hauthor

theorem Consistent.unpublished {deployer : Address} {s : State β} {calls : List Call}
    (h : Consistent O deployer s calls) {strategyHash : Word}
    (hfree : (s.strategies strategyHash).author = 0) :
    strategyHash ∉ (publications calls).map Prod.snd := by
  intro hmem
  obtain ⟨⟨author, strategyHash⟩, hpublication, rfl⟩ := List.mem_map.mp hmem
  obtain ⟨hauthor, heq⟩ := h.authored.mp hpublication
  exact hauthor (heq.symm.trans hfree)

theorem blank_update {records : Word → Strategy} {strategyHash : Word} {r : Strategy}
    (hr : r.author ≠ 0) (h : ∀ queried, (records queried).author = 0 → records queried = zeroed)
    (queried : Word) (hauthor : (Function.update records strategyHash r queried).author = 0) :
    Function.update records strategyHash r queried = zeroed := by
  by_cases hq : queried = strategyHash
  · subst queried
    rw [Function.update_self] at hauthor
    exact absurd hauthor hr
  · rw [Function.update_of_ne hq] at hauthor ⊢
    exact h queried hauthor

theorem Consistent.change {deployer : Address} {s s' : State β} {calls : List Call} {c : Call}
    (h : Consistent O deployer s calls) (hsender : c.sender ≠ 0) (hchange : Change O s c s') :
    Consistent O deployer s' (calls ++ [c]) := by
  cases hchange with
  | @published strategyHash codeCID name hmethod hfree =>
      have hpublications : publications (calls ++ [c]) =
          publications calls ++ [(c.sender, strategyHash)] := by
        simp [publications_concat, Call.publication, hmethod]
      refine ⟨?_, ?_, ?_, ?_, ?_⟩
      · rw [hpublications, List.map_append, List.map_singleton, ← List.concat_eq_append]
        exact h.distinct.concat (h.unpublished hfree)
      · intro author queried
        rw [hpublications, List.mem_append, h.authored, List.mem_singleton, Prod.mk.injEq]
        by_cases hq : queried = strategyHash
        · subst queried
          simp only [Function.update_self, hfree, entry]
          grind
        · simp [hq]
      · rw [hpublications, keysOf_concat, ← h.listed]
      · exact blank_update (r := entry _ _ _ _ _) hsender h.blank
      · simp only [lastOwner_concat, Call.newOwner, hmethod]
        exact h.owned
  | @delisted strategyHash hmethod hknown hby hlisted =>
      have hpublications : publications (calls ++ [c]) = publications calls := by
        simp [publications_concat, Call.publication, hmethod]
      refine ⟨?_, ?_, ?_, ?_, ?_⟩
      · rw [hpublications]
        exact h.distinct
      · intro author queried
        rw [hpublications, h.authored]
        by_cases hq : queried = strategyHash
        · subst queried
          simp
        · simp [hq]
      · rw [hpublications]
        exact h.listed
      · exact blank_update (r := { s.strategies strategyHash with delisted := true }) hknown h.blank
      · simp only [lastOwner_concat, Call.newOwner, hmethod]
        exact h.owned
  | @owned base hpublication hnewOwner =>
      have hpublications : publications (calls ++ [c]) = publications calls := by
        simp [publications_concat, hpublication]
      refine ⟨?_, ?_, ?_, h.blank, ?_⟩
      · rw [hpublications]
        exact h.distinct
      · rw [hpublications]
        exact h.authored
      · rw [hpublications]
        exact h.listed
      · rw [lastOwner_concat, hnewOwner]
        rfl

theorem consistent_transacts {deployer : Address} {ch : Chain β} {calls : List Call}
    (h : Consistent O deployer ch.registry ch.successes) (hcalls : ∀ c ∈ calls, c.sender ≠ 0) :
    Consistent O deployer (ch.transacts O calls).registry (ch.transacts O calls).successes := by
  induction calls generalizing ch with
  | nil => exact h
  | cons c calls ih =>
      obtain ⟨hsender, hrest⟩ := List.forall_mem_cons.mp hcalls
      exact ih (transact_preserves (fun _ hchange => h.change hsender hchange) h) hrest

/-- The two records are the same but for the delisting. -/
structure SameEntry (r r' : Strategy) : Prop where
  strategyHash : r'.strategyHash = r.strategyHash
  author : r'.author = r.author
  codeCID : r'.codeCID = r.codeCID
  name : r'.name = r.name
  publishedAt : r'.publishedAt = r.publishedAt

theorem SameEntry.refl (r : Strategy) : SameEntry r r := ⟨rfl, rfl, rfl, rfl, rfl⟩

theorem SameEntry.trans {r r' r'' : Strategy} (h : SameEntry r r') (h' : SameEntry r' r'') :
    SameEntry r r'' where
  strategyHash := h'.strategyHash.trans h.strategyHash
  author := h'.author.trans h.author
  codeCID := h'.codeCID.trans h.codeCID
  name := h'.name.trans h.name
  publishedAt := h'.publishedAt.trans h.publishedAt

theorem Change.sameEntry {s s' : State β} {c : Call} (h : Change O s c s') {queried : Word}
    (hauthor : (s.strategies queried).author ≠ 0) :
    SameEntry (s.strategies queried) (s'.strategies queried) := by
  cases h with
  | @published strategyHash codeCID name hmethod hfree =>
      have hq : queried ≠ strategyHash := by
        rintro rfl
        exact hauthor hfree
      simp only [Function.update_of_ne hq]
      exact SameEntry.refl _
  | @delisted strategyHash hmethod hknown hby hlisted =>
      by_cases hq : queried = strategyHash
      · subst queried
        simp only [Function.update_self]
        exact ⟨rfl, rfl, rfl, rfl, rfl⟩
      · simp only [Function.update_of_ne hq]
        exact SameEntry.refl _
  | owned => exact SameEntry.refl _

theorem sameEntry_transacts {ch : Chain β} {strategyHash : Word}
    (hauthor : (ch.registry.strategies strategyHash).author ≠ 0) (calls : List Call) :
    SameEntry (ch.registry.strategies strategyHash)
      ((ch.transacts O calls).registry.strategies strategyHash) := by
  induction calls generalizing ch with
  | nil => exact SameEntry.refl _
  | cons c calls ih =>
      have hsame : SameEntry (ch.registry.strategies strategyHash)
          ((ch.transact O c).registry.strategies strategyHash) :=
        transact_preserves
          (P := fun s _ => SameEntry (ch.registry.strategies strategyHash)
            (s.strategies strategyHash))
          (fun _ hchange => hchange.sameEntry hauthor) (SameEntry.refl _)
      refine hsame.trans (ih ?_)
      rw [hsame.author]
      exact hauthor

/-- The delisting of a record changes by a call that delists it, and once. -/
theorem Change.delisting {deployer : Address} {s s' : State β} {calls : List Call} {c : Call}
    (h : Change O s c s') (hs : Consistent O deployer s calls) {queried : Word}
    (hchanged : (s'.strategies queried).delisted ≠ (s.strategies queried).delisted) :
    (s.strategies queried).delisted = false ∧ (s'.strategies queried).delisted = true ∧
      c.method = .delist queried ∧
        (c.sender = (s.strategies queried).author ∨ c.sender = lastOwner deployer calls) := by
  cases h with
  | @published strategyHash codeCID name hmethod hfree =>
      by_cases hq : queried = strategyHash
      · subst queried
        rw [hs.blank strategyHash hfree] at hchanged
        simp [entry, zeroed] at hchanged
      · simp [hq] at hchanged
  | @delisted strategyHash hmethod hknown hby hlisted =>
      by_cases hq : queried = strategyHash
      · subst queried
        rw [hs.owned] at hby
        exact ⟨hlisted, by simp, hmethod, hby⟩
      · simp [hq] at hchanged
  | owned => exact absurd rfl hchanged

theorem Consistent.mem_published_iff {deployer : Address} {s : State β} {calls : List Call}
    (h : Consistent O deployer s calls) {strategyHash : Word} :
    strategyHash ∈ (publications calls).map Prod.snd ↔ (s.strategies strategyHash).author ≠ 0 := by
  constructor
  · intro hmem hfree
    exact h.unpublished hfree hmem
  · intro hauthor
    exact List.mem_map.mpr ⟨(_, strategyHash), h.authored.mpr ⟨hauthor, rfl⟩, rfl⟩

theorem Consistent.onlyIn_iff {deployer : Address} {s : State β} {calls : List Call}
    (h : Consistent O deployer s calls) {strategyHash : Word} {author : Address} :
    OnlyIn s.byAuthor strategyHash author ↔
      author ≠ 0 ∧ (s.strategies strategyHash).author = author := by
  rw [h.listed, onlyIn_keysOf_iff h.distinct, h.authored]

/-- After any calls, reverting ones included: a hash is published if and only if
its record has an author, if and only if one list by author holds it, once, and
that is its author's; each list is in the order of publication; further calls
change nothing of a published record but its delisting, which one call of its
author or of the current owner turns on; a call that reverts changes nothing. -/
theorem records_and_lists_agree {deployer : Address} {start ch : Chain β} {calls : List Call}
    (hstart : deploy O deployer = some start) (hcalls : ∀ c ∈ calls, c.sender ≠ 0)
    (hch : start.transacts O calls = ch) :
    (∀ strategyHash, strategyHash ∈ ch.published ↔ (ch.registry.get strategyHash).author ≠ 0) ∧
    (∀ strategyHash, strategyHash ∈ ch.published ↔
      ∃ author, OnlyIn ch.registry.getByAuthor strategyHash author) ∧
    (∀ strategyHash author, OnlyIn ch.registry.getByAuthor strategyHash author →
      (ch.registry.get strategyHash).author = author) ∧
    (∀ author, ch.registry.getByAuthor author = keysOf (publications ch.successes) author) ∧
    (∀ more, ∀ strategyHash ∈ ch.published,
      SameEntry (ch.registry.get strategyHash)
        ((ch.transacts O more).registry.get strategyHash)) ∧
    (∀ c strategyHash,
      ((ch.transact O c).registry.get strategyHash).delisted ≠
          (ch.registry.get strategyHash).delisted →
        (ch.registry.get strategyHash).delisted = false ∧
          ((ch.transact O c).registry.get strategyHash).delisted = true ∧
          c.method = .delist strategyHash ∧
            (c.sender = (ch.registry.get strategyHash).author ∨
              c.sender = lastOwner deployer ch.successes)) ∧
    (∀ c e, exec O ch.registry c = .error e → (ch.transact O c).registry = ch.registry) := by
  have h : Consistent O deployer ch.registry ch.successes :=
    hch ▸ consistent_transacts (consistent_deploy hstart) hcalls
  refine ⟨fun _ => h.mem_published_iff, ?_, ?_, ?_, ?_, ?_, ?_⟩
  · intro strategyHash
    refine h.mem_published_iff.trans ?_
    constructor
    · intro hauthor
      exact ⟨_, h.onlyIn_iff.mpr ⟨hauthor, rfl⟩⟩
    · rintro ⟨author, honly⟩
      obtain ⟨hauthor, heq⟩ := h.onlyIn_iff.mp honly
      rw [heq]
      exact hauthor
  · intro strategyHash author honly
    exact (h.onlyIn_iff.mp honly).2
  · exact congrFun h.listed
  · intro more strategyHash hmem
    exact sameEntry_transacts (h.mem_published_iff.mp hmem) more
  · intro c strategyHash hchanged
    cases hexec : exec O ch.registry c with
    | error e => exact absurd (by rw [(transact_error hexec).1]) hchanged
    | ok result =>
        obtain ⟨hregistry, -⟩ := transact_ok hexec
        rw [hregistry] at hchanged ⊢
        exact (change_of_exec hexec).delisting h hchanged
  · intro c e he
    exact (transact_error he).1

/-- Two authors publish, the second also what the first has, and the platform
hands the registry over before the new owner delists. -/
def sample : List Call :=
  [⟨2, 1700000000, .publish 7 0 [77]⟩,
    ⟨3, 1700000001, .publish 7 0 [78]⟩,
    ⟨3, 1700000002, .publish 8 5 [78]⟩,
    ⟨3, 1700000003, .delist 7⟩,
    ⟨1, 1700000004, .transferOwnership 3⟩,
    ⟨3, 1700000005, .delist 7⟩,
    ⟨2, 1700000006, .delist 7⟩]

theorem records_and_lists_agree_handed_over :
    ∃ start ch, deploy ownable 1 = some start ∧ start.transacts ownable sample = ch ∧
      ch.published = [7, 8] ∧
      OnlyIn ch.registry.getByAuthor 7 (ch.registry.get 7).author ∧
      (ch.registry.get 7).delisted = true ∧
      ch.registry.getByAuthor 3 = keysOf (publications ch.successes) 3 := by
  obtain ⟨start, hstart⟩ : ∃ start, deploy ownable 1 = some start := ⟨_, rfl⟩
  have hcalls : ∀ c ∈ sample, c.sender ≠ 0 := by decide
  obtain ⟨-, honly, hauthor, horder, -⟩ := records_and_lists_agree hstart hcalls rfl
  cases hstart
  refine ⟨_, _, rfl, rfl, by decide, ?_, by decide, horder 3⟩
  obtain ⟨author, h⟩ := (honly 7).mp (by decide)
  rw [hauthor 7 author h]
  exact h

end ArticTrader.StrategyRegistry
