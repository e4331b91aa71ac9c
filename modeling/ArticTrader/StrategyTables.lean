import ArticTrader.LabelledRuns
import ArticTrader.StrategySessions

/-!
What the strategy sessions keep of the tables: keys, references and the hashes of
published rows, and what a session may rely on of the rows that it has loaded.
-/

namespace ArticTrader.StrategyTables

open ArticTrader.ConcurrentCalls
open ArticTrader.LabelledRuns
open ArticTrader.MarketplaceRoutes hiding step Request handle
open ArticTrader.PythonText
open ArticTrader.StrategyRoutes hiding step Request handle
open ArticTrader.StrategySessions

variable {β : Type}

def HasId (s : Database β) (id : Text) : Prop := ∃ mp ∈ s.hub.marketplace_strategies, mp.id = id

/-- The row is still in the marketplace, with its hash. -/
def HasRow (s : Database β) (mp : MarketplaceStrategy) : Prop :=
  ∃ current ∈ s.hub.marketplace_strategies,
    current.id = mp.id ∧ current.code_hash = mp.code_hash

structure Tables (s : Database β) : Prop where
  keyed : Keyed s.hub
  ids : (s.hub.user_strategies.map (·.id)).Nodup
  published : ∀ mp ∈ s.hub.marketplace_strategies, mp.id ∈ s.issued
  rows : ∀ r ∈ s.hub.user_strategies, r.id ∈ s.issued
  references : ∀ r ∈ s.hub.user_strategies, ∀ id ∈ r.marketplace_id,
    r.source = .marketplace ∧ HasId s id

/-- What a step leaves of the tables. -/
structure Evolves (s s' : Database β) : Prop where
  issued : s.issued ⊆ s'.issued
  published : ∀ mp ∈ s.hub.marketplace_strategies, HasRow s' mp
  rows : ∀ r' ∈ s'.hub.user_strategies, r'.id ∈ s.issued →
    ∃ r ∈ s.hub.user_strategies, r.id = r'.id ∧ r.marketplace_id = r'.marketplace_id
  reports : ∀ id, reports_of s.reports id ≤ reports_of s'.reports id

/-- A row of the library that still is of the same marketplace row, if it is there. -/
def Remembers (s : Database β) (row : UserStrategy) : Prop :=
  row.id ∈ s.issued ∧
    ∀ r ∈ s.hub.user_strategies, r.id = row.id → r.marketplace_id = row.marketplace_id

/-- What a request knows of the rows that it has loaded. -/
def Knows (s : Database β) : Phase → Prop
  | .creating row => row.marketplace_id = none
  | .patching loaded assigned =>
      assigned.source = loaded.source ∧ assigned.marketplace_id = loaded.marketplace_id
  | .counting row marketplace_id =>
      Remembers s row ∧ row.marketplace_id = some marketplace_id ∧ HasId s marketplace_id
  | .deleting row mp =>
      Remembers s row ∧ row.marketplace_id = mp.map (·.id) ∧ ∀ m ∈ mp, HasRow s m
  | .checking _ mp | .installing _ mp | .reporting _ mp _ | .tallying _ mp _
  | .recording _ mp _ _ => HasRow s mp
  | .minting _ sent existing | .publishing _ sent existing _ =>
      ∀ mp ∈ existing, HasRow s mp ∧ mp.code_hash = sent.backtest.strategy_hash
  | _ => True

theorem HasRow.id {s : Database β} {mp : MarketplaceStrategy} (h : HasRow s mp) :
    HasId s mp.id := by
  obtain ⟨current, hcurrent, hid, -⟩ := h
  exact ⟨current, hcurrent, hid⟩

theorem hasRow_of_mem {s : Database β} {mp : MarketplaceStrategy}
    (h : mp ∈ s.hub.marketplace_strategies) : HasRow s mp :=
  ⟨mp, h, rfl, rfl⟩

theorem Evolves.hasRow {s s' : Database β} (h : Evolves s s') {mp : MarketplaceStrategy}
    (hmp : HasRow s mp) : HasRow s' mp := by
  obtain ⟨current, hcurrent, hid, hhash⟩ := hmp
  obtain ⟨later, hlater, hid', hhash'⟩ := h.published current hcurrent
  exact ⟨later, hlater, hid'.trans hid, hhash'.trans hhash⟩

theorem Evolves.hasId {s s' : Database β} (h : Evolves s s') {id : Text} (hid : HasId s id) :
    HasId s' id := by
  obtain ⟨mp, hmp, rfl⟩ := hid
  exact (h.published mp hmp).id

theorem Evolves.remembers {s s' : Database β} (h : Evolves s s') {row : UserStrategy}
    (hrow : Remembers s row) : Remembers s' row := by
  refine ⟨h.issued hrow.1, ?_⟩
  intro r' hr' hid
  obtain ⟨r, hr, hrid, hmp⟩ := h.rows r' hr' (hid ▸ hrow.1)
  exact hmp ▸ hrow.2 r hr (hrid.trans hid)

theorem Evolves.knows {s s' : Database β} (h : Evolves s s') {p : Phase} (hp : Knows s p) :
    Knows s' p := by
  cases p with
  | creating row => exact hp
  | patching loaded assigned => exact hp
  | counting row marketplace_id => exact ⟨h.remembers hp.1, hp.2.1, h.hasId hp.2.2⟩
  | deleting row mp => exact ⟨h.remembers hp.1, hp.2.1, fun m hm => h.hasRow (hp.2.2 m hm)⟩
  | checking user mp => exact h.hasRow hp
  | installing user mp => exact h.hasRow hp
  | reporting user mp reason => exact h.hasRow hp
  | tallying user mp reason => exact h.hasRow hp
  | recording user mp reason count => exact h.hasRow hp
  | minting user sent existing => exact fun mp hmp => ⟨h.hasRow (hp mp hmp).1, (hp mp hmp).2⟩
  | publishing user sent existing token =>
      exact fun mp hmp => ⟨h.hasRow (hp mp hmp).1, (hp mp hmp).2⟩
  | loading user strategy_id job => trivial
  | selecting user strategy_id => trivial
  | granting user mp => trivial
  | backtesting user row code_blob => trivial
  | searching user sent => trivial
  | flagging user strategy_id reason => trivial
  | done outcome => trivial

theorem Evolves.trans {s s' s'' : Database β} (h : Evolves s s') (h' : Evolves s' s'') :
    Evolves s s'' where
  issued := List.Subset.trans h.issued h'.issued
  published := fun mp hmp => h'.hasRow (h.published mp hmp)
  rows := by
    intro r'' hr'' hid
    obtain ⟨r', hr', hid', hmp'⟩ := h'.rows r'' hr'' (h.issued hid)
    obtain ⟨r, hr, hrid, hmp⟩ := h.rows r' hr' (hid' ▸ hid)
    exact ⟨r, hr, hrid.trans hid', hmp.trans hmp'⟩
  reports := fun id => (h.reports id).trans (h'.reports id)

theorem Tables.remembers {s : Database β} (h : Tables s) {row : UserStrategy}
    (hrow : row ∈ s.hub.user_strategies) : Remembers s row := by
  refine ⟨h.rows row hrow, ?_⟩
  intro r hr hid
  rw [List.inj_on_of_nodup_map h.ids hr hrow hid]

theorem uninstall_rows (hub : Hub β) (mp : Option MarketplaceStrategy) :
    (uninstall hub mp).user_strategies = hub.user_strategies := by
  unfold uninstall
  split
  next => split <;> rfl
  next => rfl

theorem column_same {γ : Type} [DecidableEq γ] (value current : γ) :
    column value value current = current := if_pos rfl

theorem mem_update_columns {hub : Hub β} {loaded assigned mp' : MarketplaceStrategy} :
    mp' ∈ (update_columns hub loaded assigned).marketplace_strategies ↔
      ∃ mp ∈ hub.marketplace_strategies,
        (if mp.id = loaded.id then written loaded assigned mp else mp) = mp' :=
  List.mem_map

theorem forall_update_columns {hub : Hub β} {loaded assigned : MarketplaceStrategy}
    {P : MarketplaceStrategy → Prop} :
    (∀ mp ∈ (update_columns hub loaded assigned).marketplace_strategies, P mp) ↔
      ∀ mp ∈ hub.marketplace_strategies,
        P (if mp.id = loaded.id then written loaded assigned mp else mp) :=
  List.forall_mem_map

/-- A column of the marketplace rows holds how many of something there are. -/
def Tallies (hub : Hub β) (value : MarketplaceStrategy → ℤ) (number : Text → ℕ) : Prop :=
  ∀ mp ∈ hub.marketplace_strategies, value mp = number mp.id

theorem tallies_columns {hub : Hub β} {loaded assigned : MarketplaceStrategy}
    {value : MarketplaceStrategy → ℤ} {number : Text → ℕ}
    (hvalue : ∀ current, value (written loaded assigned current) =
      column (value loaded) (value assigned) (value current)) :
    Tallies (update_columns hub loaded assigned) value number ↔
      ∀ mp ∈ hub.marketplace_strategies,
        (if mp.id = loaded.id then column (value loaded) (value assigned) (value mp)
        else value mp) = number mp.id := by
  unfold Tallies
  rw [forall_update_columns]
  refine forall₂_congr ?_
  intro mp hmp
  split
  next => exact hvalue mp ▸ Iff.rfl
  next => exact Iff.rfl

/-- An `UPDATE` that leaves the column as it was loaded does not write it. -/
theorem Tallies.update {hub : Hub β} {loaded assigned : MarketplaceStrategy}
    {value : MarketplaceStrategy → ℤ} {number : Text → ℕ} (h : Tallies hub value number)
    (hvalue : ∀ current, value (written loaded assigned current) =
      column (value loaded) (value assigned) (value current))
    (hcount : value assigned = value loaded) :
    Tallies (update_columns hub loaded assigned) value number := by
  refine (tallies_columns hvalue).mpr ?_
  intro mp hmp
  rw [hcount, column_same, ite_self]
  exact h mp hmp

theorem Tallies.insert {hub hub' : Hub β} {mp : MarketplaceStrategy}
    {value : MarketplaceStrategy → ℤ} {number : Text → ℕ} (h : Tallies hub value number)
    (hinsert : hub.insert_marketplace mp = some hub') (hcount : value mp = 0)
    (hnone : number mp.id = 0) : Tallies hub' value number := by
  obtain ⟨-, hinsert⟩ := Option.ite_none_left_eq_some.mp hinsert
  cases hinsert
  intro other hother
  rcases List.mem_append.mp hother with hbefore | hnow
  · exact h other hbefore
  · rw [List.mem_singleton.mp hnow, hcount, hnone]
    rfl

/-- An `UPDATE` that does not change the hash. -/
theorem updated_columns {loaded assigned mp : MarketplaceStrategy}
    (hhash : assigned.code_hash = loaded.code_hash) :
    (if mp.id = loaded.id then written loaded assigned mp else mp).id = mp.id ∧
      (if mp.id = loaded.id then written loaded assigned mp else mp).code_hash =
        mp.code_hash := by
  split
  next =>
      refine ⟨rfl, ?_⟩
      change column loaded.code_hash assigned.code_hash mp.code_hash = mp.code_hash
      rw [hhash, column_same]
  next => exact ⟨rfl, rfl⟩

theorem ids_update_columns (hub : Hub β) (loaded assigned : MarketplaceStrategy) :
    (update_columns hub loaded assigned).marketplace_strategies.map (·.id) =
      hub.marketplace_strategies.map (·.id) := by
  unfold update_columns
  rw [List.map_map]
  refine List.map_congr_left ?_
  intro mp _
  simp only [Function.comp_apply]
  split
  next => rfl
  next => rfl

/-- The tables after a step, which has let them evolve. -/
structure Follows (s s' : Database β) : Prop where
  tables : Tables s'
  evolves : Evolves s s'

theorem Follows.trans {s s' s'' : Database β} (h : Follows s s') (h' : Follows s' s'') :
    Follows s s'' :=
  ⟨h'.tables, h.evolves.trans h'.evolves⟩

section

variable {s : Database β} (h : Tables s)
include h

theorem follows_same {hub : Hub β} (inserting : List (Text × Text))
    (hrows : hub.user_strategies = s.hub.user_strategies)
    (hmps : hub.marketplace_strategies = s.hub.marketplace_strategies) :
    Follows s { s with hub, inserting } := by
  have hids : ∀ id, HasId s id → HasId { s with hub, inserting } id := by
    rintro id ⟨mp, hmp, rfl⟩
    exact ⟨mp, hmps ▸ hmp, rfl⟩
  refine ⟨⟨?_, ?_, ?_, ?_, ?_⟩, ⟨List.Subset.refl _, ?_, ?_, fun _ => Nat.le_refl _⟩⟩
  · unfold Keyed
    rw [hmps]
    exact h.keyed
  · rw [hrows]
    exact h.ids
  · rw [hmps]
    exact h.published
  · rw [hrows]
    exact h.rows
  · rw [hrows]
    intro r hr id hid
    exact ⟨(h.references r hr id hid).1, hids id (h.references r hr id hid).2⟩
  · intro mp hmp
    exact hasRow_of_mem (hmps ▸ hmp)
  · intro r hr _
    exact ⟨r, hrows ▸ hr, rfl, rfl⟩

theorem follows_insert {row : UserStrategy} {hub : Hub β} (hnew : row.id ∉ s.issued)
    (hinsert : s.hub.insert_row row = some hub)
    (hreference : ∀ id ∈ row.marketplace_id, row.source = .marketplace ∧ HasId s id) :
    Follows s { s with hub, issued := row.id :: s.issued } := by
  obtain ⟨hmps, hrows⟩ := insert_row_rows hinsert
  have hids : ∀ id, HasId s id → HasId { s with hub, issued := row.id :: s.issued } id := by
    rintro id ⟨mp, hmp, rfl⟩
    exact ⟨mp, hmps ▸ hmp, rfl⟩
  refine ⟨⟨?_, ?_, ?_, ?_, ?_⟩, ⟨List.subset_cons_self _ _, ?_, ?_, fun _ => Nat.le_refl _⟩⟩
  · unfold Keyed
    rw [hmps]
    exact h.keyed
  · rw [hrows, List.map_append, List.map_singleton, ← List.concat_eq_append]
    refine h.ids.concat ?_
    intro hmem
    obtain ⟨r, hr, hid⟩ := List.mem_map.mp hmem
    exact hnew (hid ▸ h.rows r hr)
  · intro mp hmp
    exact List.mem_cons_of_mem _ (h.published mp (hmps ▸ hmp))
  · intro r hr
    rw [hrows] at hr
    rcases List.mem_append.mp hr with hbefore | hnow
    · exact List.mem_cons_of_mem _ (h.rows r hbefore)
    · rw [List.mem_singleton.mp hnow]
      exact List.mem_cons_self
  · intro r hr id hid
    rw [hrows] at hr
    rcases List.mem_append.mp hr with hbefore | hnow
    · exact ⟨(h.references r hbefore id hid).1, hids id (h.references r hbefore id hid).2⟩
    · rw [List.mem_singleton.mp hnow] at hid ⊢
      exact ⟨(hreference id hid).1, hids id (hreference id hid).2⟩
  · intro mp hmp
    exact hasRow_of_mem (hmps ▸ hmp)
  · intro r hr hid
    rw [hrows] at hr
    rcases List.mem_append.mp hr with hbefore | hnow
    · exact ⟨r, hbefore, rfl, rfl⟩
    · rw [List.mem_singleton.mp hnow] at hid
      exact absurd hid hnew

theorem follows_update_row {row current : UserStrategy} {hub : Hub β}
    (hcurrent : current ∈ s.hub.user_strategies) (hid : row.id = current.id)
    (hsource : row.source = current.source) (hmp : row.marketplace_id = current.marketplace_id)
    (hupdate : s.hub.update_row row = some hub) : Follows s { s with hub } := by
  obtain ⟨-, hupdate⟩ := Option.ite_none_right_eq_some.mp hupdate
  cases hupdate
  have hrow : ∀ r' ∈ s.hub.user_strategies.map fun r => if r.id = row.id then row else r,
      ∃ r ∈ s.hub.user_strategies, r.id = r'.id ∧ r.marketplace_id = r'.marketplace_id ∧
        r.source = r'.source := by
    intro r' hr'
    obtain ⟨r, hr, rfl⟩ := List.mem_map.mp hr'
    split
    next => exact ⟨current, hcurrent, hid.symm, hmp.symm, hsource.symm⟩
    next => exact ⟨r, hr, rfl, rfl, rfl⟩
  refine ⟨⟨h.keyed, ?_, h.published, ?_, ?_⟩,
    ⟨List.Subset.refl _, fun mp hmp => hasRow_of_mem hmp, ?_, fun _ => Nat.le_refl _⟩⟩
  · have hids : (s.hub.user_strategies.map fun r => if r.id = row.id then row else r).map (·.id) =
        s.hub.user_strategies.map (·.id) := by
      rw [List.map_map]
      refine List.map_congr_left ?_
      intro r _
      simp only [Function.comp_apply]
      split
      next heq => exact heq.symm
      next => rfl
    rw [hids]
    exact h.ids
  · intro r' hr'
    obtain ⟨r, hr, hrid, -⟩ := hrow r' hr'
    exact hrid ▸ h.rows r hr
  · intro r' hr' id hid'
    obtain ⟨r, hr, -, hrmp, hrsource⟩ := hrow r' hr'
    rw [← hrmp] at hid'
    rw [← hrsource]
    exact h.references r hr id hid'
  · intro r' hr' _
    obtain ⟨r, hr, hrid, hrmp, -⟩ := hrow r' hr'
    exact ⟨r, hr, hrid, hrmp⟩

theorem follows_delete (p : UserStrategy → Bool) :
    Follows s { s with
      hub := { s.hub with user_strategies := s.hub.user_strategies.filter p } } := by
  refine ⟨⟨h.keyed, ?_, h.published, ?_, ?_⟩,
    ⟨List.Subset.refl _, fun mp hmp => hasRow_of_mem hmp, ?_, fun _ => Nat.le_refl _⟩⟩
  · exact (List.filter_sublist.map _).nodup h.ids
  · intro r hr
    exact h.rows r (List.mem_of_mem_filter hr)
  · intro r hr id hid
    exact h.references r (List.mem_of_mem_filter hr) id hid
  · intro r hr _
    exact ⟨r, List.mem_of_mem_filter hr, rfl, rfl⟩

theorem follows_columns {loaded assigned : MarketplaceStrategy}
    (hhash : assigned.code_hash = loaded.code_hash) :
    Follows s { s with hub := update_columns s.hub loaded assigned } := by
  have hmps : ∀ mp ∈ s.hub.marketplace_strategies,
      HasRow { s with hub := update_columns s.hub loaded assigned } mp := by
    intro mp hmp
    exact ⟨_, mem_update_columns.mpr ⟨mp, hmp, rfl⟩, updated_columns hhash⟩
  refine ⟨⟨?_, h.ids, ?_, h.rows, ?_⟩,
    ⟨List.Subset.refl _, hmps, fun r hr _ => ⟨r, hr, rfl, rfl⟩, fun _ => Nat.le_refl _⟩⟩
  · unfold Keyed
    rw [ids_update_columns]
    exact h.keyed
  · intro mp' hmp'
    obtain ⟨mp, hmp, rfl⟩ := mem_update_columns.mp hmp'
    rw [(updated_columns hhash).1]
    exact h.published mp hmp
  · intro r hr id hid
    obtain ⟨hsource, mp, hmp, rfl⟩ := h.references r hr id hid
    exact ⟨hsource, (hmps mp hmp).id⟩

theorem follows_publish {mp : MarketplaceStrategy} {hub : Hub β} (hnew : mp.id ∉ s.issued)
    (hinsert : s.hub.insert_marketplace mp = some hub) :
    Follows s { s with hub, issued := mp.id :: s.issued } := by
  obtain ⟨-, hinsert⟩ := Option.ite_none_left_eq_some.mp hinsert
  cases hinsert
  refine ⟨⟨?_, h.ids, ?_, ?_, ?_⟩, ⟨List.subset_cons_self _ _, ?_,
    fun r hr _ => ⟨r, hr, rfl, rfl⟩, fun _ => Nat.le_refl _⟩⟩
  · unfold Keyed
    rw [List.map_append, List.map_singleton, ← List.concat_eq_append]
    refine List.Nodup.concat ?_ h.keyed
    intro hmem
    obtain ⟨other, hother, hid⟩ := List.mem_map.mp hmem
    exact hnew (hid ▸ h.published other hother)
  · intro other hother
    rcases List.mem_append.mp hother with hbefore | hnow
    · exact List.mem_cons_of_mem _ (h.published other hbefore)
    · rw [List.mem_singleton.mp hnow]
      exact List.mem_cons_self
  · intro r hr
    exact List.mem_cons_of_mem _ (h.rows r hr)
  · intro r hr id hid
    obtain ⟨hsource, other, hother, hotherid⟩ := h.references r hr id hid
    exact ⟨hsource, other, List.mem_append_left _ hother, hotherid⟩
  · intro other hother
    exact hasRow_of_mem (List.mem_append_left _ hother)

theorem follows_reports (report : MarketplaceReport) (inserting : List (Text × Text)) :
    Follows s { s with reports := s.reports ++ [report], inserting } := by
  refine ⟨⟨h.keyed, h.ids, h.published, h.rows, h.references⟩,
    ⟨List.Subset.refl _, fun mp hmp => hasRow_of_mem hmp, fun r hr _ => ⟨r, hr, rfl, rfl⟩, ?_⟩⟩
  intro id
  unfold reports_of
  rw [List.countP_append]
  omega

end

theorem hash_republished (user : User) (sent : Submitted) (existing : MarketplaceStrategy)
    (token : Option (ℕ × Text)) :
    (with_mint (published_row user existing.id sent (some existing)) token).code_hash =
      existing.code_hash :=
  with_mint_code_hash _ token

variable {env : Env β} {s : Database β}

theorem knows_done (outcome : Outcome) : Knows s (.done outcome) := trivial

theorem knows_read {p p' : Phase} (hs : Tables s) (hp : Knows s p) (h : Reads env s p p') :
    Knows s p' := by
  cases h with
  | ended _ outcome hfree => exact knows_done outcome
  | patching user strategy_id body row hrow hauthored => exact ⟨rfl, rfl⟩
  | counting user strategy_id row marketplace_id hrow hmp =>
      exact ⟨hs.remembers hrow, hmp, (hs.references row hrow marketplace_id hmp).2⟩
  | deleting user strategy_id row hrow hmp =>
      have hnothing : ∀ m ∈ (none : Option MarketplaceStrategy), HasRow s m := by simp
      refine ⟨hs.remembers hrow, ?_, hnothing⟩
      cases hid : row.marketplace_id with
      | none => rfl
      | some id =>
          have hnone := hmp (hs.references row hrow id hid).1
          rw [hid] at hnone
          cases hnone
  | counted row marketplace_id =>
      obtain ⟨hremembers, hid, mp, hmp, rfl⟩ := hp
      have hfound := marketplace_strategy_of_mem hs.keyed hmp
      change Remembers s row ∧ row.marketplace_id = Option.map _ _ ∧ _
      rw [hfound]
      refine ⟨hremembers, hid, ?_⟩
      intro m hm
      cases hm
      exact hasRow_of_mem hmp
  | backtesting user strategy_id row code_blob hrow hcode => trivial
  | checking user strategy_id mp hmp => exact hasRow_of_mem hmp
  | installing user mp => exact hp
  | searching user row code_blob outcome registry_tx attest_tx sent hsent => trivial
  | minting user sent existing hexisting =>
      intro mp hmp
      obtain ⟨hmem, hfound⟩ := List.mem_filter.mp (hexisting mp hmp)
      refine ⟨hasRow_of_mem hmem, ?_⟩
      simp only [Bool.and_eq_true, decide_eq_true_eq] at hfound
      exact hfound.2
  | reporting user strategy_id reason mp hmp => exact hasRow_of_mem hmp
  | tallied user mp reason => exact hp

theorem follows_uninstall (hs : Tables s) (mp : Option MarketplaceStrategy) :
    Follows s { s with hub := uninstall s.hub mp } := by
  unfold uninstall
  split
  next mp =>
      split
      next => exact follows_columns hs rfl
      next => exact follows_same hs s.inserting rfl rfl
  next => exact follows_same hs s.inserting rfl rfl

theorem knows_mint {user : User} {sent : Submitted} {existing : Option MarketplaceStrategy}
    (hp : Knows s (.minting user sent existing)) (delivery : Delivery) :
    Knows s (mint env s user sent existing delivery).2 := by
  unfold mint
  dsimp only
  split
  next => exact knows_done _
  next => exact hp

/-- What a step does to the tables, and what the request then knows of them. -/
theorem follows_resumed {p : Phase} {x : Input} {r : Database β × Phase} (hs : Tables s)
    (hp : Knows s p) (h : Resumed env s p x r) : Follows s r.1 ∧ Knows r.1 r.2 := by
  cases h with
  | read _ _ p' hreads => exact ⟨follows_same hs s.inserting rfl rfl, knows_read hs hp hreads⟩
  | aborted => exact ⟨follows_same hs _ rfl rfl, knows_done _⟩
  | created row new_id hub hnew hinsert =>
      refine ⟨follows_insert hs hnew hinsert ?_, knows_done _⟩
      intro id hid
      have hnone : row.marketplace_id = none := hp
      rw [hnone] at hid
      cases hid
  | patched loaded assigned current hub hcurrent hid hupdate =>
      have hrow : (written_row loaded assigned current).id = current.id := rfl
      refine ⟨follows_update_row hs hcurrent hrow ?_ ?_ hupdate, knows_done _⟩
      · change column loaded.source assigned.source current.source = _
        rw [hp.1, column_same]
      · change column loaded.marketplace_id assigned.marketplace_id current.marketplace_id = _
        rw [hp.2, column_same]
  | deleted row mp =>
      have hfirst := follows_uninstall hs mp
      exact ⟨hfirst.trans (follows_delete hfirst.tables _), knows_done _⟩
  | installed user mp new_id hub hnew hinsert =>
      have hrow : HasRow s mp := hp
      have hfirst := follows_insert hs hnew hinsert (by
        intro id hid
        cases hid
        exact ⟨rfl, hrow.id⟩)
      exact ⟨hfirst.trans (follows_columns hfirst.tables rfl), trivial⟩
  | granted user mp delivery =>
      obtain ⟨hmps, hrows⟩ := grant_usage_tables env s.hub user mp delivery
      exact ⟨follows_same hs s.inserting hrows hmps, knows_done _⟩
  | minted user sent existing delivery =>
      have hsame : Follows s (mint env s user sent existing delivery).1 :=
        follows_same hs s.inserting rfl rfl
      exact ⟨hsame, hsame.evolves.knows (knows_mint hp delivery)⟩
  | published user sent token new_id hub hnew hinsert =>
      have hid := with_mint_id (published_row user new_id sent none) token
      refine ⟨?_, knows_done _⟩
      have hfollows := follows_publish hs (hid ▸ hnew) hinsert
      rw [hid] at hfollows
      exact hfollows
  | republished user sent existing token =>
      exact ⟨follows_columns hs (hash_republished user sent existing token), knows_done _⟩
  | flushed user mp reason hfree hnew =>
      have hsame : Follows s { s with inserting := (mp.id, user.id) :: s.inserting } :=
        follows_same hs _ rfl rfl
      have hrow : HasRow s mp := hp
      exact ⟨hsame, hsame.evolves.hasRow hrow⟩
  | recorded user mp reason count =>
      have hhash : ({ mp with reports_count := count } : MarketplaceStrategy).code_hash =
          mp.code_hash := rfl
      have hfirst := follows_columns hs hhash
      exact ⟨hfirst.trans (follows_reports hfirst.tables _ _), knows_done _⟩

section

variable {ι : Type*} [DecidableEq ι]

/-- The tables, and what each request knows of them. -/
structure Sound (s : State ι β) : Prop where
  tables : Tables s.shared
  knows : ∀ i, Knows s.shared (s.calls i)

theorem knows_call (user : User) (request : Request) : Knows s (call env user request) := by
  cases request with
  | create body =>
      unfold call
      dsimp only
      split_ifs
      · trivial
      · trivial
      · rfl
  | patch strategy_id body =>
      unfold call
      dsimp only
      split_ifs <;> trivial
  | delete strategy_id => trivial
  | install strategy_id => trivial
  | publish strategy_id => trivial
  | report strategy_id reason =>
      unfold call
      dsimp only
      split_ifs <;> trivial

theorem Sound.set {s : State ι β} {i : ι} {server : Database β} {p : Phase} (h : Sound s)
    (hfollows : Follows s.shared server) (hp : Knows server p) :
    Sound ((s.write server).set i p) where
  tables := hfollows.tables
  knows := System.forall_set (P := fun _ (q : Phase) => Knows server q) hp
    fun j _ => hfollows.evolves.knows (h.knows j)

theorem sound_step {s s' : State ι β} {e : Event ι} (h : Sound s)
    (hstep : step env s e = some s') : Sound s' := by
  cases e with
  | call i user request =>
      obtain ⟨-, hstep⟩ := Option.ite_none_right_eq_some.mp hstep
      cases hstep
      exact h.set (follows_same h.tables s.shared.inserting rfl rfl) (knows_call user request)
  | input i x =>
      obtain ⟨r, hr, rfl⟩ := Option.map_eq_some_iff.mp hstep
      obtain ⟨hfollows, hknows⟩ := follows_resumed h.tables (h.knows i) (resumed_of_resume hr)
      exact h.set hfollows hknows

end

def shown : MarketplaceStrategy where
  id := "m".toList
  author_user_id := "a".toList
  name := "s".toList
  code_hash := List.replicate 64 '0'
  code_blob := "c".toList
  params_schema := none
  installs_count := 0
  reports_count := 0
  delisted := false
  metrics := none
  registry_tx := none
  attest_tx := none
  inft_token_id := none
  inft_mint_tx := none

/-- The named users, and one strategy in the marketplace. -/
def one_published (ι : Type*) (names : List String) : State ι TokenStandard.Tokens where
  shared :=
    { hub := { start sample (names.map member) with marketplace_strategies := [shown] }
      reports := []
      inserting := []
      issued := ["m".toList] }
  calls := fun _ => .done .returned

theorem one_published_sound (ι : Type*) (names : List String) : Sound (one_published ι names) where
  tables := ⟨List.nodup_singleton _, List.nodup_nil, by simp [one_published, shown], nofun, nofun⟩
  knows := fun _ => trivial

end ArticTrader.StrategyTables
