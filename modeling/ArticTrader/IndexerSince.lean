import ArticTrader.IndexerFlush
import ArticTrader.KeyedPages

/-!
The sync endpoint of the indexer, and a client that pages through it by the
`created_at` of the last row it has received.
-/

namespace ArticTrader.IndexerSince

open ArticTrader.Datetimes
open ArticTrader.IndexerFlush (IndexerTx tx_row)
open ArticTrader.KeyedPages
open ArticTrader.PythonText (Text)

instance : LinearOrder Datetime := LinearOrder.lift' Datetime.micros fun _ _ => Datetime.ext

structure IndexerRow where
  tx_hash : Text
  user_id : Text
  agent_id : Text
  kind : Text
  amount_usdt : Option Text
  block_number : ℕ
  tags : Text
  created_at : Datetime
  deriving DecidableEq

def indexer_row (r : IndexerTx) : IndexerRow where
  tx_hash := r.tx_hash
  user_id := r.user_id
  agent_id := r.agent_id
  kind := r.kind
  amount_usdt := r.amount_usdt
  block_number := r.block_number
  tags := r.tags
  created_at := r.created_at

/-- The hash is the primary key. -/
structure Table where
  rows : List IndexerTx
  tx_hash_unique : (rows.map (·.tx_hash)).Nodup

/-- What the database selects at each call: the rows with `created_at >= ts` in the
order of their `created_at`. -/
structure Database (table : Table) where
  selected : ℕ → Datetime → List IndexerTx
  lists : ∀ n ts, Lists (·.created_at) table.rows ts (selected n ts)

/-- `none` stands for the 422 of a `limit` out of its range. -/
def since (selected : List IndexerTx) (limit : ℕ) : Option (List IndexerRow) :=
  if 1 ≤ limit ∧ limit ≤ 5000 then some ((selected.take limit).map indexer_row) else none

structure Client where
  ts : Datetime
  rows : List IndexerRow

def Client.receive (c : Client) (rows : List IndexerRow) : Client where
  ts := rows.getLast?.elim c.ts (·.created_at)
  rows := c.rows ++ rows.filter fun r => r.tx_hash ∉ c.rows.map (·.tx_hash)

variable {table : Table}

/-- The client after `n` calls. -/
def client (db : Database table) (limit : ℕ) (ts : Datetime) : ℕ → Client
  | 0 => ⟨ts, []⟩
  | n + 1 =>
      match since (db.selected n (client db limit ts n).ts) limit with
      | some rows => (client db limit ts n).receive rows
      | none => client db limit ts n

def Complete (db : Database table) (limit : ℕ) (ts : Datetime) (n : ℕ) : Prop :=
  ∀ r ∈ table.rows, ts ≤ r.created_at → indexer_row r ∈ (client db limit ts n).rows

def created_at_count (table : Table) (t : Datetime) : ℕ :=
  shared (·.created_at) table.rows t

theorem eq_of_tx_hash {r r' : IndexerTx} (hr : r ∈ table.rows) (hr' : r' ∈ table.rows)
    (h : r.tx_hash = r'.tx_hash) : r = r' :=
  List.inj_on_of_nodup_map table.tx_hash_unique hr hr' h

theorem since_of_accepted {limit : ℕ} (h : 1 ≤ limit ∧ limit ≤ 5000) (selected : List IndexerTx) :
    since selected limit = some ((selected.take limit).map indexer_row) :=
  if_pos h

theorem client_succ (db : Database table) {limit : ℕ} (h : 1 ≤ limit ∧ limit ≤ 5000)
    (ts : Datetime) (n : ℕ) :
    client db limit ts (n + 1) = (client db limit ts n).receive
      (((db.selected n (client db limit ts n).ts).take limit).map indexer_row) := by
  rw [client, since_of_accepted h]

theorem client_ts (db : Database table) {limit : ℕ} (h : 1 ≤ limit ∧ limit ≤ 5000)
    (ts : Datetime) (n : ℕ) :
    (client db limit ts n).ts = cursor (·.created_at) db.selected limit ts n := by
  induction n with
  | zero => rfl
  | succ n ih =>
      rw [client_succ db h, cursor, Client.receive, ih, List.getLast?_map]
      cases ((db.selected n (cursor (·.created_at) db.selected limit ts n)).take
        limit).getLast? with
      | none => rfl
      | some r => rfl

theorem mem_table_of_obtained (db : Database table) {limit : ℕ} {ts : Datetime} {n : ℕ}
    {r : IndexerTx} (h : Obtained (·.created_at) db.selected limit ts n r) : r ∈ table.rows := by
  obtain ⟨m, -, hpage⟩ := h
  exact ((db.lists m _).mem_iff.mp (List.mem_of_mem_take hpage)).1

theorem mem_client_rows (db : Database table) {limit : ℕ} (h : 1 ≤ limit ∧ limit ≤ 5000)
    (ts : Datetime) (n : ℕ) {r : IndexerTx} (hr : r ∈ table.rows) :
    indexer_row r ∈ (client db limit ts n).rows ↔
      Obtained (·.created_at) db.selected limit ts n r := by
  have hrows : ∀ row, row ∈ (client db limit ts n).rows ↔
      ∃ r, Obtained (·.created_at) db.selected limit ts n r ∧ indexer_row r = row := by
    induction n with
    | zero => exact fun row => ⟨nofun, fun ⟨_, ⟨_, hm, _⟩, _⟩ => absurd hm (Nat.not_lt_zero _)⟩
    | succ n ih =>
        intro row
        rw [client_succ db h, Client.receive, List.mem_append, List.mem_filter]
        constructor
        · rintro (hold | ⟨hnew, -⟩)
          · obtain ⟨r, hobtained, rfl⟩ := (ih row).mp hold
            exact ⟨r, hobtained.mono (Nat.le_succ n), rfl⟩
          · obtain ⟨r, hpage, rfl⟩ := List.mem_map.mp hnew
            rw [client_ts db h] at hpage
            exact ⟨r, ⟨n, Nat.lt_succ_self n, hpage⟩, rfl⟩
        · rintro ⟨r, hobtained, rfl⟩
          have hr := mem_table_of_obtained db hobtained
          by_cases hknown : (indexer_row r).tx_hash ∈ (client db limit ts n).rows.map (·.tx_hash)
          · left
            obtain ⟨row, hrow, hhash⟩ := List.mem_map.mp hknown
            obtain ⟨r', hobtained', rfl⟩ := (ih row).mp hrow
            rw [eq_of_tx_hash hr (mem_table_of_obtained db hobtained') hhash.symm]
            exact hrow
          · obtain ⟨m, hm, hpage⟩ := hobtained
            rcases Nat.lt_succ_iff_lt_or_eq.mp hm with hearlier | rfl
            · exact .inl ((ih _).mpr ⟨r, ⟨m, hearlier, hpage⟩, rfl⟩)
            · rw [page, ← client_ts db h] at hpage
              exact .inr ⟨List.mem_map_of_mem hpage, decide_eq_true hknown⟩
  rw [hrows]
  constructor
  · rintro ⟨r', hobtained, heq⟩
    rwa [← eq_of_tx_hash (mem_table_of_obtained db hobtained) hr (congrArg (·.tx_hash) heq)]
  · intro hobtained
    exact ⟨r, hobtained, rfl⟩

theorem complete_iff (db : Database table) {limit : ℕ} (h : 1 ≤ limit ∧ limit ≤ 5000)
    (ts : Datetime) (n : ℕ) : Complete db limit ts n ↔
      ∀ r ∈ table.rows, ts ≤ r.created_at → Obtained (·.created_at) db.selected limit ts n r :=
  forall₂_congr fun _ hr => imp_congr_right fun _ => mem_client_rows db h ts n hr

theorem client_of_refused (db : Database table) {limit : ℕ} (h : ¬ (1 ≤ limit ∧ limit ≤ 5000))
    (ts : Datetime) (n : ℕ) : client db limit ts n = ⟨ts, []⟩ := by
  induction n with
  | zero => rfl
  | succ n ih => rw [client, since, if_neg h, ih]

def fixed_database (table : Table) : Database table where
  selected := fun _ => fixed (·.created_at) table.rows
  lists := fun _ => lists_fixed (·.created_at) table.rows

theorem fits_of_pages (db : Database table) {limit : ℕ} (h : 1 ≤ limit ∧ limit ≤ 5000)
    {ts : Datetime} (hfits : Fits (·.created_at) table.rows limit ts) :
    ∃ n, Complete db limit ts n := by
  have hstart : Reached (·.created_at) table.rows db.selected limit ts 0 :=
    ⟨le_rfl, fun _ _ hfrom hless => absurd hfrom (not_le.mpr hless)⟩
  obtain ⟨n, hall⟩ := exists_complete db.lists h.1 hfits hstart
  exact ⟨n, (complete_iff db h ts n).mpr hall⟩

theorem pages_fit {limit : ℕ} (h : 1 ≤ limit ∧ limit ≤ 5000) {ts : Datetime}
    (hall : ∃ n, Complete (fixed_database table) limit ts n) :
    Fits (·.created_at) table.rows limit ts := by
  obtain ⟨n, hcomplete⟩ := hall
  exact fits_of_complete (List.Nodup.of_map _ table.tx_hash_unique)
    ⟨n, (complete_iff (fixed_database table) h ts n).mp hcomplete⟩

theorem paging_complete_iff (table : Table) (limit : ℕ) (ts : Datetime) :
    (∀ db : Database table, ∃ n, Complete db limit ts n) ↔
      (∀ r ∈ table.rows, r.created_at < ts) ∨ (1 ≤ limit ∧ limit ≤ 5000) ∧
        ∀ r ∈ table.rows, ts ≤ r.created_at →
          created_at_count table r.created_at ≤ limit ∧
            (created_at_count table r.created_at = limit →
              ∀ r' ∈ table.rows, r'.created_at ≤ r.created_at) := by
  by_cases h : 1 ≤ limit ∧ limit ≤ 5000
  · constructor
    · intro hall
      exact .inr ⟨h, pages_fit h (hall (fixed_database table))⟩
    · rintro (hnone | ⟨-, hfits⟩) db
      · exact ⟨0, fun r hr hfrom => absurd hfrom (not_le.mpr (hnone r hr))⟩
      · exact fits_of_pages db h hfits
  · constructor
    · intro hall
      left
      intro r hr
      obtain ⟨n, hcomplete⟩ := hall (fixed_database table)
      by_contra hfrom
      have hmem := hcomplete r hr (not_lt.mp hfrom)
      rw [client_of_refused _ h] at hmem
      exact absurd hmem List.not_mem_nil
    · rintro (hnone | ⟨haccepted, -⟩) db
      · exact ⟨0, fun r hr hfrom => absurd hfrom (not_le.mpr (hnone r hr))⟩
      · exact absurd haccepted h

def three : Table where
  rows := [tx_row ⟨0, by decide⟩ 0, tx_row ⟨0, by decide⟩ 1, tx_row ⟨1, by decide⟩ 2]
  tx_hash_unique := by decide

theorem third_row_not_reached :
    ¬ ∀ (table : Table) (limit : ℕ) (ts : Datetime), 1 ≤ limit → limit ≤ 5000 →
      ∀ db : Database table, ∃ n, Complete db limit ts n := by
  intro h
  have hfits := pages_fit ⟨by decide, by decide⟩
    (h three 2 ⟨0, by decide⟩ (by decide) (by decide) (fixed_database three))
  revert hfits
  decide

end ArticTrader.IndexerSince
