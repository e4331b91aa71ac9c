import ArticTrader.ConcurrentCalls
import ArticTrader.HubCallback
import ArticTrader.LabelledRuns

/-!
The user server's handlers of trade reports and transaction hashes, interleaved in
any way. Each handler has a transaction of its own under READ COMMITTED.
-/

namespace ArticTrader.TradePushes

open ArticTrader.ConcurrentCalls
open ArticTrader.HubCallback
open ArticTrader.LabelledRuns
open ArticTrader.PythonText (Text truthy)

variable {τ : Type}

/-- A row of `trades`. -/
structure Trade (τ : Type) where
  id : τ
  agent_id : Text
  side : Text
  entry_price : ℚ
  exit_price : Option ℚ
  size_usdt : ℚ
  leverage : ℤ
  pnl_usdt : Option ℚ
  strategy : Text
  strategy_hash : Option Text
  open_at : ℤ
  close_at : Option ℤ
  close_reason : Option Text
  tx_hash : Option Text
  reasoning_cid : Option Text
  deriving DecidableEq

def new_row (body : TradePush τ) : Trade τ where
  id := body.id
  agent_id := body.agent_id
  side := body.side
  entry_price := body.entry_price
  exit_price := body.exit_price
  size_usdt := body.size_usdt
  leverage := body.leverage
  pnl_usdt := body.pnl_usdt
  strategy := body.strategy
  strategy_hash := body.strategy_hash
  open_at := body.open_at
  close_at := body.close_at
  close_reason := body.close_reason
  tx_hash := body.tx_hash
  reasoning_cid := body.reasoning_cid

/-- The columns of an `UPDATE`: those whose value differs from the one that was read. -/
structure Changes where
  exit_price : Option (Option ℚ)
  pnl_usdt : Option (Option ℚ)
  close_at : Option (Option ℤ)
  close_reason : Option (Option Text)
  tx_hash : Option (Option Text)
  reasoning_cid : Option (Option Text)
  deriving DecidableEq

def Changes.empty : Changes := ⟨none, none, none, none, none, none⟩

def Changes.apply (c : Changes) (row : Trade τ) : Trade τ :=
  { row with
    exit_price := c.exit_price.getD row.exit_price
    pnl_usdt := c.pnl_usdt.getD row.pnl_usdt
    close_at := c.close_at.getD row.close_at
    close_reason := c.close_reason.getD row.close_reason
    tx_hash := c.tx_hash.getD row.tx_hash
    reasoning_cid := c.reasoning_cid.getD row.reasoning_cid }

def assign {α : Type*} [DecidableEq α] (old new : α) : Option α :=
  if new = old then none else some new

def push_changes (row : Trade τ) (body : TradePush τ) : Changes where
  exit_price := assign row.exit_price body.exit_price
  pnl_usdt := assign row.pnl_usdt body.pnl_usdt
  close_at := assign row.close_at body.close_at
  close_reason := assign row.close_reason body.close_reason
  tx_hash :=
    if truthy body.tx_hash && !truthy row.tx_hash then assign row.tx_hash body.tx_hash else none
  reasoning_cid :=
    if truthy body.reasoning_cid && !truthy row.reasoning_cid then
      assign row.reasoning_cid body.reasoning_cid
    else none

def patch_changes (row : Trade τ) (tx_hash : Text) : Changes :=
  { Changes.empty with tx_hash := assign row.tx_hash (some tx_hash) }

inductive Message (τ : Type) where
  | push (body : TradePush τ)
  | patch (trade_id : τ) (tx_hash : Text)

def Message.trade_id : Message τ → τ
  | .push body => body.id
  | .patch trade_id _ => trade_id

inductive Write (τ : Type) where
  | insert (row : Trade τ)
  | update (changes : Changes)
  deriving DecidableEq

/-- Where a handler stands: before its flush, between the flush and the commit of what
it writes, or at its end. -/
inductive Phase (τ : Type) where
  | idle
  | writing (w : Write τ)
  | flushed (w : Write τ)
  | handled
  | failed (status_code : ℕ)
  deriving DecidableEq

/-- What a handler does with the row it has read. -/
def load (row : Option (Trade τ)) : Message τ → Phase τ
  | .push body =>
      match row with
      | none => .writing (.insert (new_row body))
      | some existing => .writing (.update (push_changes existing body))
  | .patch _ tx_hash =>
      match row with
      | none => .failed 404
      | some trade => .writing (.update (patch_changes trade tx_hash))

def Write.locks (w : Write τ) : Bool :=
  match w with
  | .insert _ => true
  | .update changes => changes ≠ .empty

def Write.store (row : Option (Trade τ)) : Write τ → Option (Trade τ)
  | .insert inserted => some inserted
  | .update changes => row.map changes.apply

def Phase.holds : Phase τ → Bool
  | .flushed w => w.locks
  | _ => false

def Phase.finished : Phase τ → Bool
  | .handled => true
  | .failed _ => true
  | _ => false

def Phase.done : Phase τ → Bool
  | .handled => true
  | _ => false

@[simp] theorem Phase.done_handled : (Phase.handled : Phase τ).done = true := rfl

@[simp] theorem Phase.done_idle : (Phase.idle : Phase τ).done = false := rfl

@[simp] theorem Phase.done_flushed (w : Write τ) : (Phase.flushed w).done = false := rfl

inductive Kind where
  | open_report
  | open_patch
  | close_report
  | close_patch
  deriving DecidableEq, Repr

/-- The messages about one trade. The logs of its open and of its close each have
a transaction hash, unless they failed. -/
structure Messages (id : τ) where
  opened : TradePush τ
  closed : Option (TradePush τ)
  open_tx : Option Text
  close_tx : Option Text
  opened_id : opened.id = id
  closed_id : ∀ body ∈ closed, body.id = id
  unhashed : ∀ body ∈ closed, body.tx_hash = none

def Messages.message {id : τ} (m : Messages id) : Kind → Option (Message τ)
  | .open_report => some (.push m.opened)
  | .open_patch => m.open_tx.map (.patch id)
  | .close_report => m.closed.map .push
  | .close_patch => m.close_tx.map (.patch id)

/-- A trade as `report_trade` reports it. -/
def Messages.of_reports {opening closing : TradingEngine.TradeReport} {entry : τ × ℤ}
    {c c' : ReportContext} {opened closed : TradePush τ}
    (hopened : trade_payload opening entry c = some opened)
    (hclosed : trade_payload closing entry c' = some closed) (open_tx close_tx : Option Text) :
    Messages entry.1 where
  opened := opened
  closed := some closed
  open_tx := open_tx
  close_tx := close_tx
  opened_id := (trade_payload_id hopened).1
  closed_id := fun _ h => Option.some.inj h ▸ (trade_payload_id hclosed).1
  unhashed := fun _ h => Option.some.inj h ▸ (trade_payload_id hclosed).2

abbrev State (τ : Type) := System (τ × Kind) (τ → Option (Trade τ)) (Phase τ)

inductive Step (τ : Type) where
  | read (i : τ × Kind)
  | flush (i : τ × Kind)
  | commit (i : τ × Kind)

section Rows

variable {id : τ}

/-- The report with the closing data of the row, once the close report is stored. -/
def Messages.latest (m : Messages id) (closed : Bool) : TradePush τ :=
  if closed then m.closed.getD m.opened else m.opened

def Messages.latest_cid (m : Messages id) (closed : Bool) : Option Text :=
  if truthy (m.latest closed).reasoning_cid && !truthy m.opened.reasoning_cid then
    (m.latest closed).reasoning_cid
  else m.opened.reasoning_cid

/-- The row after the open report and those of the other messages that are stored. -/
def Messages.row (m : Messages id) (open_patched closed close_patched : Bool) : Trade τ :=
  { new_row m.opened with
    exit_price := (m.latest closed).exit_price
    pnl_usdt := (m.latest closed).pnl_usdt
    close_at := (m.latest closed).close_at
    close_reason := (m.latest closed).close_reason
    tx_hash :=
      if close_patched then m.close_tx
      else if open_patched then m.open_tx
      else m.opened.tx_hash
    reasoning_cid := m.latest_cid closed }

/-- What the handler of each message writes when they come in order. -/
def Messages.due (m : Messages id) : Kind → Write τ
  | .open_report => .insert (new_row m.opened)
  | .open_patch => .update (patch_changes (new_row m.opened) (m.open_tx.getD []))
  | .close_report => .update (push_changes (new_row m.opened) (m.closed.getD m.opened))
  | .close_patch =>
      .update (patch_changes (m.row m.open_tx.isSome false false) (m.close_tx.getD []))

theorem getD_assign {α : Type} [DecidableEq α] (old new : α) : (assign old new).getD old = new := by
  unfold assign
  split_ifs with h
  · exact h.symm
  · rfl

variable {m : Messages id}

theorem latest_cid_opened (m : Messages id) : m.latest_cid false = m.opened.reasoning_cid := by
  simp [Messages.latest_cid, Messages.latest]

theorem row_opened (m : Messages id) : m.row false false false = new_row m.opened := by
  simp [Messages.row, Messages.latest, latest_cid_opened, new_row]

theorem patch_changes_apply {old row : Trade τ} (h : row.tx_hash = old.tx_hash) (tx_hash : Text) :
    (patch_changes old tx_hash).apply row = { row with tx_hash := some tx_hash } := by
  simp only [Changes.apply, patch_changes, Changes.empty, Option.getD_none, h, getD_assign]

theorem push_changes_row {body : TradePush τ} (h : body.tx_hash = none) (p q : Bool) :
    push_changes (m.row p false q) body = push_changes (new_row m.opened) body := by
  simp [push_changes, h, truthy, Messages.row, Messages.latest, latest_cid_opened, new_row]

theorem push_changes_apply {body : TradePush τ} (hclosed : m.closed = some body)
    (h : body.tx_hash = none) (p q : Bool) :
    (push_changes (new_row m.opened) body).apply (m.row p false q) = m.row p true q := by
  have hcid : (if truthy body.reasoning_cid && !truthy m.opened.reasoning_cid then
      assign m.opened.reasoning_cid body.reasoning_cid else none).getD m.opened.reasoning_cid =
      m.latest_cid true := by
    simp only [Messages.latest_cid, Messages.latest, hclosed, if_true, Option.getD_some]
    split_ifs
    · exact getD_assign _ _
    · rfl
  have hlatest : m.latest false = m.opened ∧ m.latest true = body := by
    simp [Messages.latest, hclosed]
  have hunhashed : truthy (none : Option Text) = false := rfl
  rw [← push_changes_row h p q]
  simp only [Changes.apply, push_changes, Messages.row, h, hunhashed, latest_cid_opened, hcid,
    hlatest.1, hlatest.2, getD_assign, Bool.false_and, Bool.false_eq_true, if_false,
    Option.getD_none]

/-- What each handler finds when it reads in order, and what it leaves whatever has been
stored in between. -/
theorem load_open_report (m : Messages id) :
    load none (.push m.opened) = .writing (m.due .open_report) := rfl

theorem store_open_report (m : Messages id) (row : Option (Trade τ)) :
    (m.due .open_report).store row = some (m.row false false false) := by
  rw [row_opened]
  rfl

theorem load_open_patch {tx_hash : Text} (h : m.open_tx = some tx_hash) (closed : Bool) :
    load (some (m.row false closed false)) (.patch id tx_hash) = .writing (m.due .open_patch) := by
  simp [load, Messages.due, h, patch_changes, Messages.row, new_row]

theorem store_open_patch {tx_hash : Text} (h : m.open_tx = some tx_hash) (closed : Bool) :
    (m.due .open_patch).store (some (m.row false closed false)) =
      some (m.row true closed false) := by
  have hread : (m.row false closed false).tx_hash = (new_row m.opened).tx_hash := rfl
  simp only [Messages.due, Write.store, Option.map_some, patch_changes_apply hread]
  simp [Messages.row, h]

theorem load_close_report {body : TradePush τ} (h : m.closed = some body) (p q : Bool) :
    load (some (m.row p false q)) (.push body) = .writing (m.due .close_report) := by
  simp only [load, push_changes_row (m.unhashed body h), Messages.due, h, Option.getD_some]

theorem store_close_report {body : TradePush τ} (h : m.closed = some body) (p q : Bool) :
    (m.due .close_report).store (some (m.row p false q)) = some (m.row p true q) := by
  simp only [Messages.due, Write.store, Option.map_some, h, Option.getD_some,
    push_changes_apply h (m.unhashed body h)]

theorem load_close_patch {tx_hash : Text} (h : m.close_tx = some tx_hash) (closed : Bool) :
    load (some (m.row m.open_tx.isSome closed false)) (.patch id tx_hash) =
      .writing (m.due .close_patch) := by
  simp [load, Messages.due, h, patch_changes, Messages.row]

theorem store_close_patch {tx_hash : Text} (h : m.close_tx = some tx_hash) (closed : Bool) :
    (m.due .close_patch).store (some (m.row m.open_tx.isSome closed false)) =
      some (m.row m.open_tx.isSome closed true) := by
  have hread : (m.row m.open_tx.isSome closed false).tx_hash =
      (m.row m.open_tx.isSome false false).tx_hash := rfl
  simp only [Messages.due, Write.store, Option.map_some, patch_changes_apply hread]
  simp [Messages.row, h]

end Rows

/-- The row and the handlers of one trade whose messages are read in order. -/
structure Course {id : τ} (m : Messages id) (row : Option (Trade τ)) (calls : Kind → Phase τ) :
    Prop where
  phase : ∀ k, calls k = .idle ∨ calls k = .writing (m.due k) ∨ calls k = .flushed (m.due k) ∨
    calls k = .handled
  sent : ∀ k, calls k ≠ .idle → m.message k ≠ none
  before : calls .open_report ≠ .handled → row = none ∧ ∀ k, k ≠ .open_report → calls k = .idle
  after : calls .open_report = .handled → row = some (m.row (calls .open_patch).done
    (calls .close_report).done (calls .close_patch).done)
  patched : calls .close_patch ≠ .idle → m.open_tx ≠ none → calls .open_patch = .handled

namespace Course

variable {id : τ} {m : Messages id} {row : Option (Trade τ)} {calls : Kind → Phase τ} {k : Kind}

theorem writing (h : Course m row calls) {w : Write τ} (hk : calls k = .writing w) :
    w = m.due k := by
  rcases h.phase k with hphase | hphase | hphase | hphase <;> simp_all

theorem flushed (h : Course m row calls) {w : Write τ} (hk : calls k = .flushed w) :
    w = m.due k := by
  rcases h.phase k with hphase | hphase | hphase | hphase <;> simp_all

/-- An insert finds no row. -/
theorem unconflicted (h : Course m row calls) {w : Write τ} (hk : calls k = .writing w) :
    row = none ∨ ∃ changes, m.due k = .update changes := by
  cases k with
  | open_report => exact .inl (h.before (by simp [hk])).1
  | _ => exact .inr ⟨_, rfl⟩

theorem opened (h : Course m row calls) (hk : k ≠ .open_report) (hbusy : calls k ≠ .idle) :
    calls .open_report = .handled := by
  by_contra hopen
  exact hbusy ((h.before hopen).2 k hk)

/-- The hash of the close is read when that of the open is stored, if there is one. -/
theorem open_patch_done (h : Course m row calls)
    (hpatched : m.open_tx ≠ none → calls .open_patch = .handled) :
    (calls .open_patch).done = m.open_tx.isSome := by
  cases htx : m.open_tx with
  | none =>
      have hidle : calls .open_patch = .idle := by
        by_contra hbusy
        exact h.sent .open_patch hbusy (by simp [Messages.message, htx])
      rw [hidle]
      rfl
  | some tx_hash =>
      rw [hpatched (by simp [htx])]
      rfl

/-- Before the hash of the open is stored, that of the close is not read. -/
theorem close_patch_idle (h : Course m row calls) (hopen : calls .open_patch ≠ .handled)
    (htx : m.open_tx ≠ none) : calls .close_patch = .idle := by
  by_contra hbusy
  exact hopen (h.patched hbusy htx)

/-- A handler that is not done with its message moves on. -/
theorem move (h : Course m row calls) {p : Phase τ} (hsent : m.message k ≠ none)
    (hp : p = .writing (m.due k) ∨ p = .flushed (m.due k)) (hk : calls k ≠ .handled)
    (hopen : k ≠ .open_report → calls .open_report = .handled)
    (hpatched : k = .close_patch → m.open_tx ≠ none → calls .open_patch = .handled) :
    Course m row (Function.update calls k p) := by
  have hnot : p ≠ .handled ∧ p.done = false := by
    rcases hp with rfl | rfl <;> exact ⟨by simp, rfl⟩
  have hdone : ∀ j, (Function.update calls k p j).done = (calls j).done := by
    intro j
    by_cases hj : j = k
    · subst hj
      rw [Function.update_self, hnot.2]
      cases hphase : calls j with
      | handled => exact absurd hphase hk
      | _ => rfl
    · rw [Function.update_of_ne hj]
  have hhandled : ∀ j, Function.update calls k p j = .handled ↔ calls j = .handled := by
    intro j
    by_cases hj : j = k
    · subst hj
      rw [Function.update_self]
      exact ⟨fun h => absurd h hnot.1, fun h => absurd h hk⟩
    · rw [Function.update_of_ne hj]
  constructor
  · intro j
    by_cases hj : j = k
    · subst hj
      rw [Function.update_self]
      rcases hp with hp | hp
      · exact .inr (.inl hp)
      · exact .inr (.inr (.inl hp))
    · rw [Function.update_of_ne hj]
      exact h.phase j
  · intro j hj
    by_cases hjk : j = k
    · subst hjk
      exact hsent
    · rw [Function.update_of_ne hjk] at hj
      exact h.sent j hj
  · intro hbefore
    rw [ne_eq, hhandled] at hbefore
    have hk' : k = .open_report := by
      by_contra hne
      exact hbefore (hopen hne)
    obtain ⟨hrow, hidle⟩ := h.before hbefore
    refine ⟨hrow, fun j hj => ?_⟩
    rw [Function.update_of_ne (hk' ▸ hj)]
    exact hidle j hj
  · intro hafter
    rw [hdone, hdone, hdone]
    exact h.after ((hhandled _).mp hafter)
  · intro hbusy htx
    rw [hhandled]
    by_cases hk' : k = .close_patch
    · exact hpatched hk' htx
    · rw [Function.update_of_ne (Ne.symm hk')] at hbusy
      exact h.patched hbusy htx

theorem read (h : Course m row calls) {msg : Message τ} (hk : calls k = .idle)
    (hmsg : m.message k = some msg)
    (hopen : k ≠ .open_report → calls .open_report = .handled)
    (hpatched : k = .close_patch → m.open_tx ≠ none → calls .open_patch = .handled) :
    load row msg = .writing (m.due k) := by
  cases k with
  | open_report =>
      cases hmsg
      rw [(h.before (by simp [hk])).1]
      exact load_open_report m
  | open_patch =>
      obtain ⟨tx_hash, htx, rfl⟩ := Option.map_eq_some_iff.mp hmsg
      have hclose := h.close_patch_idle (by simp [hk]) (by simp [htx])
      rw [h.after (hopen (by simp)), hk, hclose]
      exact load_open_patch htx _
  | close_report =>
      obtain ⟨body, hbody, rfl⟩ := Option.map_eq_some_iff.mp hmsg
      rw [h.after (hopen (by simp)), hk]
      exact load_close_report hbody _ _
  | close_patch =>
      obtain ⟨tx_hash, htx, rfl⟩ := Option.map_eq_some_iff.mp hmsg
      rw [h.after (hopen (by simp)), hk, h.open_patch_done (hpatched rfl)]
      exact load_close_patch htx _

/-- What a handler commits is what it leaves of the row when the messages come in order. -/
theorem store (h : Course m row calls) (hk : calls k = .flushed (m.due k)) :
    let calls' := Function.update calls k .handled
    (m.due k).store row = some (m.row (calls' .open_patch).done (calls' .close_report).done
      (calls' .close_patch).done) := by
  intro calls'
  have hbusy : calls k ≠ .idle := by simp [hk]
  have hsent : m.message k ≠ none := h.sent k hbusy
  obtain ⟨msg, hmsg⟩ := Option.ne_none_iff_exists'.mp hsent
  cases k with
  | open_report =>
      obtain ⟨-, hidle⟩ := h.before (by simp [hk])
      simp [calls', hidle, store_open_report]
  | open_patch =>
      obtain ⟨tx_hash, htx, rfl⟩ := Option.map_eq_some_iff.mp hmsg
      have hclose := h.close_patch_idle (by simp [hk]) (by simp [htx])
      rw [h.after (h.opened (by simp) hbusy), hk, hclose]
      simp [calls', hclose, store_open_patch htx]
  | close_report =>
      obtain ⟨body, hbody, rfl⟩ := Option.map_eq_some_iff.mp hmsg
      rw [h.after (h.opened (by simp) hbusy), hk]
      simp [calls', store_close_report hbody]
  | close_patch =>
      obtain ⟨tx_hash, htx, rfl⟩ := Option.map_eq_some_iff.mp hmsg
      have hdone := h.open_patch_done (h.patched hbusy)
      rw [h.after (h.opened (by simp) hbusy), hk, hdone]
      simp [calls', hdone, store_close_patch htx]

theorem commit (h : Course m row calls) (hk : calls k = .flushed (m.due k)) :
    Course m ((m.due k).store row) (Function.update calls k .handled) := by
  have hkeep : ∀ j, calls j = .handled → Function.update calls k .handled j = .handled := by
    intro j hj
    by_cases hjk : j = k
    · subst hjk
      exact Function.update_self ..
    · rw [Function.update_of_ne hjk]
      exact hj
  have hopen : Function.update calls k .handled .open_report = .handled := by
    by_cases hk' : k = .open_report
    · subst hk'
      exact Function.update_self ..
    · exact hkeep _ (h.opened hk' (by simp [hk]))
  constructor
  · intro j
    by_cases hj : j = k
    · subst hj
      rw [Function.update_self]
      exact .inr (.inr (.inr rfl))
    · rw [Function.update_of_ne hj]
      exact h.phase j
  · intro j hj
    by_cases hjk : j = k
    · subst hjk
      exact h.sent j (by simp [hk])
    · rw [Function.update_of_ne hjk] at hj
      exact h.sent j hj
  · intro hbefore
    exact absurd hopen hbefore
  · intro _
    exact h.store hk
  · intro hbusy htx
    by_cases hk' : k = .close_patch
    · subst hk'
      exact hkeep _ (h.patched (by simp [hk]) htx)
    · rw [Function.update_of_ne (Ne.symm hk')] at hbusy
      exact hkeep _ (h.patched hbusy htx)

end Course

/-- What a handler that runs alone makes of the row. -/
def handle (row : Option (Trade τ)) (m : Message τ) : Option (Trade τ) :=
  match load row m with
  | .writing w => w.store row
  | _ => row

def in_order {id : τ} (m : Messages id) : Option (Trade τ) :=
  [Kind.open_report, .open_patch, .close_report, .close_patch].foldl
    (fun row k => (m.message k).elim row (handle row)) none

theorem in_order_eq {id : τ} (m : Messages id) :
    in_order m = some (m.row m.open_tx.isSome m.closed.isSome m.close_tx.isSome) := by
  have hopen : handle none (.push m.opened) = some (m.row false false false) := by
    rw [handle, load_open_report]
    exact store_open_report m none
  have hpatch : (m.message .open_patch).elim (some (m.row false false false))
      (handle (some (m.row false false false))) = some (m.row m.open_tx.isSome false false) := by
    cases htx : m.open_tx with
    | none => simp [Messages.message, htx]
    | some tx_hash =>
        simp only [Messages.message, htx, Option.map_some, Option.elim_some, handle,
          load_open_patch htx]
        exact store_open_patch htx false
  have hclose : ∀ p, (m.message .close_report).elim (some (m.row p false false))
      (handle (some (m.row p false false))) = some (m.row p m.closed.isSome false) := by
    intro p
    cases hbody : m.closed with
    | none => simp [Messages.message, hbody]
    | some body =>
        simp only [Messages.message, hbody, Option.map_some, Option.elim_some, handle,
          load_close_report hbody]
        exact store_close_report hbody p false
  have hlast : ∀ c, (m.message .close_patch).elim (some (m.row m.open_tx.isSome c false))
      (handle (some (m.row m.open_tx.isSome c false))) =
        some (m.row m.open_tx.isSome c m.close_tx.isSome) := by
    intro c
    cases htx : m.close_tx with
    | none => simp [Messages.message, htx]
    | some tx_hash =>
        simp only [Messages.message, htx, Option.map_some, Option.elim_some, handle,
          load_close_patch htx]
        exact store_close_patch htx c
  simp only [in_order, List.foldl_cons, List.foldl_nil]
  rw [show (m.message .open_report).elim none (handle none) = _ from hopen, hpatch, hclose, hlast]

/-- What the row of a trade has to keep of its messages. -/
structure Keeps {id : τ} (m : Messages id) (row : Trade τ) : Prop where
  entry : row.id = id ∧ row.agent_id = m.opened.agent_id ∧ row.side = m.opened.side ∧
    row.entry_price = m.opened.entry_price ∧ row.size_usdt = m.opened.size_usdt ∧
    row.leverage = m.opened.leverage ∧ row.strategy = m.opened.strategy ∧
    row.strategy_hash = m.opened.strategy_hash ∧ row.open_at = m.opened.open_at
  closing : ∀ body ∈ m.closed, row.exit_price = body.exit_price ∧ row.pnl_usdt = body.pnl_usdt ∧
    row.close_at = body.close_at ∧ row.close_reason = body.close_reason
  tx_hash : row.tx_hash = m.close_tx.or (m.open_tx.or m.opened.tx_hash)

theorem row_keeps {id : τ} (m : Messages id) :
    Keeps m (m.row m.open_tx.isSome m.closed.isSome m.close_tx.isSome) where
  entry := ⟨m.opened_id, rfl, rfl, rfl, rfl, rfl, rfl, rfl, rfl⟩
  closing := by
    intro body hbody
    have hlatest : m.latest m.closed.isSome = body := by
      rw [Option.mem_def.mp hbody]
      simp [Messages.latest, Option.mem_def.mp hbody]
    simp only [Messages.row, hlatest, and_self]
  tx_hash := by
    cases hclose : m.close_tx <;> cases hopen : m.open_tx <;> simp [Messages.row, hclose, hopen]

def initial : State τ where
  shared := fun _ => none
  calls := fun _ => .idle

/-- Every message about the trade has been handled. -/
def Settled (trades : (id : τ) → Messages id) (s : State τ) (id : τ) : Prop :=
  ∀ k, (trades id).message k ≠ none → (s.calls (id, k)).finished = true

/-- A message is read when the trade's open report has been stored, and the hash of the
close when that of the open has been. -/
def Ordered (trades : (id : τ) → Messages id) (s : State τ) : Step τ → Prop
  | .read (id, .open_patch) => s.calls (id, .open_report) = .handled
  | .read (id, .close_report) => s.calls (id, .open_report) = .handled
  | .read (id, .close_patch) => s.calls (id, .open_report) = .handled ∧
      ((trades id).open_tx ≠ none → s.calls (id, .open_patch) = .handled)
  | _ => True

theorem message_trade_id {id : τ} {m : Messages id} {k : Kind} {msg : Message τ}
    (h : m.message k = some msg) : msg.trade_id = id := by
  cases k with
  | open_report =>
      cases h
      exact m.opened_id
  | close_report =>
      obtain ⟨body, hbody, rfl⟩ := Option.map_eq_some_iff.mp h
      exact m.closed_id body hbody
  | open_patch =>
      obtain ⟨tx_hash, -, rfl⟩ := Option.map_eq_some_iff.mp h
      rfl
  | close_patch =>
      obtain ⟨tx_hash, -, rfl⟩ := Option.map_eq_some_iff.mp h
      rfl

/-- The condition on a read as it is used. -/
theorem Ordered.opened {trades : (id : τ) → Messages id} {s : State τ} {id : τ} {k : Kind}
    (h : Ordered trades s (.read (id, k))) :
    (k ≠ .open_report → s.calls (id, .open_report) = .handled) ∧
      (k = .close_patch → (trades id).open_tx ≠ none → s.calls (id, .open_patch) = .handled) := by
  cases k with
  | open_report => exact ⟨fun hk => absurd rfl hk, by simp⟩
  | open_patch => exact ⟨fun _ => h, by simp⟩
  | close_report => exact ⟨fun _ => h, by simp⟩
  | close_patch => exact ⟨fun _ => h.1, fun _ => h.2⟩

def Kept (trades : (id : τ) → Messages id) (s : State τ) : Prop :=
  ∀ id, Course (trades id) (s.shared id) fun k => s.calls (id, k)

theorem initial_kept (trades : (id : τ) → Messages id) : Kept trades (initial : State τ) := by
  intro id
  constructor
  · exact fun _ => .inl rfl
  · exact fun _ h => absurd rfl h
  · exact fun _ => ⟨rfl, fun _ _ => rfl⟩
  · exact fun h => by cases h
  · exact fun h => absurd rfl h

theorem Kept.settled {trades : (id : τ) → Messages id} {s : State τ} (hs : Kept trades s) {id : τ}
    (hsettled : Settled trades s id) :
    s.shared id = some ((trades id).row (trades id).open_tx.isSome (trades id).closed.isSome
      (trades id).close_tx.isSome) := by
  have hcourse := hs id
  have hdone : ∀ k, (s.calls (id, k)).done = ((trades id).message k).isSome := by
    intro k
    cases hmsg : (trades id).message k with
    | none =>
        have hidle : s.calls (id, k) = .idle := by
          by_contra hbusy
          exact hcourse.sent k hbusy hmsg
        rw [hidle]
        rfl
    | some msg =>
        have hfinished := hsettled k (by simp [hmsg])
        rcases hcourse.phase k with hphase | hphase | hphase | hphase <;>
          simp_all [Phase.finished]
  have hopened : s.calls (id, .open_report) = .handled := by
    have hopen := hdone .open_report
    rcases hcourse.phase .open_report with hphase | hphase | hphase | hphase <;>
      simp_all [Phase.done, Messages.message]
  rw [hcourse.after hopened, hdone, hdone, hdone]
  simp [Messages.message]

variable [DecidableEq τ]

/-- Another handler has written the row and has not committed. -/
def blocked (s : State τ) (i : τ × Kind) : Bool :=
  [Kind.open_report, .open_patch, .close_report, .close_patch].any fun k =>
    k ≠ i.2 && (s.calls (i.1, k)).holds

def step (trades : (id : τ) → Messages id) (s : State τ) : Step τ → Option (State τ)
  | .read i =>
      match s.calls i, (trades i.1).message i.2 with
      | .idle, some m => some (s.set i (load (s.shared m.trade_id) m))
      | _, _ => none
  | .flush i =>
      match s.calls i with
      | .writing w =>
          if w.locks && blocked s i then none
          else
            match w, s.shared i.1 with
            | .insert _, some _ => some (s.set i (.failed 500))
            | w, _ => some (s.set i (.flushed w))
      | _ => none
  | .commit i =>
      match s.calls i with
      | .flushed w =>
          some ((s.write (Function.update s.shared i.1 (w.store (s.shared i.1)))).set i .handled)
      | _ => none

variable {trades : (id : τ) → Messages id} {s s' : State τ} {e : Step τ}

theorem calls_set_self (s : State τ) (id : τ) (k : Kind) (p : Phase τ) :
    (fun j => (s.set (id, k) p).calls (id, j)) =
      Function.update (fun j => s.calls (id, j)) k p := by
  funext j
  by_cases hj : j = k
  · subst hj
    rw [System.set_self, Function.update_self]
  · rw [Function.update_of_ne hj, System.set_of_ne]
    simpa using hj

/-- A step is one of the handlers of one trade. -/
theorem kept_of_trade {id : τ} {k : Kind} {p : Phase τ} {row : Option (Trade τ)}
    (hs : Kept trades s)
    (h : Course (trades id) row (Function.update (fun j => s.calls (id, j)) k p)) :
    Kept trades ((s.write (Function.update s.shared id row)).set (id, k) p) := by
  intro id'
  by_cases hid : id' = id
  · subst hid
    rw [System.set_shared, System.write_shared, Function.update_self, calls_set_self]
    exact h
  · have hcalls : ∀ j, ((s.write (Function.update s.shared id row)).set (id, k) p).calls (id', j) =
        s.calls (id', j) := by
      intro j
      rw [System.set_of_ne _ _ (by simp [hid]), System.write_calls]
    simp only [System.set_shared, System.write_shared, Function.update_of_ne hid, hcalls]
    exact hs id'

theorem kept_of_handler {id : τ} {k : Kind} {p : Phase τ} (hs : Kept trades s)
    (h : Course (trades id) (s.shared id) (Function.update (fun j => s.calls (id, j)) k p)) :
    Kept trades (s.set (id, k) p) := by
  have hkept := kept_of_trade hs h
  rw [Function.update_eq_self] at hkept
  exact hkept

theorem kept_step (hs : Kept trades s) (he : Ordered trades s e)
    (h : step trades s e = some s') : Kept trades s' := by
  cases e with
  | read i =>
      obtain ⟨id, k⟩ := i
      cases hk : s.calls (id, k) <;> cases hmsg : (trades id).message k <;>
        simp [step, hk, hmsg] at h
      subst h
      obtain ⟨hopen, hpatched⟩ := he.opened
      rw [message_trade_id hmsg, (hs id).read hk hmsg hopen hpatched]
      exact kept_of_handler hs
        ((hs id).move (by simp [hmsg]) (.inl rfl) (by simp [hk]) hopen hpatched)
  | flush i =>
      obtain ⟨id, k⟩ := i
      have hcourse := hs id
      cases hk : s.calls (id, k) with
      | writing w =>
          have hw := hcourse.writing hk
          subst hw
          have hstep : s' = s.set (id, k) (.flushed ((trades id).due k)) := by
            simp only [step, hk] at h
            split_ifs at h
            rcases hcourse.unconflicted hk with hnone | ⟨changes, hupdate⟩
            · simpa [hnone, eq_comm] using h
            · simpa [hupdate, eq_comm] using h
          rw [hstep]
          have hbusy : s.calls (id, k) ≠ .idle := by simp [hk]
          exact kept_of_handler hs (hcourse.move (hcourse.sent k hbusy) (.inr rfl) (by simp [hk])
            (fun hne => hcourse.opened hne hbusy) fun hpatch => hcourse.patched (hpatch ▸ hbusy))
      | _ => simp [step, hk] at h
  | commit i =>
      obtain ⟨id, k⟩ := i
      cases hk : s.calls (id, k) with
      | flushed w =>
          have hw := (hs id).flushed hk
          subst hw
          simp only [step, hk, Option.some.injEq] at h
          subst h
          exact kept_of_trade hs ((hs id).commit hk)
      | _ => simp [step, hk] at h

/-- In every interleaving whose messages are read in order, each trade whose messages have
been handled is stored as in-order delivery stores it. -/
theorem pushes_converge {es : List (Step τ)} {t : State τ}
    (hrun : run (step trades) initial es = some t)
    (hordered : AllSteps (step trades) (Ordered trades) initial es) {id : τ}
    (hsettled : Settled trades t id) :
    ∃ row, t.shared id = some row ∧ in_order (trades id) = some row ∧ Keeps (trades id) row := by
  have hkept : Kept trades t := run_invariant_of_allSteps
    (fun _ _ _ hs he h => kept_step hs he h) hrun hordered (initial_kept trades)
  exact ⟨_, hkept.settled hsettled, in_order_eq _, row_keeps _⟩

instance (trades : (id : τ) → Messages id) (s : State τ) (e : Step τ) :
    Decidable (Ordered trades s e) :=
  match e with
  | .read (_, .open_report) => .isTrue trivial
  | .read (id, .open_patch) => inferInstanceAs (Decidable (s.calls (id, .open_report) = .handled))
  | .read (id, .close_report) =>
      inferInstanceAs (Decidable (s.calls (id, .open_report) = .handled))
  | .read (id, .close_patch) =>
      inferInstanceAs (Decidable (s.calls (id, .open_report) = .handled ∧
        ((trades id).open_tx ≠ none → s.calls (id, .open_patch) = .handled)))
  | .flush _ => .isTrue trivial
  | .commit _ => .isTrue trivial

def opened_at_100 (id : ℕ) : TradePush ℕ where
  id := id
  agent_id := "a1".toList
  side := "long".toList
  entry_price := 100
  exit_price := none
  size_usdt := 100
  leverage := 5
  pnl_usdt := none
  strategy := "momentum".toList
  strategy_hash := none
  open_at := 10
  close_at := none
  close_reason := none
  tx_hash := none
  reasoning_cid := none

def closed_at_110 (id : ℕ) : TradePush ℕ :=
  { opened_at_100 id with
    exit_price := some 110
    pnl_usdt := some 50
    close_at := some 20
    close_reason := some "take profit".toList }

def demo_trade (id : ℕ) : Messages id where
  opened := opened_at_100 id
  closed := some (closed_at_110 id)
  open_tx := some "0xaa".toList
  close_tx := some "0xcc".toList
  opened_id := rfl
  closed_id := fun _ h => Option.some.inj h ▸ rfl
  unhashed := fun _ h => Option.some.inj h ▸ rfl

def handled_alone (k : Kind) : List (Step ℕ) := [.read (0, k), .flush (0, k), .commit (0, k)]

/-- The close report and its hash are handled side by side. -/
def in_order_pushes : List (Step ℕ) :=
  handled_alone .open_report ++ handled_alone .open_patch ++
    [.read (0, .close_report), .read (0, .close_patch), .flush (0, .close_patch),
      .commit (0, .close_patch), .flush (0, .close_report), .commit (0, .close_report)]

theorem pushes_converge_in_order :
    ∃ t, run (step demo_trade) initial in_order_pushes = some t ∧
      ∃ row, t.shared 0 = some row ∧ in_order (demo_trade 0) = some row ∧
        Keeps (demo_trade 0) row := by
  have hrun : run (step demo_trade) initial in_order_pushes = some _ := rfl
  exact ⟨_, hrun, pushes_converge hrun (by decide) fun k _ => by cases k <;> rfl⟩

/-- The open report arrives last and takes the close back. -/
def late_open : List (Step ℕ) :=
  handled_alone .close_report ++ handled_alone .close_patch ++ handled_alone .open_patch ++
    handled_alone .open_report

theorem late_open_erases_close :
    ¬ ∀ (trades : (id : ℕ) → Messages id) (es : List (Step ℕ)) (t : State ℕ),
      run (step trades) initial es = some t → ∀ id, Settled trades t id →
      t.shared id = in_order (trades id) := by
  intro h
  have hrow := h demo_trade late_open _ rfl 0 fun k _ => by cases k <;> rfl
  have hprice := congrArg (fun row => row.map Trade.exit_price) hrow
  exact absurd hprice (by decide)

end ArticTrader.TradePushes
