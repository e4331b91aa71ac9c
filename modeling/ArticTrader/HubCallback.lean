import Mathlib.Logic.Function.Basic
import ArticTrader.TradingEngine

/-!
How the agent names and reports its trades to the user server.
-/

namespace ArticTrader.HubCallback

open ArticTrader.PythonText (Text truthy)
open ArticTrader.TradingEngine (TradeReport)

variable {τ : Type}

/-- The body of `POST /trades`; `τ` is the type of the trades' UUIDs. -/
structure TradePush (τ : Type) where
  id : τ
  agent_id : Text
  side : Text
  entry_price : ℚ
  exit_price : Option ℚ
  size_usdt : ℚ
  leverage : ℤ
  pnl_usdt : Option ℚ
  strategy : Text
  strategy_hash : Option Text
  open_at : ℤ
  close_at : Option ℤ
  close_reason : Option Text
  tx_hash : Option Text
  reasoning_cid : Option Text
  deriving DecidableEq

/-- The open trade and the most recent trade of each agent. -/
structure Trades (τ : Type) where
  open_trades : Text → Option (τ × ℤ)
  last_trade_id : Text → Option τ

/-- The clock and the process as `report_trade` finds them. -/
structure ReportContext where
  open_at : ℤ
  close_at : ℤ
  strategy_hash : Option Text
  last_reasoning_cid : Option Text
  deriving DecidableEq, Repr

/-- The id and the opening time that `report_trade` gives to a trade. -/
def trade_entry (h : Trades τ) (trade : TradeReport) (new_id : τ) (now : ℤ) : τ × ℤ :=
  match trade.exit_price with
  | none => (new_id, now)
  | some _ => (h.open_trades trade.agent_id).getD (new_id, now)

def name_trade (h : Trades τ) (trade : TradeReport) (new_id : τ) (now : ℤ) : Trades τ :=
  { open_trades := Function.update h.open_trades trade.agent_id
      (match trade.exit_price with
      | none => some (new_id, now)
      | some _ => none)
    last_trade_id := Function.update h.last_trade_id trade.agent_id
      (some (trade_entry h trade new_id now).1) }

/-- `None` as a price, a size or a leverage makes a body that the server rejects. No
report of the engine has a `tx_hash` or a `reasoning_cid` of its own. -/
def trade_payload (trade : TradeReport) (entry : τ × ℤ) (c : ReportContext) :
    Option (TradePush τ) := do
  let entry_price ← trade.entry_price
  let size_usdt ← trade.size_usdt
  let leverage ← trade.leverage
  return {
    id := entry.1
    agent_id := trade.agent_id
    side := trade.side
    entry_price
    exit_price := trade.exit_price
    size_usdt
    leverage
    pnl_usdt := trade.pnl
    strategy := if truthy trade.strategy then trade.strategy.getD [] else "unknown".toList
    strategy_hash := c.strategy_hash
    open_at := entry.2
    close_at := if trade.exit_price.isSome then some c.close_at else none
    close_reason := trade.close_reason
    tx_hash := none
    reasoning_cid := c.last_reasoning_cid }

def report_trade (h : Trades τ) (trade : TradeReport) (new_id : τ) (c : ReportContext) :
    Trades τ × Option (TradePush τ) :=
  (name_trade h trade new_id c.open_at,
    trade_payload trade (trade_entry h trade new_id c.open_at) c)

theorem trade_payload_id {trade : TradeReport} {entry : τ × ℤ} {c : ReportContext}
    {body : TradePush τ} (h : trade_payload trade entry c = some body) :
    body.id = entry.1 ∧ body.tx_hash = none := by
  simp only [trade_payload, Option.bind_eq_bind, Option.bind_eq_some_iff] at h
  obtain ⟨_, _, _, _, _, _, hbody⟩ := h
  cases hbody
  exact ⟨rfl, rfl⟩

end ArticTrader.HubCallback
