import ArticTrader.PythonNumbers
import ArticTrader.PythonText

namespace ArticTrader.PaperExecutor

open ArticTrader.PythonNumbers
open ArticTrader.PythonText (Text)

inductive PositionSide where
  | LONG
  | SHORT
  | FLAT
  deriving DecidableEq, Repr

def PositionSide.value : PositionSide → Text
  | .LONG => "LONG".toList
  | .SHORT => "SHORT".toList
  | .FLAT => "FLAT".toList

structure PaperPosition where
  side : PositionSide
  entry_price : Option ℚ
  size_usdt : Option ℚ
  leverage : Option ℤ
  tp_pct : Option ℚ
  sl_pct : Option ℚ
  tp_price : Option ℚ
  sl_price : Option ℚ
  deriving DecidableEq, Repr

def flat : PaperPosition where
  side := .FLAT
  entry_price := none
  size_usdt := none
  leverage := none
  tp_pct := none
  sl_pct := none
  tp_price := none
  sl_price := none

/-- `open_long` and `open_short` differ in the side alone. -/
def opened (side : PositionSide) (entry_price : ℚ) (size_usdt : Option ℚ)
    (leverage : Option ℤ) (tp_pct sl_pct tp_price sl_price : Option ℚ) : PaperPosition :=
  { side, entry_price := some entry_price, size_usdt, leverage, tp_pct, sl_pct,
    tp_price, sl_price }

def open_long := opened .LONG

def open_short := opened .SHORT

def close (_ : PaperPosition) : PaperPosition := flat

def update_dynamic_tp_sl (p : PaperPosition) (tp_price sl_price : ℚ) : PaperPosition :=
  { p with tp_price := some tp_price, sl_price := some sl_price }

def unrealized_pnl (p : PaperPosition) (current_price : ℚ) : Except PyError ℚ :=
  match p.side, p.entry_price with
  | .FLAT, _ => .ok 0
  | _, none => .ok 0
  | side, some entry => do
      let pnl_pct ←
        if side = .LONG then true_div (current_price - entry) entry
        else true_div (entry - current_price) entry
      let size ← number p.size_usdt
      let leverage ← number p.leverage
      return pnl_pct * size * leverage

/-- The reason `check_tp_sl` gives, with the two numbers its text shows. -/
inductive Trigger where
  | TP (value level : ℚ)
  | SL (value level : ℚ)
  deriving DecidableEq, Repr

/-- `none` stands for `(False, "")`. -/
def check_tp_sl (p : PaperPosition) (current_price : ℚ) : Except PyError (Option Trigger) :=
  if p.side = .FLAT then .ok none
  else
    match p.tp_price, p.sl_price with
    | some tp_price, some sl_price =>
        if p.side = .LONG then
          if tp_price ≤ current_price then .ok (some (.TP current_price tp_price))
          else if current_price ≤ sl_price then .ok (some (.SL current_price sl_price))
          else .ok none
        else
          if current_price ≤ tp_price then .ok (some (.TP current_price tp_price))
          else if sl_price ≤ current_price then .ok (some (.SL current_price sl_price))
          else .ok none
    | _, _ => do
        let pnl ← unrealized_pnl p current_price
        let size ← number p.size_usdt
        let leverage ← number p.leverage
        let pnl_pct ← true_div pnl (size * leverage)
        let tp := p.tp_pct.getD 0
        let sl := p.sl_pct.getD 0
        if truthy p.tp_pct ∧ tp ≤ pnl_pct then return some (.TP pnl_pct tp)
        else if truthy p.sl_pct ∧ pnl_pct ≤ -sl then return some (.SL pnl_pct sl)
        else return none

def gain (side : PositionSide) (entry price : ℚ) : ℚ :=
  if side = .LONG then (price - entry) / entry else (entry - price) / entry

theorem unrealized_pnl_open {p : PaperPosition} {entry : ℚ} (hside : p.side ≠ .FLAT)
    (hentry : p.entry_price = some entry) (hne : entry ≠ 0) (price pnl : ℚ) :
    unrealized_pnl p price = .ok pnl ↔
      ∃ size leverage, p.size_usdt = some size ∧ p.leverage = some leverage ∧
        pnl = gain p.side entry price * size * leverage := by
  have hpct : unrealized_pnl p price = (do
      let size ← number p.size_usdt
      let leverage ← number p.leverage
      return gain p.side entry price * size * leverage) := by
    cases hs : p.side with
    | FLAT => exact absurd hs hside
    | LONG => simp [unrealized_pnl, hs, hentry, gain, true_div_of_ne hne]; rfl
    | SHORT => simp [unrealized_pnl, hs, hentry, gain, true_div_of_ne hne]; rfl
  rw [hpct]
  simp only [number_bind_eq_ok, pure, Except.pure, Except.ok.injEq]
  constructor
  · rintro ⟨size, hsize, leverage, hleverage, hpnl⟩
    exact ⟨size, leverage, hsize, hleverage, hpnl.symm⟩
  · rintro ⟨size, leverage, hsize, hleverage, hpnl⟩
    exact ⟨size, hsize, leverage, hleverage, hpnl.symm⟩

end ArticTrader.PaperExecutor
