import ArticTrader.PositionMachine

/-!
What the levels of an open position mean, and what keeps them so when the
configuration is changed while the engine runs.
-/

namespace ArticTrader.HotReload

open ArticTrader.EngineSession
open ArticTrader.LabelledRuns
open ArticTrader.PaperExecutor
open ArticTrader.PositionMachine
open ArticTrader.PythonNumbers
open ArticTrader.PythonText (Text lower)
open ArticTrader.TradingEngine

/-- The levels are percentages, as `check_tp_sl` reads them. -/
def Percentages (p : PaperPosition) : Prop := p.tp_price = none ∨ p.sl_price = none

instance (p : PaperPosition) : Decidable (Percentages p) :=
  inferInstanceAs (Decidable (_ ∨ _))

/-- Gain, loss and levels can be computed at every positive price, and in fixed mode
neither level is reported on the wrong side of the entry. -/
structure Meaningful (e : Engine) : Prop where
  computes : ∀ price, 0 < price → ∃ pnl trigger,
    unrealized_pnl e.position price = .ok pnl ∧ check_tp_sl e.position price = .ok trigger
  sl_hit : ¬ e.is_dynamic ∨ Percentages e.position → ∀ price value level pnl, 0 < price →
    check_tp_sl e.position price = .ok (some (.SL value level)) →
      unrealized_pnl e.position price = .ok pnl → pnl ≤ 0
  tp_hit : ¬ e.is_dynamic ∨ Percentages e.position → ∀ price value level pnl, 0 < price →
    check_tp_sl e.position price = .ok (some (.TP value level)) →
      unrealized_pnl e.position price = .ok pnl → 0 ≤ pnl

/-- A positive size with percentages that are not negative. A negative size is in bounds
only with percentages that no positive price reaches. -/
def InBounds (side : PositionSide) (size : ℚ) (tp_pct sl_pct : Option ℚ) : Prop :=
  0 < size ∧ 0 ≤ tp_pct.getD 0 ∧ 0 ≤ sl_pct.getD 0 ∨
    size < 0 ∧ (tp_pct.getD 0 = 0 ∨ side = .SHORT ∧ 1 ≤ tp_pct.getD 0) ∧
      (sl_pct.getD 0 = 0 ∨ side = .LONG ∧ 1 ≤ sl_pct.getD 0)

/-- Outside dynamic mode the stored levels mean something for short positions alone. -/
def Bounded (p : PaperPosition) (dynamic : Prop) : Prop :=
  p.side ≠ .FLAT → ∀ size, p.size_usdt = some size →
    (Percentages p → InBounds p.side size p.tp_pct p.sl_pct) ∧
    (¬ Percentages p → dynamic ∨ size = 0 ∨ p.side = .SHORT ∧ 0 < size)

/-- The gains at positive prices. -/
def Reaches : PositionSide → ℚ → Prop
  | .LONG, g => -1 < g
  | _, g => g < 1

theorem exists_gain_iff {side : PositionSide} {entry : ℚ} (hentry : 0 < entry) (g : ℚ) :
    (∃ price, 0 < price ∧ gain side entry price = g) ↔ Reaches side g := by
  have hne : entry ≠ 0 := hentry.ne'
  cases side with
  | LONG =>
      simp only [gain, Reaches, if_true]
      constructor
      · rintro ⟨price, hprice, rfl⟩
        rw [lt_div_iff₀ hentry]
        linarith
      · intro hg
        refine ⟨entry * (1 + g), mul_pos hentry (by linarith), ?_⟩
        field_simp
        ring
  | SHORT =>
      simp only [gain, Reaches, reduceCtorEq, if_false]
      constructor
      · rintro ⟨price, hprice, rfl⟩
        rw [div_lt_one hentry]
        linarith
      · intro hg
        refine ⟨entry * (1 - g), mul_pos hentry (by linarith), ?_⟩
        field_simp
        ring
  | FLAT =>
      simp only [gain, Reaches, reduceCtorEq, if_false]
      constructor
      · rintro ⟨price, hprice, rfl⟩
        rw [div_lt_one hentry]
        linarith
      · intro hg
        refine ⟨entry * (1 - g), mul_pos hentry (by linarith), ?_⟩
        field_simp
        ring

theorem reaches_gain (side : PositionSide) {entry price : ℚ} (hentry : 0 < entry)
    (hprice : 0 < price) : Reaches side (gain side entry price) :=
  (exists_gain_iff hentry _).mp ⟨price, hprice, rfl⟩

/-- What `check_tp_sl` reports of percentages at a gain. -/
def reported (tp sl g : ℚ) : Option Trigger :=
  if tp ≠ 0 ∧ tp ≤ g then some (.TP g tp)
  else if sl ≠ 0 ∧ g ≤ -sl then some (.SL g sl)
  else none

/-- Reports of gains and losses are such of the stake. -/
def HonestGains (side : PositionSide) (stake tp sl : ℚ) : Prop :=
  ∀ g, Reaches side g →
    (∀ value level, reported tp sl g = some (.SL value level) → g * stake ≤ 0) ∧
    (∀ value level, reported tp sl g = some (.TP value level) → 0 ≤ g * stake)

theorem reported_sl {tp sl g value level : ℚ} (h : reported tp sl g = some (.SL value level)) :
    sl ≠ 0 ∧ g ≤ -sl := by
  unfold reported at h
  split_ifs at h with htp hsl
  · cases h
  · exact hsl

theorem reported_tp {tp sl g value level : ℚ} (h : reported tp sl g = some (.TP value level)) :
    tp ≠ 0 ∧ tp ≤ g := by
  unfold reported at h
  split_ifs at h with htp
  · exact htp
  · cases h

theorem HonestGains.nonneg_of_tp {side : PositionSide} {stake tp sl g : ℚ}
    (h : HonestGains side stake tp sl) (hg : Reaches side g) (htp : tp ≠ 0) (hle : tp ≤ g) :
    0 ≤ g * stake :=
  (h g hg).2 g tp (by rw [reported, if_pos ⟨htp, hle⟩])

theorem HonestGains.nonpos_of_sl {side : PositionSide} {stake tp sl g : ℚ}
    (h : HonestGains side stake tp sl) (hg : Reaches side g) (htp : ¬ (tp ≠ 0 ∧ tp ≤ g))
    (hsl : sl ≠ 0) (hle : g ≤ -sl) : g * stake ≤ 0 :=
  (h g hg).1 g sl (by rw [reported, if_neg htp, if_pos ⟨hsl, hle⟩])

theorem reaches_half {side : PositionSide} {g : ℚ} (hlow : -1 < g) (hhigh : g < 1) :
    Reaches side g := by
  cases side with
  | LONG => exact hlow
  | SHORT => exact hhigh
  | FLAT => exact hhigh

theorem honest_of_pos {side : PositionSide} {stake tp sl : ℚ} (hstake : 0 < stake) :
    HonestGains side stake tp sl ↔ 0 ≤ tp ∧ 0 ≤ sl := by
  constructor
  · intro h
    have htp : 0 ≤ tp := by
      by_contra hneg
      rw [not_le] at hneg
      have hlow : max tp (-1 / 2) < 0 := max_lt hneg (by norm_num)
      have hreach : Reaches side (max tp (-1 / 2)) :=
        reaches_half (lt_of_lt_of_le (by norm_num) (le_max_right _ _)) (by linarith)
      have hpnl := h.nonneg_of_tp hreach hneg.ne (le_max_left _ _)
      exact absurd hpnl (not_le.mpr (mul_neg_of_neg_of_pos hlow hstake))
    refine ⟨htp, ?_⟩
    by_contra hneg
    rw [not_le] at hneg
    -- a gain below the negative stop and not yet at the target
    obtain ⟨g, hpos, hhalf, hsl, hbelow⟩ :
        ∃ g : ℚ, 0 < g ∧ g < 1 ∧ g ≤ -sl ∧ ¬ (tp ≠ 0 ∧ tp ≤ g) := by
      rcases htp.eq_or_lt with hzero | htp
      · refine ⟨min (-sl) (1 / 2), lt_min (by linarith) (by norm_num), ?_, min_le_left _ _, ?_⟩
        · exact lt_of_le_of_lt (min_le_right _ _) (by norm_num)
        · exact fun hne => hne.1 hzero.symm
      · refine ⟨min (-sl) (min (1 / 2) (tp / 2)), ?_, ?_, min_le_left _ _, ?_⟩
        · exact lt_min (by linarith) (lt_min (by norm_num) (by linarith))
        · exact lt_of_le_of_lt ((min_le_right _ _).trans (min_le_left _ _)) (by norm_num)
        · have hle : min (-sl) (min (1 / 2) (tp / 2)) ≤ tp / 2 :=
            (min_le_right _ _).trans (min_le_right _ _)
          exact fun hreached => absurd hreached.2 (by linarith)
    have hpnl := h.nonpos_of_sl (reaches_half (by linarith) hhalf) hbelow hneg.ne hsl
    exact absurd hpnl (not_le.mpr (mul_pos hpos hstake))
  · rintro ⟨htp, hsl⟩ g -
    constructor
    · intro value level h
      exact mul_nonpos_of_nonpos_of_nonneg (by linarith [(reported_sl h).2]) hstake.le
    · intro value level h
      exact mul_nonneg (htp.trans (reported_tp h).2) hstake.le

theorem honest_of_neg {side : PositionSide} (hside : side ≠ .FLAT) {stake tp sl : ℚ}
    (hstake : stake < 0) :
    HonestGains side stake tp sl ↔
      (tp = 0 ∨ side = .SHORT ∧ 1 ≤ tp) ∧ (sl = 0 ∨ side = .LONG ∧ 1 ≤ sl) := by
  constructor
  · intro h
    have htp : tp = 0 ∨ side = .SHORT ∧ 1 ≤ tp := by
      by_contra hnot
      rw [not_or, not_and, not_le] at hnot
      have hpos : 0 < max tp (1 / 2) := lt_of_lt_of_le (by norm_num) (le_max_right _ _)
      have hreach : Reaches side (max tp (1 / 2)) := by
        cases side with
        | LONG => exact lt_trans (by norm_num) hpos
        | SHORT => exact max_lt (hnot.2 rfl) (by norm_num)
        | FLAT => exact absurd rfl hside
      have hpnl := h.nonneg_of_tp hreach hnot.1 (le_max_left _ _)
      exact absurd hpnl (not_le.mpr (mul_neg_of_pos_of_neg hpos hstake))
    refine ⟨htp, ?_⟩
    by_contra hnot
    rw [not_or, not_and, not_le] at hnot
    have hneg : min (-sl) (-1 / 2) < 0 := lt_of_le_of_lt (min_le_right _ _) (by norm_num)
    have hreach : Reaches side (min (-sl) (-1 / 2)) := by
      cases side with
      | LONG => exact lt_min (by linarith [hnot.2 rfl]) (by norm_num)
      | SHORT => exact hneg.trans (by norm_num)
      | FLAT => exact absurd rfl hside
    have hbelow : ¬ (tp ≠ 0 ∧ tp ≤ min (-sl) (-1 / 2)) := by
      rintro ⟨hne, hle⟩
      rcases htp with hzero | ⟨-, hone⟩
      · exact hne hzero
      · linarith
    have hpnl := h.nonpos_of_sl hreach hbelow hnot.1 (min_le_left _ _)
    exact absurd hpnl (not_le.mpr (mul_pos_of_neg_of_neg hneg hstake))
  · rintro ⟨htp, hsl⟩ g hg
    constructor
    · intro value level h
      obtain ⟨hne, hle⟩ := reported_sl h
      rcases hsl with hzero | ⟨rfl, hone⟩
      · exact absurd hzero hne
      · have hlow : -1 < g := hg
        linarith
    · intro value level h
      obtain ⟨hne, hle⟩ := reported_tp h
      rcases htp with hzero | ⟨rfl, hone⟩
      · exact absurd hzero hne
      · have hhigh : g < 1 := hg
        linarith

structure Held (p : PaperPosition) (entry size : ℚ) (leverage : ℤ) : Prop where
  side : p.side ≠ .FLAT
  entry_price : p.entry_price = some entry
  entry_pos : 0 < entry
  size_usdt : p.size_usdt = some size
  leverage_pos : 1 ≤ leverage
  leverage : p.leverage = some leverage

/-- An open position as a start within the schema leaves room for: bought at a positive
price, with the prices of dynamic mode or none. -/
def Solid (p : PaperPosition) : Prop :=
  p.side ≠ .FLAT → ∃ entry size leverage, Held p entry size leverage ∧
    (Percentages p ∨ ∃ dist, ShortLevels p entry dist)

section Holding

variable {p : PaperPosition} {entry size : ℚ} {leverage : ℤ}

theorem Held.leverage_cast_pos (h : Held p entry size leverage) : (0 : ℚ) < leverage := by
  have hpos : 0 < leverage := lt_of_lt_of_le one_pos h.leverage_pos
  exact_mod_cast hpos

theorem Held.pnl (h : Held p entry size leverage) (price : ℚ) :
    unrealized_pnl p price = .ok (gain p.side entry price * (size * leverage)) := by
  rw [← mul_assoc]
  exact (unrealized_pnl_open h.side h.entry_price h.entry_pos.ne' price _).mpr
    ⟨size, leverage, h.size_usdt, h.leverage, rfl⟩

theorem truthy_iff (x : Option ℚ) : truthy x = true ↔ x.getD 0 ≠ 0 := by
  cases x with
  | none => simp [truthy]
  | some x => simp [truthy]

theorem check_percentages (hpct : Percentages p) (hside : p.side ≠ .FLAT) (price : ℚ) :
    check_tp_sl p price = (do
      let pnl ← unrealized_pnl p price
      let size ← number p.size_usdt
      let leverage ← number p.leverage
      let pnl_pct ← true_div pnl (size * leverage)
      return reported (p.tp_pct.getD 0) (p.sl_pct.getD 0) pnl_pct) := by
  rw [check_tp_sl, if_neg hside]
  split
  · rename_i tp_price sl_price htp hsl
    rcases hpct with hnone | hnone
    · rw [hnone] at htp
      cases htp
    · rw [hnone] at hsl
      cases hsl
  · simp only [reported, truthy_iff]
    congr 1
    funext pnl
    congr 1
    funext size
    congr 1
    funext leverage
    congr 1
    funext pnl_pct
    split_ifs
    · rfl
    · rfl
    · rfl

theorem Held.check (h : Held p entry size leverage) (hpct : Percentages p) (hsize : size ≠ 0)
    (price : ℚ) :
    check_tp_sl p price =
      .ok (reported (p.tp_pct.getD 0) (p.sl_pct.getD 0) (gain p.side entry price)) := by
  have hstake : size * (leverage : ℚ) ≠ 0 := mul_ne_zero hsize h.leverage_cast_pos.ne'
  rw [check_percentages hpct h.side, h.pnl, h.size_usdt, h.leverage]
  simp only [number_some, bind, Except.bind, true_div_of_ne hstake]
  rw [mul_div_assoc, div_self hstake, mul_one]
  rfl

theorem Held.check_zero (h : Held p entry 0 leverage) (hpct : Percentages p) (price : ℚ)
    (trigger : Option Trigger) : check_tp_sl p price ≠ .ok trigger := by
  rw [check_percentages hpct h.side, h.pnl, h.size_usdt, h.leverage]
  simp [bind, Except.bind, true_div]

theorem meaningful_iff_honest {e : Engine} (h : Held e.position entry size leverage)
    (hpct : Percentages e.position) (hsize : size ≠ 0) :
    Meaningful e ↔ HonestGains e.position.side (size * leverage) (e.position.tp_pct.getD 0)
      (e.position.sl_pct.getD 0) := by
  constructor
  · intro hm g hg
    obtain ⟨price, hprice, rfl⟩ := (exists_gain_iff h.entry_pos g).mpr hg
    constructor
    · intro value level hreported
      exact hm.sl_hit (.inr hpct) price value level _ hprice
        (by rw [h.check hpct hsize, hreported]) (h.pnl price)
    · intro value level hreported
      exact hm.tp_hit (.inr hpct) price value level _ hprice
        (by rw [h.check hpct hsize, hreported]) (h.pnl price)
  · intro hhonest
    refine ⟨?_, ?_, ?_⟩
    · intro price _
      exact ⟨_, _, h.pnl price, h.check hpct hsize price⟩
    · intro _ price value level pnl hprice hcheck hpnl
      have hreach := reaches_gain e.position.side h.entry_pos hprice
      rw [h.check hpct hsize, Except.ok.injEq] at hcheck
      rw [h.pnl, Except.ok.injEq] at hpnl
      exact hpnl ▸ (hhonest _ hreach).1 value level hcheck
    · intro _ price value level pnl hprice hcheck hpnl
      have hreach := reaches_gain e.position.side h.entry_pos hprice
      rw [h.check hpct hsize, Except.ok.injEq] at hcheck
      rw [h.pnl, Except.ok.injEq] at hpnl
      exact hpnl ▸ (hhonest _ hreach).2 value level hcheck

theorem meaningful_of_percentages {e : Engine} (h : Held e.position entry size leverage)
    (hpct : Percentages e.position) :
    Meaningful e ↔
      InBounds e.position.side size e.position.tp_pct e.position.sl_pct := by
  rcases lt_trichotomy size 0 with hneg | rfl | hpos
  · have hstake : size * (leverage : ℚ) < 0 := mul_neg_of_neg_of_pos hneg h.leverage_cast_pos
    rw [meaningful_iff_honest h hpct hneg.ne, honest_of_neg h.side hstake, InBounds]
    constructor
    · exact fun hlevels => .inr ⟨hneg, hlevels⟩
    · rintro (⟨hpos, -⟩ | ⟨-, hlevels⟩)
      · exact absurd hpos hneg.not_gt
      · exact hlevels
  · constructor
    · intro hm
      obtain ⟨-, trigger, -, hcheck⟩ := hm.computes 1 one_pos
      exact absurd hcheck (h.check_zero hpct 1 trigger)
    · rintro (⟨hpos, -⟩ | ⟨hneg, -⟩)
      · exact absurd hpos (lt_irrefl 0)
      · exact absurd hneg (lt_irrefl 0)
  · have hstake : 0 < size * (leverage : ℚ) := mul_pos hpos h.leverage_cast_pos
    rw [meaningful_iff_honest h hpct hpos.ne', honest_of_pos hstake, InBounds]
    constructor
    · exact fun hlevels => .inl ⟨hpos, hlevels⟩
    · rintro (⟨-, hlevels⟩ | ⟨hneg, -⟩)
      · exact hlevels
      · exact absurd hneg hpos.not_gt

theorem Held.check_stored (h : Held p entry size leverage) {dist : ℚ}
    (hstored : ShortLevels p entry dist) (price : ℚ) :
    check_tp_sl p price = .ok
      (if p.side = .LONG then
        if entry - dist * 2 ≤ price then some (.TP price (entry - dist * 2))
        else if price ≤ entry + dist then some (.SL price (entry + dist))
        else none
      else
        if price ≤ entry - dist * 2 then some (.TP price (entry - dist * 2))
        else if entry + dist ≤ price then some (.SL price (entry + dist))
        else none) := by
  rw [check_tp_sl, if_neg h.side]
  simp only [hstored.tp_price, hstored.sl_price]
  split_ifs
  · rfl
  · rfl
  · rfl
  · rfl
  · rfl
  · rfl

theorem not_percentages {dist : ℚ} (hstored : ShortLevels p entry dist) : ¬ Percentages p := by
  rintro (hnone | hnone)
  · rw [hstored.tp_price] at hnone
    cases hnone
  · rw [hstored.sl_price] at hnone
    cases hnone

theorem stake_of_long {stake dist : ℚ} (hentry : 0 < entry) (hdist : 0 < dist)
    (h : ∀ price, 0 < price → entry - dist * 2 ≤ price →
      0 ≤ gain .LONG entry price * stake) : stake = 0 := by
  have hne := hentry.ne'
  have hup : 0 ≤ stake := by
    have hgain : gain .LONG entry (2 * entry) = 1 := by
      rw [gain, if_pos rfl]
      field_simp
      ring
    have hpnl := h (2 * entry) (by linarith) (by linarith)
    rwa [hgain, one_mul] at hpnl
  have hbelow : max (entry - dist) (entry / 2) < entry := max_lt (by linarith) (by linarith)
  have hdown : gain .LONG entry (max (entry - dist) (entry / 2)) < 0 := by
    rw [gain, if_pos rfl]
    exact div_neg_of_neg_of_pos (by linarith) hentry
  have hlevel : entry - dist * 2 ≤ entry - dist := by linarith
  have hpnl := h (max (entry - dist) (entry / 2))
    (lt_of_lt_of_le (half_pos hentry) (le_max_right _ _)) (hlevel.trans (le_max_left _ _))
  by_contra hne
  exact absurd hpnl (not_le.mpr (mul_neg_of_neg_of_pos hdown (lt_of_le_of_ne' hup hne)))

theorem stake_of_short {stake dist : ℚ} (hentry : 0 < entry) (hdist : 0 < dist)
    (h : gain .SHORT entry (entry + dist) * stake ≤ 0) : 0 ≤ stake := by
  have hgain : gain .SHORT entry (entry + dist) < 0 := by
    rw [gain, if_neg (by simp)]
    exact div_neg_of_neg_of_pos (by linarith) hentry
  by_contra hneg
  exact absurd h (not_le.mpr (mul_pos_of_neg_of_neg hgain (not_le.mp hneg)))

theorem meaningful_of_stored {e : Engine} (h : Held e.position entry size leverage) {dist : ℚ}
    (hstored : ShortLevels e.position entry dist) :
    Meaningful e ↔ e.is_dynamic ∨ size = 0 ∨ e.position.side = .SHORT ∧ 0 < size := by
  have hleverage := h.leverage_cast_pos
  have hdist := hstored.dist_pos
  have hentry := h.entry_pos
  have hcheck := h.check_stored hstored
  constructor
  · intro hm
    by_contra hnot
    simp only [not_or, not_and, not_lt] at hnot
    obtain ⟨hmode, hsize, hshort⟩ := hnot
    cases hside : e.position.side with
    | FLAT => exact absurd hside h.side
    | LONG =>
        have hstake : size * (leverage : ℚ) = 0 := by
          apply stake_of_long hentry hdist
          intro price hprice hlevel
          have hpnl := hm.tp_hit (.inl hmode) price price (entry - dist * 2) _ hprice
            (by rw [hcheck, if_pos hside, if_pos hlevel]) (h.pnl price)
          rwa [hside] at hpnl
        rcases mul_eq_zero.mp hstake with hzero | hzero
        · exact hsize hzero
        · exact hleverage.ne' hzero
    | SHORT =>
        have hstake : 0 ≤ size * (leverage : ℚ) := by
          apply stake_of_short hentry hdist
          have hpnl := hm.sl_hit (.inl hmode) (entry + dist) (entry + dist) (entry + dist) _
            (by linarith)
            (by rw [hcheck, hside, if_neg (by simp), if_neg (by linarith), if_pos le_rfl])
            (h.pnl (entry + dist))
          rwa [hside] at hpnl
        exact hsize (le_antisymm (hshort hside) (nonneg_of_mul_nonneg_left hstake hleverage))
  · intro hmode
    refine ⟨fun price _ => ⟨_, _, h.pnl price, hcheck price⟩, ?_, ?_⟩
    · intro hfixed price value level pnl hprice hhit hpnl
      rw [h.pnl, Except.ok.injEq] at hpnl
      rcases hmode with hdynamic | rfl | ⟨hside, hpos⟩
      · exact absurd hfixed (by simp [hdynamic, not_percentages hstored])
      · rw [← hpnl, zero_mul, mul_zero]
      · rw [hcheck, hside, if_neg (by simp), Except.ok.injEq] at hhit
        split_ifs at hhit with htp hsl
        · cases hhit
        · rw [← hpnl, hside, gain, if_neg (by simp)]
          exact mul_nonpos_of_nonpos_of_nonneg
            (div_nonpos_of_nonpos_of_nonneg (by linarith) hentry.le) (mul_pos hpos hleverage).le
    · intro hfixed price value level pnl hprice hhit hpnl
      rw [h.pnl, Except.ok.injEq] at hpnl
      rcases hmode with hdynamic | rfl | ⟨hside, hpos⟩
      · exact absurd hfixed (by simp [hdynamic, not_percentages hstored])
      · rw [← hpnl, zero_mul, mul_zero]
      · rw [hcheck, hside, if_neg (by simp), Except.ok.injEq] at hhit
        split_ifs at hhit with htp
        · rw [← hpnl, hside, gain, if_neg (by simp)]
          exact mul_nonneg (div_nonneg (by linarith) hentry.le) (mul_pos hpos hleverage).le
        · cases hhit

end Holding

theorem meaningful_of_flat {e : Engine} (hside : e.position.side = .FLAT) : Meaningful e := by
  have hcheck : ∀ price, check_tp_sl e.position price = .ok none := by
    intro price
    rw [check_tp_sl, if_pos hside]
  refine ⟨?_, ?_, ?_⟩
  · intro price _
    exact ⟨0, none, by simp [unrealized_pnl, hside], hcheck price⟩
  · intro _ price value level pnl _ hhit
    rw [hcheck] at hhit
    cases hhit
  · intro _ price value level pnl _ hhit
    rw [hcheck] at hhit
    cases hhit

theorem meaningful_iff_bounded {e : Engine} (h : Solid e.position) :
    Meaningful e ↔ Bounded e.position e.is_dynamic := by
  by_cases hside : e.position.side = .FLAT
  · exact ⟨fun _ hopen => absurd hside hopen, fun _ => meaningful_of_flat hside⟩
  · obtain ⟨entry, size, leverage, hheld, hlevels⟩ := h hside
    have hbounded : Bounded e.position e.is_dynamic ↔
        (Percentages e.position →
          InBounds e.position.side size e.position.tp_pct e.position.sl_pct) ∧
        (¬ Percentages e.position →
          e.is_dynamic ∨ size = 0 ∨ e.position.side = .SHORT ∧ 0 < size) := by
      simp only [Bounded, hheld.size_usdt, Option.some.injEq]
      constructor
      · exact fun h => h hside size rfl
      · rintro h - _ rfl
        exact h
    rw [hbounded]
    rcases hlevels with hpct | ⟨dist, hstored⟩
    · rw [meaningful_of_percentages hheld hpct]
      simp [hpct]
    · rw [meaningful_of_stored hheld hstored]
      simp [not_percentages hstored]

/-- What the supervisor's answer makes of the engine, unless it closes the position. -/
inductive Consulted (e : Engine) : Engine → Prop where
  | keeps : Consulted e e
  | adjusts {entry : ℚ} (hmode : e.is_dynamic) (hentry : e.position.entry_price = some entry) :
      Consulted e
        { e with
          position := update_dynamic_tp_sl e.position (entry - sl_dist e entry 2 * 2)
            (entry + sl_dist e entry 2) }

/-- A verdict has at most refreshed the candles and followed the supervisor, and it acts
at the price of the pass. -/
structure Told (e : Engine) (price : ℚ) (v : Verdict) : Prop where
  engine : ∃ e' candle_cache, Consulted e e' ∧ v.trader.engine = { e' with candle_cache }
  acts_at : ∀ action p reason, v.action = some (action, p, reason) → p = price

theorem told_quiet (t : Trader) (price : ℚ) (loop : Loop) :
    Told t.engine price (.quiet t loop) := by
  refine ⟨⟨t.engine, t.engine.candle_cache, .keeps, rfl⟩, ?_⟩
  intro action p reason h
  cases h

theorem told_close (t : Trader) (price : ℚ) (signal : Option (ℚ × Text)) (reason : Text)
    (loop : Loop) : Told t.engine price ⟨t, signal, some (.CLOSE, price, reason), loop⟩ := by
  refine ⟨⟨t.engine, t.engine.candle_cache, .keeps, rfl⟩, ?_⟩
  intro action p reason' h
  cases h
  rfl

theorem signal_pass_told (env : Env) {e : Engine} (t : Trader) (hconsulted : Consulted e t.engine)
    (tick_count : ℕ) (price : ℚ) (candles : Option (List Candle)) :
    Told e price (signal_pass env t tick_count price candles) := by
  have hpassed := signal_pass_passed env t tick_count price candles
  generalize signal_pass env t tick_count price candles = v at hpassed ⊢
  cases hpassed with
  | rests candle_cache => exact ⟨⟨t.engine, candle_cache, hconsulted, rfl⟩, by simp⟩
  | acts candle_cache =>
      refine ⟨⟨t.engine, candle_cache, hconsulted, rfl⟩, ?_⟩
      intro action p reason h
      cases h
      rfl

theorem run_supervisor_check_told (env : Env) (t : Trader) (tick_count : ℕ) (price : ℚ)
    (input : TickInput) :
    Told t.engine price (run_supervisor_check env t tick_count price input) := by
  unfold run_supervisor_check
  split
  · exact told_quiet ..
  · exact signal_pass_told env t .keeps ..
  · exact told_quiet ..
  · exact told_quiet ..

theorem trading_loop_told (env : Env) (t : Trader) (tick_count : ℕ) {input : TickInput}
    {price : ℚ} (hprice : input.price = some price) :
    Told t.engine price (trading_loop env t tick_count input) := by
  unfold trading_loop
  simp only [hprice]
  generalize append_price t.price_history price = history
  split
  · exact signal_pass_told env { t with price_history := history } .keeps ..
  · split
    · exact told_quiet { t with price_history := history } ..
    · exact told_close { t with price_history := history } ..
    · split
      · exact run_supervisor_check_told env
          { t with price_history := history, last_supervisor_time := input.now } ..
      · exact signal_pass_told env { t with price_history := history } .keeps ..

theorem apply_supervisor_consulted (e : Engine) (price : ℚ) {resp : SupervisorResponse}
    (h : resp.action ≠ .CLOSE) : Consulted e (apply_supervisor_response e price resp).engine := by
  unfold apply_supervisor_response
  split
  · exact absurd (by assumption) h
  · split_ifs with hmode
    · split
      · exact .keeps
      · rename_i entry hentry
        rw [compute_dynamic_tp_sl_member]
        exact .adjusts hmode hentry
    · exact .keeps
  · exact .keeps

theorem supervisor_pass_told (env : Env) (t : Trader) (tick_count : ℕ) (price : ℚ)
    (resp : SupervisorResponse) (candles : Option (List Candle)) :
    Told t.engine price (supervisor_pass env t tick_count price resp candles) := by
  unfold supervisor_pass
  split
  · exact told_close ..
  · rename_i hclose
    have hconsulted := @apply_supervisor_consulted t.engine price resp hclose
    dsimp only
    split_ifs
    · refine ⟨⟨_, _, hconsulted, rfl⟩, ?_⟩
      intro action p reason h
      cases h
    · exact signal_pass_told env { t with engine := _ } hconsulted ..

def opening_side : Action → PositionSide
  | .OPEN_LONG => .LONG
  | .OPEN_SHORT => .SHORT
  | _ => .FLAT

/-- The position that the execution of an action leaves. -/
inductive Moved (e : Engine) (action : Action) (price : ℚ) : PaperPosition → Prop where
  | stays (hopens : ¬ Action.opens action) : Moved e action price e.position
  | closes (hopens : ¬ Action.opens action) : Moved e action price flat
  | opens (hopens : Action.opens action) (hmode : ¬ e.is_dynamic) :
      Moved e action price
        (opened (opening_side action) price e.amount_usdt e.leverage e.tp_pct e.sl_pct none none)
  | opens_dynamic (hopens : Action.opens action) (hmode : e.is_dynamic) :
      Moved e action price
        (opened (opening_side action) price e.amount_usdt e.leverage e.tp_pct e.sl_pct
          (some (price - sl_dist e price 2 * 2)) (some (price + sl_dist e price 2)))

theorem execute_action_moved (e : Engine) (action : Action) (price : ℚ) (reason : Text) :
    Moved e action price (execute_action e action price reason).engine.position ∧
      (execute_action e action price reason).engine.tp_sl_mode = e.tp_sl_mode ∧
      (execute_action e action price reason).engine.leverage = e.leverage := by
  have hopen : ∀ side name action_name, Action.opens action → opening_side action = side →
      Moved e action price
        (execute_open { e with last_action := some action, last_reason := some reason } side name
          action_name price reason).engine.position := by
    rintro side name action_name hopens rfl
    have hiff : Engine.is_dynamic
      { e with last_action := some action, last_reason := some reason } ↔ e.is_dynamic := Iff.rfl
    by_cases hmode : e.is_dynamic
    · simp only [execute_open, if_pos (hiff.mpr hmode), compute_dynamic_tp_sl_member]
      exact .opens_dynamic hopens hmode
    · simp only [execute_open, if_neg (hiff.not.mpr hmode)]
      exact .opens hopens hmode
  cases action with
  | OPEN_LONG => exact ⟨hopen _ _ _ trivial rfl, rfl, rfl⟩
  | OPEN_SHORT => exact ⟨hopen _ _ _ trivial rfl, rfl, rfl⟩
  | HOLD => exact ⟨.stays id, rfl, rfl⟩
  | CLOSE =>
      rw [execute_action]
      unfold execute_close
      split
      · exact ⟨.stays id, rfl, rfl⟩
      · split
        · exact ⟨.stays id, rfl, rfl⟩
        · exact ⟨.closes id, rfl, rfl⟩

theorem solid_flat : Solid flat := fun h => absurd rfl h

theorem Consulted.solid {e e' : Engine} (h : Consulted e e') (hs : Solid e.position) :
    Solid e'.position := by
  cases h with
  | keeps => exact hs
  | adjusts hmode hentry =>
      rename_i entry
      intro hside
      obtain ⟨entry', size, leverage, hheld, -⟩ := hs hside
      obtain rfl : entry' = entry := by
        rw [hheld.entry_price] at hentry
        exact Option.some.inj hentry
      exact ⟨entry', size, leverage, ⟨hside, hentry, hheld.entry_pos, hheld.size_usdt,
        hheld.leverage_pos, hheld.leverage⟩, .inr ⟨_, hside, hentry, hheld.entry_pos,
        sl_dist_pos e hheld.entry_pos (by norm_num), rfl, rfl⟩⟩

theorem Consulted.bounded {e e' : Engine} (h : Consulted e e') {dynamic : Prop}
    (hmode : e.is_dynamic → dynamic) (hb : Bounded e.position dynamic) :
    Bounded e'.position dynamic := by
  cases h with
  | keeps => exact hb
  | adjusts hdynamic hentry =>
      intro hside size hsize
      refine ⟨?_, fun _ => .inl (hmode hdynamic)⟩
      rintro (hnone | hnone)
      · cases hnone
      · cases hnone

theorem Consulted.terms {e e' : Engine} (h : Consulted e e') :
    e'.tp_sl_mode = e.tp_sl_mode ∧ e'.leverage = e.leverage ∧ e'.amount_usdt = e.amount_usdt ∧
      e'.tp_pct = e.tp_pct ∧ e'.sl_pct = e.sl_pct := by
  cases h with
  | keeps => exact ⟨rfl, rfl, rfl, rfl, rfl⟩
  | adjusts => exact ⟨rfl, rfl, rfl, rfl, rfl⟩

theorem opening_side_ne {action : Action} (h : Action.opens action) :
    opening_side action ≠ .FLAT := by
  cases action with
  | OPEN_LONG => simp [opening_side]
  | OPEN_SHORT => simp [opening_side]
  | HOLD => exact h.elim
  | CLOSE => exact h.elim

theorem Moved.solid {e : Engine} {action : Action} {price : ℚ} {p : PaperPosition}
    (h : Moved e action price p) (hs : Solid e.position) (hprice : Action.opens action → 0 < price)
    (hamount : e.amount_usdt.isSome) {leverage : ℤ} (hleverage : e.leverage = some leverage)
    (hpos : 1 ≤ leverage) : Solid p := by
  obtain ⟨amount, hamount⟩ := Option.isSome_iff_exists.mp hamount
  cases h with
  | stays => exact hs
  | closes => exact solid_flat
  | opens hopens hmode =>
      intro hside
      exact ⟨price, amount, leverage, ⟨hside, rfl, hprice hopens, hamount, hpos, hleverage⟩,
        .inl (.inl rfl)⟩
  | opens_dynamic hopens hmode =>
      intro hside
      exact ⟨price, amount, leverage, ⟨hside, rfl, hprice hopens, hamount, hpos, hleverage⟩,
        .inr ⟨_, hside, rfl, hprice hopens, sl_dist_pos e (hprice hopens) (by norm_num), rfl, rfl⟩⟩

theorem Moved.bounded_iff {e : Engine} {action : Action} {price : ℚ} {p : PaperPosition}
    (h : Moved e action price p) {dynamic : Prop} (hmode : e.is_dynamic → dynamic)
    (hb : Bounded e.position dynamic) :
    Bounded p dynamic ↔ (Action.opens action → ¬ e.is_dynamic → ∀ amount,
      e.amount_usdt = some amount → InBounds (opening_side action) amount e.tp_pct e.sl_pct) := by
  cases h with
  | stays hopens => exact ⟨fun _ h => absurd h hopens, fun _ => hb⟩
  | closes hopens => exact ⟨fun _ h => absurd h hopens, fun _ h => absurd rfl h⟩
  | opens hopens hfixed =>
      constructor
      · intro hbounded _ _ amount hamount
        exact (hbounded (opening_side_ne hopens) amount hamount).1 (.inl rfl)
      · intro hin _ amount hamount
        exact ⟨fun _ => hin hopens hfixed amount hamount, fun h => absurd (.inl rfl) h⟩
  | opens_dynamic hopens hdynamic =>
      refine ⟨fun _ _ h => absurd hdynamic h, fun _ _ amount _ => ⟨?_, fun _ =>
        .inl (hmode hdynamic)⟩⟩
      rintro (hnone | hnone)
      · cases hnone
      · cases hnone

/-- The bounds of the schema. -/
structure StartInSchema (r : StartRequest) : Prop where
  amount_usdt : 0 < r.amount_usdt
  leverage : 1 ≤ r.leverage ∧ r.leverage ≤ 125
  tp_pct : ∀ x ∈ r.tp_pct, 0 ≤ x ∧ x ≤ 1
  sl_pct : ∀ x ∈ r.sl_pct, 0 ≤ x ∧ x ≤ 1
  tp_sl_mode : r.tp_sl_mode = "fixed".toList ∨ r.tp_sl_mode = "dynamic".toList
  supervisor_interval_seconds :
    30 ≤ r.supervisor_interval_seconds ∧ r.supervisor_interval_seconds ≤ 300

structure PlanInSchema (plan : StrategyPlan) : Prop where
  lookback : 1 ≤ plan.lookback
  max_loss_pct : 0 ≤ plan.max_loss_pct ∧ plan.max_loss_pct ≤ 1

def Accepted : Event → Prop
  | .start request answers => StartInSchema request ∧ PlanInSchema answers.strategy_plan
  | .tick input => ∀ price ∈ input.price, 0 < price
  | _ => True

/-- A position is opened with an amount and percentages in bounds, and a start or an
update leaves an open one within them. -/
def KeepsBounds (env : Env) (s : State) : Event → Prop
  | .start request answers =>
      s.trader.running = false → answers.initial_price.isSome →
        Bounded s.trader.position
          (lower (if request.tp_sl_mode = [] then "fixed".toList else request.tp_sl_mode) =
            "dynamic".toList)
  | .config request =>
      s.trader.running = true →
        Bounded (update_position s.trader.position request)
          (request.tp_sl_mode.getD s.trader.engine.tp_sl_mode = "dynamic".toList)
  | e =>
      ∀ v action price reason, verdict env s e = some v →
        v.action = some (action, price, reason) → Action.opens action →
          ¬ s.trader.engine.is_dynamic → ∀ amount, s.trader.engine.amount_usdt = some amount →
            InBounds (opening_side action) amount s.trader.engine.tp_pct s.trader.engine.sl_pct

structure Sound (s : State) : Prop where
  machine : Invariant s
  solid : Solid s.trader.position
  leverage : s.loop ≠ .absent → ∃ leverage, s.trader.engine.leverage = some leverage ∧ 1 ≤ leverage

def BoundedState (s : State) : Prop :=
  Bounded s.trader.position (s.trader.running = true → s.trader.engine.is_dynamic)

theorem Bounded.mono {p : PaperPosition} {dynamic dynamic' : Prop} (h : Bounded p dynamic)
    (hmode : dynamic → dynamic') : Bounded p dynamic' := by
  intro hside size hsize
  obtain ⟨hpct, hstored⟩ := h hside size hsize
  exact ⟨hpct, fun hnot => (hstored hnot).imp_left hmode⟩

theorem bounded_flat (dynamic : Prop) : Bounded flat dynamic := fun h => absurd rfl h

theorem verdict_told {env : Env} {s : State} {e : Event} {v : Verdict} (hs : Invariant s)
    (he : Accepted e) (hverdict : verdict env s e = some v) :
    ∃ price, Told s.trader.engine price v ∧ ∀ action p reason,
      v.action = some (action, p, reason) → Action.opens action → 0 < price := by
  cases judged_of_verdict hverdict with
  | @tick tick_count input =>
      cases hprice : input.price with
      | none =>
          have hquiet : trading_loop env s.trader (tick_count + 1) input =
              .quiet s.trader (.top (tick_count + 1)) := by
            simp only [trading_loop, hprice]
          rw [hquiet]
          refine ⟨1, told_quiet s.trader .., ?_⟩
          intro action p reason h
          cases h
      | some price =>
          exact ⟨price, trading_loop_told env s.trader _ hprice, fun _ _ _ _ _ => he price hprice⟩
  | @answer _ price _ _ hloop =>
      refine ⟨price, supervisor_pass_told env s.trader .., ?_⟩
      intro action p reason haction hopens
      exact absurd ((supervisor_pass_decided ..).opens action p reason haction hopens)
        (hs.waits _ _ _ hloop)

/-- The loop moves the position and keeps the terms on which it was opened. -/
theorem enacted_moved {e : Engine} {price : ℚ} {v : Verdict} (h : Told e price v) :
    ∃ e', Consulted e e' ∧ (enacted v).engine.tp_sl_mode = e.tp_sl_mode ∧
      (enacted v).engine.leverage = e.leverage ∧
      ((v.action = none ∧ (enacted v).position = e'.position) ∨
        ∃ action reason e'', v.action = some (action, price, reason) ∧
          (∃ candle_cache, e'' = { e' with candle_cache }) ∧
          Moved e'' action price (enacted v).position) := by
  obtain ⟨e', candle_cache, hconsulted, hengine⟩ := h.engine
  obtain ⟨hmode, hleverage, -⟩ := hconsulted.terms
  refine ⟨e', hconsulted, ?_⟩
  cases haction : v.action with
  | none =>
      have henacted : enacted v = v.trader := by rw [enacted, haction]
      rw [henacted, Trader.position, hengine]
      exact ⟨hmode, hleverage, .inl ⟨rfl, rfl⟩⟩
  | some told =>
      obtain ⟨action, p, reason⟩ := told
      obtain rfl := h.acts_at action p reason haction
      obtain ⟨hmoved, hmode', hleverage'⟩ := execute_action_moved v.trader.engine action p reason
      have henacted : enacted v = { v.trader with
          engine := (execute_action v.trader.engine action p reason).engine } := by
        rw [enacted, haction]
      rw [henacted, Trader.position]
      refine ⟨?_, ?_, .inr ⟨action, reason, v.trader.engine, rfl, ⟨candle_cache, hengine⟩, hmoved⟩⟩
      · rw [hmode', hengine]
        exact hmode
      · rw [hleverage', hengine]
        exact hleverage

theorem enact_solid {s : State} {price : ℚ} {v : Verdict} (hs : Sound s) (hloop : s.loop ≠ .absent)
    (h : Told s.trader.engine price v)
    (hprice : ∀ action p reason, v.action = some (action, p, reason) → Action.opens action →
      0 < price) : Solid (enacted v).position := by
  obtain ⟨e', hconsulted, -, -, hquiet | ⟨action, reason, e'', haction, ⟨cache, rfl⟩, hmoved⟩⟩ :=
    enacted_moved h
  · rw [hquiet.2]
    exact hconsulted.solid hs.solid
  · obtain ⟨leverage, hleverage, hpos⟩ := hs.leverage hloop
    obtain ⟨-, hsame, hamount, -⟩ := hconsulted.terms
    refine hmoved.solid (hconsulted.solid hs.solid) (hprice action price reason haction) ?_
      (hsame.trans hleverage) hpos
    change e'.amount_usdt.isSome = true
    rw [hamount]
    exact (hs.machine.stake hloop).1

/-- What the loop leaves is in bounds exactly if what it opens is. -/
theorem enact_bounded_iff {s : State} {price : ℚ} {v : Verdict} {dynamic : Prop}
    (hmode : s.trader.engine.is_dynamic → dynamic) (hb : Bounded s.trader.position dynamic)
    (h : Told s.trader.engine price v) :
    Bounded (enacted v).position dynamic ↔ ∀ action p reason,
      v.action = some (action, p, reason) → Action.opens action →
        ¬ s.trader.engine.is_dynamic → ∀ amount, s.trader.engine.amount_usdt = some amount →
          InBounds (opening_side action) amount s.trader.engine.tp_pct
            s.trader.engine.sl_pct := by
  obtain ⟨e', hconsulted, -, -, hquiet | ⟨action, reason, e'', haction, ⟨cache, rfl⟩, hmoved⟩⟩ :=
    enacted_moved h
  · rw [hquiet.2]
    refine ⟨?_, fun _ => hconsulted.bounded hmode hb⟩
    intro _ action p reason haction
    rw [hquiet.1] at haction
    cases haction
  · obtain ⟨hsame, -, hamount, htp, hsl⟩ := hconsulted.terms
    have hdynamic : Engine.is_dynamic { e' with candle_cache := cache } ↔
        s.trader.engine.is_dynamic := by
      rw [Engine.is_dynamic, Engine.is_dynamic]
      exact hsame ▸ Iff.rfl
    rw [hmoved.bounded_iff (fun hd => hmode (hdynamic.mp hd)) (hconsulted.bounded hmode hb),
      hdynamic]
    dsimp only
    rw [hamount, htp, hsl]
    constructor
    · intro hin action' p reason' haction'
      rw [haction, Option.some.injEq, Prod.mk.injEq, Prod.mk.injEq] at haction'
      obtain ⟨rfl, -, -⟩ := haction'
      exact hin
    · intro hin
      exact hin action price reason haction

theorem start_terms (t : Trader) (r : StartRequest) (a : StartAnswers) :
    (start t r a).1.engine.tp_sl_mode =
        lower (if r.tp_sl_mode = [] then "fixed".toList else r.tp_sl_mode) ∧
      (start t r a).1.running = (a.initial_price.isSome || t.running) := by
  have hrunning : (select_executor t r.live_mode a.hashkey_key).running = t.running := by
    unfold select_executor
    dsimp only
    split_ifs
    · rfl
    · rfl
    · rfl
  unfold start
  dsimp only
  split
  · rename_i hprice
    rw [hprice]
    exact ⟨rfl, hrunning⟩
  · rename_i price hprice
    rw [hprice]
    unfold refresh_candles
    split
    · exact ⟨rfl, rfl⟩
    · exact ⟨rfl, rfl⟩

theorem update_solid {p : PaperPosition} (hs : Solid p) (r : ConfigUpdateRequest) :
    Solid (update_position p r) := by
  unfold update_position
  split_ifs with hside
  · exact hs
  · intro _
    obtain ⟨entry, size, leverage, hheld, hlevels⟩ := hs hside
    refine ⟨entry, size, leverage, ⟨hside, hheld.entry_price, hheld.entry_pos, hheld.size_usdt,
      hheld.leverage_pos, hheld.leverage⟩, ?_⟩
    rcases hlevels with hpct | ⟨dist, hstored⟩
    · exact .inl hpct
    · exact .inr ⟨dist, hside, hstored.entry_price, hstored.entry_pos, hstored.dist_pos,
        hstored.tp_price, hstored.sl_price⟩

theorem finish_stop_position (t : Trader) (close_position : Bool) (final_price : Option ℚ) :
    (finish_stop t close_position final_price).1.running = t.running ∧
      (finish_stop t close_position final_price).1.engine.tp_sl_mode = t.engine.tp_sl_mode ∧
      ((finish_stop t close_position final_price).1.position = t.position ∨
        (finish_stop t close_position final_price).1.position = flat) := by
  unfold finish_stop
  cases closes_on_stop t close_position final_price with
  | false => exact ⟨rfl, rfl, .inl rfl⟩
  | true => exact ⟨rfl, rfl, .inr rfl⟩

theorem enact_sound {env : Env} {s : State} {e : Event} {v : Verdict} (hs : Sound s)
    (he : Accepted e) (hverdict : verdict env s e = some v) (hloop : s.loop ≠ .absent) :
    Sound (s.enact v) := by
  obtain ⟨price, htold, hprice⟩ := verdict_told hs.machine he hverdict
  obtain ⟨-, -, -, hleverage, -⟩ := enacted_moved htold
  refine ⟨(verdict_invariant hs.machine hverdict hloop).1, ?_, fun _ => ?_⟩
  · rw [(enact_trader s v).1]
    exact enact_solid hs hloop htold hprice
  · rw [(enact_trader s v).1, hleverage]
    exact hs.leverage hloop

theorem Sound.of_same {s s' : State} (hs : Sound s) (hmachine : Invariant s')
    (hposition : s'.trader.position = s.trader.position)
    (hengine : s'.trader.engine = s.trader.engine)
    (hloop : s'.loop ≠ .absent → s.loop ≠ .absent) : Sound s' where
  machine := hmachine
  solid := hposition ▸ hs.solid
  leverage := fun h => hengine ▸ hs.leverage (hloop h)

theorem start_sound {s : State} (hs : Sound s) {request : StartRequest} {answers : StartAnswers}
    (he : StartInSchema request) : Sound (s.start request answers) := by
  refine ⟨start_invariant hs.machine request answers, ?_, fun _ => ?_⟩
  · rw [start_position]
    exact hs.solid
  · rw [start_trader, (start_stake s.trader request answers).2]
    exact ⟨request.leverage, rfl, he.leverage.1⟩

theorem finish_solid {s : State} (hs : Solid s.trader.position) (close_position : Bool)
    (final_price : Option ℚ) : Solid (s.finish close_position final_price).trader.position := by
  change Solid (finish_stop s.trader close_position final_price).1.position
  rcases (finish_stop_position s.trader close_position final_price).2.2 with hsame | hflat
  · rw [hsame]
    exact hs
  · rw [hflat]
    exact solid_flat

theorem sound_step {env : Env} {s s' : State} {e : Event} (hs : Sound s) (he : Accepted e)
    (h : step env s e = some s') : Sound s' := by
  have hmachine := (step_invariant hs.machine h).1
  cases step_transition h with
  | enact hverdict hloop => exact enact_sound hs he hverdict hloop
  | start => exact start_sound hs he.1
  | start_again => exact hs.of_same hmachine rfl rfl id
  | config => exact ⟨hmachine, update_solid hs.solid _, hs.leverage⟩
  | config_idle => exact hs.of_same hmachine rfl rfl id
  | stop => exact hs.of_same hmachine rfl rfl id
  | stop_idle => exact hs.of_same hmachine rfl rfl id
  | finish => exact ⟨hmachine, finish_solid hs.solid _ _, fun h => absurd rfl h⟩

/-- What a step does to the bounds of the position. -/
structure Bounds (env : Env) (s : State) (e : Event) (s' : State) : Prop where
  solid : Solid s'.trader.position
  leverage : s'.loop ≠ .absent →
    ∃ leverage, s'.trader.engine.leverage = some leverage ∧ 1 ≤ leverage
  bounded_iff : KeepsBounds env s e ↔ BoundedState s'
  stopped : s'.trader.running = false → KeepsBounds env s e

theorem verdict_bounds {env : Env} {s : State} {e : Event} {v : Verdict} (hs : Sound s)
    (hb : BoundedState s) (he : Accepted e) (hverdict : verdict env s e = some v)
    (hloop : s.loop ≠ .absent)
    (htop : ∀ tick_count, s.loop = .top tick_count → s.trader.running = true) :
    Bounds env s e (s.enact v) := by
  have hsound := enact_sound hs he hverdict hloop
  have hdecided := verdict_decided hverdict
  obtain ⟨price, htold, -⟩ := verdict_told hs.machine he hverdict
  obtain ⟨-, -, hmode, -, -⟩ := enacted_moved htold
  have hrunning : (enacted v).running = s.trader.running :=
    (enacted_running v).trans hdecided.running
  have hdynamic : (enacted v).engine.is_dynamic ↔ s.trader.engine.is_dynamic := by
    rw [Engine.is_dynamic, Engine.is_dynamic, hmode]
  have hkeeps : KeepsBounds env s e ↔ ∀ action p reason,
      v.action = some (action, p, reason) → Action.opens action →
        ¬ s.trader.engine.is_dynamic → ∀ amount, s.trader.engine.amount_usdt = some amount →
          InBounds (opening_side action) amount s.trader.engine.tp_pct
            s.trader.engine.sl_pct := by
    have hunfold : KeepsBounds env s e ↔ ∀ v action p reason, verdict env s e = some v →
        v.action = some (action, p, reason) → Action.opens action →
          ¬ s.trader.engine.is_dynamic → ∀ amount, s.trader.engine.amount_usdt = some amount →
            InBounds (opening_side action) amount s.trader.engine.tp_pct
              s.trader.engine.sl_pct := by
      cases e with
      | start request answers => cases hverdict
      | config request => cases hverdict
      | _ => exact Iff.rfl
    rw [hunfold]
    constructor
    · intro hall action p reason haction
      exact hall v action p reason hverdict haction
    · intro hall v' action p reason hv'
      rw [hverdict] at hv'
      cases hv'
      exact hall action p reason
  refine ⟨hsound.solid, hsound.leverage, ?_, ?_⟩
  · rw [hkeeps, BoundedState, (enact_trader s v).1, hrunning, hdynamic]
    exact (enact_bounded_iff (fun hd _ => hd) hb htold).symm
  · intro hstopped
    rw [(enact_trader s v).1, hrunning] at hstopped
    rw [hkeeps]
    intro action p reason haction hopens
    -- only a pass that waited for the supervisor goes on when the engine has stopped
    have hside := hdecided.opens action p reason haction hopens
    cases judged_of_verdict hverdict with
    | tick input htick => exact absurd (htop _ htick) (by simp [hstopped])
    | answer input hchecking => exact absurd hside (hs.machine.waits _ _ _ hchecking)

theorem bounds_of_same {env : Env} {s s' : State} {e : Event} (hs : Sound s)
    (hb : BoundedState s) (hposition : s'.trader.position = s.trader.position)
    (hengine : s'.trader.engine = s.trader.engine)
    (hrunning : s'.trader.running = true → s.trader.running = true)
    (hloop : s'.loop ≠ .absent → s.loop ≠ .absent) (hkeeps : KeepsBounds env s e) :
    Bounds env s e s' where
  solid := hposition ▸ hs.solid
  leverage := fun h => hengine ▸ hs.leverage (hloop h)
  bounded_iff := by
    refine ⟨fun _ => ?_, fun _ => hkeeps⟩
    rw [BoundedState, hposition, hengine]
    exact Bounded.mono hb fun h hrun => h (hrunning hrun)
  stopped := fun _ => hkeeps

theorem Bounded.congr {p : PaperPosition} {dynamic dynamic' : Prop}
    (hmode : dynamic ↔ dynamic') : Bounded p dynamic ↔ Bounded p dynamic' :=
  ⟨fun h => h.mono hmode.mp, fun h => h.mono hmode.mpr⟩

theorem start_bounds {env : Env} {s : State} (hs : Sound s) (hb : BoundedState s)
    {request : StartRequest} {answers : StartAnswers} (he : StartInSchema request)
    (hrunning : s.trader.running = false) :
    Bounds env s (.start request answers) (s.start request answers) := by
  have hposition := start_position s request answers
  obtain ⟨hmode, hstarted⟩ := start_terms s.trader request answers
  have hbounded : BoundedState (s.start request answers) ↔ Bounded s.trader.position
      (answers.initial_price.isSome = true →
        lower (if request.tp_sl_mode = [] then "fixed".toList else request.tp_sl_mode) =
          "dynamic".toList) := by
    rw [BoundedState, hposition, Engine.is_dynamic, start_trader, hmode, hstarted, hrunning,
      Bool.or_false]
  have hsound : Sound (s.start request answers) := start_sound hs he
  refine ⟨hsound.solid, hsound.leverage, ?_, ?_⟩
  · rw [hbounded, KeepsBounds]
    cases hprice : answers.initial_price with
    | none =>
        refine ⟨fun _ => Bounded.mono hb fun _ h => ?_, fun _ _ h => ?_⟩
        · cases h
        · cases h
    | some price =>
        simp only [hrunning, Option.isSome_some, forall_const]
  · intro hstopped _ hprice
    rw [start_trader, hstarted, hprice] at hstopped
    cases hstopped

theorem update_bounds {env : Env} {s : State} (hs : Sound s) {request : ConfigUpdateRequest}
    (hrunning : s.trader.running = true) :
    Bounds env s (.config request) (s.record (update_config s.trader request)
      (idle_slice (update_config s.trader request))) where
  solid := update_solid hs.solid request
  leverage := hs.leverage
  bounded_iff := by
    rw [KeepsBounds, BoundedState]
    have hmode : (update_config s.trader request).engine.is_dynamic ↔
        request.tp_sl_mode.getD s.trader.engine.tp_sl_mode = "dynamic".toList := Iff.rfl
    have hsame : (update_config s.trader request).running = true := hrunning
    simp only [record_trader, hsame, hrunning, forall_const, hmode]
    exact Iff.rfl
  stopped := by
    intro hstopped
    rw [record_trader] at hstopped
    exact absurd (hstopped.symm.trans hrunning) (by simp)

theorem finish_bounds {env : Env} {s : State} (hs : Sound s) (hb : BoundedState s)
    (close_position : Bool) (final_price : Option ℚ) :
    Bounds env s (.finish final_price) (s.finish close_position final_price) := by
  have hkeeps : KeepsBounds env s (.finish final_price) := by
    intro v action p reason hv
    cases hv
  obtain ⟨hrunning, hmode, hposition⟩ :=
    finish_stop_position s.trader close_position final_price
  refine ⟨finish_solid hs.solid close_position final_price, fun h => absurd rfl h,
    ⟨fun _ => ?_, fun _ => hkeeps⟩, fun _ => hkeeps⟩
  change Bounded (finish_stop s.trader close_position final_price).1.position
    ((finish_stop s.trader close_position final_price).1.running = true →
      (finish_stop s.trader close_position final_price).1.engine.tp_sl_mode = "dynamic".toList)
  rw [hrunning, hmode]
  rcases hposition with hsame | hflat
  · rw [hsame]
    exact hb
  · rw [hflat]
    exact bounded_flat _

theorem step_bounds {env : Env} {s s' : State} {e : Event} (hs : Sound s) (hb : BoundedState s)
    (he : Accepted e) (h : step env s e = some s') : Bounds env s e s' := by
  have hkeeps : ∀ close_position, KeepsBounds env s (.stop close_position) := by
    intro close_position v action p reason hv
    cases hv
  cases step_transition h with
  | enact hverdict hloop htop => exact verdict_bounds hs hb he hverdict hloop htop
  | start hrunning => exact start_bounds hs hb he.1 hrunning
  | start_again hrunning =>
      exact bounds_of_same hs hb rfl rfl id id fun hstopped => absurd hrunning (by simp [hstopped])
  | config hrunning => exact update_bounds hs hrunning
  | config_idle hrunning =>
      exact bounds_of_same hs hb rfl rfl id id fun h => absurd h (by simp [hrunning])
  | @stop close_position =>
      refine bounds_of_same hs hb rfl rfl (fun h => ?_) id (hkeeps close_position)
      cases h
  | @stop_idle close_position => exact bounds_of_same hs hb rfl rfl id id (hkeeps close_position)
  | @finish final_price close_position => exact finish_bounds hs hb close_position final_price

theorem Bounds.sound {env : Env} {s s' : State} {e : Event} (h : Bounds env s e s')
    (hs : Sound s) (hstep : step env s e = some s') : Sound s' :=
  ⟨(step_invariant hs.machine hstep).1, h.solid, h.leverage⟩

theorem meaningful_iff_boundedState {s : State} (hs : Solid s.trader.position)
    (hrunning : s.trader.running = true) : Meaningful s.trader.engine ↔ BoundedState s := by
  rw [meaningful_iff_bounded hs, BoundedState]
  exact Bounded.congr ⟨fun h _ => h, fun h => h hrunning⟩

theorem Bounds.meaningful_iff {env : Env} {s s' : State} {e : Event} (h : Bounds env s e s') :
    KeepsBounds env s e ↔ (s'.trader.running = true → Meaningful s'.trader.engine) := by
  cases hrunning : s'.trader.running with
  | false =>
      refine ⟨fun _ h => ?_, fun _ => h.stopped hrunning⟩
      cases h
  | true =>
      rw [h.bounded_iff, meaningful_iff_boundedState h.solid hrunning]
      exact ⟨fun h _ => h, fun h => h rfl⟩

theorem initial_sound (agent_id : Text) :
    Sound (initial agent_id) ∧ BoundedState (initial agent_id) :=
  ⟨⟨initial_invariant agent_id, solid_flat, fun h => absurd rfl h⟩, bounded_flat _⟩

/-- While the engine runs, its levels keep their meaning at every positive price if and
only if no step leaves the bounds. -/
theorem levels_meaningful_iff {env : Env} {agent_id : Text} {es : List Event} {s : State}
    (hrun : run (step env) (initial agent_id) es = some s) (haccepted : ∀ e ∈ es, Accepted e) :
    (∀ m later, Passes (step env) (initial agent_id) es m later →
      m.trader.running = true → Meaningful m.trader.engine) ↔
    AllSteps (step env) (KeepsBounds env) (initial agent_id) es := by
  symm
  apply allSteps_iff_passes_of_allSteps (P := fun s => Sound s ∧ BoundedState s)
    (D := fun _ e => Accepted e) _ _ _ hrun (allSteps_of_forall_mem haccepted _)
    (initial_sound agent_id)
  · rintro s e s' ⟨hs, hb⟩ he hkeeps h
    have hbounds := step_bounds hs hb he h
    exact ⟨hbounds.sound hs h, hbounds.bounded_iff.mp hkeeps⟩
  · rintro s e s' ⟨hs, hb⟩ he h
    exact (step_bounds hs hb he h).meaningful_iff
  · rintro s ⟨hs, hb⟩ hrunning
    exact (meaningful_iff_boundedState hs.solid hrunning).mpr hb

/-- The third tick opens a long position, with what the update has made of the start. -/
def updated_session (request : ConfigUpdateRequest) : List Event :=
  [.start (demo_request false) (demo_answers false), .config request, .tick demo_tick,
    .tick demo_tick, .tick demo_tick]

def no_update : ConfigUpdateRequest where
  amount_usdt := none
  tp_pct := none
  sl_pct := none
  tp_sl_mode := none
  supervisor_interval_seconds := none

theorem demo_start_accepted :
    Accepted (.start (demo_request false) (demo_answers false)) ∧ Accepted (.tick demo_tick) := by
  have hrequest : StartInSchema (demo_request false) := by
    refine ⟨?_, by decide, ?_, ?_, .inl rfl, ?_⟩
    · change (0 : ℚ) < 100
      norm_num
    · intro x hx
      cases hx
      norm_num
    · intro x hx
      cases hx
      norm_num
    · change (30 : ℚ) ≤ 60 ∧ (60 : ℚ) ≤ 300
      norm_num
  have hplan : PlanInSchema (demo_answers false).strategy_plan := by
    refine ⟨by decide, ?_⟩
    change (0 : ℚ) ≤ 1 / 50 ∧ (1 / 50 : ℚ) ≤ 1
    norm_num
  refine ⟨⟨hrequest, hplan⟩, ?_⟩
  intro price hprice
  cases hprice
  norm_num

theorem updated_session_accepted (request : ConfigUpdateRequest) :
    ∀ e ∈ updated_session request, Accepted e := by
  obtain ⟨hstart, htick⟩ := demo_start_accepted
  intro e he
  simp only [updated_session, List.mem_cons, List.not_mem_nil, or_false] at he
  rcases he with rfl | rfl | rfl | rfl | rfl
  · exact hstart
  · trivial
  · exact htick
  · exact htick
  · exact htick

theorem levels_meaningful_doubled :
    ∃ s, run (step demo_env) (initial [])
        (updated_session { no_update with amount_usdt := some 200 }) = some s ∧
      ((∀ m later, Passes (step demo_env) (initial [])
          (updated_session { no_update with amount_usdt := some 200 }) m later →
          m.trader.running = true → Meaningful m.trader.engine) ↔
        AllSteps (step demo_env) (KeepsBounds demo_env) (initial [])
          (updated_session { no_update with amount_usdt := some 200 })) := by
  obtain ⟨s, hrun⟩ : ∃ s, run (step demo_env) (initial [])
      (updated_session { no_update with amount_usdt := some 200 }) = some s :=
    Option.isSome_iff_exists.mp (by decide +kernel)
  exact ⟨s, hrun, levels_meaningful_iff hrun (updated_session_accepted _)⟩

/-- An update to an amount of zero is accepted, and the position opened with it has levels
that cannot be checked at any price. -/
theorem zero_amount_unchecked :
    ¬ ∀ (env : Env) (agent_id : Text) (es : List Event) (s : State),
      run (step env) (initial agent_id) es = some s → (∀ e ∈ es, Accepted e) →
      ∀ m later, Passes (step env) (initial agent_id) es m later →
        m.trader.running = true → Meaningful m.trader.engine := by
  intro h
  have hend : (run (step demo_env) (initial [])
      (updated_session { no_update with amount_usdt := some 0 })).map (fun s =>
        (s.trader.running, s.trader.position)) =
      some (true, opened .LONG 100 (some 0) (some 5) (some (1 / 20)) (some (1 / 50)) none none) := by
    decide +kernel
  obtain ⟨s, hrun, heq⟩ := Option.map_eq_some_iff.mp hend
  obtain ⟨hrunning, hposition⟩ := Prod.mk.inj heq
  have hm := h _ _ _ _ hrun (updated_session_accepted _) s [] ⟨_, (List.append_nil _).symm, hrun⟩
    hrunning
  obtain ⟨pnl, trigger, -, hcheck⟩ := hm.computes 1 one_pos
  have hheld : Held s.trader.engine.position 100 0 5 := by
    change Held s.trader.position 100 0 5
    rw [hposition]
    exact ⟨by simp [opened], rfl, by norm_num, rfl, by norm_num, rfl⟩
  refine hheld.check_zero (.inl ?_) 1 trigger hcheck
  exact congrArg (·.tp_price) hposition

end ArticTrader.HotReload
