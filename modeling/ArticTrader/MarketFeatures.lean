import ArticTrader.MarketAnalysis
import ArticTrader.SignalSafety

/-!
When the features of a window of candles can be computed, and what they lie between.
Only the logarithms of the returns can raise: they need closes of one sign.
-/

namespace ArticTrader.MarketFeatures

open ArticTrader.MarketAnalysis
open ArticTrader.MomentumAlgos
open ArticTrader.Numerals
open ArticTrader.PythonSequences
open ArticTrader.ReversionAlgos
open ArticTrader.SignalSafety
open ArticTrader.SignalValues (cast_ne_zero average_eq mean)

/-- What holds of a metric, where there is one. -/
def Known {K : Type} (P : K → Prop) (x : Option K) : Prop := ∀ y ∈ x, P y

theorem known_none {K : Type} (P : K → Prop) : Known P none := nofun

theorem Known.imp {K : Type} {P : K → Prop} {H : Prop} {x : Option K}
    (h : Known (fun y => H → P y) x) (hH : H) : Known P x := fun y hy => h y hy hH

theorem known_some {K : Type} {P : K → Prop} {y : K} (h : P y) : Known P (some y) := by
  intro z hz
  cases hz
  exact h

theorem returns_some {K : Type} {P : K → Prop} {x : Except Raised K} (h : Returns x P) :
    Returns (x >>= fun y => pure (some y)) (Known P) :=
  returns_bind h fun _ hy => returns_ok (known_some hy)

theorem returns_none {K : Type} (P : K → Prop) : Returns (.ok none) (Known P) :=
  returns_ok (known_none P)

theorem Returns.of_eq {α : Type} {x : Except Raised α} {P : α → Prop} {a : α} (h : Returns x P)
    (ha : x = .ok a) : P a := by
  obtain ⟨b, rfl, hb⟩ := h
  cases ha
  exact hb

theorem bind_ok_iff {α β : Type} {x : Except Raised α} {f : α → Except Raised β} {b : β} :
    (x >>= f) = .ok b ↔ ∃ a, x = .ok a ∧ f a = .ok b := by
  cases x with
  | error e =>
      constructor
      · intro h
        cases h
      · rintro ⟨a, h, -⟩
        cases h
  | ok a =>
      constructor
      · intro h
        exact ⟨a, rfl, h⟩
      · rintro ⟨a', ha, h⟩
        cases ha
        exact h

theorem safe_iff {α : Type} {x : Except Raised α} : Safe x ↔ ∃ a, x = .ok a := by
  constructor
  · rintro ⟨a, h, -⟩
    exact ⟨a, h⟩
  · rintro ⟨a, h⟩
    exact ⟨a, h, trivial⟩

theorem safe_of_bind {α β : Type} {x : Except Raised α} {f : α → Except Raised β}
    (h : Safe (x >>= f)) : Safe x := by
  obtain ⟨b, hb⟩ := safe_iff.mp h
  obtain ⟨a, ha, -⟩ := bind_ok_iff.mp hb
  exact safe_iff.mpr ⟨a, ha⟩

/-- A list that is built at all has every element built. -/
theorem safe_of_mapM {α β : Type} {f : α → Except Raised β} {xs : List α}
    (h : Safe (xs.mapM f)) {x : α} (hx : x ∈ xs) : Safe (f x) := by
  induction xs with
  | nil => cases hx
  | cons y ys ih =>
      rw [List.mapM_cons] at h
      rcases List.mem_cons.mp hx with rfl | hmem
      · exact safe_of_bind h
      · obtain ⟨bs, hbs⟩ := safe_iff.mp h
        obtain ⟨b, -, hb⟩ := bind_ok_iff.mp hbs
        exact ih (safe_of_bind (safe_iff.mpr ⟨bs, hb⟩)) hmem

variable {K : Type} [Field K] [LinearOrder K] [IsStrictOrderedRing K]
variable {math : Math K} {candles : List (Candle K)} {xs : List K} {k : ℕ}

theorem mean_nonneg (h : ∀ x ∈ xs, 0 ≤ x) : 0 ≤ mean xs :=
  div_nonneg (List.sum_nonneg h) (Nat.cast_nonneg _)

theorem mean_le_one (h : ∀ x ∈ xs, x ≤ 1) : mean xs ≤ 1 := by
  have hsum := List.sum_le_card_nsmul xs 1 h
  rw [nsmul_eq_mul, mul_one] at hsum
  exact div_le_one_of_le₀ hsum (Nat.cast_nonneg _)

theorem average_square_eq (hne : xs ≠ []) (m : K) :
    average_square xs m = .ok (mean (xs.map fun x => (x - m) ^ 2)) :=
  average_eq (mt List.map_eq_nil_iff.mp hne)

theorem squares_nonneg (xs : List K) (m : K) : 0 ≤ mean (xs.map fun x => (x - m) ^ 2) := by
  apply mean_nonneg
  intro y hy
  obtain ⟨x, -, rfl⟩ := List.mem_map.mp hy
  exact sq_nonneg (x - m)

theorem average_of_returns {P : K → Prop} (h : xs ≠ [] → P (mean xs)) :
    Returns (average_of xs) (Known P) := by
  apply returns_ite
  · intro hempty
    exact returns_none P
  · intro hne
    have hxs : xs ≠ [] := fun heq => hne (List.isEmpty_iff.mpr heq)
    rw [average_eq hxs]
    exact returns_ok (known_some (h hxs))

section Volatility

theorem true_range_nonneg {i : ℤ} (hi : 1 ≤ i) (h : i < candles.length) :
    Returns (true_range candles i) (0 ≤ ·) := by
  apply returns_bind (returns_index (by omega) h)
  intro candle hcandle
  apply returns_bind (returns_index (by omega) (by omega))
  intro previous hprevious
  exact returns_ok (le_max_of_le_right (abs_nonneg _))

theorem atr_returns (candles : List (Candle K)) :
    Returns (atr_metric candles) (Known (0 ≤ ·)) := by
  apply returns_ite
  · intro henough
    apply returns_bind (P := fun trs => ∀ tr ∈ trs, 0 ≤ tr)
    · refine Returns.mono (returns_mapM ?_) fun trs htrs => htrs.2
      intro i hi
      rw [mem_int_range] at hi
      exact true_range_nonneg hi.1 hi.2
    · intro trs htrs
      apply returns_ite
      · intro hempty
        exact returns_none _
      · intro hne
        have hlength : 1 ≤ trs.length := by
          rw [List.isEmpty_iff, ← List.length_eq_zero_iff] at hne
          omega
        have hcount : ((min 14 trs.length : ℕ) : K) ≠ 0 := cast_ne_zero (by omega)
        have hwindow : slice trs (some (-14)) none = trs.rtake 14 := slice_back trs (by decide)
        apply returns_some
        apply Returns.mono (returns_divide hcount)
        rintro atr rfl
        rw [hwindow]
        apply div_nonneg _ (Nat.cast_nonneg _)
        exact List.sum_nonneg fun tr htr => htrs tr (mem_of_mem_rtake htr)
  · intro hfew
    exact returns_none _

/-- The closes are all on the same side of zero. -/
def OneSigned (candles : List (Candle K)) : Prop :=
  (∀ c ∈ candles, 0 < c.close) ∨ ∀ c ∈ candles, c.close < 0

omit [IsStrictOrderedRing K] in
theorem OneSigned.subset {candles' : List (Candle K)} (h : OneSigned candles)
    (hsub : ∀ c ∈ candles', c ∈ candles) : OneSigned candles' := by
  rcases h with hpos | hneg
  · exact .inl fun c hc => hpos c (hsub c hc)
  · exact .inr fun c hc => hneg c (hsub c hc)

omit [IsStrictOrderedRing K] in
theorem logarithm_safe_iff {x : K} : Safe (logarithm math.log x) ↔ 0 < x := by
  rw [logarithm]
  split
  next hle => exact iff_of_false (fun ⟨_, h, _⟩ => by cases h) (not_lt.mpr hle)
  next hlt => exact iff_of_true (safe_ok _) (not_le.mp hlt)

omit [IsStrictOrderedRing K] in
theorem log_return_safe_iff {i : ℕ} (h : i + 1 < candles.length) :
    Safe (log_return math candles ((i + 1 : ℕ) : ℤ)) ↔
      0 < candles[i + 1].close / candles[i].close := by
  have hbefore : ((i + 1 : ℕ) : ℤ) - 1 = i := by omega
  rw [log_return, hbefore, index_nat h, ok_bind, index_nat (Nat.lt_of_succ_lt h), ok_bind]
  by_cases hzero : candles[i].close = 0
  · rw [hzero, div_zero]
    refine iff_of_false ?_ (lt_irrefl 0)
    rintro ⟨r, hr, -⟩
    rw [divide, if_pos rfl] at hr
    cases hr
  · rw [divide_eq hzero, ok_bind, logarithm_safe_iff]

/-- Closes whose quotients are positive are of one sign. -/
theorem oneSigned_iff (h : 2 ≤ candles.length) :
    OneSigned candles ↔ ∀ i (hi : i + 1 < candles.length),
      0 < candles[i + 1].close / candles[i].close := by
  constructor
  · rintro (hpos | hneg) i hi
    · exact div_pos (hpos _ (List.getElem_mem _)) (hpos _ (List.getElem_mem _))
    · exact div_pos_of_neg_of_neg (hneg _ (List.getElem_mem _)) (hneg _ (List.getElem_mem _))
  · intro hquotients
    have hfirst : candles[0].close ≠ 0 := by
      intro hzero
      have hquotient := hquotients 0 h
      rw [hzero, div_zero] at hquotient
      exact lt_irrefl _ hquotient
    have hall : ∀ i (hi : i < candles.length), (0 : K) < candles[i].close / candles[0].close := by
      intro i hi
      induction i with
      | zero =>
          rw [div_self hfirst]
          exact one_pos
      | succ i ih =>
          have hbefore := ih (by omega)
          have hne : candles[i].close ≠ 0 := by
            intro hzero
            rw [hzero, zero_div] at hbefore
            exact lt_irrefl _ hbefore
          have hstep := mul_pos (hquotients i hi) hbefore
          rwa [div_mul_div_cancel₀ hne] at hstep
    have hmem : ∀ c ∈ candles, (0 : K) < c.close / candles[0].close := by
      intro c hc
      obtain ⟨i, hi, rfl⟩ := List.getElem_of_mem hc
      exact hall i hi
    rcases lt_or_gt_of_ne hfirst with hneg | hpos
    · right
      intro c hc
      rcases div_pos_iff.mp (hmem c hc) with ⟨-, hpos⟩ | ⟨hclose, -⟩
      · exact absurd hpos hneg.not_gt
      · exact hclose
    · left
      intro c hc
      exact (div_pos_iff_of_pos_right hpos).mp (hmem c hc)

def RootsNonneg (math : Math K) : Prop := ∀ x, 0 ≤ x → 0 ≤ math.sqrt x

theorem realized_vol_returns (h : OneSigned candles) :
    Returns (compute_realized_vol math candles) (Known fun x => RootsNonneg math → 0 ≤ x) := by
  apply returns_ite
  · intro hfew
    exact returns_none _
  · intro henough
    have hsafe := (oneSigned_iff (by omega)).mp h
    apply returns_bind (P := fun returns => returns.length = (int_range 1 candles.length).length)
    · apply safe_mapM
      intro i hi
      rw [mem_int_range] at hi
      obtain ⟨n, rfl⟩ : ∃ n : ℕ, i = (n + 1 : ℕ) := ⟨(i - 1).toNat, by omega⟩
      rw [log_return_safe_iff (by omega)]
      exact hsafe n (by omega)
    · intro returns hlength
      apply returns_ite
      · intro hempty
        exact returns_none _
      · intro hne
        have hreturns : returns ≠ [] := fun heq => hne (List.isEmpty_iff.mpr heq)
        rw [average_eq hreturns, ok_bind, average_square_eq hreturns, ok_bind,
          square_root_eq (squares_nonneg _ _), ok_bind, square_root_eq (Nat.cast_nonneg _), ok_bind]
        apply returns_ok
        apply known_some
        intro hsqrt
        exact mul_nonneg (hsqrt _ (squares_nonneg _ _)) (hsqrt _ (Nat.cast_nonneg _))

theorem oneSigned_of_realized_vol (henough : 2 ≤ candles.length)
    (h : Safe (compute_realized_vol math candles)) : OneSigned candles := by
  rw [compute_realized_vol, if_neg (by omega)] at h
  rw [oneSigned_iff henough]
  intro i hi
  have hmem : ((i + 1 : ℕ) : ℤ) ∈ int_range 1 candles.length := by
    rw [mem_int_range]
    omega
  exact (log_return_safe_iff hi).mp (safe_of_mapM (safe_of_bind h) hmem)

theorem vol_ratio_returns {recent medium : Option K} {H : Prop}
    (hrecent : Known (fun x => H → 0 ≤ x) recent) :
    Returns (vol_ratio recent medium) (Known fun x => H → 0 ≤ x) := by
  cases recent with
  | none => exact returns_none _
  | some recent =>
      cases medium with
      | none => exact returns_none _
      | some medium =>
          apply returns_ite
          · rintro ⟨-, -, hpos⟩
            apply returns_some
            apply Returns.mono (returns_divide hpos.ne')
            rintro ratio rfl hH
            exact div_nonneg (hrecent recent rfl hH) hpos.le
          · intro hfalsy
            exact returns_none _

structure VolatilityInRange (m : VolatilityMetrics K) : Prop where
  atr : Known (0 ≤ ·) m.atr
  realized_vol_recent : Known (0 ≤ ·) m.realized_vol_recent
  realized_vol_medium : Known (0 ≤ ·) m.realized_vol_medium
  vol_ratio : Known (0 ≤ ·) m.vol_ratio

theorem volatility_returns {recent medium : List (Candle K)} (hrecent : OneSigned recent)
    (hmedium : OneSigned medium) : Returns (compute_volatility_metrics math recent medium)
      fun m => RootsNonneg math → VolatilityInRange m := by
  apply returns_bind (atr_returns recent)
  intro atr hatr
  apply returns_bind (realized_vol_returns hrecent)
  intro vol hvol
  apply returns_bind (realized_vol_returns hmedium)
  intro vol' hvol'
  apply returns_bind (vol_ratio_returns hvol)
  intro ratio hratio
  exact returns_ok fun hsqrt => ⟨hatr, hvol.imp hsqrt, hvol'.imp hsqrt, hratio.imp hsqrt⟩

end Volatility

section Trend

omit [IsStrictOrderedRing K] in
theorem directional_movement_nonneg {i : ℤ} (hi : 1 ≤ i) (h : i < candles.length) :
    Returns (directional_movement candles i) fun move => 0 ≤ move.1 ∧ 0 ≤ move.2 := by
  apply returns_bind (returns_index (by omega) h)
  intro candle hcandle
  apply returns_bind (returns_index (by omega) (by omega))
  intro previous hprevious
  apply returns_ok
  constructor
  · dsimp only
    split_ifs with hup
    · exact hup.2.le
    · exact le_rfl
  · dsimp only
    split_ifs with hdown
    · exact hdown.2.le
    · exact le_rfl

theorem adx_returns (candles : List (Candle K)) :
    Returns (adx_metric candles) (Known fun x => 0 ≤ x ∧ x ≤ 100) := by
  apply returns_ite
  · intro henough
    apply returns_bind (P := fun moves => ∀ move ∈ moves, 0 ≤ move.1 ∧ 0 ≤ move.2)
    · refine Returns.mono (returns_mapM ?_) fun moves hmoves => hmoves.2
      intro i hi
      rw [mem_int_range] at hi
      exact directional_movement_nonneg hi.1 hi.2
    · intro moves hmoves
      apply returns_ite
      · intro hempty
        exact returns_none _
      · intro hne
        have hperiod : ((14 : ℕ) : K) ≠ 0 := cast_ne_zero (by decide)
        have hwindow : ∀ dm : List K, (∀ x ∈ dm, 0 ≤ x) →
            Returns (divide (slice dm (some (-14)) none).sum ((14 : ℕ) : K)) (0 ≤ ·) := by
          intro dm hdm
          apply Returns.mono (returns_divide hperiod)
          rintro x rfl
          have hslice : slice dm (some (-14)) none = dm.rtake 14 := slice_back dm (by decide)
          rw [hslice]
          apply div_nonneg _ (Nat.cast_nonneg _)
          exact List.sum_nonneg fun x hx => hdm x (mem_of_mem_rtake hx)
        apply returns_bind (hwindow _ ?_)
        · intro plus hplus
          apply returns_bind (hwindow _ ?_)
          · intro minus hminus
            apply returns_ite
            · intro hpos
              apply returns_some
              apply Returns.mono (returns_divide hpos.ne')
              rintro dx rfl
              have habs : |plus - minus| ≤ plus + minus := by
                rw [abs_le]
                constructor
                · linarith
                · linarith
              constructor
              · exact div_nonneg (mul_nonneg (by norm_num) (abs_nonneg _)) hpos.le
              · rw [div_le_iff₀ hpos]
                exact mul_le_mul_of_nonneg_left habs (by norm_num)
            · intro hstill
              exact returns_none _
          · intro x hx
            obtain ⟨move, hmove, rfl⟩ := List.mem_map.mp hx
            exact (hmoves move hmove).2
        · intro x hx
          obtain ⟨move, hmove, rfl⟩ := List.mem_map.mp hx
          exact (hmoves move hmove).1
  · intro hfew
    exact returns_none _

theorem ma_slope_returns (candles : List (Candle K)) :
    Returns (ma_slope_metric candles) (Known fun x => OneSigned candles → -1 < x) := by
  apply returns_ite
  · intro henough
    apply returns_bind (returns_index (by omega) (by omega))
    intro last hlast
    apply returns_bind (returns_index (by omega) (by omega))
    intro first hfirst
    apply returns_ite
    · intro hpos
      apply returns_some
      apply Returns.mono (returns_divide hpos.ne')
      rintro slope rfl hsign
      have hclose : 0 < last.close := by
        rcases hsign with hall | hall
        · exact hall last hlast
        · exact absurd (hall first hfirst) hpos.not_gt
      rw [lt_div_iff₀ hpos]
      linarith
    · intro hneg
      exact returns_none _
  · intro hfew
    exact returns_none _

omit [IsStrictOrderedRing K] in
theorem price_range_eq (h : candles ≠ []) :
    price_range candles =
      .ok (highest (candles.map Candle.high) - lowest (candles.map Candle.low)) := by
  have hhigh : candles.map Candle.high ≠ [] := mt List.map_eq_nil_iff.mp h
  have hlow : candles.map Candle.low ≠ [] := mt List.map_eq_nil_iff.mp h
  rw [price_range, maximum_eq hhigh, ok_bind, minimum_eq hlow, ok_bind]
  rfl

/-- Candles that are among others do not range over more. -/
theorem range_le_of_subset {some_candles : List (Candle K)} (hne : some_candles ≠ [])
    (h : ∀ c ∈ some_candles, c ∈ candles) :
    highest (some_candles.map Candle.high) - lowest (some_candles.map Candle.low) ≤
      highest (candles.map Candle.high) - lowest (candles.map Candle.low) := by
  have hhigh : some_candles.map Candle.high ≠ [] := mt List.map_eq_nil_iff.mp hne
  have hlow : some_candles.map Candle.low ≠ [] := mt List.map_eq_nil_iff.mp hne
  obtain ⟨top, htop, heq⟩ := List.mem_map.mp (highest_mem hhigh)
  obtain ⟨bottom, hbottom, heq'⟩ := List.mem_map.mp (lowest_mem hlow)
  rw [← heq, ← heq']
  exact sub_le_sub (le_highest (List.mem_map_of_mem (h top htop)))
    (lowest_le (List.mem_map_of_mem (h bottom hbottom)))

omit K [Field K] [LinearOrder K] [IsStrictOrderedRing K] in
theorem rtake_of_suffix {α : Type} {xs ys : List α} (h : xs <:+ ys) {k : ℕ} (hk : k ≤ xs.length) :
    ys.rtake k = xs.rtake k := by
  obtain ⟨zs, rfl⟩ := h
  have hlength : (zs ++ xs).length - k = zs.length + (xs.length - k) := by
    rw [List.length_append]
    omega
  rw [List.rtake.eq_def, hlength, List.drop_length_add_append, List.rtake.eq_def]

omit K [Field K] [LinearOrder K] [IsStrictOrderedRing K] in
theorem rtake_suffix {α : Type} (xs : List α) (k : ℕ) : xs.rtake k <:+ xs := by
  rw [List.rtake.eq_def]
  exact List.drop_suffix _ xs

omit K [Field K] [LinearOrder K] [IsStrictOrderedRing K] in
theorem rtake_subset {α : Type} (xs : List α) {j k : ℕ} (h : j ≤ k) :
    ∀ x ∈ xs.rtake j, x ∈ xs.rtake k := by
  rw [List.rtake.eq_def, List.rtake.eq_def]
  exact List.drop_subset_drop_left xs (Nat.sub_le_sub_left h xs.length)

/-- The ten candles are the last of the twenty, whose range is therefore no smaller. -/
theorem range_ratio_returns {recent medium : List (Candle K)} (h : recent <:+ medium) :
    Returns (range_ratio recent medium) (Known (· ≤ 1)) := by
  apply returns_ite
  · rintro ⟨hrecent, hmedium⟩
    have hten : slice recent (some (-10)) none = recent.rtake 10 := slice_back _ (by decide)
    have htwenty : slice medium (some (-20)) none = medium.rtake 20 := slice_back _ (by decide)
    rw [hten, htwenty, ← rtake_of_suffix h hrecent,
      price_range_eq (rtake_ne_nil (by decide) (by omega)), ok_bind,
      price_range_eq (rtake_ne_nil (by decide) hmedium), ok_bind]
    apply returns_ite
    · intro hpos
      apply returns_some
      apply Returns.mono (returns_divide hpos.ne')
      rintro ratio rfl
      apply div_le_one_of_le₀ _ hpos.le
      apply range_le_of_subset (rtake_ne_nil (by decide) (by omega))
      exact rtake_subset medium (by decide)
    · intro hflat
      exact returns_none _
  · intro hfew
    exact returns_none _

structure TrendInRange (m : TrendMetrics K) : Prop where
  adx : Known (fun x => 0 ≤ x ∧ x ≤ 100) m.adx
  ma_slope : Known (-1 < ·) m.ma_slope
  no_expansion : m.range_expansion_flag ≠ some true

theorem trend_returns {recent medium : List (Candle K)} (h : recent <:+ medium) :
    Returns (compute_trend_metrics recent medium) fun m => OneSigned medium → TrendInRange m := by
  apply returns_bind (adx_returns medium)
  intro adx hadx
  apply returns_bind (ma_slope_returns medium)
  intro slope hslope
  apply returns_bind (range_ratio_returns h)
  intro ratio hratio
  apply returns_ok
  intro hsign
  refine ⟨hadx, hslope.imp hsign, ?_⟩
  intro hflag
  obtain ⟨r, hr, hwide⟩ := Option.map_eq_some_iff.mp hflag
  have hone : (1 : K) < (13 : ℕ) / 10 := by norm_num
  exact ((hratio r hr).trans_lt hone).not_gt (of_decide_eq_true hwide)

end Trend

section Funding

structure FundingInRange (m : FundingStats K) : Prop where
  funding_std : Known (0 ≤ ·) m.funding_std
  percentiles : ∀ p5 ∈ m.funding_p5, ∀ p95 ∈ m.funding_p95, p5 ≤ p95

theorem funding_returns (funding_data : List (FundingPoint K)) :
    Returns (compute_funding_stats math funding_data)
      fun m => RootsNonneg math → FundingInRange m := by
  apply returns_ite
  · intro hempty
    exact returns_ok fun _ => ⟨known_none _, nofun⟩
  · intro hne
    have hrates : funding_data.filterMap FundingPoint.rate ≠ [] :=
      fun heq => hne (List.isEmpty_iff.mpr heq)
    generalize funding_data.filterMap FundingPoint.rate = rates at hrates
    have hpos : 0 < rates.length := List.length_pos_iff.mpr hrates
    have hlength : (rates.insertionSort (· ≤ ·)).length = rates.length :=
      List.length_insertionSort (· ≤ ·) rates
    have hlow : rates.length * 5 / 100 < rates.length := by omega
    have hhigh : rates.length * 95 / 100 < rates.length := by omega
    rw [average_eq hrates, ok_bind, average_square_eq hrates, ok_bind,
      square_root_eq (squares_nonneg _ _), ok_bind]
    simp only [hlength]
    rw [index_nat (by omega), ok_bind, index_nat (by omega), ok_bind, index_last hpos, ok_bind]
    apply returns_ok
    intro hsqrt
    refine ⟨known_some (hsqrt _ (squares_nonneg _ _)), ?_⟩
    rintro p5 ⟨⟩ p95 ⟨⟩
    exact (List.sortedLE_insertionSort (l := rates)).getElem_le_getElem_of_le (by omega)

end Funding

section OpenInterest

structure OiInRange (m : OiStats K) : Prop where
  oi_slope_24h : Known (-1 ≤ ·) m.oi_slope_24h
  oi_slope_48h : Known (-1 ≤ ·) m.oi_slope_48h

variable {oi_data : List (OiPoint K)}

def ValuesNonneg (oi_data : List (OiPoint K)) : Prop := ∀ d ∈ oi_data, 0 ≤ d.get_value

theorem oi_slope_returns {far near : ℕ} (hnear : 1 ≤ near) (hle : near ≤ far) :
    Returns (oi_slope oi_data far near) (Known fun x => ValuesNonneg oi_data → -1 ≤ x) := by
  apply returns_ite
  · intro henough
    apply returns_bind (returns_index (by omega) (by omega))
    intro old hold
    apply returns_bind (returns_index (by omega) (by omega))
    intro new hnew
    apply returns_ite
    · intro hpos
      apply returns_some
      apply Returns.mono (returns_divide hpos.ne')
      rintro slope rfl hvalue
      rw [le_div_iff₀ hpos]
      have hnonneg := hvalue new hnew
      linarith
    · intro hzero
      exact returns_none _
  · intro hfew
    exact returns_none _

theorem oi_zscore_returns (oi_data : List (OiPoint K)) (medium_window : ℕ) :
    Returns (oi_zscore_metric math oi_data medium_window) fun _ => True := by
  apply returns_ite
  · rintro ⟨-, hne⟩
    have hvalues : (slice oi_data (some (-medium_window)) none).map OiPoint.get_value ≠ [] :=
      fun heq => hne (List.isEmpty_iff.mpr heq)
    have hdata : 0 < oi_data.length := by
      rw [List.length_pos_iff]
      rintro rfl
      exact hvalues (by rw [slice, List.take_nil, List.drop_nil, List.map_nil])
    rw [average_eq hvalues, ok_bind, average_square_eq hvalues, ok_bind]
    apply returns_bind (P := fun _ => True)
    · apply returns_ite
      · intro hpos
        rw [square_root_eq hpos.le]
        exact returns_ok trivial
      · intro hflat
        exact returns_ok trivial
    · intro std hstd
      apply returns_bind (returns_index (by omega) (by omega))
      intro current hcurrent
      apply returns_ite
      · intro hpos
        exact returns_bind (returns_divide hpos.ne') fun _ _ => returns_ok trivial
      · intro hneg
        exact returns_ok trivial
  · intro hfew
    exact returns_ok trivial

theorem oi_returns (oi_data : List (OiPoint K)) (medium_window : ℕ) :
    Returns (compute_oi_stats math oi_data medium_window)
      fun m => ValuesNonneg oi_data → OiInRange m := by
  apply returns_ite
  · intro hfew
    exact returns_ok fun _ => ⟨known_none _, known_none _⟩
  · intro henough
    apply returns_bind (oi_slope_returns (by decide) (by decide))
    intro slope hslope
    apply returns_bind (oi_slope_returns (by decide) (by decide))
    intro slope' hslope'
    apply returns_bind (oi_zscore_returns oi_data medium_window)
    intro zscore hzscore
    exact returns_ok fun hvalue => ⟨hslope.imp hvalue, hslope'.imp hvalue⟩

end OpenInterest

section Liquidity

structure LiquidityInRange (m : LiquidityMetrics K) : Prop where
  spread_proxy : Known (0 ≤ ·) m.spread_proxy
  candle_wickiness : Known (fun x => 0 ≤ x ∧ x ≤ 1) m.candle_wickiness
  churn_metric : Known (0 ≤ ·) m.churn_metric

def WellFormedAll (candles : List (Candle K)) : Prop := ∀ c ∈ candles, WellFormed c

theorem spread_proxy_returns (candles : List (Candle K)) :
    Returns (spread_proxy_metric candles) (Known fun x => WellFormedAll candles → 0 ≤ x) := by
  apply returns_bind (P := fun spreads => ∀ x ∈ spreads, WellFormedAll candles → 0 ≤ x)
  · refine Returns.mono (returns_mapM ?_) fun spreads hspreads => hspreads.2
    intro c hc
    rw [List.mem_filter, decide_eq_true_eq] at hc
    apply Returns.mono (returns_divide hc.2.ne')
    rintro x rfl h
    have hrange := (h c hc.1).close_in.1.trans (h c hc.1).close_in.2
    exact div_nonneg (sub_nonneg.mpr hrange) hc.2.le
  · intro spreads hspreads
    exact average_of_returns fun _ h => mean_nonneg fun x hx => hspreads x hx h

/-- The body of a candle is within its range, and the wicks are what is left of it. -/
theorem wickiness_returns (candles : List (Candle K)) : Returns (wickiness_metric candles)
    (Known fun x => WellFormedAll candles → 0 ≤ x ∧ x ≤ 1) := by
  apply returns_bind (P := fun ratios => ∀ x ∈ ratios, WellFormedAll candles → 0 ≤ x ∧ x ≤ 1)
  · refine Returns.mono (returns_mapM ?_) fun ratios hratios => hratios.2
    intro c hc
    rw [List.mem_filter, decide_eq_true_eq] at hc
    obtain ⟨hmem, hrange⟩ := hc
    apply Returns.mono (returns_divide hrange.ne')
    rintro x rfl h
    have hupper : max c.open_ c.close ≤ c.high := max_le (h c hmem).open_in.2 (h c hmem).close_in.2
    have hlower : c.low ≤ min c.open_ c.close := le_min (h c hmem).open_in.1 (h c hmem).close_in.1
    have hbody : min c.open_ c.close ≤ max c.open_ c.close := min_le_max
    constructor
    · apply div_nonneg _ hrange.le
      linarith
    · apply div_le_one_of_le₀ _ hrange.le
      linarith
  · intro ratios hratios
    exact average_of_returns fun _ h =>
      ⟨mean_nonneg fun x hx => (hratios x hx h).1, mean_le_one fun x hx => (hratios x hx h).2⟩

omit [IsStrictOrderedRing K] in
theorem price_change_returns {i : ℤ} (hi : 1 ≤ i) (h : i < xs.length) :
    Returns (price_change xs i) fun _ => True := by
  apply returns_bind (returns_index (by omega) (by omega))
  intro previous hprevious
  apply returns_ite
  · intro hpos
    apply returns_bind (returns_index (by omega) h)
    intro price hprice
    exact returns_bind (returns_divide hpos.ne') fun _ _ => returns_ok trivial
  · intro hneg
    exact returns_ok trivial

theorem churn_returns (candles : List (Candle K)) :
    Returns (churn candles) (Known fun x => WellFormedAll candles → 0 ≤ x) := by
  apply returns_ite
  · intro henough
    apply returns_bind (P := fun _ => True)
    · refine Returns.mono (returns_mapM (R := fun _ => True) ?_) fun _ _ => trivial
      intro i hi
      rw [mem_int_range] at hi
      exact price_change_returns hi.1 hi.2
    · intro changes hchanges
      apply returns_ite
      · intro hempty
        exact returns_none _
      · intro hne
        rw [not_or, List.isEmpty_iff, List.isEmpty_iff] at hne
        rw [average_eq hne.2, ok_bind, average_eq hne.1, ok_bind]
        apply returns_ite
        · intro hpos
          apply returns_some
          apply Returns.mono (returns_divide hpos.ne')
          rintro x rfl h
          apply div_nonneg _ hpos.le
          apply mean_nonneg
          intro v hv
          obtain ⟨c, hc, rfl⟩ := List.mem_map.mp hv
          exact (h c hc).volume_nonneg
        · intro hstill
          exact returns_none _
  · intro hfew
    exact returns_none _

theorem liquidity_returns (candles : List (Candle K)) :
    Returns (compute_liquidity_metrics candles)
      fun m => WellFormedAll candles → LiquidityInRange m := by
  apply returns_ite
  · intro hempty
    exact returns_ok fun _ => ⟨known_none _, known_none _, known_none _⟩
  · intro hne
    apply returns_bind (spread_proxy_returns candles)
    intro spread hspread
    apply returns_bind (wickiness_returns candles)
    intro wickiness hwickiness
    apply returns_bind (churn_returns candles)
    intro churn hchurn
    exact returns_ok fun h => ⟨hspread.imp h, hwickiness.imp h, hchurn.imp h⟩

end Liquidity

section Features

structure InRange (f : Features K) : Prop where
  volatility : VolatilityInRange f.toVolatilityMetrics
  trend : TrendInRange f.toTrendMetrics
  funding : FundingInRange f.toFundingStats
  oi : OiInRange f.toOiStats
  liquidity : LiquidityInRange f.toLiquidityMetrics

omit [Field K] [LinearOrder K] [IsStrictOrderedRing K] in
theorem recent_candles_eq (h : 1 ≤ candles.length) :
    recent_candles candles = candles.rtake (recent_window candles.length) :=
  slice_back candles (le_min (by decide) h)

omit [Field K] [LinearOrder K] [IsStrictOrderedRing K] in
theorem medium_candles_eq (h : 1 ≤ candles.length) :
    medium_candles candles = candles.rtake (medium_window candles.length) :=
  slice_back candles (le_min (by decide) h)

omit [Field K] [LinearOrder K] [IsStrictOrderedRing K] in
theorem recent_suffix_medium (h : 1 ≤ candles.length) :
    recent_candles candles <:+ medium_candles candles := by
  rw [recent_candles_eq h, medium_candles_eq h, List.rtake.eq_def, List.rtake.eq_def]
  apply List.drop_suffix_drop_left
  unfold recent_window medium_window
  omega

omit [Field K] [LinearOrder K] [IsStrictOrderedRing K] in
theorem length_medium_candles (h : 20 ≤ candles.length) : 20 ≤ (medium_candles candles).length := by
  rw [medium_candles_eq (by omega), length_rtake]
  unfold medium_window
  omega

variable {funding_data : Option (List (FundingPoint K))} {oi_data : Option (List (OiPoint K))}

/-- With enough candles of one sign the features are computed. -/
theorem features_returns (h : 20 ≤ candles.length) (hsign : OneSigned (medium_candles candles)) :
    Returns (compute_features math candles funding_data oi_data) fun f =>
      f.range_expansion_flag ≠ some true ∧
        (RootsNonneg math → ValuesNonneg (oi_data.getD []) → WellFormedAll candles →
          InRange f) := by
  have hsuffix : recent_candles candles <:+ medium_candles candles :=
    recent_suffix_medium (by omega)
  have hrecent : OneSigned (recent_candles candles) := hsign.subset fun _ hc => hsuffix.mem hc
  have hempty : candles ≠ [] := by
    rw [← List.length_pos_iff]
    omega
  rw [compute_features, if_neg (by simp [hempty, h])]
  apply returns_bind (volatility_returns hrecent hsign)
  intro volatility hvolatility
  apply returns_bind (trend_returns hsuffix)
  intro trend htrend
  apply returns_bind (funding_returns _)
  intro funding hfunding
  apply returns_bind (oi_returns _ _)
  intro oi hoi
  apply returns_bind (liquidity_returns _)
  intro liquidity hliquidity
  apply returns_ok
  refine ⟨(htrend hsign).no_expansion, ?_⟩
  intro hsqrt hvalue hformed
  have hformed' : WellFormedAll (recent_candles candles) := by
    intro c hc
    rw [recent_candles_eq (by omega)] at hc
    exact hformed c (mem_of_mem_rtake hc)
  exact ⟨hvolatility hsqrt, htrend hsign, hfunding hsqrt, hoi hvalue, hliquidity hformed'⟩

theorem features_safe_iff (math : Math K) (candles : List (Candle K))
    (funding_data : Option (List (FundingPoint K))) (oi_data : Option (List (OiPoint K))) :
    Safe (compute_features math candles funding_data oi_data) ↔
      candles.length < 20 ∨ OneSigned (medium_candles candles) := by
  by_cases h : candles.length < 20
  · rw [compute_features, if_pos (.inr h)]
    exact iff_of_true (safe_ok _) (.inl h)
  · rw [or_iff_right h]
    constructor
    · intro hsafe
      have hempty : candles ≠ [] := by
        rintro rfl
        exact h (Nat.succ_pos 19)
      rw [compute_features, if_neg (by simp [hempty, not_lt.mp h])] at hsafe
      obtain ⟨metrics, hmetrics⟩ := safe_iff.mp (safe_of_bind hsafe)
      obtain ⟨atr, -, hmetrics⟩ := bind_ok_iff.mp hmetrics
      obtain ⟨recent, -, hmetrics⟩ := bind_ok_iff.mp hmetrics
      obtain ⟨medium, hmedium, -⟩ := bind_ok_iff.mp hmetrics
      have hlength := length_medium_candles (not_lt.mp h)
      exact oneSigned_of_realized_vol (by omega) (safe_iff.mpr ⟨medium, hmedium⟩)
    · intro hsign
      exact .of_returns (features_returns (not_lt.mp h) hsign)

end Features

def rational_math : Math ℚ := ⟨id, id⟩

theorem rational_roots : RootsNonneg rational_math := fun _ hx => hx

def steady_candles : List (Candle ℚ) := List.replicate 20 ⟨2, 3, 1, 2, 5⟩

theorem steady_well_formed : WellFormedAll steady_candles := by
  intro c hc
  obtain rfl := List.eq_of_mem_replicate hc
  constructor
  all_goals norm_num

end ArticTrader.MarketFeatures
