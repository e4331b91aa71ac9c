import ArticTrader.IsoDates

/-!
Points of time as Python and JavaScript write them are read back as they were.
-/

namespace ArticTrader.IsoRoundTrips

open ArticTrader.Datetimes
open ArticTrader.IsoDates
open ArticTrader.PythonText (Text)

/-- `Date.prototype.toISOString`, for the years that a `datetime` can have. -/
def toISOString (t : Datetime) : Text :=
  date_text t.date ++ (time_text (t.micros % DAY / 1000000) ++
    ('.' :: digits 3 (t.micros % 1000000 / 1000) ++ ['Z']))

/-- A day of the calendar. -/
structure Valid (d : Date) : Prop where
  year_pos : 1 ≤ d.year
  year_lt : d.year < 10000
  month_pos : 1 ≤ d.month
  month_le : d.month ≤ 12
  day_pos : 1 ≤ d.day
  day_le : d.day ≤ days_in_month (is_leap d.year) d.month

theorem month_day_valid : ∀ leap : Bool, ∀ n < 366, (leap = false → n < 365) →
    1 ≤ (month_day leap n).1 ∧ (month_day leap n).1 ≤ 12 ∧ 1 ≤ (month_day leap n).2 ∧
      (month_day leap n).2 ≤ days_in_month leap (month_day leap n).1 := by
  decide +kernel

theorem days_in_december (leap : Bool) : days_in_month leap 12 = 31 := by
  cases leap <;> rfl

theorem fromordinal_valid {n : ℕ} (hpos : 1 ≤ n) (hmax : n ≤ MAXORDINAL) :
    Valid (fromordinal n) := by
  have hyear := (fromordinal_sound hpos hmax).2.1
  revert hyear
  unfold fromordinal
  obtain ⟨a, ha⟩ : ∃ a, a = (n - 1) / 146097 := ⟨_, rfl⟩
  obtain ⟨r, hr⟩ : ∃ r, r = (n - 1) % 146097 := ⟨_, rfl⟩
  obtain ⟨b, hb⟩ : ∃ b, b = r / 36524 := ⟨_, rfl⟩
  obtain ⟨s, hs⟩ : ∃ s, s = r % 36524 := ⟨_, rfl⟩
  obtain ⟨c, hc⟩ : ∃ c, c = s / 1461 := ⟨_, rfl⟩
  obtain ⟨t, ht⟩ : ∃ t, t = s % 1461 := ⟨_, rfl⟩
  obtain ⟨d, hd⟩ : ∃ d, d = t / 365 := ⟨_, rfl⟩
  obtain ⟨e, he⟩ : ∃ e, e = t % 365 := ⟨_, rfl⟩
  have hbounds : r < 146097 ∧ s < 36524 ∧ t < 1461 ∧ e < 365 := by omega
  simp only [← ha, ← hr, ← hb, ← hs, ← hc, ← ht, ← hd, ← he]
  split
  next hlast =>
      intro hyear
      refine ⟨?_, hyear, (by decide : 1 ≤ 12), le_rfl, (by decide : 1 ≤ 31), ?_⟩
      · simp only
        omega
      · rw [days_in_december]
  next hlast =>
      intro hyear
      have hd3 : d ≤ 3 := by omega
      have hb3 : b ≤ 3 := by omega
      have hc24 : c ≤ 24 := by omega
      obtain ⟨hmonth, hmonth', hday, hday'⟩ :=
        month_day_valid (d = 3 && (c ≠ 24 || b = 3)) e (by omega) (fun _ => hbounds.2.2.2)
      refine ⟨?_, hyear, hmonth, hmonth', hday, ?_⟩
      · simp only
        omega
      · rw [(days_before_place hb3 hc24 hd3).2]
        exact hday'

theorem Datetime.date_valid (t : Datetime) : Valid t.date :=
  fromordinal_valid t.day_in_range.1 t.day_in_range.2

theorem digit_of_lt : ∀ d < 10, (Nat.digitChar d).isDigit = true ∧
    (Nat.digitChar d).toNat - '0'.toNat = d := by
  decide

theorem all_digits (width n : ℕ) : (digits width n).all Char.isDigit = true := by
  induction width generalizing n with
  | zero => rfl
  | succ width ih =>
      rw [digits, List.all_append, ih, List.all_cons, (digit_of_lt _ (Nat.mod_lt n (by decide))).1]
      rfl

theorem foldl_digits {width n : ℕ} (h : n < 10 ^ width) :
    (digits width n).foldl (fun n c => 10 * n + (c.toNat - '0'.toNat)) 0 = n := by
  induction width generalizing n with
  | zero =>
      rw [digits, List.foldl_nil]
      omega
  | succ width ih =>
      have hrest : n / 10 < 10 ^ width := by
        rw [Nat.pow_succ] at h
        omega
      rw [digits, List.foldl_append, ih hrest, List.foldl_cons, List.foldl_nil,
        (digit_of_lt _ (Nat.mod_lt n (by decide))).2]
      omega

/-- A number that is padded to a width is read as the number. -/
theorem number_digits {width n : ℕ} (hwidth : width ≠ 0) (h : n < 10 ^ width) :
    number (digits width n) = some n := by
  have hne : digits width n ≠ [] := by
    rw [← List.length_pos_iff, length_digits]
    omega
  rw [number, if_pos ⟨hne, all_digits width n⟩, foldl_digits h]

theorem digits_two (n : ℕ) :
    digits 2 n = [Nat.digitChar (n / 10 % 10), Nat.digitChar (n % 10)] := rfl

theorem digit_not_week : ∀ d < 10, Nat.digitChar d ≠ 'W' := by decide

theorem calendar_date_digits {d : Date} (h : Valid d) :
    calendar_date (digits 4 d.year) (digits 2 d.month) (digits 2 d.day) = some (toordinal d) := by
  have hday : d.day < 100 := by
    have hlast : ∀ leap : Bool, ∀ month ≤ 12, days_in_month leap month < 100 := by decide
    exact h.day_le.trans_lt (hlast _ _ h.month_le)
  have hmonth : d.month < 100 := h.month_le.trans_lt (by decide)
  rw [calendar_date, number_digits (by decide) h.year_lt, number_digits (by decide) hmonth,
    number_digits (by decide) hday]
  simp only [Option.bind_eq_bind, Option.bind_some]
  rw [guard, if_pos ⟨h.year_pos, h.month_pos, h.month_le, h.day_pos, h.day_le⟩]
  rfl

theorem length_date_text (d : Date) : (date_text d).length = 10 := by
  simp [date_text]

theorem parse_date_text {d : Date} (h : Valid d) :
    parse_date (date_text d) = some (toordinal d) := by
  have hdate := calendar_date_digits h
  have hweek := digit_not_week (d.month / 10 % 10) (Nat.mod_lt _ (by decide))
  have htake : (date_text d).take 4 = digits 4 d.year := by
    rw [date_text, List.append_assoc, List.take_left' (length_digits 4 _)]
  have hdrop : (date_text d).drop 4 = '-' :: digits 2 d.month ++ '-' :: digits 2 d.day := by
    rw [date_text, List.append_assoc, List.drop_left' (length_digits 4 _)]
  rw [parse_date, htake, hdrop]
  simp only [digits_two] at hdate ⊢
  split
  next heq => exact absurd (List.head_eq_of_cons_eq (List.tail_eq_of_cons_eq heq)) hweek
  next heq => exact absurd (List.head_eq_of_cons_eq (List.tail_eq_of_cons_eq heq)) hweek
  next heq => cases heq
  next heq => cases heq
  next heq =>
      cases heq
      exact hdate
  next heq => cases heq
  next hother _ => exact absurd rfl (hother _ _ _ _)

/-- The time of a day, as it is read with a fraction of a second. -/
theorem parse_clock_text {seconds micros : ℕ} (h : seconds < 86400) {f : Text}
    (hf : parse_fraction f = some micros) :
    parse_clock (digits 2 (seconds / 3600) ++ ':' :: digits 2 (seconds / 60 % 60) ++
      ':' :: digits 2 (seconds % 60) ++ f) = some (1000000 * seconds + micros) := by
  have hclock : clock (digits 2 (seconds / 3600)) (digits 2 (seconds / 60 % 60))
      (digits 2 (seconds % 60)) f = some (1000000 * seconds + micros) := by
    rw [clock, number_digits (by decide) (by omega), number_digits (by decide) (by omega),
      number_digits (by decide) (by omega), hf]
    simp only [Option.bind_eq_bind, Option.bind_some]
    rw [guard, if_pos (by omega)]
    have hseconds :
        3600 * (seconds / 3600) + 60 * (seconds / 60 % 60) + seconds % 60 = seconds := by
      omega
    rw [hseconds]
    rfl
  exact hclock

def CLOCK_CHARS : Text := "0123456789:.".toList

theorem clock_not_zone : ∀ c ∈ CLOCK_CHARS, zone_char c = false := by
  simpa only [Bool.not_eq_true'] using List.all_eq_true (p := fun c => !zone_char c) |>.mp (by decide)

theorem digits_clock {width n : ℕ} {c : Char} (h : c ∈ digits width n) : c ∈ CLOCK_CHARS := by
  induction width generalizing n with
  | zero => cases h
  | succ width ih =>
      rcases List.mem_append.mp h with h | h
      · exact ih h
      · have hdigit : ∀ d < 10, Nat.digitChar d ∈ CLOCK_CHARS := by decide
        rw [List.mem_singleton.mp h]
        exact hdigit _ (Nat.mod_lt n (by decide))

theorem parse_time_text {seconds micros : ℕ} (h : seconds < 86400) {f zone : Text}
    (hf : parse_fraction f = some micros) (hchars : ∀ c ∈ f, c ∈ CLOCK_CHARS)
    (hzone : zone = ['Z'] ∨ zone = "+00:00".toList) :
    parse_time (digits 2 (seconds / 3600) ++ ':' :: digits 2 (seconds / 60 % 60) ++
      ':' :: digits 2 (seconds % 60) ++ f ++ zone) = some (1000000 * seconds + micros : ℤ) := by
  generalize hs : digits 2 (seconds / 3600) ++ ':' :: digits 2 (seconds / 60 % 60) ++
    ':' :: digits 2 (seconds % 60) ++ f = s
  have hclock : parse_clock s = some (1000000 * seconds + micros) := by
    rw [← hs]
    exact parse_clock_text h hf
  have hplain : ∀ c ∈ s, (!zone_char c) = true := by
    intro c hc
    have hmem : c ∈ CLOCK_CHARS := by
      rw [← hs] at hc
      simp only [List.mem_append, List.mem_cons] at hc
      rcases hc with ((hc | rfl | hc) | rfl | hc) | hc
      · exact digits_clock hc
      · decide
      · exact digits_clock hc
      · decide
      · exact digits_clock hc
      · exact hchars c hc
    rw [clock_not_zone c hmem]
    rfl
  have hstop : zone.takeWhile (fun c => !zone_char c) = [] ∧
      zone.dropWhile (fun c => !zone_char c) = zone := by
    rcases hzone with rfl | rfl <;> exact ⟨rfl, rfl⟩
  rw [parse_time, List.takeWhile_append_of_pos hplain, List.dropWhile_append_of_pos hplain, hstop.1,
    hstop.2, List.append_nil, hclock]
  rcases hzone with rfl | rfl
  · rfl
  · rfl

theorem separator_date_text (d : Date) (rest : Text) :
    separator (date_text d ++ rest) = some 10 := by
  have hlength : (date_text d ++ rest).length ≠ 7 := by
    rw [List.length_append, length_date_text]
    omega
  have hdash : (date_text d ++ rest)[4]? = some '-' := rfl
  have hmonth : (date_text d ++ rest)[5]? = some (Nat.digitChar (d.month / 10 % 10)) := rfl
  have hweek := digit_not_week (d.month / 10 % 10) (Nat.mod_lt _ (by decide))
  rw [separator, if_neg hlength, if_pos hdash, hmonth, if_neg fun h => hweek (Option.some.inj h)]

/-- A point of time that is written with its date, its time and a zone. -/
theorem fromisoformat_text (t : Datetime) {f zone : Text}
    (hf : parse_fraction f = some (t.micros % 1000000)) (hchars : ∀ c ∈ f, c ∈ CLOCK_CHARS)
    (hzone : zone = ['Z'] ∨ zone = "+00:00".toList) :
    fromisoformat (date_text t.date ++ (time_text (t.micros % DAY / 1000000) ++ (f ++ zone))) =
      some (t.micros : ℤ) := by
  have htime := parse_time_text t.seconds_lt hf hchars hzone
  have hdate := parse_date_text (Datetime.date_valid t)
  have hlong :
      7 ≤ (date_text t.date ++ (time_text (t.micros % DAY / 1000000) ++ (f ++ zone))).length := by
    rw [List.length_append, length_date_text]
    omega
  have hrest : time_text (t.micros % DAY / 1000000) ++ (f ++ zone) =
      'T' :: (digits 2 (t.micros % DAY / 1000000 / 3600) ++
        ':' :: digits 2 (t.micros % DAY / 1000000 / 60 % 60) ++
        ':' :: digits 2 (t.micros % DAY / 1000000 % 60) ++ f ++ zone) := by
    simp only [time_text, List.append_assoc, List.cons_append]
  rw [fromisoformat, separator_date_text, guard, if_pos hlong]
  simp only [Option.pure_def, Option.bind_eq_bind, Option.bind_some]
  rw [List.take_left' (length_date_text _), List.drop_left' (length_date_text _), hdate, hrest]
  simp only [Option.bind_some, htime, t.date_sound.1]
  congr 1
  unfold DAY
  omega

theorem parse_fraction_digits {micros : ℕ} (h : micros < 1000000) :
    parse_fraction ('.' :: digits 6 micros) = some micros := by
  have hread : number (digits 6 micros) = some micros := number_digits (by decide) h
  rw [parse_fraction, if_pos (.inl rfl), hread, Option.bind_some,
    List.take_left' (length_digits _ _), hread]

theorem digits_scaled (n : ℕ) : digits 6 (1000 * n) = digits 3 n ++ "000".toList := by
  have hten (width m : ℕ) : digits (width + 1) (10 * m) = digits width m ++ ['0'] := by
    rw [digits, Nat.mul_div_cancel_left m (by decide), Nat.mul_mod_right]
    rfl
  have hscaled : 1000 * n = 10 * (10 * (10 * n)) := by omega
  rw [hscaled, hten, hten, hten, List.append_assoc, List.append_assoc]
  rfl

theorem parse_fraction_milliseconds {ms : ℕ} (h : ms < 1000) :
    parse_fraction ('.' :: digits 3 ms) = some (1000 * ms) := by
  have hpadded : (digits 3 ms ++ "000000".toList).take 6 = digits 6 (1000 * ms) := by
    rw [digits_scaled]
    rfl
  rw [parse_fraction, if_pos (.inl rfl), number_digits (by decide) h, Option.bind_some, hpadded,
    number_digits (by decide) (by omega)]

theorem mem_point_digits {width n : ℕ} : ∀ c ∈ '.' :: digits width n, c ∈ CLOCK_CHARS := by
  intro c hc
  rcases List.mem_cons.mp hc with rfl | hc
  · decide
  · exact digits_clock hc

/-- What Python writes it reads back. -/
theorem fromisoformat_isoformat (t : Datetime) :
    fromisoformat t.isoformat = some (t.micros : ℤ) := by
  refine fromisoformat_text t ?_ ?_ (.inr rfl)
  · unfold fraction
    split
    next hzero => rw [hzero, parse_fraction]
    next => exact parse_fraction_digits (by omega)
  · unfold fraction
    split
    · exact nofun
    · exact mem_point_digits

/-- What JavaScript writes Python reads to the millisecond. -/
theorem fromisoformat_toISOString {t : Datetime} (h : t.micros % 1000 = 0) :
    fromisoformat (toISOString t) = some (t.micros : ℤ) := by
  refine fromisoformat_text t ?_ mem_point_digits (.inl rfl)
  rw [parse_fraction_milliseconds (by omega)]
  congr 1
  omega

end ArticTrader.IsoRoundTrips
