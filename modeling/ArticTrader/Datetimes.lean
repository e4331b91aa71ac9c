import Mathlib.Algebra.Group.Nat.Defs
import ArticTrader.PythonText

/-!
Points of time in UTC as Python's `datetime` has them: microseconds from the
start of the year 1 to the end of the year 9999, and how `isoformat` writes them.
-/

namespace ArticTrader.Datetimes

open ArticTrader.PythonText (Text)

structure Date where
  year : ℕ
  month : ℕ
  day : ℕ
  deriving DecidableEq, Repr

def is_leap (year : ℕ) : Bool := year % 4 = 0 && (year % 100 ≠ 0 || year % 400 = 0)

def DAYS_IN_MONTH : List ℕ := [0, 31, 28, 31, 30, 31, 30, 31, 31, 30, 31, 30, 31]

def DAYS_BEFORE_MONTH : List ℕ := [0, 0, 31, 59, 90, 120, 151, 181, 212, 243, 273, 304, 334]

def days_before_year (year : ℕ) : ℕ :=
  let y := year - 1
  y * 365 + y / 4 - y / 100 + y / 400

def days_in_month (leap : Bool) (month : ℕ) : ℕ :=
  DAYS_IN_MONTH.getD month 0 + if month = 2 && leap then 1 else 0

def days_before_month (leap : Bool) (month : ℕ) : ℕ :=
  DAYS_BEFORE_MONTH.getD month 0 + if 2 < month && leap then 1 else 0

/-- The number of the day, the first day of the year 1 being 1. -/
def toordinal (d : Date) : ℕ :=
  days_before_year d.year + days_before_month (is_leap d.year) d.month + d.day

/-- The month and the day of the `n`-th day of a year, where the estimate of the
month may be one too high. -/
def month_day (leap : Bool) (n : ℕ) : ℕ × ℕ :=
  let month := (n + 50) / 32
  let preceding := days_before_month leap month
  if preceding > n then
    (month - 1, n - (preceding - days_in_month leap (month - 1)) + 1)
  else (month, n - preceding + 1)

def fromordinal (ordinal : ℕ) : Date :=
  let n := ordinal - 1
  let n400 := n / 146097
  let n := n % 146097
  let n100 := n / 36524
  let n := n % 36524
  let n4 := n / 1461
  let n := n % 1461
  let n1 := n / 365
  let n := n % 365
  let year := n400 * 400 + 1 + n100 * 100 + n4 * 4 + n1
  if n1 = 4 ∨ n100 = 4 then ⟨year - 1, 12, 31⟩
  else
    let md := month_day (n1 = 3 && (n4 ≠ 24 || n100 = 3)) n
    ⟨year, md.1, md.2⟩

def DAY : ℕ := 86400000000

/-- The last day is the 31st of December 9999. -/
def MAXORDINAL : ℕ := 3652059

@[ext]
structure Datetime where
  micros : ℕ
  in_range : micros < MAXORDINAL * DAY
  deriving DecidableEq, Repr

/-- `t - timedelta(microseconds=δ)`; `none` stands for `OverflowError`. -/
def Datetime.minus (t : Datetime) (δ : ℕ) : Option Datetime :=
  if δ ≤ t.micros then some ⟨t.micros - δ, by have := t.in_range; omega⟩ else none

def Datetime.plus (t : Datetime) (δ : ℕ) : Option Datetime :=
  if h : t.micros + δ < MAXORDINAL * DAY then some ⟨t.micros + δ, h⟩ else none

def Datetime.date (t : Datetime) : Date := fromordinal (t.micros / DAY + 1)

/-- A number in decimal, with zeros in front up to a width. -/
def digits : ℕ → ℕ → Text
  | 0, _ => []
  | width + 1, n => digits width (n / 10) ++ [Nat.digitChar (n % 10)]

def date_text (d : Date) : Text :=
  digits 4 d.year ++ '-' :: digits 2 d.month ++ '-' :: digits 2 d.day

def time_text (seconds : ℕ) : Text :=
  'T' :: digits 2 (seconds / 3600) ++ ':' :: digits 2 (seconds / 60 % 60) ++
    ':' :: digits 2 (seconds % 60)

def fraction (micros : ℕ) : Text := if micros = 0 then [] else '.' :: digits 6 micros

def Datetime.isoformat (t : Datetime) : Text :=
  date_text t.date ++ (time_text (t.micros % DAY / 1000000) ++
    (fraction (t.micros % 1000000) ++ "+00:00".toList))

theorem month_day_sound : ∀ leap : Bool, ∀ n < 366, (leap = false → n < 365) →
    days_before_month leap (month_day leap n).1 + (month_day leap n).2 = n + 1 ∧
      (month_day leap n).1 < 100 ∧ (month_day leap n).2 < 100 := by
  decide +kernel

/-- The days before a year, and whether it is a leap year, by its place in its 400,
100 and 4 years. -/
theorem days_before_place {a b c d : ℕ} (hb : b ≤ 3) (hc : c ≤ 24) (hd : d ≤ 3) :
    days_before_year (a * 400 + 1 + b * 100 + c * 4 + d) =
        a * 146097 + b * 36524 + c * 1461 + d * 365 ∧
      is_leap (a * 400 + 1 + b * 100 + c * 4 + d) = (d = 3 && (c ≠ 24 || b = 3)) := by
  constructor
  · unfold days_before_year
    have h4 : (a * 400 + 1 + b * 100 + c * 4 + d - 1) / 4 = a * 100 + b * 25 + c := by omega
    have h100 : (a * 400 + 1 + b * 100 + c * 4 + d - 1) / 100 = a * 4 + b := by omega
    have h400 : (a * 400 + 1 + b * 100 + c * 4 + d - 1) / 400 = a := by omega
    simp only [h4, h100, h400]
    omega
  · unfold is_leap
    rw [Bool.eq_iff_iff]
    simp only [Bool.and_eq_true, Bool.or_eq_true, decide_eq_true_eq, ne_eq]
    omega

theorem toordinal_place {a b c d m k : ℕ} (hb : b ≤ 3) (hc : c ≤ 24) (hd : d ≤ 3) :
    toordinal ⟨a * 400 + 1 + b * 100 + c * 4 + d, m, k⟩ =
      a * 146097 + b * 36524 + c * 1461 + d * 365 +
        (days_before_month (d = 3 && (c ≠ 24 || b = 3)) m + k) := by
  obtain ⟨hdays, hleap⟩ := days_before_place (a := a) hb hc hd
  simp only [toordinal, hdays, hleap]
  omega

theorem days_before_december : days_before_month true 12 = 335 := rfl

/-- `toordinal` undoes `fromordinal`, whose fields have four and two digits. -/
theorem fromordinal_sound {n : ℕ} (hpos : 1 ≤ n) (hmax : n ≤ MAXORDINAL) :
    toordinal (fromordinal n) = n ∧ (fromordinal n).year < 10000 ∧
      (fromordinal n).month < 100 ∧ (fromordinal n).day < 100 := by
  unfold MAXORDINAL at hmax
  obtain ⟨a, ha⟩ : ∃ a, a = (n - 1) / 146097 := ⟨_, rfl⟩
  obtain ⟨r, hr⟩ : ∃ r, r = (n - 1) % 146097 := ⟨_, rfl⟩
  obtain ⟨b, hb⟩ : ∃ b, b = r / 36524 := ⟨_, rfl⟩
  obtain ⟨s, hs⟩ : ∃ s, s = r % 36524 := ⟨_, rfl⟩
  obtain ⟨c, hc⟩ : ∃ c, c = s / 1461 := ⟨_, rfl⟩
  obtain ⟨t, ht⟩ : ∃ t, t = s % 1461 := ⟨_, rfl⟩
  obtain ⟨d, hd⟩ : ∃ d, d = t / 365 := ⟨_, rfl⟩
  obtain ⟨e, he⟩ : ∃ e, e = t % 365 := ⟨_, rfl⟩
  have h400 : n = a * 146097 + r + 1 ∧ r < 146097 := by omega
  have h100 : r = b * 36524 + s ∧ s < 36524 := by omega
  have h4 : s = c * 1461 + t ∧ t < 1461 := by omega
  have h1 : t = d * 365 + e ∧ e < 365 := by omega
  simp only [fromordinal, ← ha, ← hr, ← hb, ← hs, ← hc, ← ht, ← hd, ← he]
  clear ha hr hb hs hc ht hd he
  split
  next hlast =>
      -- the last day of a leap year comes out as the first of the next
      have hyear : ∃ b' c', b' ≤ 3 ∧ c' ≤ 24 ∧ (c' ≠ 24 ∨ b' = 3) ∧ a ≤ 24 ∧
          a * 400 + 1 + b * 100 + c * 4 + d - 1 = a * 400 + 1 + b' * 100 + c' * 4 + 3 ∧
          n = a * 146097 + b' * 36524 + c' * 1461 + 3 * 365 + 366 := by
        rcases hlast with hd4 | hb4
        · exact ⟨b, c, by omega, by omega, by omega, by omega, by omega, by omega⟩
        · exact ⟨3, 24, by omega, by omega, by omega, by omega, by omega, by omega⟩
      obtain ⟨b', c', hb', hc', hleap, ha', hyear, hn⟩ := hyear
      have hplaced := toordinal_place (a := a) (d := 3) (m := 12) (k := 31) hb' hc' le_rfl
      have htrue : (c' ≠ 24 || b' = 3) = true := by simpa using hleap
      simp only [htrue, decide_true, Bool.and_true, days_before_december] at hplaced
      rw [hyear]
      refine ⟨by rw [hplaced]; omega, by simp only; omega, by simp, by simp⟩
  next hlast =>
      have hd3 : d ≤ 3 := by omega
      have hb3 : b ≤ 3 := by omega
      have hc24 : c ≤ 24 := by omega
      obtain ⟨leap, hleap⟩ : ∃ leap : Bool, leap = (d = 3 && (c ≠ 24 || b = 3)) := ⟨_, rfl⟩
      obtain ⟨hday, hmonth, hlt⟩ := month_day_sound leap e (by omega) (fun _ => h1.2)
      have hplaced := toordinal_place (a := a) (m := (month_day leap e).1)
        (k := (month_day leap e).2) hb3 hc24 hd3
      rw [← hleap] at hplaced ⊢
      refine ⟨?_, by simp only; omega, hmonth, hlt⟩
      rw [hplaced, hday]
      omega

@[simp] theorem length_digits (width n : ℕ) : (digits width n).length = width := by
  induction width generalizing n with
  | zero => rfl
  | succ width ih => rw [digits, List.length_append, ih, List.length_singleton]

theorem digitChar_injective : ∀ n < 10, ∀ m < 10, Nat.digitChar n = Nat.digitChar m → n = m := by
  decide

theorem digits_injective {width n m : ℕ} (hn : n < 10 ^ width) (hm : m < 10 ^ width)
    (h : digits width n = digits width m) : n = m := by
  induction width generalizing n m with
  | zero => omega
  | succ width ih =>
      obtain ⟨hinit, hlast⟩ := List.append_inj' h rfl
      have hdigit : n % 10 = m % 10 :=
        digitChar_injective _ (Nat.mod_lt n (by decide)) _ (Nat.mod_lt m (by decide))
          (List.cons.inj hlast).1
      have hrest : n / 10 = m / 10 := by
        apply ih _ _ hinit
        · rw [Nat.pow_succ] at hn
          omega
        · rw [Nat.pow_succ] at hm
          omega
      omega

theorem date_text_injective {d e : Date}
    (hd : d.year < 10000 ∧ d.month < 100 ∧ d.day < 100)
    (he : e.year < 10000 ∧ e.month < 100 ∧ e.day < 100) (h : date_text d = date_text e) :
    d = e := by
  obtain ⟨year, month, day⟩ := d
  obtain ⟨year', month', day'⟩ := e
  obtain ⟨hfront, hday⟩ := List.append_inj h (by simp)
  obtain ⟨hyear, hmonth⟩ := List.append_inj hfront (by simp)
  have h1 := digits_injective hd.1 he.1 hyear
  have h2 := digits_injective hd.2.1 he.2.1 (List.cons.inj hmonth).2
  have h3 := digits_injective hd.2.2 he.2.2 (List.cons.inj hday).2
  simp only at h1 h2 h3
  rw [h1, h2, h3]

theorem time_text_injective {s t : ℕ} (hs : s < 86400) (ht : t < 86400)
    (h : time_text s = time_text t) : s = t := by
  obtain ⟨hfront, hsecond⟩ := List.append_inj h (by simp)
  obtain ⟨hhour, hminute⟩ := List.append_inj hfront (by simp)
  have h1 : s / 3600 = t / 3600 :=
    digits_injective (by omega) (by omega) (List.cons.inj hhour).2
  have h2 : s / 60 % 60 = t / 60 % 60 :=
    digits_injective (by omega) (by omega) (List.cons.inj hminute).2
  have h3 : s % 60 = t % 60 :=
    digits_injective (by omega) (by omega) (List.cons.inj hsecond).2
  omega

theorem fraction_injective {n m : ℕ} (hn : n < 1000000) (hm : m < 1000000)
    (h : fraction n = fraction m) : n = m := by
  unfold fraction at h
  split_ifs at h with h1 h2 h2
  · omega
  · exact digits_injective hn hm (List.cons.inj h).2

theorem Datetime.day_in_range (t : Datetime) :
    1 ≤ t.micros / DAY + 1 ∧ t.micros / DAY + 1 ≤ MAXORDINAL :=
  ⟨Nat.le_add_left 1 _, (Nat.div_lt_iff_lt_mul (by decide)).mpr t.in_range⟩

theorem Datetime.date_sound (t : Datetime) :
    toordinal t.date = t.micros / DAY + 1 ∧ t.date.year < 10000 ∧ t.date.month < 100 ∧
      t.date.day < 100 :=
  fromordinal_sound t.day_in_range.1 t.day_in_range.2

theorem Datetime.seconds_lt (t : Datetime) : t.micros % DAY / 1000000 < 86400 := by
  unfold DAY
  omega

theorem isoformat_injective : Function.Injective Datetime.isoformat := by
  intro t u h
  obtain ⟨hdate, hrest⟩ := List.append_inj h (by simp [date_text])
  obtain ⟨htime, hrest⟩ := List.append_inj hrest (by simp [time_text])
  have hday := congrArg toordinal (date_text_injective t.date_sound.2 u.date_sound.2 hdate)
  rw [t.date_sound.1, u.date_sound.1] at hday
  have hseconds := time_text_injective t.seconds_lt u.seconds_lt htime
  have hmicros := fraction_injective (by omega) (by omega) (List.append_cancel_right hrest)
  ext
  unfold DAY at hday hseconds
  omega

/-- The characters of a number, and of a point of time. -/
def ISO_CHARS : Text := "0123456789-T:.+".toList

theorem mem_digits {width n : ℕ} {c : Char} (h : c ∈ digits width n) : c ∈ ISO_CHARS := by
  induction width generalizing n with
  | zero => cases h
  | succ width ih =>
      rcases List.mem_append.mp h with h | h
      · exact ih h
      · have hdigit : ∀ d < 10, Nat.digitChar d ∈ ISO_CHARS := by decide
        rw [List.mem_singleton.mp h]
        exact hdigit _ (Nat.mod_lt n (by decide))

theorem mem_fraction {n : ℕ} {c : Char} (h : c ∈ fraction n) : c ∈ ISO_CHARS := by
  unfold fraction at h
  split_ifs at h
  · cases h
  · rcases List.mem_cons.mp h with rfl | h
    · decide
    · exact mem_digits h

theorem mem_isoformat {t : Datetime} {c : Char} (h : c ∈ t.isoformat) : c ∈ ISO_CHARS := by
  simp only [Datetime.isoformat, date_text, time_text, List.mem_append, List.mem_cons] at h
  rcases h with (((h | rfl | h) | rfl | h) | (((rfl | h) | rfl | h) | rfl | h) | h | h)
  any_goals exact mem_digits h
  any_goals decide
  · exact mem_fraction h
  · have hzone : "+00:00".toList ⊆ ISO_CHARS := by decide
    exact hzone h

example : (Datetime.mk (738000 * DAY + 3723000004) (by decide)).isoformat =
    "2021-07-30T01:02:03.000004+00:00".toList := by
  decide

end ArticTrader.Datetimes
