import ArticTrader.Datetimes
import Mathlib.Data.Int.Basic
import Mathlib.Data.Nat.Digits.Defs

/-!
How Python 3.12 reads a date in ISO 8601: `YYYY-MM-DD`, `YYYYMMDD` or a date by
weeks, then any one character and a time of hours, minutes, seconds and their
fraction, then a zone. A date without a zone is taken as UTC here.
-/

namespace ArticTrader.IsoDates

open Datetimes
open PythonText (Text)

def iso_char (c : Char) : Bool := c.isDigit || "-:.,+WZ".toList.contains c

/-- A number of one digit or more. -/
def number (s : Text) : Option ℕ :=
  if s ≠ [] ∧ s.all Char.isDigit then
    some (s.foldl (fun n c => 10 * n + (c.toNat - '0'.toNat)) 0)
  else none

def calendar_date (year month day : Text) : Option ℕ := do
  let d : Date := ⟨← number year, ← number month, ← number day⟩
  guard (1 ≤ d.year ∧ 1 ≤ d.month ∧ d.month ≤ 12 ∧ 1 ≤ d.day ∧
    d.day ≤ days_in_month (is_leap d.year) d.month)
  return toordinal d

/-- The Monday of the first week, the week of the first Thursday. -/
def iso_week1_monday (year : ℕ) : ℤ :=
  let firstday : ℤ := toordinal ⟨year, 1, 1⟩
  let firstweekday := (firstday + 6) % 7
  if 3 < firstweekday then firstday - firstweekday + 7 else firstday - firstweekday

def week_date (year week day : Text) : Option ℕ := do
  let year ← number year
  let week ← number week
  let day ← number day
  let monday := iso_week1_monday year
  let ordinal := monday + 7 * (week - 1) + (day - 1)
  guard (1 ≤ year ∧ 1 ≤ week ∧ monday + 7 * week ≤ iso_week1_monday (year + 1) ∧ 1 ≤ day ∧
    day ≤ 7 ∧ 1 ≤ ordinal)
  return ordinal.toNat

def parse_date (s : Text) : Option ℕ :=
  match s.drop 4 with
  | ['-', 'W', w, w'] => week_date (s.take 4) [w, w'] ['1']
  | ['-', 'W', w, w', '-', d] => week_date (s.take 4) [w, w'] [d]
  | ['W', w, w'] => week_date (s.take 4) [w, w'] ['1']
  | ['W', w, w', d] => week_date (s.take 4) [w, w'] [d]
  | ['-', m, m', '-', d, d'] => calendar_date (s.take 4) [m, m'] [d, d']
  | [m, m', d, d'] => calendar_date (s.take 4) [m, m'] [d, d']
  | _ => none

/-- Microseconds; digits past the sixth are dropped. -/
def parse_fraction (s : Text) : Option ℕ :=
  match s with
  | [] => some 0
  | c :: f =>
      if c = '.' ∨ c = ',' then (number f).bind fun _ => number ((f ++ "000000".toList).take 6)
      else none

def clock (hour minute second fraction : Text) : Option ℕ := do
  let hour ← number hour
  let minute ← number minute
  let second ← number second
  let micros ← parse_fraction fraction
  guard (hour < 24 ∧ minute < 60 ∧ second < 60)
  return 1000000 * (3600 * hour + 60 * minute + second) + micros

def parse_clock (s : Text) : Option ℕ :=
  match s with
  | [h, h'] => clock [h, h'] ['0'] ['0'] []
  | [h, h', ':', m, m'] => clock [h, h'] [m, m'] ['0'] []
  | h :: h' :: ':' :: m :: m' :: ':' :: t :: t' :: f => clock [h, h'] [m, m'] [t, t'] f
  | [h, h', m, m'] => clock [h, h'] [m, m'] ['0'] []
  | h :: h' :: m :: m' :: t :: t' :: f => clock [h, h'] [m, m'] [t, t'] f
  | _ => none

def zone_char (c : Char) : Bool := c = '+' || c = '-' || c = 'Z'

/-- Microseconds of the day in UTC. -/
def parse_time (s : Text) : Option ℤ := do
  let time ← parse_clock (s.takeWhile fun c => !zone_char c)
  match s.dropWhile fun c => !zone_char c with
  | [] => return time
  | ['Z'] => return time
  | c :: zone =>
      let offset ← parse_clock zone
      if c = '+' then return time - offset
      else if c = '-' then return time + offset
      else none

/-- Where the date ends, for a text of seven characters or more. -/
def separator (s : Text) : Option ℕ :=
  if s.length = 7 then some 7
  else if s[4]? = some '-' then
    if s[5]? = some 'W' then
      if s[8]? = some '-' then
        if s.length = 9 then none
        else if (s[10]?.map Char.isDigit).getD false then some 8
        else some 10
      else some 8
    else some 10
  else if s[4]? = some 'W' then
    let idx := 7 + ((s.drop 7).takeWhile Char.isDigit).length
    if idx < 9 then some idx
    else if idx % 2 = 0 then some 7
    else some 8
  else some 8

def fromisoformat (s : Text) : Option ℤ := do
  guard (7 ≤ s.length)
  let n ← separator s
  let ordinal ← parse_date (s.take n)
  let midnight : ℤ := DAY * (ordinal - 1)
  match s.drop n with
  | [] => return midnight
  | _ :: time => return midnight + (← parse_time time)

theorem iso_of_number {s : Text} {n : ℕ} (h : number s = some n) : s.all iso_char = true := by
  unfold number at h
  split at h
  next hdigits =>
      rw [List.all_eq_true] at hdigits ⊢
      intro c hc
      rw [iso_char, hdigits.2 c hc, Bool.true_or]
  next => nomatch h

theorem iso_of_calendar_date {year month day : Text} {n : ℕ}
    (h : calendar_date year month day = some n) :
    year.all iso_char = true ∧ month.all iso_char = true ∧ day.all iso_char = true := by
  simp only [calendar_date, Option.bind_eq_bind, Option.bind_eq_some_iff] at h
  obtain ⟨_, hyear, _, hmonth, _, hday, -⟩ := h
  exact ⟨iso_of_number hyear, iso_of_number hmonth, iso_of_number hday⟩

theorem iso_of_week_date {year week day : Text} {n : ℕ} (h : week_date year week day = some n) :
    year.all iso_char = true ∧ week.all iso_char = true ∧ day.all iso_char = true := by
  simp only [week_date, Option.bind_eq_bind, Option.bind_eq_some_iff] at h
  obtain ⟨_, hyear, _, hweek, _, hday, -⟩ := h
  exact ⟨iso_of_number hyear, iso_of_number hweek, iso_of_number hday⟩

theorem iso_of_parse_date {s : Text} {n : ℕ} (h : parse_date s = some n) :
    s.all iso_char = true := by
  rw [← List.take_append_drop 4 s, List.all_append]
  have hdash : iso_char '-' = true := by decide
  have hweek : iso_char 'W' = true := by decide
  unfold parse_date at h
  split at h
  next w w' hrest =>
      have := iso_of_week_date h
      simp_all
  next w w' d hrest =>
      have := iso_of_week_date h
      simp_all
  next w w' hrest =>
      have := iso_of_week_date h
      simp_all
  next w w' d hrest =>
      have := iso_of_week_date h
      simp_all
  next m m' d d' hrest =>
      have := iso_of_calendar_date h
      simp_all
  next m m' d d' hrest =>
      have := iso_of_calendar_date h
      simp_all
  next => nomatch h

theorem iso_of_parse_fraction {s : Text} {n : ℕ} (h : parse_fraction s = some n) :
    s.all iso_char = true := by
  unfold parse_fraction at h
  split at h
  next => rfl
  next c f =>
      split at h
      next hc =>
          obtain ⟨_, hf, -⟩ := Option.bind_eq_some_iff.mp h
          rw [List.all_cons, iso_of_number hf, Bool.and_true]
          rcases hc with rfl | rfl <;> decide
      next => nomatch h

theorem iso_of_clock {hour minute second fraction : Text} {n : ℕ}
    (h : clock hour minute second fraction = some n) :
    hour.all iso_char = true ∧ minute.all iso_char = true ∧ second.all iso_char = true ∧
      fraction.all iso_char = true := by
  simp only [clock, Option.bind_eq_bind, Option.bind_eq_some_iff] at h
  obtain ⟨_, hhour, _, hminute, _, hsecond, _, hfraction, -⟩ := h
  exact ⟨iso_of_number hhour, iso_of_number hminute, iso_of_number hsecond,
    iso_of_parse_fraction hfraction⟩

theorem iso_of_parse_clock {s : Text} {n : ℕ} (h : parse_clock s = some n) :
    s.all iso_char = true := by
  have hcolon : iso_char ':' = true := by decide
  unfold parse_clock at h
  split at h
  next => simpa using (iso_of_clock h).1
  next =>
      have := iso_of_clock h
      simp_all
  next =>
      have := iso_of_clock h
      simp_all
  next =>
      have := iso_of_clock h
      simp_all
  next =>
      have := iso_of_clock h
      simp_all
  next => nomatch h

theorem iso_of_parse_time {s : Text} {t : ℤ} (h : parse_time s = some t) :
    s.all iso_char = true := by
  rw [← List.takeWhile_append_dropWhile (p := fun c => !zone_char c) (l := s), List.all_append]
  simp only [parse_time, Option.bind_eq_bind, Option.bind_eq_some_iff] at h
  obtain ⟨time, htime, h⟩ := h
  rw [iso_of_parse_clock htime, Bool.true_and]
  split at h
  next hrest => rw [hrest]; rfl
  next hrest => rw [hrest]; decide
  next c zone hz hrest =>
      rw [hrest]
      obtain ⟨offset, hoffset, h⟩ := Option.bind_eq_some_iff.mp h
      rw [List.all_cons, iso_of_parse_clock hoffset, Bool.and_true]
      split at h
      next hc =>
          rw [hc]
          decide
      next =>
          split at h
          next hc =>
              rw [hc]
              decide
          next => nomatch h

/-- One character at most of a date that is read, the one before its time, is not of
ISO 8601. -/
theorem others_le_one {s : Text} {t : ℤ} (h : fromisoformat s = some t) :
    (s.filter fun c => !iso_char c).length ≤ 1 := by
  have hnone {s : Text} (hs : s.all iso_char = true) : (s.filter fun c => !iso_char c) = [] := by
    rw [List.filter_eq_nil_iff]
    intro c hc
    rw [List.all_eq_true.mp hs c hc]
    decide
  simp only [fromisoformat, Option.bind_eq_bind, Option.bind_eq_some_iff] at h
  obtain ⟨_, -, n, -, ordinal, hdate, h⟩ := h
  rw [← List.take_append_drop n s, List.filter_append, hnone (iso_of_parse_date hdate),
    List.nil_append]
  split at h
  next hrest =>
      rw [hrest]
      exact Nat.zero_le 1
  next c time hrest =>
      obtain ⟨_, htime, -⟩ := Option.bind_eq_some_iff.mp h
      rw [hrest, ← List.singleton_append, List.filter_append, hnone (iso_of_parse_time htime),
        List.append_nil]
      exact List.length_filter_le _ [c]

example : fromisoformat "2025-01-01\n10:00:00.5+02:00".toList = some 63871315200500000 := by
  decide

end ArticTrader.IsoDates
