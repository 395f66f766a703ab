import Mathlib.Data.Int.Order.Basic
import Mathlib.Data.Nat.Init

/-!
# The proleptic Gregorian calendar

Dates of the Gregorian calendar, extended to all years, and their place in the order of
days: the years and months before a date are counted by their lengths. A date is told by
its place, and the next date has the next place.
-/

namespace Calendar

/-- A year of 366 days. -/
def IsLeap (year : ℤ) : Prop := year % 4 = 0 ∧ (year % 100 ≠ 0 ∨ year % 400 = 0)

instance : DecidablePred IsLeap := fun year =>
  inferInstanceAs (Decidable (year % 4 = 0 ∧ (year % 100 ≠ 0 ∨ year % 400 = 0)))

def yearLength (year : ℤ) : ℤ := if IsLeap year then 366 else 365

/-- The length of a month; January is month 0. -/
def monthLength (year : ℤ) : ℕ → ℤ
  | 1 => if IsLeap year then 29 else 28
  | 3 | 5 | 8 | 10 => 30
  | _ => 31

/-- A date; January is month 0. -/
structure Date where
  year : ℤ
  month : ℕ
  day : ℤ
  month_lt : month < 12
  day_pos : 1 ≤ day
  day_le : day ≤ monthLength year month

/-- The days before a year, from the start of year 1. -/
def yearStart (year : ℤ) : ℤ :=
  365 * (year - 1) + (year - 1) / 4 - (year - 1) / 100 + (year - 1) / 400

/-- The days of a year before a month. -/
def monthStart (year : ℤ) : ℕ → ℤ
  | 0 => 0
  | month + 1 => monthStart year month + monthLength year month

/-- The days before a date, from the start of year 1. -/
def Date.ordinal (d : Date) : ℤ := yearStart d.year + monthStart d.year d.month + (d.day - 1)

theorem one_le_monthLength (year : ℤ) (month : ℕ) : 1 ≤ monthLength year month := by
  unfold monthLength
  split
  · split <;> decide
  all_goals decide

/-- The date of the day after. -/
def Date.next (d : Date) : Date :=
  if hday : d.day < monthLength d.year d.month then
    { d with
      day := d.day + 1
      day_pos := by have := d.day_pos; omega
      day_le := hday }
  else if hmonth : d.month + 1 < 12 then
    { year := d.year
      month := d.month + 1
      day := 1
      month_lt := hmonth
      day_pos := le_rfl
      day_le := one_le_monthLength .. }
  else
    { year := d.year + 1
      month := 0
      day := 1
      month_lt := by decide
      day_pos := le_rfl
      day_le := one_le_monthLength .. }

/-- 1970-01-01. -/
def epoch : Date := ⟨1970, 0, 1, by decide, by decide, by decide⟩

/-- The days from 1970-01-01 to a date. -/
def daysFromCivil (d : Date) : ℤ := d.ordinal - epoch.ordinal

/-! ### Years and months -/

theorem yearStart_succ (year : ℤ) : yearStart (year + 1) = yearStart year + yearLength year := by
  unfold yearStart yearLength
  split
  · next hleap =>
    unfold IsLeap at hleap
    omega
  · next hleap =>
    unfold IsLeap at hleap
    omega

theorem yearStart_add_le {y y' : ℤ} (h : y < y') : yearStart y + yearLength y ≤ yearStart y' := by
  rw [← yearStart_succ]
  unfold yearStart
  omega

/-- The months make up the year. -/
theorem monthStart_twelve (year : ℤ) : monthStart year 12 = yearLength year := by
  simp only [monthStart, monthLength, yearLength]
  split <;> rfl

theorem monthStart_add_le (year : ℤ) {m m' : ℕ} (h : m < m') :
    monthStart year m + monthLength year m ≤ monthStart year m' := by
  induction m', h using Nat.le_induction with
  | base => exact le_rfl
  | succ m' _ ih =>
    have hlength := one_le_monthLength year m'
    rw [monthStart]
    omega

/-! ### Dates -/

/-- A date lies in its month. -/
theorem Date.ordinal_lt (d : Date) :
    d.ordinal < yearStart d.year + monthStart d.year d.month + monthLength d.year d.month := by
  have hday := d.day_le
  unfold ordinal
  omega

theorem Date.le_ordinal (d : Date) :
    yearStart d.year + monthStart d.year d.month ≤ d.ordinal := by
  have hday := d.day_pos
  unfold ordinal
  omega

theorem monthStart_nonneg (year : ℤ) (m : ℕ) : 0 ≤ monthStart year m := by
  induction m with
  | zero => exact le_rfl
  | succ m ih =>
    have hlength := one_le_monthLength year m
    rw [monthStart]
    omega

/-- A date lies in its year. -/
theorem Date.ordinal_lt_year (d : Date) : d.ordinal < yearStart d.year + yearLength d.year := by
  have hlt := d.ordinal_lt
  have hmonth := monthStart_add_le d.year d.month_lt
  rw [monthStart_twelve] at hmonth
  omega

theorem Date.ordinal_lt_of_year {d e : Date} (h : d.year < e.year) : d.ordinal < e.ordinal := by
  have hd := d.ordinal_lt_year
  have hyears := yearStart_add_le h
  have hmonth := monthStart_nonneg e.year e.month
  have he := e.le_ordinal
  omega

theorem Date.ordinal_lt_of_month {d e : Date} (hyear : d.year = e.year) (h : d.month < e.month) :
    d.ordinal < e.ordinal := by
  have hd := d.ordinal_lt
  have hmonths := monthStart_add_le d.year h
  have he := e.le_ordinal
  rw [← hyear] at he
  omega

/-- A date is told by the days before it. -/
theorem Date.ordinal_injective {d e : Date} (h : d.ordinal = e.ordinal) : d = e := by
  -- The years cannot differ, then the months cannot, and then the days cannot.
  have hyear : d.year = e.year := by
    obtain hlt | heq | hgt := Int.lt_trichotomy d.year e.year
    · exact absurd h (Int.ne_of_lt (ordinal_lt_of_year hlt))
    · exact heq
    · exact absurd h.symm (Int.ne_of_lt (ordinal_lt_of_year hgt))
  have hmonth : d.month = e.month := by
    obtain hlt | heq | hgt := Nat.lt_trichotomy d.month e.month
    · exact absurd h (Int.ne_of_lt (ordinal_lt_of_month hyear hlt))
    · exact heq
    · exact absurd h.symm (Int.ne_of_lt (ordinal_lt_of_month hyear.symm hgt))
  have hday : d.day = e.day := by
    unfold ordinal at h
    rw [hyear, hmonth] at h
    omega
  cases d
  cases e
  simp only at hyear hmonth hday
  subst hyear hmonth hday
  rfl

/-- The next date is a day later. -/
theorem Date.ordinal_next (d : Date) : d.next.ordinal = d.ordinal + 1 := by
  have hle := d.day_le
  unfold next
  split
  · next hday =>
    unfold ordinal
    dsimp only
    omega
  · next hday =>
    split
    · next hmonth =>
      unfold ordinal
      dsimp only
      rw [monthStart]
      omega
    · next hmonth =>
      have hlast : d.month = 11 := by have := d.month_lt; omega
      have htwelve := monthStart_twelve d.year
      rw [monthStart] at htwelve
      unfold ordinal
      dsimp only
      rw [yearStart_succ, hlast, monthStart]
      rw [hlast] at hday hle
      omega

theorem daysFromCivil_injective {d e : Date} (h : daysFromCivil d = daysFromCivil e) : d = e := by
  unfold daysFromCivil at h
  exact Date.ordinal_injective (by omega)

theorem daysFromCivil_next (d : Date) : daysFromCivil d.next = daysFromCivil d + 1 := by
  unfold daysFromCivil
  rw [d.ordinal_next]
  omega

end Calendar
