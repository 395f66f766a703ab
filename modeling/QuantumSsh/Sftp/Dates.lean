import Mathlib.Tactic.IntervalCases
import QuantumSsh.Lib.Calendar
import QuantumSsh.Sftp.Basic

/-!
# The dates of a listing

`civil_from_days` counts years from 1 March, in cycles of 400 years that start in a year
divisible by 400. A day of the cycle is taken apart into its century, its group of four
years, its year and its day; what the divisions of the source compute is read off these.
The arithmetic is also followed step by step over `i64`, where it could overflow.
-/

namespace QuantumSsh.Sftp

open Calendar

/-! ### With overflow -/

/-- The result of an `i64` operation, if it does not overflow. -/
def i64 (n : ℤ) : Option ℤ := if -2 ^ 63 ≤ n ∧ n < 2 ^ 63 then some n else none

/-- `civil_from_days`, each operation checked; `/` truncates. -/
def civilFromDaysChecked (days : ℤ) : Option (ℤ × ℕ × ℤ) := do
  let z ← i64 (days + 719468)
  let era := z / 146097
  let doe := z % 146097
  let yoe ← i64 (doe - doe.tdiv 1460)
  let yoe ← i64 (yoe + doe.tdiv 36524)
  let yoe ← i64 (yoe - doe.tdiv 146096)
  let yoe := yoe.tdiv 365
  let start ← i64 (365 * yoe)
  let start ← i64 (start + yoe.tdiv 4)
  let start ← i64 (start - yoe.tdiv 100)
  let doy ← i64 (doe - start)
  let mp ← i64 (5 * doy)
  let mp ← i64 (mp + 2)
  let mp := mp.tdiv 153
  let before ← i64 (153 * mp)
  let before ← i64 (before + 2)
  let day ← i64 (doy - before.tdiv 5)
  let day ← i64 (day + 1)
  let month ← i64 (if mp < 10 then mp + 3 else mp - 9)
  let year ← i64 (era * 400)
  let year ← i64 (yoe + year)
  let year ← i64 (year + if month ≤ 2 then 1 else 0)
  let month ← i64 (month - 1)
  some (year, month.toNat, day)

/-- `i64::saturating_sub`. -/
def saturatingSub (m n : ℤ) : ℤ := max (-2 ^ 63) (min (m - n) (2 ^ 63 - 1))

/-- `ls_date`, each operation checked, and the index into `MONTHS`. -/
def lsDateChecked (mtime now : ℤ) : Option String := do
  let (year, month, day) ← civilFromDaysChecked (mtime / 86400)
  let name ← months[month]?
  if mtime ≤ now ∧ saturatingSub now mtime < 365 * 24 * 60 * 60 / 2 then
    let secs := mtime % 86400
    some (name ++ " " ++ padLeft 2 (toString day) ++ " " ++ twoDigits (secs.tdiv 3600) ++ ":" ++
      twoDigits ((secs.tmod 3600).tdiv 60))
  else some (name ++ " " ++ padLeft 2 (toString day) ++ "  " ++ toString year)

/-! ### A day of the cycle -/

/-- The day `doe` of the 400-year cycle is the day `doy` of the year `y` of the group `q` of the
century `c`. -/
structure InCycle (doe c q y doy : ℤ) : Prop where
  century : 0 ≤ c ∧ c ≤ 3
  group : 0 ≤ q ∧ q ≤ 24
  year : 0 ≤ y ∧ y ≤ 3
  day : 0 ≤ doy
  /-- The 366th day is a 29 February. -/
  fits : doy ≤ 364 ∨ doy = 365 ∧ y = 3 ∧ (q ≠ 24 ∨ c = 3)
  split : doe = 36524 * c + 1461 * q + 365 * y + doy

theorem exists_inCycle {doe : ℤ} (h : 0 ≤ doe ∧ doe < 146097) :
    ∃ c q y doy, InCycle doe c q y doy := by
  -- The last day of a cycle and of a group fall into no century and no year of their own.
  obtain ⟨c, hc⟩ : ∃ c, c = min (doe / 36524) 3 := ⟨_, rfl⟩
  obtain ⟨q, hq⟩ : ∃ q, q = (doe - 36524 * c) / 1461 := ⟨_, rfl⟩
  obtain ⟨y, hy⟩ : ∃ y, y = min ((doe - 36524 * c - 1461 * q) / 365) 3 := ⟨_, rfl⟩
  refine ⟨c, q, y, doe - 36524 * c - 1461 * q - 365 * y, ?_⟩
  constructor <;> omega

section

variable {doe c q y doy : ℤ}

theorem InCycle.bounds (h : InCycle doe c q y doy) : 0 ≤ doe ∧ doe < 146097 := by
  obtain ⟨hc, hq, hy, hdoy, hfits, hsplit⟩ := h
  omega

/-- The divisions of the source find the year. -/
theorem InCycle.yearOfEra (h : InCycle doe c q y doy) :
    (doe - doe / 1460 + doe / 36524 - doe / 146096) / 365 = 100 * c + 4 * q + y := by
  obtain ⟨hc, hq, hy, hdoy, hfits, hsplit⟩ := h
  have hcycles : doe / 146096 = if doe = 146096 then 1 else 0 := by split <;> omega
  have hcenturies : doe / 36524 = if doe = 146096 then 4 else c := by split <;> omega
  have hcentury : doe / 36524 - doe / 146096 = c := by
    rw [hcenturies, hcycles]
    split <;> omega
  have hgroups : doe / 1460 = 25 * c + q + (24 * c + q + 365 * y + doy) / 1460 := by omega
  have hdays : doe - doe / 1460 + doe / 36524 - doe / 146096 =
      36500 * c + 1460 * q + 365 * y + (doy - (24 * c + q + 365 * y + doy) / 1460) := by omega
  rw [hdays]
  omega

/-- The years before take all but the day of the year. -/
theorem InCycle.dayOfYear (h : InCycle doe c q y doy) :
    doe - (365 * (100 * c + 4 * q + y) + (100 * c + 4 * q + y) / 4 - (100 * c + 4 * q + y) / 100) =
      doy := by
  obtain ⟨hc, hq, hy, hdoy, hfits, hsplit⟩ := h
  omega

/-- The year that ends behind the day, on the last of February, is leap when it has 366 days. -/
theorem InCycle.isLeap_iff (h : InCycle doe c q y doy) (era : ℤ) :
    IsLeap (100 * c + 4 * q + y + era * 400 + 1) ↔ y = 3 ∧ (q ≠ 24 ∨ c = 3) := by
  obtain ⟨hc, hq, hy, hdoy, hfits, hsplit⟩ := h
  unfold IsLeap
  omega

theorem InCycle.yearStart (h : InCycle doe c q y doy) (era : ℤ) :
    Calendar.yearStart (100 * c + 4 * q + y + era * 400 + 1) = era * 146097 + (doe - doy) := by
  obtain ⟨hc, hq, hy, hdoy, hfits, hsplit⟩ := h
  unfold Calendar.yearStart
  omega

end

/-! ### Months from March -/

/-- The month of a day of the year that starts on 1 March, and its day; March is month 0. -/
structure InYear (doy mp day : ℤ) : Prop where
  month : 0 ≤ mp ∧ mp ≤ 11
  day_pos : 1 ≤ day
  split : doy = (153 * mp + 2) / 5 + (day - 1)
  fits : doy < (153 * (mp + 1) + 2) / 5

theorem inYear {doy : ℤ} (h : 0 ≤ doy ∧ doy ≤ 365) :
    InYear doy ((5 * doy + 2) / 153) (doy - (153 * ((5 * doy + 2) / 153) + 2) / 5 + 1) := by
  constructor <;> omega

/-- The lengths of the months from March on are those the source spaces them by. -/
theorem monthLength_add_two (year : ℤ) {m : ℕ} (h : m < 10) :
    monthLength year (m + 2) = (153 * (m + 1) + 2) / 5 - (153 * m + 2) / 5 := by
  interval_cases m <;> rfl

theorem monthStart_two (year : ℤ) : monthStart year 2 = yearLength year - 306 := by
  simp only [monthStart, monthLength, yearLength]
  split <;> rfl

theorem monthStart_add_two (year : ℤ) {m : ℕ} (h : m < 10) :
    monthStart year (m + 2) = yearLength year - 306 + (153 * m + 2) / 5 := by
  induction m with
  | zero =>
    rw [monthStart_two]
    simp
  | succ m ih =>
    rw [Nat.add_right_comm, monthStart, ih (by omega), monthLength_add_two year (by omega)]
    omega

/-! ### Dates -/

/-- A date as `civil_from_days` returns it. -/
def triple (d : Date) : ℤ × ℕ × ℤ := (d.year, d.month, d.day)

section

variable {days doe c q y doy mp day : ℤ}

theorem InCycle.doy_le (h : InCycle doe c q y doy) : 0 ≤ doy ∧ doy ≤ 365 := by
  have hfits := h.fits
  exact ⟨h.day, by omega⟩

theorem InCycle.civilFromDays (h : InCycle ((days + 719468) % 146097) c q y doy)
    (hmonth : mp = (5 * doy + 2) / 153) (hday : day = doy - (153 * mp + 2) / 5 + 1) :
    Sftp.civilFromDays days =
      (100 * c + 4 * q + y + (days + 719468) / 146097 * 400 + if mp < 10 then 0 else 1,
        (if mp < 10 then mp + 2 else mp - 10).toNat, day) := by
  have hmp : 0 ≤ mp ∧ mp ≤ 11 := hmonth ▸ (inYear h.doy_le).month
  unfold Sftp.civilFromDays
  simp only [h.yearOfEra, h.dayOfYear, ← hmonth, ← hday]
  split
  · rw [if_neg (by omega), show mp + 3 - 1 = mp + 2 by omega]
  · rw [if_pos (by omega), show mp - 9 - 1 = mp - 10 by omega]

/-- What `civil_from_days` returns is a date, and its day number is the argument. -/
theorem civilFromDays_date (days : ℤ) :
    ∃ d : Date, Sftp.civilFromDays days = triple d ∧ daysFromCivil d = days := by
  obtain ⟨c, q, y, doy, h⟩ := @exists_inCycle ((days + 719468) % 146097) (by omega)
  have hyear := inYear h.doy_le
  have hcivil := h.civilFromDays rfl rfl
  have hstart := h.yearStart ((days + 719468) / 146097)
  have hleap := h.isLeap_iff ((days + 719468) / 146097)
  have hfits := h.fits
  have hdays := Int.mul_ediv_add_emod (days + 719468) 146097
  generalize (5 * doy + 2) / 153 = mp at hyear hcivil
  generalize doy - (153 * mp + 2) / 5 + 1 = day at hyear hcivil
  generalize 100 * c + 4 * q + y + (days + 719468) / 146097 * 400 = year at hcivil hstart hleap
  obtain ⟨hmp, hpos, hsplit, hday⟩ := hyear
  have hepoch : epoch.ordinal = 719162 := by decide
  by_cases hmarch : mp < 10
  · -- From March on the year is the one that began on 1 March.
    obtain ⟨m, rfl⟩ : ∃ m : ℕ, mp = m := ⟨mp.toNat, by omega⟩
    have hm : m < 10 := by omega
    rw [if_pos hmarch, if_pos hmarch] at hcivil
    refine ⟨⟨year, m + 2, day, by omega, hpos, ?_⟩, ?_, ?_⟩
    · rw [monthLength_add_two year hm]
      omega
    · rw [hcivil, triple]
      simp
      omega
    · rw [yearStart_succ] at hstart
      rw [daysFromCivil, hepoch, Date.ordinal]
      dsimp only
      rw [monthStart_add_two year hm]
      omega
  · -- January and February are in the year after.
    rw [if_neg hmarch, if_neg hmarch] at hcivil
    obtain rfl | rfl : mp = 10 ∨ mp = 11 := by omega
    · refine ⟨⟨year + 1, 0, day, by decide, hpos, ?_⟩, hcivil, ?_⟩
      · rw [monthLength]
        omega
        all_goals decide
      · rw [daysFromCivil, hepoch, Date.ordinal]
        dsimp only
        rw [hstart, monthStart]
        omega
    · refine ⟨⟨year + 1, 1, day, by decide, hpos, ?_⟩, hcivil, ?_⟩
      · rw [monthLength]
        split
        · omega
        · next hshort =>
          have hdoy : doy ≤ 364 := hfits.resolve_right fun hlast => hshort (hleap.2 hlast.2)
          omega
      · rw [daysFromCivil, hepoch, Date.ordinal]
        dsimp only
        rw [hstart, monthStart, monthStart, monthLength]
        omega
        all_goals decide

theorem triple_injective {d e : Date} (h : triple d = triple e) : d = e := by
  cases d
  cases e
  simp only [triple, Prod.mk.injEq] at h
  obtain ⟨rfl, rfl, rfl⟩ := h
  rfl

/-- The date of a day is the one with its day number. -/
theorem civilFromDays_eq_iff {d : Date} :
    Sftp.civilFromDays days = triple d ↔ daysFromCivil d = days := by
  obtain ⟨e, he, hdays⟩ := civilFromDays_date days
  rw [he]
  constructor
  · intro h
    rw [← triple_injective h, hdays]
  · intro h
    rw [daysFromCivil_injective (h.trans hdays.symm)]

theorem civilFromDays_add_one {d : Date} (h : daysFromCivil d = days) :
    Sftp.civilFromDays (days + 1) = triple d.next := by
  rw [civilFromDays_eq_iff, daysFromCivil_next, h]

/-! ### No overflow -/

theorem bind_i64 {α : Type} {n : ℤ} {f : ℤ → Option α} (h : -2 ^ 63 ≤ n ∧ n < 2 ^ 63) :
    (i64 n >>= f) = f n := by
  rw [i64, if_pos h]
  rfl

/-- No operation overflows on the day number of an `i64` time. -/
theorem civilFromDaysChecked_eq (hdays : -2 ^ 62 ≤ days ∧ days < 2 ^ 62) :
    civilFromDaysChecked days = some (Sftp.civilFromDays days) := by
  obtain ⟨c, q, y, doy, h⟩ := @exists_inCycle ((days + 719468) % 146097) (by omega)
  have hyoe := h.yearOfEra
  have hdoy := h.dayOfYear
  have hdoy_le := h.doy_le
  have hyear := inYear hdoy_le
  obtain ⟨hdoe, hdoe'⟩ := h.bounds
  obtain ⟨hc, hq, hy, -, -, -⟩ := h
  have hera : -2 ^ 53 ≤ (days + 719468) / 146097 ∧ (days + 719468) / 146097 < 2 ^ 53 := by omega
  -- Each value is small once the day of the cycle is known; the operations are taken in turn.
  unfold civilFromDaysChecked Sftp.civilFromDays
  rw [bind_i64 (by omega)]
  dsimp only
  generalize (days + 719468) / 146097 = era at hera ⊢
  generalize (days + 719468) % 146097 = doe at *
  have hyear' : 0 ≤ 100 * c + 4 * q + y ∧ 100 * c + 4 * q + y ≤ 399 := by omega
  generalize 100 * c + 4 * q + y = yoe at *
  rw [hyoe, hdoy, Int.tdiv_eq_ediv_of_nonneg hdoe, Int.tdiv_eq_ediv_of_nonneg hdoe,
    Int.tdiv_eq_ediv_of_nonneg hdoe]
  rw [bind_i64 (by omega), bind_i64 (by omega), bind_i64 (by omega),
    Int.tdiv_eq_ediv_of_nonneg (a := doe - doe / 1460 + doe / 36524 - doe / 146096) (by omega),
    hyoe]
  rw [Int.tdiv_eq_ediv_of_nonneg hyear'.1, Int.tdiv_eq_ediv_of_nonneg hyear'.1]
  rw [bind_i64 (by omega), bind_i64 (by omega), bind_i64 (by omega), hdoy]
  obtain ⟨hdoy₀, hdoy₁⟩ := hdoy_le
  rw [bind_i64 (by omega), bind_i64 (by omega), bind_i64 (by omega),
    Int.tdiv_eq_ediv_of_nonneg (a := 5 * doy + 2) (by omega)]
  obtain ⟨hmp, -, -, -⟩ := hyear
  generalize (5 * doy + 2) / 153 = mp at hmp ⊢
  rw [bind_i64 (by omega), bind_i64 (by omega),
    Int.tdiv_eq_ediv_of_nonneg (a := 153 * mp + 2) (by omega)]
  rw [bind_i64 (by omega), bind_i64 (by omega), bind_i64 (by split <;> omega),
    bind_i64 (by omega), bind_i64 (by omega), bind_i64 (by split <;> omega),
    bind_i64 (by split <;> omega)]

end

/-- `ls_date` of a month that `MONTHS` has. -/
theorem lsDateChecked_eq {mtime : ℤ} (now : ℤ) (h : -2 ^ 63 ≤ mtime ∧ mtime < 2 ^ 63) :
    lsDateChecked mtime now = some (lsDate mtime now) := by
  obtain ⟨d, hd, -⟩ := civilFromDays_date (mtime / 86400)
  have hname : months[d.month]? = some (months.getD d.month "") := by
    have hlt : d.month < months.length := d.month_lt
    rw [List.getD, List.getElem?_eq_getElem hlt, Option.getD_some]
  -- The saturation below is not reached behind the comparison.
  have hrecent : (mtime ≤ now ∧ saturatingSub now mtime < 365 * 24 * 60 * 60 / 2) ↔
      (mtime ≤ now ∧ min (now - mtime) (2 ^ 63 - 1) < 365 * 24 * 60 * 60 / 2) := by
    unfold saturatingSub
    omega
  have hsecs : 0 ≤ mtime % 86400 := by omega
  unfold lsDateChecked lsDate
  rw [civilFromDaysChecked_eq (by omega), hd]
  simp only [triple, bind, Option.bind, hname]
  rw [if_congr hrecent rfl rfl, Int.tdiv_eq_ediv_of_nonneg hsecs, Int.tmod_eq_emod_of_nonneg hsecs,
    Int.tdiv_eq_ediv_of_nonneg (by omega)]
  split <;> rfl

/-- The date of every time is computed without overflow, and is the date of its day: a valid
one, the only one with that day number, and followed by the next date on the next day. -/
theorem ls_dates {mtime : ℤ} (now : ℤ) (h : -2 ^ 63 ≤ mtime ∧ mtime < 2 ^ 63) :
    lsDateChecked mtime now = some (lsDate mtime now) ∧
      ∃ d : Date, civilFromDays (mtime / 86400) = triple d ∧
        (∀ e, daysFromCivil e = mtime / 86400 ↔ e = d) ∧
        civilFromDays (mtime / 86400 + 1) = triple d.next := by
  refine ⟨lsDateChecked_eq now h, ?_⟩
  obtain ⟨d, hd, hdays⟩ := civilFromDays_date (mtime / 86400)
  refine ⟨d, hd, fun e => ⟨fun he => ?_, fun he => he ▸ hdays⟩, civilFromDays_add_one hdays⟩
  exact daysFromCivil_injective (he.trans hdays.symm)

/-- A leap day at a turn of the century. -/
theorem ls_dates_leapDay :
    civilFromDays (951782400 / 86400) = (2000, 1, 29) ∧
      civilFromDays (951782400 / 86400 + 1) = (2000, 2, 1) ∧
      lsDateChecked 951782400 0 = some (lsDate 951782400 0) ∧
      ∃ d : Date, civilFromDays (951782400 / 86400) = triple d ∧
        (∀ e, daysFromCivil e = 951782400 / 86400 ↔ e = d) ∧
        civilFromDays (951782400 / 86400 + 1) = triple d.next :=
  ⟨by decide, by decide, ls_dates 0 (by decide)⟩

end QuantumSsh.Sftp
