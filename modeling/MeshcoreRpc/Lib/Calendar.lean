import Mathlib.Data.Int.ModEq
import Mathlib.Tactic.NormNum

/-!
# The Gregorian calendar

The number of a day from its year, month and day, and the date of a day from
its number, by years that begin in March.
-/

namespace Calendar

/-- A year of 366 days. -/
def isLeap (year : ℤ) : Prop := year % 4 = 0 ∧ (year % 100 ≠ 0 ∨ year % 400 = 0)

instance (year : ℤ) : Decidable (isLeap year) := inferInstanceAs (Decidable (_ ∧ _))

/-- The days before the year, from the year 1 on. -/
def daysBeforeYear (year : ℤ) : ℤ :=
  let y := year - 1
  365 * y + y / 4 - y / 100 + y / 400

/-- The days before each month in a year of 365 days. -/
def daysBefore : ℤ → ℤ
  | 1 => 0
  | 2 => 31
  | 3 => 59
  | 4 => 90
  | 5 => 120
  | 6 => 151
  | 7 => 181
  | 8 => 212
  | 9 => 243
  | 10 => 273
  | 11 => 304
  | _ => 334

def daysBeforeMonth (year month : ℤ) : ℤ :=
  daysBefore month + if 2 < month ∧ isLeap year then 1 else 0

/-- The number of a day: the first day of the year 1 has the number 1. -/
def ordinal (year month day : ℤ) : ℤ := daysBeforeYear year + daysBeforeMonth year month + day

/-- The number of a day by years that begin in March, months from 0 on. -/
def marchOrdinal (year month day : ℤ) : ℤ :=
  365 * year + year / 4 - year / 100 + year / 400 + (153 * month + 2) / 5 + day - 306

theorem ordinal_eq_marchOrdinal {year month day : ℤ} (hlo : 1 ≤ month) (hhi : month ≤ 12) :
    ordinal year month day =
      marchOrdinal (if month ≤ 2 then year - 1 else year)
        (if month ≤ 2 then month + 9 else month - 3) day := by
  have hmonths : month = 1 ∨ month = 2 ∨ month = 3 ∨ month = 4 ∨ month = 5 ∨ month = 6 ∨
      month = 7 ∨ month = 8 ∨ month = 9 ∨ month = 10 ∨ month = 11 ∨ month = 12 := by omega
  have hleap : (year / 4 - year / 100 + year / 400) -
      ((year - 1) / 4 - (year - 1) / 100 + (year - 1) / 400) = if isLeap year then 1 else 0 := by
    unfold isLeap
    split_ifs <;> omega
  unfold ordinal marchOrdinal daysBeforeYear daysBeforeMonth
  dsimp only
  rcases hmonths with rfl | rfl | rfl | rfl | rfl | rfl | rfl | rfl | rfl | rfl | rfl | rfl <;>
    norm_num [daysBefore] <;> (try split_ifs at hleap ⊢) <;> omega

/-! ## From a number to a date -/

/-- The year, from 0 on, of a day of an era of 400 years. -/
def yearOfEra (day : ℤ) : ℤ := (day - day / 1460 + day / 36524 - day / 146096) / 365

def dayOfYear (day : ℤ) : ℤ :=
  day - (365 * yearOfEra day + yearOfEra day / 4 - yearOfEra day / 100)

theorem yearOfEra_range {day : ℤ} (hlo : 0 ≤ day) (hhi : day < 146097) :
    0 ≤ yearOfEra day ∧ yearOfEra day ≤ 399 := by
  unfold yearOfEra
  omega

/-- By the century of the day and that of its year, which differ at most at the edges. -/
theorem dayOfYear_range {day : ℤ} (hlo : 0 ≤ day) (hhi : day < 146097) :
    0 ≤ dayOfYear day ∧ dayOfYear day ≤ 365 := by
  obtain ⟨hyear, hyear'⟩ := yearOfEra_range hlo hhi
  have hdays : day / 36524 = 0 ∨ day / 36524 = 1 ∨ day / 36524 = 2 ∨ day / 36524 = 3 ∨
      day / 36524 = 4 := by omega
  have hyears : yearOfEra day / 100 = 0 ∨ yearOfEra day / 100 = 1 ∨ yearOfEra day / 100 = 2 ∨
      yearOfEra day / 100 = 3 := by omega
  unfold dayOfYear yearOfEra at *
  rcases hdays with h | h | h | h | h <;> rw [h] at hyear hyear' hyears ⊢ <;>
    rcases hyears with h' | h' | h' | h' <;> omega

/-- The date of a day of an era, with its months counted from March. -/
theorem marchOrdinal_of_era {day : ℤ} (hlo : 0 ≤ day) (hhi : day < 146097) (era : ℤ) :
    let doy := dayOfYear day
    let mp := (5 * doy + 2) / 153
    marchOrdinal (yearOfEra day + era * 400) mp (doy - (153 * mp + 2) / 5 + 1) =
      era * 146097 + day - 305 := by
  obtain ⟨hyear, hyear'⟩ := yearOfEra_range hlo hhi
  have hdoy : dayOfYear day =
      day - (365 * yearOfEra day + yearOfEra day / 4 - yearOfEra day / 100) := rfl
  unfold marchOrdinal
  dsimp only
  omega

theorem march_range {doy : ℤ} (hlo : 0 ≤ doy) (hhi : doy ≤ 365) :
    let mp := (5 * doy + 2) / 153
    (0 ≤ mp ∧ mp ≤ 11) ∧ 1 ≤ doy - (153 * mp + 2) / 5 + 1 ∧
      doy - (153 * mp + 2) / 5 + 1 ≤ 31 := by
  dsimp only
  omega

end Calendar
