import Mathlib
import BicepMigration.Catalog.Calendar

/-!
# Lengths of months

The first day of a month comes after the first day of the month before it by as many days as that month has; the leap day
is the last day of February. So the first days of months come one after another, and days of a month come before all days
of later months. Days that a month does not have are counted into the months after it.
-/

namespace BicepMigration.Calendar

/-- The year has a leap day. -/
def isLeap (year : Nat) : Bool := year % 4 = 0 && (year % 100 ≠ 0 || year % 400 = 0)

/-- The number of days of a month. -/
def daysIn (year month : Nat) : Nat :=
  if month = 2 then (if isLeap year then 29 else 28)
  else if month = 4 || month = 6 || month = 9 || month = 11 then 30
  else 31

/-- Days before a year that starts in March. -/
def marchYearStart (year : Int) : Int := 365 * year + year / 4 - year / 100 + year / 400

/-- The leap days of all years are counted at once. -/
theorem dayNumber_eq (year month day : Nat) :
    dayNumber year month day = marchYearStart (marchYear year month) + dayOfMarchYear month day - 719468 := by
  simp only [dayNumber, marchYearStart]
  generalize marchYear year month = y
  omega

/-- The days of a month follow its first day. -/
theorem dayNumber_eq_first (year month day : Nat) :
    dayNumber year month day = dayNumber year month 1 + (day - 1) := by
  simp only [dayNumber_eq, dayOfMarchYear]
  omega

/-- A year that starts in March ends with the days of February. -/
theorem marchYearStart_sub (year : Nat) :
    marchYearStart year - marchYearStart (year - 1) = 337 + daysIn year 2 := by
  have hdays : daysIn year 2 = if isLeap year then 29 else 28 := rfl
  rw [hdays]
  simp only [marchYearStart, isLeap, Bool.and_eq_true, Bool.or_eq_true, decide_eq_true_eq, ne_eq]
  split <;> omega

/-- The first day of a month comes after that of the month before it by the length of that month. -/
theorem dayNumber_next_month (year : Nat) {month : Nat} (hpos : 1 ≤ month) (hlast : month < 12) :
    dayNumber year (month + 1) 1 = dayNumber year month 1 + daysIn year month := by
  by_cases hfebruary : month = 2
  · -- March starts the next year
    subst hfebruary
    have hsub := marchYearStart_sub year
    rw [dayNumber_eq, dayNumber_eq, show marchYear year (2 + 1) = year from rfl,
      show marchYear year 2 = year - 1 from rfl]
    unfold dayOfMarchYear
    omega
  · have hyear : marchYear year (month + 1) = marchYear year month := by
      unfold marchYear
      split <;> split <;> omega
    rw [dayNumber_eq, dayNumber_eq, hyear]
    unfold dayOfMarchYear daysIn
    interval_cases month <;> simp at hfebruary ⊢ <;> omega

/-- A year starts after the last day of the December before it. -/
theorem dayNumber_next_year (year : Nat) : dayNumber (year + 1) 1 1 = dayNumber year 12 1 + daysIn year 12 := by
  have hyear : marchYear (year + 1) 1 = marchYear year 12 := by
    simp only [marchYear]
    omega
  rw [dayNumber_eq, dayNumber_eq, hyear]
  simp [dayOfMarchYear, daysIn]
  omega

/-- The first day of a month, where months are counted from the year zero on. -/
def monthStart (n : Nat) : Int := dayNumber (n / 12) (n % 12 + 1) 1

/-- A month starts as many days after the month before it as that one has. -/
theorem monthStart_succ (n : Nat) : monthStart (n + 1) = monthStart n + daysIn (n / 12) (n % 12 + 1) := by
  unfold monthStart
  by_cases hlast : n % 12 = 11
  · rw [show (n + 1) / 12 = n / 12 + 1 by omega, show (n + 1) % 12 = 0 by omega, hlast]
    exact dayNumber_next_year (n / 12)
  · rw [show (n + 1) / 12 = n / 12 by omega, show (n + 1) % 12 = n % 12 + 1 by omega]
    exact dayNumber_next_month (n / 12) (by omega) (by omega)

/-- Later months do not start earlier. -/
theorem monthStart_mono : Monotone monthStart := by
  refine monotone_nat_of_le_succ fun n => ?_
  rw [monthStart_succ]
  omega

/-- The days that a month has come before the first day of every later month. -/
theorem dayNumber_lt_first {year month day year' month' : Nat} (hmonth : 1 ≤ month ∧ month ≤ 12)
    (hmonth' : 1 ≤ month' ∧ month' ≤ 12) (hday : day ≤ daysIn year month)
    (h : year < year' ∨ year = year' ∧ month < month') : dayNumber year month day < dayNumber year' month' 1 := by
  have hstart {y m : Nat} (hm : 1 ≤ m ∧ m ≤ 12) : dayNumber y m 1 = monthStart (12 * y + (m - 1)) := by
    rw [monthStart, show (12 * y + (m - 1)) / 12 = y by omega, show (12 * y + (m - 1)) % 12 + 1 = m by omega]
  have hle : monthStart (12 * year + (month - 1) + 1) ≤ monthStart (12 * year' + (month' - 1)) :=
    monthStart_mono (by omega)
  rw [monthStart_succ, show (12 * year + (month - 1)) / 12 = year by omega,
    show (12 * year + (month - 1)) % 12 + 1 = month by omega, ← hstart hmonth, ← hstart hmonth'] at hle
  rw [dayNumber_eq_first]
  omega

/-- Dates are numbered in order, if the earlier one is a day that its month has. -/
theorem dayNumber_le {year month day year' month' day' : Nat} (hmonth : 1 ≤ month ∧ month ≤ 12)
    (hmonth' : 1 ≤ month' ∧ month' ≤ 12) (hday : day ≤ daysIn year month) (hday' : 1 ≤ day')
    (h : year < year' ∨ year = year' ∧ (month < month' ∨ month = month' ∧ day ≤ day')) :
    dayNumber year month day ≤ dayNumber year' month' day' := by
  have hfirst := dayNumber_eq_first year' month' day'
  rcases h with hyear | ⟨rfl, hlater | ⟨rfl, hle⟩⟩
  · have hlt := dayNumber_lt_first hmonth hmonth' hday (.inl hyear)
    omega
  · have hlt := dayNumber_lt_first hmonth hmonth' hday (.inr ⟨rfl, hlater⟩)
    omega
  · rw [dayNumber_eq_first year month day, hfirst]
    omega

end BicepMigration.Calendar
