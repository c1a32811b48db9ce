/-!
# Days of the Gregorian calendar

The number of days from 1970-01-01 to a date, with the calendar extended to all years. Years are shifted to
start in March, so that the leap day is the last day of its year. Main statement: the number grows by one
from each day of a month to the next.
-/

namespace BicepMigration.Calendar

/-- The year that starts in March and holds the month. -/
def marchYear (year month : Nat) : Int :=
  if month ≤ 2 then (year : Int) - 1 else year

/-- Days from the first of March to a day of the month. -/
def dayOfMarchYear (month day : Nat) : Int :=
  ((153 * ((month + 9) % 12) + 2) / 5 : Nat) + (day : Int) - 1

/-- Days from 1970-01-01. Four hundred years always have 146097 days. -/
def dayNumber (year month day : Nat) : Int :=
  let y := marchYear year month
  let era := y / 400
  let yearOfEra := y - era * 400
  let dayOfEra := yearOfEra * 365 + yearOfEra / 4 - yearOfEra / 100 + dayOfMarchYear month day
  era * 146097 + dayOfEra - 719468

/-- Days are counted from the first day of 1970. -/
theorem dayNumber_epoch : dayNumber 1970 1 1 = 0 := by decide

/-- The next day of a month has the next number. -/
theorem dayNumber_succ_day (year month day : Nat) :
    dayNumber year month (day + 1) = dayNumber year month day + 1 := by
  simp only [dayNumber, dayOfMarchYear]
  omega

end BicepMigration.Calendar
