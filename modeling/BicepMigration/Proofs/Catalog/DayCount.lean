import BicepMigration.Proofs.Catalog.CalendarDates
import BicepMigration.Proofs.Catalog.NarrowRanges
import BicepMigration.Proofs.Number.CheckedArithmetic

/-!
# The count of days

Days are counted by a formula, which is computed in integers of 64 bits. Years are shifted by one for January and February,
so the year before the year zero comes up, and it belongs to an era of its own. Main statement: the formula counts the dates
of the calendar one by one from the epoch on, and each step of its computation stays within 64 bits, whatever the year of
16 bits and the month and day of 8 bits.
-/

namespace BicepMigration.Calendar

open Number

section Words

/-- The year that starts in March and holds the month. -/
def marchYear? (year month : Int64) : Option Int64 := if month ≤ 2 then sub? year 1 else some year

/-- Days from the first of March to a day of the month. -/
def dayOfMarchYear? (month day : Int64) : Option Int64 := do
  let fromMarch ← remainder? (← add? month 9) 12
  let daysBefore ← quotient? (← add? (← mul? 153 fromMarch) 2) 5
  sub? (← add? daysBefore day) 1

/-- Days from the start of four hundred years to a day of one of these years. -/
def dayOfEra? (yearOfEra dayOfYear : Int64) : Option Int64 := do
  let days ← add? (← mul? yearOfEra 365) (← quotient? yearOfEra 4)
  add? (← sub? days (← quotient? yearOfEra 100)) dayOfYear

/-- Days from 1970-01-01, computed step by step. -/
def dayNumber? (year month day : Int64) : Option Int64 := do
  let y ← marchYear? year month
  let era ← euclideanQuotient? y 400
  let yearOfEra ← sub? y (← mul? era 400)
  let dayOfEra ← dayOfEra? yearOfEra (← dayOfMarchYear? month day)
  sub? (← add? (← mul? era 146097) dayOfEra) 719468

variable {a b : Int64} {year month day : ℕ}

/-- A year that starts in March has a number of 16 bits, or it is the one before the year zero. -/
theorem marchYear_mem (hyear : year < 65536) (month : ℕ) : -1 ≤ marchYear year month ∧ marchYear year month < 65536 := by
  unfold marchYear
  split <;> omega

/-- The day of a year that starts in March is small, whatever the month. -/
theorem dayOfMarchYear_mem (month : ℕ) (hday : day < 256) :
    -1 ≤ dayOfMarchYear month day ∧ dayOfMarchYear month day < 600 := by
  unfold dayOfMarchYear
  omega

/-- The year that starts in March is found without an overflow. -/
theorem yields_marchYear? (ha : a.toInt = year) (hb : b.toInt = month) (hyear : year < 65536) :
    Yields (marchYear? a b) (marchYear year month) := by
  have hmonth : b ≤ 2 ↔ month ≤ 2 := by
    rw [Int64.le_iff_toInt_le, hb]
    exact Int.ofNat_le
  unfold marchYear? marchYear
  simp only [hmonth]
  split
  · exact yields_sub? (n := 1) ha rfl (isWord_iff.2 (by omega))
  · exact yields_iff.2 ⟨a, rfl, ha⟩

/-- The day of that year is found without an overflow. -/
theorem yields_dayOfMarchYear? (ha : a.toInt = month) (hb : b.toInt = day) (hmonth : month < 256) (hday : day < 256) :
    Yields (dayOfMarchYear? a b) (dayOfMarchYear month day) := by
  have hexact : dayOfMarchYear month day = (153 * ((month + 9) % 12) + 2) / 5 + (day : Int) - 1 := by
    unfold dayOfMarchYear
    push_cast
    rfl
  rw [hexact]
  refine (yields_add? (n := 9) ha rfl (isWord_iff.2 (by omega))).bind fun _ hshifted => ?_
  refine (yields_remainder? (n := 12) hshifted rfl (by omega) (by decide) (isWord_iff.2 (by omega))
    (isWord_iff.2 (by omega))).bind fun _ hfromMarch => ?_
  refine (yields_mul? (m := 153) rfl hfromMarch (isWord_iff.2 (by omega))).bind fun _ hproduct => ?_
  refine (yields_add? (n := 2) hproduct rfl (isWord_iff.2 (by omega))).bind fun _ hsum => ?_
  refine (yields_quotient? (n := 5) hsum rfl (by omega) (by decide) (isWord_iff.2 (by omega))).bind fun _ hbefore => ?_
  refine (yields_add? hbefore hb (isWord_iff.2 (by omega))).bind fun _ hlast => ?_
  exact yields_sub? (n := 1) hlast rfl (isWord_iff.2 (by omega))

/-- The day of an era of 400 years is found without an overflow. -/
theorem yields_dayOfEra? {yearOfEra dayOfYear : Int} (ha : a.toInt = yearOfEra) (hb : b.toInt = dayOfYear)
    (hyear : 0 ≤ yearOfEra ∧ yearOfEra < 400) (hday : -1 ≤ dayOfYear ∧ dayOfYear < 600) :
    Yields (dayOfEra? a b) (yearOfEra * 365 + yearOfEra / 4 - yearOfEra / 100 + dayOfYear) := by
  refine (yields_mul? (n := 365) ha rfl (isWord_iff.2 (by omega))).bind fun _ hyears => ?_
  refine (yields_quotient? (n := 4) ha rfl hyear.1 (by decide) (isWord_iff.2 (by omega))).bind fun _ hfourth => ?_
  refine (yields_add? hyears hfourth (isWord_iff.2 (by omega))).bind fun _ hdays => ?_
  refine (yields_quotient? (n := 100) ha rfl hyear.1 (by decide) (isWord_iff.2 (by omega))).bind fun _ hcentury => ?_
  refine (yields_sub? hdays hcentury (isWord_iff.2 (by omega))).bind fun _ hleap => ?_
  exact yields_add? hleap hb (isWord_iff.2 (by omega))

/-- No step of the count leaves the integers of 64 bits. -/
theorem yields_dayNumber? {c : Int64} (ha : a.toInt = year) (hb : b.toInt = month) (hc : c.toInt = day)
    (hyear : year < 65536) (hmonth : month < 256) (hday : day < 256) :
    Yields (dayNumber? a b c) (dayNumber year month day) := by
  have hy := marchYear_mem hyear month
  have hd := dayOfMarchYear_mem month hday
  unfold dayNumber
  refine (yields_marchYear? ha hb hyear).bind fun _ hshifted => ?_
  generalize marchYear year month = y at hy hshifted ⊢
  refine (yields_euclideanQuotient? (n := 400) hshifted rfl (by decide) (isWord_iff.2 (by omega))).bind fun _ hera => ?_
  refine (yields_mul? (n := 400) hera rfl (isWord_iff.2 (by omega))).bind fun _ hstart => ?_
  refine (yields_sub? hshifted hstart (isWord_iff.2 (by omega))).bind fun _ hyearOfEra => ?_
  refine (yields_dayOfMarchYear? hb hc hmonth hday).bind fun _ hdayOfYear => ?_
  refine (yields_dayOfEra? hyearOfEra hdayOfYear (by omega) hd).bind fun _ hdayOfEra => ?_
  refine (yields_mul? (n := 146097) hera rfl (isWord_iff.2 (by omega))).bind fun _ heras => ?_
  refine (yields_add? heras hdayOfEra (isWord_iff.2 (by omega))).bind fun _ hsum => ?_
  exact yields_sub? (n := 719468) hsum rfl (isWord_iff.2 (by omega))

end Words

end BicepMigration.Calendar

namespace BicepMigration.Catalog

open Calendar Number

/-- The date of a version, if its month has its day. -/
def ApiVersion.date (v : ApiVersion) (h : v.IsDate) : Date := ⟨v.year, v.month, v.day, v.month_mem, v.day_mem.1, h⟩

/-- The numbers of dates count the days of the calendar. -/
structure CountsDays : Prop where
  /-- The count starts on the first of January 1970. -/
  epoch : Date.epoch.dayNumber = 0
  /-- The next date has the next number, wherever a month, a year or a century ends. -/
  next : ∀ d : Date, d.next.dayNumber = d.dayNumber + 1
  /-- Later dates have greater numbers. -/
  strictMono : StrictMono Date.dayNumber
  /-- From one date to another it is as many days as their numbers differ. -/
  steps : ∀ (a b : Date) (n : ℕ), Date.next^[n] a = b ↔ b.dayNumber = a.dayNumber + n
  /-- So it is for the dates of versions. -/
  versions : ∀ (v w : ApiVersion) (hv : v.IsDate) (hw : w.IsDate) (n : ℕ),
    Date.next^[n] (v.date hv) = w.date hw ↔ w.dayNumber = v.dayNumber + n
  /-- No step of the computation leaves the integers of 64 bits. -/
  words : ∀ (year : UInt16) (month day : UInt8),
    Yields (dayNumber? (.ofNat year.toNat) (.ofNat month.toNat) (.ofNat day.toNat))
      (Calendar.dayNumber year.toNat month.toNat day.toNat)

/-- The number of a date counts the days from the first day of 1970, and it is computed in 64 bits without an
overflow. -/
theorem dayNumber_counts_days : CountsDays where
  epoch := dayNumber_epoch
  next := Date.dayNumber_next
  strictMono := Date.dayNumber_strictMono
  steps _ _ _ := Date.iterate_next_eq_iff
  versions _ _ _ _ _ := Date.iterate_next_eq_iff
  words year month day := by
    have hyear := year.toNat_lt
    have hmonth := month.toNat_lt
    have hday := day.toNat_lt
    exact yields_dayNumber? (Int64.toInt_ofNat_of_lt (by omega)) (Int64.toInt_ofNat_of_lt (by omega))
      (Int64.toInt_ofNat_of_lt (by omega)) hyear hmonth hday

/-- The year 2000 ends its century with a leap day, the year 1900 did not. Beside that, the first day of the year zero, whose
March has not come yet. -/
theorem dayNumber_counts_days_centuries :
    Calendar.dayNumber 2000 3 1 = Calendar.dayNumber 2000 2 28 + (2 : ℕ) ∧
      Calendar.dayNumber 1900 3 1 = Calendar.dayNumber 1900 2 28 + (1 : ℕ) ∧
      Calendar.dayNumber 1999 12 31 < Calendar.dayNumber 2000 1 1 ∧
      lastOfFebruary.IsDate ∧ firstOfMarch.IsDate ∧ firstOfMarch.dayNumber = lastOfFebruary.dayNumber + (1 : ℕ) ∧
      Yields (dayNumber? 0 1 1) (Calendar.dayNumber 0 1 1) := by
  have hleap : Date.next^[2] ⟨2000, 2, 28, by decide, by decide⟩ = (⟨2000, 3, 1, by decide, by decide⟩ : Date) := by decide
  have hcommon : Date.next^[1] ⟨1900, 2, 28, by decide, by decide⟩ = (⟨1900, 3, 1, by decide, by decide⟩ : Date) := by
    decide
  have hlater : (⟨1999, 12, 31, by decide, by decide⟩ : Date) < ⟨2000, 1, 1, by decide, by decide⟩ :=
    Date.lt_iff.2 (.inl (by decide))
  have hlt : Date.dayNumber _ < Date.dayNumber _ := dayNumber_counts_days.strictMono hlater
  have hmarch : Date.next^[1] (lastOfFebruary.date (by decide)) = firstOfMarch.date (by decide) := by decide
  exact ⟨(dayNumber_counts_days.steps _ _ 2).1 hleap, (dayNumber_counts_days.steps _ _ 1).1 hcommon, hlt, by decide,
    by decide, (dayNumber_counts_days.versions _ _ _ _ 1).1 hmarch, dayNumber_counts_days.words 0 1 1⟩

end BicepMigration.Catalog
