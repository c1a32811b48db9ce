import BicepMigration.Proofs.Catalog.MonthLengths

/-!
# Dates of the calendar

A date is a day that its month has. After the last day of a month comes the first day of the next month, and after the last
day of a year the first day of the next year; so the next date is the least of all later dates. Main statement: from one
date to another it is as many days as their numbers differ.
-/

namespace BicepMigration.Calendar

/-- A date of the calendar. -/
structure Date where
  year : Nat
  month : Nat
  day : Nat
  month_mem : 1 ≤ month ∧ month ≤ 12
  day_mem : 1 ≤ day ∧ day ≤ daysIn year month

/-- Every month has a first day. -/
theorem one_le_daysIn (year month : Nat) : 1 ≤ daysIn year month := by
  unfold daysIn
  split
  · split <;> decide
  · split <;> decide

theorem january_mem : 1 ≤ 1 ∧ 1 ≤ 12 := by decide

namespace Date

/-- The first day of a month. -/
def first (year month : Nat) (h : 1 ≤ month ∧ month ≤ 12) : Date :=
  ⟨year, month, 1, h, Nat.le_refl 1, one_le_daysIn year month⟩

/-- The date that comes next. -/
def next (d : Date) : Date :=
  if hday : d.day < daysIn d.year d.month then ⟨d.year, d.month, d.day + 1, d.month_mem, Nat.succ_pos d.day, hday⟩
  else if hmonth : d.month < 12 then first d.year (d.month + 1) ⟨Nat.succ_pos d.month, hmonth⟩
  else first (d.year + 1) 1 january_mem

/-- The first of January 1970. -/
def epoch : Date := first 1970 1 january_mem

/-- Days from the epoch. -/
def dayNumber (d : Date) : Int := Calendar.dayNumber d.year d.month d.day

section Order

variable {a b : Date}

/-- Year, month and day, in this order. -/
def key (d : Date) : ℕ ×ₗ ℕ ×ₗ ℕ := toLex (d.year, toLex (d.month, d.day))

/-- A date is known by year, month and day. -/
theorem key_injective : Function.Injective key := by
  rintro ⟨year, month, day, hmonth, hday⟩ ⟨year', month', day', hmonth', hday'⟩ h
  simpa [key] using h

instance : LinearOrder Date := LinearOrder.lift' key key_injective

/-- Earlier dates have an earlier year, or in the same year an earlier month, or in the same month an earlier day. -/
theorem lt_iff :
    a < b ↔ a.year < b.year ∨ a.year = b.year ∧ (a.month < b.month ∨ a.month = b.month ∧ a.day < b.day) := by
  show key a < key b ↔ _
  simp only [key, Prod.Lex.toLex_lt_toLex]

/-- The same for dates that are not later. -/
theorem le_iff :
    a ≤ b ↔ a.year < b.year ∨ a.year = b.year ∧ (a.month < b.month ∨ a.month = b.month ∧ a.day ≤ b.day) := by
  show key a ≤ key b ↔ _
  simp only [key, Prod.Lex.toLex_le_toLex]

/-- The next date is the least of all later dates. -/
theorem next_le_iff : a.next ≤ b ↔ a < b := by
  have hmonth := b.month_mem
  have hday := b.day_mem.1
  -- a later day of the same month is a day that this month has
  have hlast : b.year = a.year → b.month = a.month → b.day ≤ daysIn a.year a.month := by
    intro hyear hsame
    rw [← hyear, ← hsame]
    exact b.day_mem.2
  rw [le_iff, lt_iff]
  unfold next first
  split
  · dsimp only
    omega
  · split
    · dsimp only
      omega
    · dsimp only
      omega

end Order

/-- The number of the next date is the next number. -/
theorem dayNumber_next (d : Date) : d.next.dayNumber = d.dayNumber + 1 := by
  have hfirst := dayNumber_eq_first d.year d.month d.day
  unfold next dayNumber
  split
  · exact dayNumber_succ_day d.year d.month d.day
  · next hday =>
    have hlast : d.day = daysIn d.year d.month := le_antisymm d.day_mem.2 (not_lt.1 hday)
    split
    · next hmonth =>
      have hstart := dayNumber_next_month d.year d.month_mem.1 hmonth
      simp only [first]
      omega
    · next hmonth =>
      have hdecember : d.month = 12 := le_antisymm d.month_mem.2 (not_lt.1 hmonth)
      have hstart := dayNumber_next_year d.year
      rw [hdecember] at hlast hfirst ⊢
      simp only [first]
      omega

/-- Later dates have greater numbers, since the next date has the next number. -/
theorem dayNumber_strictMono : StrictMono dayNumber := by
  intro a b h
  calc a.dayNumber < a.next.dayNumber := by rw [dayNumber_next]; exact Int.lt_succ a.dayNumber
    _ ≤ b.dayNumber := Calendar.dayNumber_le a.next.month_mem b.month_mem a.next.day_mem.2 b.day_mem.1
        (le_iff.1 (next_le_iff.2 h))

/-- So many dates later the number is larger by as many days. -/
theorem dayNumber_iterate_next (d : Date) (n : ℕ) : (next^[n] d).dayNumber = d.dayNumber + n := by
  induction n with
  | zero => simp
  | succ n ih =>
    rw [Function.iterate_succ_apply', dayNumber_next, ih]
    push_cast
    omega

/-- Some days after a date comes the date whose number is greater by so many. -/
theorem iterate_next_eq_iff {a b : Date} {n : ℕ} : next^[n] a = b ↔ b.dayNumber = a.dayNumber + n := by
  rw [← dayNumber_strictMono.injective.eq_iff, dayNumber_iterate_next]
  exact eq_comm

end Date

end BicepMigration.Calendar
