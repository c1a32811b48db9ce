/-!
# Checked arithmetic of 64-bit integers

An operation on signed integers of 64 bits fails where its exact result is no such integer, and a division fails if there is
nothing to divide by. Main statements: each operation yields its exact result where that is an integer of 64 bits, and so a
computation yields what its steps yield one after another.
-/

namespace BicepMigration.Number

/-- The value is a signed integer of 64 bits. -/
def IsWord (n : Int) : Prop := Int64.minValue.toInt ≤ n ∧ n ≤ Int64.maxValue.toInt

/-- The numbers of 64 bits with a sign. -/
theorem isWord_iff {n : Int} : IsWord n ↔ -9223372036854775808 ≤ n ∧ n ≤ 9223372036854775807 := Iff.rfl

instance (n : Int) : Decidable (IsWord n) := inferInstanceAs (Decidable (_ ∧ _))

/-- The 64-bit integer with a value, if there is one. -/
def word? (n : Int) : Option Int64 :=
  if h : IsWord n then some (Int64.ofIntLE n h.1 h.2) else none

/-- The exact result of an operation, if it is an integer of 64 bits. -/
def exactly? (operation : Int → Int → Int) (a b : Int64) : Option Int64 := word? (operation a.toInt b.toInt)

def add? : Int64 → Int64 → Option Int64 := exactly? (· + ·)

def sub? : Int64 → Int64 → Option Int64 := exactly? (· - ·)

def mul? : Int64 → Int64 → Option Int64 := exactly? (· * ·)

/-- The quotient, rounded toward zero. -/
def quotient? (a b : Int64) : Option Int64 := if b = 0 then none else exactly? Int.tdiv a b

/-- What remains of the dividend beside the quotient that is rounded toward zero. It fails where that quotient does. -/
def remainder? (a b : Int64) : Option Int64 := (quotient? a b).bind fun _ => exactly? Int.tmod a b

/-- The quotient beside which no negative number remains. -/
def euclideanQuotient? (a b : Int64) : Option Int64 := if b = 0 then none else exactly? (· / ·) a b

/-- The computation ends with the integer of a value. -/
def Yields (x : Option Int64) (n : Int) : Prop := x.map Int64.toInt = some n

variable {a b : Int64} {m n : Int}

/-- An operation yields a number if it gives the word that stands for it. -/
theorem yields_iff {x : Option Int64} : Yields x n ↔ ∃ w, x = some w ∧ w.toInt = n := Option.map_eq_some_iff

/-- A computation goes on from the value that its first step yields. -/
theorem Yields.bind {x : Option Int64} {f : Int64 → Option Int64} (hx : Yields x m)
    (hf : ∀ w, w.toInt = m → Yields (f w) n) : Yields (x >>= f) n := by
  obtain ⟨w, rfl, hw⟩ := yields_iff.1 hx
  exact hf w hw

/-- A number of 64 bits is taken as a word. -/
theorem yields_word? (h : IsWord n) : Yields (word? n) n := by
  rw [Yields, word?, dif_pos h, Option.map_some, Int64.toInt_ofIntLE]

/-- A result of 64 bits is yielded. -/
theorem yields_exactly? (operation : Int → Int → Int) (ha : a.toInt = m) (hb : b.toInt = n)
    (h : IsWord (operation m n)) : Yields (exactly? operation a b) (operation m n) := by
  subst ha hb
  exact yields_word? h

/-- A sum of 64 bits is yielded. -/
theorem yields_add? (ha : a.toInt = m) (hb : b.toInt = n) (h : IsWord (m + n)) : Yields (add? a b) (m + n) :=
  yields_exactly? (· + ·) ha hb h

/-- A difference of 64 bits is yielded. -/
theorem yields_sub? (ha : a.toInt = m) (hb : b.toInt = n) (h : IsWord (m - n)) : Yields (sub? a b) (m - n) :=
  yields_exactly? (· - ·) ha hb h

/-- A product of 64 bits is yielded. -/
theorem yields_mul? (ha : a.toInt = m) (hb : b.toInt = n) (h : IsWord (m * n)) : Yields (mul? a b) (m * n) :=
  yields_exactly? (· * ·) ha hb h

/-- A word that stands for a positive number is not zero. -/
theorem ne_zero_of_toInt_pos (hb : b.toInt = n) (hpos : 0 < n) : b ≠ 0 := by
  rintro rfl
  exact absurd hb (Int.ne_of_lt hpos)

/-- The quotient by a positive number is yielded, rounded down. -/
theorem yields_euclideanQuotient? (ha : a.toInt = m) (hb : b.toInt = n) (hpos : 0 < n) (h : IsWord (m / n)) :
    Yields (euclideanQuotient? a b) (m / n) := by
  rw [euclideanQuotient?, if_neg (ne_zero_of_toInt_pos hb hpos)]
  exact yields_exactly? (· / ·) ha hb h

/-- Both ways of rounding agree where nothing is negative. -/
theorem yields_quotient? (ha : a.toInt = m) (hb : b.toInt = n) (hnonneg : 0 ≤ m) (hpos : 0 < n) (h : IsWord (m / n)) :
    Yields (quotient? a b) (m / n) := by
  rw [quotient?, if_neg (ne_zero_of_toInt_pos hb hpos)]
  rw [← Int.tdiv_eq_ediv_of_nonneg hnonneg] at h ⊢
  exact yields_exactly? Int.tdiv ha hb h

/-- The remainder of a number that is not negative is yielded. -/
theorem yields_remainder? (ha : a.toInt = m) (hb : b.toInt = n) (hnonneg : 0 ≤ m) (hpos : 0 < n) (hq : IsWord (m / n))
    (h : IsWord (m % n)) : Yields (remainder? a b) (m % n) := by
  refine (yields_quotient? ha hb hnonneg hpos hq).bind fun _ _ => ?_
  rw [← Int.tmod_eq_emod_of_nonneg hnonneg] at h ⊢
  exact yields_exactly? Int.tmod ha hb h

end BicepMigration.Number
