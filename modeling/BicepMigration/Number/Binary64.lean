/-!
# Finite binary64 numbers

A finite number of the IEEE 754 format with 53 significant bits, kept as an integer mantissa and a power of
two, so that all arithmetic on it is exact arithmetic on integers followed by one rounding. Main statement:
rounding a quotient of naturals is off by at most half a unit. Nothing is said here about infinities or
NaN, which no operation produces: a result that is too large is absent.
-/

namespace BicepMigration.Number

/-- The natural number nearest to a quotient; of two equally near the even one. -/
def roundHalfEven (num den : Nat) : Nat :=
  let quotient := num / den
  let rest := num % den
  if den < 2 * rest || (den = 2 * rest && quotient % 2 = 1) then quotient + 1 else quotient

/-- Rounding goes up by a half at most. -/
theorem two_mul_roundHalfEven_le (num den : Nat) :
    2 * (den * roundHalfEven num den) ≤ 2 * num + den := by
  have h := Nat.div_add_mod num den
  unfold roundHalfEven
  simp only
  split
  · next hc =>
    simp only [Bool.or_eq_true, Bool.and_eq_true, decide_eq_true_eq] at hc
    rw [Nat.mul_add, Nat.mul_one]
    omega
  · omega

/-- Rounding goes down by a half at most. -/
theorem le_two_mul_roundHalfEven (num : Nat) {den : Nat} (hd : 0 < den) :
    2 * num ≤ 2 * (den * roundHalfEven num den) + den := by
  have h := Nat.div_add_mod num den
  unfold roundHalfEven
  simp only
  split
  · have := Nat.mod_lt num hd
    rw [Nat.mul_add, Nat.mul_one]
    omega
  · next hc =>
    simp only [Bool.or_eq_true, decide_eq_true_eq, not_or, Nat.not_lt] at hc
    omega

/-- A finite number `± mantissa · 2 ^ exponent`. Numbers that are built here have a mantissa below `2 ^ 53`
and the least exponent from `-1074` up that allows it, so equal values have equal fields, the sign of zero
apart. -/
structure Binary64 where
  /-- The sign; zero has one too. -/
  negative : Bool
  /-- The significant bits. -/
  mantissa : Nat
  /-- The power of two that scales them. -/
  exponent : Int
  deriving DecidableEq, Repr

namespace Binary64

/-- Zero with a sign. -/
def zero (negative : Bool) : Binary64 := ⟨negative, 0, -1074⟩

/-- Numerator of the absolute value. -/
def numerator (x : Binary64) : Nat := x.mantissa * Nat.pow 2 x.exponent.toNat

/-- Denominator of the absolute value. -/
def denominator (x : Binary64) : Nat := Nat.pow 2 (-x.exponent).toNat

/-- The number nearest to `± num / den`, of two equally near the one with an even mantissa. Nothing if that
is beyond the largest finite number. -/
def ofRatio (negative : Bool) (num den : Nat) : Option Binary64 :=
  if num = 0 then some (zero negative)
  else
    let guess : Int := (num.log2 : Int) - den.log2 - 52
    let fits (e : Int) : Bool := Nat.pow 2 52 * (den * Nat.pow 2 e.toNat) ≤ num * Nat.pow 2 (-e).toNat
    let exponent := max (if fits guess then guess else guess - 1) (-1074)
    let mantissa := roundHalfEven (num * Nat.pow 2 (-exponent).toNat) (den * Nat.pow 2 exponent.toNat)
    let (mantissa, exponent) :=
      if mantissa = Nat.pow 2 53 then (Nat.pow 2 52, exponent + 1) else (mantissa, exponent)
    if 971 < exponent then none else some ⟨negative, mantissa, exponent⟩

/-- The product with `num / den`, rounded once. -/
def scale (x : Binary64) (num den : Nat) : Option Binary64 :=
  ofRatio x.negative (x.numerator * num) (x.denominator * den)

/-- Number of decimal digits; zero has one. -/
def digitCount (n : Nat) : Nat := (Nat.toDigits 10 n).length

/-- The number nearest to `± digits · 10 ^ exponent`. -/
def ofDecimal (negative : Bool) (digits : Nat) (exponent : Int) : Option Binary64 :=
  if digits = 0 then some (zero negative)
  else if 310 < (digitCount digits : Int) + exponent then none
  else if (digitCount digits : Int) + exponent < -330 then some (zero negative)
  else ofRatio negative (digits * Nat.pow 10 exponent.toNat) (Nat.pow 10 (-exponent).toNat)

/-- The two numbers are equal as values: a zero equals the zero of the other sign. -/
def sameValue (x y : Binary64) : Bool :=
  (x.mantissa = 0 && y.mantissa = 0) || x = y

/-- The number is zero. -/
def isZero (x : Binary64) : Bool := x.mantissa = 0

end Binary64

end BicepMigration.Number
