import Mathlib.Algebra.Order.Field.Basic
import Mathlib.Algebra.Order.Field.Power
import Mathlib.Data.Rat.Cast.Order
import Mathlib.Tactic.FieldSimp
import Mathlib.Tactic.Linarith
import Mathlib.Tactic.NormNum
import Mathlib.Tactic.Positivity
import Mathlib.Tactic.Ring
import BicepMigration.Number.Decimal

/-!
# Decimals that binary64 tells apart

A numeral denotes a rational number, and so does a binary64 number. A numeral in the normal range is off by
at most one part in `2 ^ 53` from the number it is read as. Two decimals of at most fifteen digits that differ
at all differ by more than that. Main statement: short decimals that are read as the same number are equal.
-/

namespace BicepMigration.Number

/-- The sign as a factor. -/
def signFactor (negative : Bool) : ℚ := if negative then -1 else 1

/-- The number that a numeral denotes. -/
def Decimal.value (d : Decimal) : ℚ := signFactor d.negative * (d.digits * (10 : ℚ) ^ d.exponent)

/-- The number that a finite binary64 number stands for. -/
def Binary64.value (x : Binary64) : ℚ := signFactor x.negative * (x.mantissa * (2 : ℚ) ^ x.exponent)

/-- A sign does not change the size. -/
theorem abs_signFactor_mul (negative : Bool) (q : ℚ) : |signFactor negative * q| = |q| := by
  cases negative <;> simp [signFactor]

/-- A sign is taken out of a difference. -/
theorem signFactor_mul_sub (negative : Bool) (p q : ℚ) :
    signFactor negative * p - signFactor negative * q = signFactor negative * (p - q) := by ring

/-- A quotient is off by at most a half from its rounding. -/
theorem abs_roundHalfEven_sub_le (num : Nat) {den : Nat} (hd : 0 < den) :
    |(roundHalfEven num den : ℚ) - num / den| ≤ 1 / 2 := by
  have hq : (0 : ℚ) < den := by exact_mod_cast hd
  have hu : (2 * (den * roundHalfEven num den) : ℚ) ≤ 2 * num + den := by
    exact_mod_cast two_mul_roundHalfEven_le num den
  have hl : (2 * num : ℚ) ≤ 2 * (den * roundHalfEven num den) + den := by
    exact_mod_cast le_two_mul_roundHalfEven num hd
  have he : (roundHalfEven num den : ℚ) - num / den = (den * roundHalfEven num den - num) / den := by
    field_simp
  rw [he, abs_div, abs_of_pos hq, div_le_iff₀ hq, abs_le]
  constructor <;> linarith

/-- A power written as a quotient of powers with natural exponents, one of which is zero. -/
theorem zpow_eq_div (base : Nat) (e : Int) :
    (base : ℚ) ^ e = (Nat.pow base e.toNat : Nat) / (Nat.pow base (-e).toNat : Nat) := by
  rcases Int.le_total 0 e with h | h
  · have h0 : (-e).toNat = 0 := by omega
    obtain ⟨n, rfl⟩ := Int.eq_ofNat_of_zero_le h
    simp [h0]
  · obtain ⟨n, hn⟩ := Int.eq_ofNat_of_zero_le (show 0 ≤ -e by omega)
    obtain rfl : e = -(n : Int) := by omega
    simp [zpow_neg]

/-- A quotient scaled by a power, with the power moved to the side where its exponent is natural. -/
theorem scaled_div_eq (base num den : Nat) (e : Int) :
    ((num * Nat.pow base (-e).toNat : Nat) : ℚ) / ((den * Nat.pow base e.toNat : Nat) : ℚ) =
      num / den / (base : ℚ) ^ e := by
  rw [zpow_eq_div base e, div_div_eq_mul_div, Nat.cast_mul, Nat.cast_mul]
  ring

namespace Binary64

/-- The first guess for the exponent is at most one too large. -/
theorem two_zpow_guess_le {num den : Nat} (hn : 0 < num) (hd : 0 < den) :
    (2 : ℚ) ^ ((num.log2 : Int) - den.log2 - 1) ≤ num / den := by
  have hl : (2 : ℚ) ^ (num.log2 : Int) ≤ num := by
    rw [zpow_natCast]
    exact_mod_cast Nat.log2_self_le hn.ne'
  have hu : (den : ℚ) ≤ (2 : ℚ) ^ ((den.log2 : Int) + 1) := by
    have hlt : den < 2 ^ (den.log2 + 1) := Nat.lt_log2_self
    exact_mod_cast hlt.le
  have hq : (0 : ℚ) < den := by exact_mod_cast hd
  rw [le_div_iff₀ hq]
  calc (2 : ℚ) ^ ((num.log2 : Int) - den.log2 - 1) * den
      ≤ 2 ^ ((num.log2 : Int) - den.log2 - 1) * 2 ^ ((den.log2 : Int) + 1) := by gcongr
    _ = 2 ^ (num.log2 : Int) := by
        rw [← zpow_add₀ (by norm_num)]
        congr 1
        ring
    _ ≤ num := hl

/-- Numbers that compare equal have equal values. -/
theorem value_eq_of_sameValue {x y : Binary64} (h : x.sameValue y) : x.value = y.value := by
  simp only [sameValue, Bool.or_eq_true, Bool.and_eq_true, decide_eq_true_eq] at h
  rcases h with ⟨hx, hy⟩ | rfl
  · simp [value, hx, hy]
  · rfl

/-- The exponent that a positive quotient is rounded at. -/
def ratioExponent (num den : Nat) : Int :=
  let guess : Int := (num.log2 : Int) - den.log2 - 52
  let fits (e : Int) : Bool := Nat.pow 2 52 * (den * Nat.pow 2 e.toNat) ≤ num * Nat.pow 2 (-e).toNat
  max (if fits guess then guess else guess - 1) (-1074)

/-- The scaled quotient is one of whole numbers. -/
theorem le_scaled_iff {num den : Nat} (hd : 0 < den) (e : Int) :
    Nat.pow 2 52 * (den * Nat.pow 2 e.toNat) ≤ num * Nat.pow 2 (-e).toNat ↔
      (2 : ℚ) ^ (e + 52) ≤ num / den := by
  have hp : 0 < den * Nat.pow 2 e.toNat := Nat.mul_pos hd (Nat.pow_pos (by decide))
  have hq : (0 : ℚ) < ((den * Nat.pow 2 e.toNat : Nat) : ℚ) := by exact_mod_cast hp
  have he : (2 : ℚ) ^ (e + 52) = ((Nat.pow 2 52 : Nat) : ℚ) * (2 : ℚ) ^ e := by
    rw [zpow_add₀ (by norm_num), mul_comm]
    norm_num
  have hs := scaled_div_eq 2 num den e
  rw [Nat.cast_ofNat] at hs
  rw [he, ← le_div_iff₀ (by positivity), ← hs, le_div_iff₀ hq]
  exact_mod_cast Iff.rfl

/-- A quotient in the normal range has at least 53 bits before the point once it is scaled. -/
theorem two_zpow_ratioExponent_le {num den : Nat} (hn : 0 < num) (hd : 0 < den)
    (hr : (2 : ℚ) ^ (-1022 : Int) ≤ num / den) :
    (2 : ℚ) ^ (ratioExponent num den + 52) ≤ num / den := by
  have hg := two_zpow_guess_le hn hd
  unfold ratioExponent
  simp only [decide_eq_true_eq, le_scaled_iff hd]
  rcases max_choice (if (2 : ℚ) ^ ((num.log2 : Int) - den.log2 - 52 + 52) ≤ num / den
      then (num.log2 : Int) - den.log2 - 52 else (num.log2 : Int) - den.log2 - 52 - 1) (-1074) with h | h
  · rw [h]
    split
    · next hf => exact hf
    · convert hg using 2
      ring
  · rw [h]
    exact hr

/-- Rounding and the carry into the next power of two keep the value. -/
theorem value_of_ofRatio {negative : Bool} {num den : Nat} {x : Binary64} (hn : 0 < num)
    (hx : ofRatio negative num den = some x) :
    x.value = signFactor negative *
      (roundHalfEven (num * Nat.pow 2 (-ratioExponent num den).toNat)
        (den * Nat.pow 2 (ratioExponent num den).toNat) * (2 : ℚ) ^ ratioExponent num den) := by
  have hu : ofRatio negative num den =
      let exponent := ratioExponent num den
      let mantissa := roundHalfEven (num * Nat.pow 2 (-exponent).toNat) (den * Nat.pow 2 exponent.toNat)
      let scaled := if mantissa = Nat.pow 2 53 then (Nat.pow 2 52, exponent + 1) else (mantissa, exponent)
      if 971 < scaled.2 then none else some ⟨negative, scaled.1, scaled.2⟩ := by
    unfold ofRatio
    rw [if_neg hn.ne']
    rfl
  rw [hu] at hx
  generalize ratioExponent num den = e at *
  simp only at hx
  generalize roundHalfEven _ _ = m at *
  by_cases hm : m = Nat.pow 2 53
  · simp only [hm, if_true, Option.ite_none_left_eq_some, Option.some.injEq] at hx
    have hc : ((Nat.pow 2 53 : Nat) : ℚ) = (Nat.pow 2 52 : Nat) * 2 := by norm_num
    rw [← hx.2, hm, value, zpow_add_one₀ (by norm_num), hc]
    ring
  · simp only [hm, if_false, Option.ite_none_left_eq_some, Option.some.injEq] at hx
    rw [← hx.2, value]

/-- A quotient in the normal range is off by at most one part in `2 ^ 53` from its rounding. -/
theorem abs_ofRatio_sub_le {negative : Bool} {num den : Nat} {x : Binary64} (hn : 0 < num) (hd : 0 < den)
    (hr : (2 : ℚ) ^ (-1022 : Int) ≤ num / den) (hx : ofRatio negative num den = some x) :
    |x.value - signFactor negative * (num / den)| ≤ 2 ^ (-53 : Int) * (num / den) := by
  have he := two_zpow_ratioExponent_le hn hd hr
  have hv := value_of_ofRatio hn hx
  have hp : 0 < den * Nat.pow 2 (ratioExponent num den).toNat := Nat.mul_pos hd (Nat.pow_pos (by decide))
  have hb := abs_roundHalfEven_sub_le (num * Nat.pow 2 (-ratioExponent num den).toNat) hp
  have hs := scaled_div_eq 2 num den (ratioExponent num den)
  rw [Nat.cast_ofNat] at hs
  rw [hs] at hb
  rw [hv, signFactor_mul_sub, abs_signFactor_mul]
  generalize ratioExponent num den = e at *
  generalize roundHalfEven _ _ = m at *
  have hpos : (0 : ℚ) < 2 ^ e := by positivity
  calc |(m : ℚ) * 2 ^ e - num / den|
      = |((m : ℚ) - num / den / 2 ^ e) * 2 ^ e| := by
        congr 1
        field_simp
    _ = |(m : ℚ) - num / den / 2 ^ e| * 2 ^ e := by rw [abs_mul, abs_of_pos hpos]
    _ ≤ 1 / 2 * 2 ^ e := by gcongr
    _ = 2 ^ (-53 : Int) * 2 ^ (e + 52) := by
        rw [zpow_add₀ (by norm_num)]
        norm_num
        ring
    _ ≤ 2 ^ (-53 : Int) * (num / den) := by gcongr

end Binary64

/-- A number of at most fifteen decimal digits that is not too small to be normal. -/
def IsShort (q : ℚ) : Prop := ∃ (m e : Int), q = m * (10 : ℚ) ^ e ∧ m.natAbs < 10 ^ 15 ∧ -300 ≤ e

/-- On the finer of two decimal grids, a number of fifteen digits is less than `10 ^ 15` steps. -/
theorem abs_lt_mul_abs_sub {m n e f : Int} (hm : m.natAbs < 10 ^ 15) (hef : e ≤ f)
    (hne : (m : ℚ) * (10 : ℚ) ^ e ≠ n * (10 : ℚ) ^ f) :
    |(m : ℚ) * (10 : ℚ) ^ e| < 10 ^ 15 * |(m : ℚ) * (10 : ℚ) ^ e - n * (10 : ℚ) ^ f| := by
  obtain ⟨k, rfl⟩ : ∃ k : Nat, f = e + k := ⟨(f - e).toNat, by omega⟩
  have hpos : (0 : ℚ) < 10 ^ e := by positivity
  have hd : (m : ℚ) * (10 : ℚ) ^ e - n * (10 : ℚ) ^ (e + k) = ((m - n * 10 ^ k : Int) : ℚ) * 10 ^ e := by
    rw [zpow_add₀ (by norm_num), zpow_natCast]
    push_cast
    ring
  have h0 : m - n * 10 ^ k ≠ 0 := by
    intro h
    rw [h, Int.cast_zero, zero_mul, sub_eq_zero] at hd
    exact hne hd
  have h1 : (1 : ℚ) ≤ |((m - n * 10 ^ k : Int) : ℚ)| := by exact_mod_cast Int.one_le_abs h0
  have hl : |(m : ℚ)| < 10 ^ 15 := by
    have : |m| < 10 ^ 15 := by rw [Int.abs_eq_natAbs]; exact_mod_cast hm
    exact_mod_cast this
  rw [hd, abs_mul, abs_mul, abs_of_pos hpos]
  calc |(m : ℚ)| * 10 ^ e < 10 ^ 15 * 10 ^ e := by gcongr
    _ ≤ 10 ^ 15 * (|((m - n * 10 ^ k : Int) : ℚ)| * 10 ^ e) := by
        gcongr
        exact le_mul_of_one_le_left hpos.le h1

/-- Two short numbers are equal or differ by more than one part in `10 ^ 15` of one of them. -/
theorem IsShort.lt_mul_abs_sub {p q : ℚ} (hp : IsShort p) (hq : IsShort q) (hne : p ≠ q) :
    |p| < 10 ^ 15 * |p - q| ∨ |q| < 10 ^ 15 * |p - q| := by
  obtain ⟨m, e, rfl, hm, -⟩ := hp
  obtain ⟨n, f, rfl, hn, -⟩ := hq
  rcases Int.le_total e f with h | h
  · exact .inl (abs_lt_mul_abs_sub hm h hne)
  · rw [abs_sub_comm]
    exact .inr (abs_lt_mul_abs_sub hn h hne.symm)

/-- A short number other than zero is in the normal range. -/
theorem IsShort.normal_le {q : ℚ} (h : IsShort q) (hq : q ≠ 0) : (2 : ℚ) ^ (-1022 : Int) ≤ |q| := by
  obtain ⟨m, e, rfl, -, he⟩ := h
  have hm : (1 : ℚ) ≤ |(m : ℚ)| := by
    have h0 : m ≠ 0 := by rintro rfl; simp at hq
    exact_mod_cast Int.one_le_abs h0
  have hpos : (0 : ℚ) < 10 ^ e := by positivity
  calc (2 : ℚ) ^ (-1022 : Int) ≤ 2 ^ (-1000 : Int) := zpow_le_zpow_right₀ (by norm_num) (by norm_num)
    _ = ((2 : ℚ) ^ (-100 : Int)) ^ 10 := by rw [← zpow_natCast, ← zpow_mul]; rfl
    _ ≤ ((10 : ℚ) ^ (-30 : Int)) ^ 10 := by gcongr; norm_num
    _ = 10 ^ (-300 : Int) := by rw [← zpow_natCast, ← zpow_mul]; rfl
    _ ≤ 10 ^ e := zpow_le_zpow_right₀ (by norm_num) he
    _ ≤ |(m : ℚ)| * 10 ^ e := le_mul_of_one_le_left hpos.le hm
    _ = |(m : ℚ) * 10 ^ e| := by rw [abs_mul, abs_of_pos hpos]

/-- A numeral whose leading digit stands for a tiny power of ten is not normal. -/
theorem Decimal.lt_of_digitCount_lt {d : Decimal} (h : (Binary64.digitCount d.digits : Int) + d.exponent < -330) :
    d.digits * (10 : ℚ) ^ d.exponent < 2 ^ (-1022 : Int) := by
  have hlt : d.digits < 10 ^ Binary64.digitCount d.digits :=
    (Nat.length_toDigits_le_iff (by decide) Nat.length_toDigits_pos).1 (Nat.le_refl _)
  have hq : (d.digits : ℚ) < 10 ^ (Binary64.digitCount d.digits : Int) := by exact_mod_cast hlt
  calc d.digits * (10 : ℚ) ^ d.exponent
      < 10 ^ (Binary64.digitCount d.digits : Int) * 10 ^ d.exponent := by gcongr
    _ = 10 ^ ((Binary64.digitCount d.digits : Int) + d.exponent) := (zpow_add₀ (by norm_num) ..).symm
    _ ≤ 10 ^ (-330 : Int) := zpow_le_zpow_right₀ (by norm_num) h.le
    _ = ((10 : ℚ) ^ (-33 : Int)) ^ 10 := by rw [← zpow_natCast, ← zpow_mul]; rfl
    _ ≤ ((2 : ℚ) ^ (-103 : Int)) ^ 10 := by gcongr; norm_num
    _ = 2 ^ (-1030 : Int) := by rw [← zpow_natCast, ← zpow_mul]; rfl
    _ ≤ 2 ^ (-1022 : Int) := zpow_le_zpow_right₀ (by norm_num) (by norm_num)

/-- A short numeral is off by at most one part in `2 ^ 53` from the number it is read as. -/
theorem Decimal.abs_toBinary64_sub_le {d : Decimal} {x : Binary64} (hd : IsShort d.value)
    (hx : d.toBinary64 = some x) : |x.value - d.value| ≤ 2 ^ (-53 : Int) * |d.value| := by
  unfold toBinary64 Binary64.ofDecimal at hx
  split at hx
  · next h0 =>
    simp only [Option.some.injEq] at hx
    simp [← hx, Binary64.value, Binary64.zero, value, h0]
  · next h0 =>
    have hv : |d.value| = d.digits * (10 : ℚ) ^ d.exponent := by
      rw [value, abs_signFactor_mul, abs_of_nonneg (by positivity)]
    have hr := hd.normal_le (abs_pos.1 (by rw [hv]; positivity))
    rw [hv] at hr
    split at hx
    · cases hx
    · split at hx
      · next hsmall =>
        exact absurd hr (not_le.2 (Decimal.lt_of_digitCount_lt hsmall))
      · have hden : 0 < Nat.pow 10 (-d.exponent).toNat := Nat.pow_pos (by decide)
        have hnum : 0 < d.digits * Nat.pow 10 d.exponent.toNat :=
          Nat.mul_pos (Nat.pos_of_ne_zero h0) (Nat.pow_pos (by decide))
        have hz := zpow_eq_div 10 d.exponent
        have he : ((d.digits * Nat.pow 10 d.exponent.toNat : Nat) : ℚ) / (Nat.pow 10 (-d.exponent).toNat : Nat) =
            d.digits * (10 : ℚ) ^ d.exponent := by
          rw [Nat.cast_mul, mul_div_assoc, ← hz, Nat.cast_ofNat]
        have hb := Binary64.abs_ofRatio_sub_le hnum hden (by rwa [he]) hx
        rw [he] at hb
        rw [hv]
        exact hb

/-- Short numerals that are read as the same number are equal. -/
theorem eq_of_sameValue {c d : Decimal} {x y : Binary64} (hc : IsShort c.value) (hd : IsShort d.value)
    (hx : c.toBinary64 = some x) (hy : d.toBinary64 = some y) (h : x.sameValue y) : c.value = d.value := by
  by_contra hne
  have hv : x.value = y.value := Binary64.value_eq_of_sameValue h
  have h₁ := Decimal.abs_toBinary64_sub_le hc hx
  have h₂ := Decimal.abs_toBinary64_sub_le hd hy
  rw [hv] at h₁
  have hsub : |c.value - d.value| ≤ 2 ^ (-53 : Int) * |c.value| + 2 ^ (-53 : Int) * |d.value| := by
    calc |c.value - d.value| ≤ |c.value - y.value| + |y.value - d.value| := abs_sub_le ..
      _ ≤ _ := add_le_add (by rwa [abs_sub_comm]) h₂
  have hcd : |c.value| ≤ |d.value| + |c.value - d.value| := by
    have := abs_sub_abs_le_abs_sub c.value d.value
    linarith
  have hdc : |d.value| ≤ |c.value| + |c.value - d.value| := by
    have := abs_sub_abs_le_abs_sub d.value c.value
    rw [abs_sub_comm] at this
    linarith
  norm_num at hsub
  rcases IsShort.lt_mul_abs_sub hc hd hne with h | h
  · linarith
  · linarith

end BicepMigration.Number
