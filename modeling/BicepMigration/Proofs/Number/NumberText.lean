import BicepMigration.Json.Printer

/-!
# Numbers are written as numerals

A whole number is written with a sign or none and digits, a binary64 number with a point or an exponent or
both. Main statement: the text of every JSON number can be read as a numeral.
-/

namespace BicepMigration.Number

variable {cs whole fraction tail : List Char}

/-- The characters are decimal digits. -/
def AreDigits (cs : List Char) : Prop := ∀ c ∈ cs, c.isDigit = true

/-- Digits after digits are digits. -/
theorem AreDigits.append {ds : List Char} (hc : AreDigits cs) (hd : AreDigits ds) : AreDigits (cs ++ ds) := by
  intro c hm
  rcases List.mem_append.1 hm with h | h
  · exact hc c h
  · exact hd c h

/-- Zeros are digits. -/
theorem areDigits_replicate (n : Nat) : AreDigits (List.replicate n '0') := by
  intro c hm
  rw [List.eq_of_mem_replicate hm]
  decide

/-- A number is written with digits. -/
theorem areDigits_toDigits (n : Nat) : AreDigits (Nat.toDigits 10 n) :=
  fun _ hm => Nat.isDigit_of_mem_toDigits (by decide) (by decide) hm

/-- Digits are cut off up to the first character that is none. -/
theorem takeWhile_isDigit (hc : AreDigits cs) (ht : ∀ c ∈ tail.head?, c.isDigit = false) :
    (cs ++ tail).takeWhile Char.isDigit = cs := by
  rw [List.takeWhile_append_of_pos hc]
  cases tail with
  | nil => simp
  | cons c tail => simp [ht c rfl]

/-- What is left behind digits starts with the first character that is none. -/
theorem dropWhile_isDigit (hc : AreDigits cs) (ht : ∀ c ∈ tail.head?, c.isDigit = false) :
    (cs ++ tail).dropWhile Char.isDigit = tail := by
  rw [List.dropWhile_append_of_pos hc]
  cases tail with
  | nil => rfl
  | cons c tail => simp [ht c rfl]

/-- What can be read as an exponent does not start with a digit or a point. -/
theorem head_of_splitExponent (h : (splitExponent tail).isSome) : ∀ c ∈ tail.head?, c = 'e' ∨ c = 'E' := by
  intro c hc
  cases tail with
  | nil => cases hc
  | cons d tail =>
    obtain rfl : d = c := by simpa using hc
    rcases Decidable.em (d = 'e' ∨ d = 'E') with he | hne
    · exact he
    · simp [splitExponent, not_or.1 hne] at h

/-- A sign that is written is read, and digits are no sign. -/
theorem splitSign_append (sign : Bool) (hw : AreDigits whole) (hne : whole ≠ []) :
    splitSign ((if sign then ['-'] else []) ++ whole ++ tail) = (sign, whole ++ tail) := by
  cases sign with
  | true => rfl
  | false =>
    cases whole with
    | nil => exact absurd rfl hne
    | cons c whole =>
      have hd := hw c List.mem_cons_self
      simp only [Bool.false_eq_true, if_false, List.nil_append, List.cons_append]
      unfold splitSign
      split
      · next heq =>
        obtain ⟨rfl, -⟩ := List.cons.inj heq
        exact absurd hd (by decide)
      · next heq =>
        obtain ⟨rfl, -⟩ := List.cons.inj heq
        exact absurd hd (by decide)
      · rfl

/-- Digits with an exponent or none can be read. -/
theorem isSome_read?_whole (sign : Bool) (hw : AreDigits whole) (hne : whole ≠ [])
    (ht : (splitExponent tail).isSome) :
    (Decimal.read? ((if sign then ['-'] else []) ++ whole ++ tail)).isSome := by
  have hh : ∀ c ∈ tail.head?, c.isDigit = false := by
    intro c hc
    rcases head_of_splitExponent ht c hc with rfl | rfl <;> decide
  unfold Decimal.read?
  rw [splitSign_append sign hw hne]
  simp only [takeWhile_isDigit hw hh, dropWhile_isDigit hw hh]
  split
  · next rest =>
    rcases head_of_splitExponent ht '.' rfl with h | h <;> exact absurd h (by decide)
  · simpa [hne] using ht

/-- Digits with a point between them and an exponent or none can be read. -/
theorem isSome_read?_point (sign : Bool) (hw : AreDigits whole) (hne : whole ≠ []) (hf : AreDigits fraction)
    (ht : (splitExponent tail).isSome) :
    (Decimal.read? ((if sign then ['-'] else []) ++ whole ++ '.' :: (fraction ++ tail))).isSome := by
  have hh : ∀ c ∈ tail.head?, c.isDigit = false := by
    intro c hc
    rcases head_of_splitExponent ht c hc with rfl | rfl <;> decide
  have hp : ∀ c ∈ ('.' :: (fraction ++ tail)).head?, c.isDigit = false := by
    intro c hc
    obtain rfl : '.' = c := by simpa using hc
    decide
  unfold Decimal.read?
  rw [splitSign_append sign hw hne]
  simp only [takeWhile_isDigit hw hp, dropWhile_isDigit hw hp, takeWhile_isDigit hf hh, dropWhile_isDigit hf hh]
  simpa [hne] using ht

/-- Dropping zeros at the end leaves digits of the number. -/
theorem dropTrailingZeros_subset (cs : List Char) (power : Int) : (dropTrailingZeros cs power).1 ⊆ cs := by
  induction cs with
  | nil => simp [dropTrailingZeros]
  | cons c cs ih =>
    unfold dropTrailingZeros
    split
    · split <;> simp
    · next rest p heq =>
      rw [heq] at ih
      exact List.cons_subset_cons c ih

/-- An exponent is read after its sign. -/
theorem splitExponent_toDigits (negative : Bool) (n : Nat) :
    (splitExponent ('e' :: (if negative then '-' else '+') :: Nat.toDigits 10 n)).isSome := by
  have hall : (Nat.toDigits 10 n).all Char.isDigit = true := List.all_eq_true.2 (areDigits_toDigits n)
  cases negative <;> simp [splitExponent, splitSign, hall, Nat.toDigits_ne_nil]

/-- The digits that are written, with the power of ten of the last one, are digits. -/
theorem areDigits_dropTrailingZeros (n : Nat) (power : Int) :
    AreDigits (dropTrailingZeros (Nat.toDigits 10 n) power).1 :=
  fun _ hc => areDigits_toDigits n _ (dropTrailingZeros_subset _ _ hc)

/-- The text of a binary64 number can be read. -/
theorem isSome_read?_text (x : Binary64) : (Decimal.read? x.text.toList).isSome := by
  have hs : (if x.negative then "-" else "").toList = if x.negative then ['-'] else [] := by
    cases x.negative <;> rfl
  unfold Binary64.text
  simp only [String.toList_append, String.toList_ofList, hs]
  have hd := areDigits_dropTrailingZeros x.shortest.1 x.shortest.2
  generalize dropTrailingZeros (Nat.toDigits 10 x.shortest.1) x.shortest.2 = found at hd ⊢
  obtain ⟨cs, power⟩ := found
  simp only at hd ⊢
  cases cs with
  | nil =>
    have h := @isSome_read?_point ['0'] ['0'] [] x.negative (areDigits_replicate 1) (by simp) (areDigits_replicate 1) rfl
    simpa using h
  | cons first others =>
    have hfirst : AreDigits [first] := fun c hc => hd c (List.mem_singleton.1 hc ▸ List.mem_cons_self)
    have hothers : AreDigits others := fun c hc => hd c (List.mem_cons_of_mem _ hc)
    simp only
    generalize power + (others.length : Int) = lead
    by_cases hplain : (decide (0 ≤ lead) && decide (lead ≤ 15)) = true
    · rw [if_pos hplain]
      have hw : AreDigits ((first :: others).take (lead.toNat + 1) ++
          List.replicate (lead.toNat + 1 - ((first :: others).take (lead.toNat + 1)).length) '0') :=
        .append (fun c hc => hd c (List.mem_of_mem_take hc)) (areDigits_replicate _)
      have hf : AreDigits (if ((first :: others).drop (lead.toNat + 1)).isEmpty then ['0']
          else (first :: others).drop (lead.toNat + 1)) := by
        split
        · exact areDigits_replicate 1
        · exact fun c hc => hd c (List.mem_of_mem_drop hc)
      have h := @isSome_read?_point _ _ [] x.negative hw (by simp) hf rfl
      rwa [List.append_nil, List.append_assoc] at h
    · rw [if_neg hplain]
      by_cases hsmall : (decide (-5 ≤ lead) && decide (lead < 0)) = true
      · rw [if_pos hsmall]
        have h := @isSome_read?_point ['0'] _ [] x.negative (areDigits_replicate 1) (by simp)
          (.append (areDigits_replicate ((-lead).toNat - 1)) hd) rfl
        simpa using h
      · rw [if_neg hsmall]
        have ht := splitExponent_toDigits (lead < 0) lead.natAbs
        cases others with
        | nil =>
          have h := @isSome_read?_whole [first] _ x.negative hfirst (by simp) ht
          simpa using h
        | cons second others =>
          have h := @isSome_read?_point [first] _ _ x.negative hfirst (by simp) hothers ht
          simpa using h

/-- The text of a whole number can be read. -/
theorem isSome_read?_toString (n : Int) : (Decimal.read? (toString n).toList).isSome := by
  cases n with
  | ofNat n =>
    have h := @isSome_read?_whole (Nat.toDigits 10 n) [] false (areDigits_toDigits n) Nat.toDigits_ne_nil rfl
    change (Decimal.read? (Nat.repr n).toList).isSome
    rw [Nat.repr_eq_ofList_toDigits, String.toList_ofList]
    simpa using h
  | negSucc n =>
    have h := @isSome_read?_whole (Nat.toDigits 10 (n + 1)) [] true (areDigits_toDigits _) Nat.toDigits_ne_nil rfl
    change (Decimal.read? ("-" ++ Nat.repr (n + 1)).toList).isSome
    rw [Nat.repr_eq_ofList_toDigits, String.toList_append, String.toList_ofList]
    simpa using h

/-- The text of a JSON number can be read. -/
theorem isSome_read?_number (value : JsonNumber) : (Decimal.read? value.text.toList).isSome := by
  cases value with
  | integer n => exact isSome_read?_toString n
  | float x => exact isSome_read?_text x

end BicepMigration.Number
