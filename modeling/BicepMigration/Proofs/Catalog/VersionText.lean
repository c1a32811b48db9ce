import Mathlib.Algebra.Group.Nat.Defs
import BicepMigration.Catalog.ApiVersion
import BicepMigration.Proofs.Number.NumberText

/-!
# The text of API versions

A version is written as a date of four, two and two digits, with a suffix after another hyphen or none. Each field has
one numeral of its width, so what is written for a version is what it was read from, up to the suffix. Main statement:
without a plus sign in the date exactly such texts can be read, and a version reads back from its text. A plus sign may
stand in place of the first digit of a field.
-/

namespace BicepMigration.Catalog

open Text Number

section Numerals

variable {size n : Nat} {a b cs : List Char}

/-- A numeral of so many decimal digits. -/
structure IsNumeral (size : Nat) (cs : List Char) (n : Nat) : Prop where
  length : cs.length = size
  digits : AreDigits cs
  value : Nat.ofDigitChars 10 cs 0 = n

/-- The first digit counts powers of ten. -/
theorem ofDigitChars_cons_eq (c : Char) (cs : List Char) :
    Nat.ofDigitChars 10 (c :: cs) 0 = 10 ^ cs.length * (c.toNat - '0'.toNat) + Nat.ofDigitChars 10 cs 0 := by
  rw [Nat.ofDigitChars_cons, Nat.ofDigitChars_eq_ofDigitChars_zero, Nat.mul_zero, Nat.zero_add]

/-- So many digits make a number below that power of ten. -/
theorem ofDigitChars_lt (h : AreDigits cs) : Nat.ofDigitChars 10 cs 0 < 10 ^ cs.length := by
  induction cs with
  | nil => simp
  | cons c cs ih =>
    obtain ⟨hc, hcs⟩ := List.forall_mem_cons.1 h
    have hlt := ih hcs
    have hdigit : c.toNat - '0'.toNat ≤ 9 := Nat.sub_le_sub_right (Char.isDigit_iff_toNat.1 hc).2 _
    have hle := Nat.mul_le_mul_left (10 ^ cs.length) hdigit
    rw [ofDigitChars_cons_eq, List.length_cons, Nat.pow_succ]
    omega

/-- The first digit is the quotient by a power of ten, and the others are a numeral of the remainder. -/
theorem IsNumeral.of_cons {c : Char} (h : IsNumeral (size + 1) (c :: cs) n) :
    c.isDigit = true ∧ c.toNat - '0'.toNat = n / 10 ^ size ∧ IsNumeral size cs (n % 10 ^ size) := by
  obtain ⟨hc, hcs⟩ := List.forall_mem_cons.1 h.digits
  have hlength : cs.length = size := Nat.succ.inj h.length
  have hlt := ofDigitChars_lt hcs
  have hvalue := h.value
  rw [ofDigitChars_cons_eq, hlength] at hvalue
  rw [hlength] at hlt
  refine ⟨hc, ?_, hlength, hcs, ?_⟩
  · rw [← hvalue, Nat.mul_add_div (Nat.pow_pos (by decide)), Nat.div_eq_of_lt hlt, Nat.add_zero]
  · rw [← hvalue, Nat.mul_add_mod, Nat.mod_eq_of_lt hlt]

/-- A number has one numeral of each width. -/
theorem IsNumeral.unique (ha : IsNumeral size a n) (hb : IsNumeral size b n) : a = b := by
  induction size generalizing a b n with
  | zero => rw [List.length_eq_zero_iff.1 ha.length, List.length_eq_zero_iff.1 hb.length]
  | succ size ih =>
    obtain ⟨c, a, rfl⟩ := List.exists_cons_of_length_eq_add_one ha.length
    obtain ⟨d, b, rfl⟩ := List.exists_cons_of_length_eq_add_one hb.length
    obtain ⟨hc, hfirst, ha⟩ := ha.of_cons
    obtain ⟨hd, hfirst', hb⟩ := hb.of_cons
    have hcd : c = d := by
      have hlec := (Char.isDigit_iff_toNat.1 hc).1
      have hled := (Char.isDigit_iff_toNat.1 hd).1
      exact Char.toNat_inj.1 (by omega)
    rw [hcd, ih ha hb]

/-- Zeros and digits are a numeral of their width, if the width is enough. -/
theorem isNumeral_padded (hsize : 0 < size) (hn : n < 10 ^ size) : IsNumeral size (ApiVersion.padded size n) n where
  length := by
    have hle := (Nat.length_toDigits_le_iff (by decide) hsize).2 hn
    rw [ApiVersion.padded, List.length_append, List.length_replicate]
    omega
  digits := (areDigits_replicate _).append (areDigits_toDigits n)
  value := by
    rw [ApiVersion.padded, Nat.ofDigitChars_append, Nat.ofDigitChars_replicate_zero, Nat.mul_zero,
      Nat.ofDigitChars_ten_toDigits]

/-- A digit takes one byte. -/
theorem byteLength_of_areDigits (h : AreDigits cs) : byteLength cs = cs.length := by
  induction cs with
  | nil => rfl
  | cons c cs ih =>
    obtain ⟨hc, hcs⟩ := List.forall_mem_cons.1 h
    have hsize : c.utf8Size = 1 :=
      Char.utf8Size_eq_one_iff.2 (UInt32.le_iff_toNat_le.2 (Nat.le_trans (Char.isDigit_iff_toNat.1 hc).2 (by decide)))
    rw [byteLength_cons, ih hcs, hsize, List.length_cons, Nat.add_comm]

/-- A digit differs from every character that is none. -/
theorem ne_of_isDigit {c d : Char} (h : c.isDigit = true) (hd : d.isDigit = false) : c ≠ d := by
  rintro rfl
  rw [h] at hd
  cases hd

/-- A field without a plus sign is a numeral. -/
theorem readField_eq_some_iff (hsize : 0 < size) (hplus : cs.head? ≠ some '+') :
    ApiVersion.readField size cs = some n ↔ IsNumeral size cs n := by
  have hfield : ApiVersion.readField size cs =
      if byteLength cs = size && !cs.isEmpty && cs.all Char.isDigit then some (digitsValue 0 cs) else none := by
    cases cs with
    | nil => rfl
    | cons c cs =>
      have hc : c ≠ '+' := fun hc => hplus (congrArg some hc)
      simp [ApiVersion.readField, hc]
  rw [hfield]
  simp only [Bool.and_eq_true, decide_eq_true_eq, Bool.not_eq_true', List.isEmpty_eq_false_iff, List.all_eq_true,
    Option.ite_none_right_eq_some, Option.some.injEq]
  constructor
  · rintro ⟨⟨⟨hlength, -⟩, hall⟩, hvalue⟩
    exact ⟨(byteLength_of_areDigits hall).symm.trans hlength, hall, hvalue⟩
  · rintro ⟨hlength, hall, hvalue⟩
    refine ⟨⟨⟨(byteLength_of_areDigits hall).trans hlength, ?_⟩, hall⟩, hvalue⟩
    rintro rfl
    exact absurd hlength (Nat.ne_of_lt hsize)

end Numerals

/-- A plus sign may stand before the digits of a field, and nothing else does. -/
theorem length_of_readField {size n : Nat} {cs : List Char} (h : ApiVersion.readField size cs = some n) :
    cs.length = size ∧ ∀ c ∈ cs, c = '+' ∨ c.isDigit = true := by
  unfold ApiVersion.readField at h
  simp only [Option.ite_none_right_eq_some, Bool.and_eq_true, decide_eq_true_eq, List.all_eq_true] at h
  obtain ⟨⟨⟨hlength, -⟩, hall⟩, -⟩ := h
  split at hall
  · next rest =>
    rw [byteLength_cons, byteLength_of_areDigits hall] at hlength
    refine ⟨?_, fun c hc => (List.mem_cons.1 hc).imp id (hall c)⟩
    rw [List.length_cons, ← hlength, Nat.add_comm]
    rfl
  · exact ⟨(byteLength_of_areDigits hall).symm.trans hlength, fun c hc => .inr (hall c hc)⟩

/-- A hyphen and what follows it, or nothing. -/
def suffixed : Option (List Char) → List Char
  | none => []
  | some cs => '-' :: cs

/-- A text is cut in two at its first hyphen, and nothing of it is lost. -/
theorem splitHyphen_append (cs : List Char) :
    (ApiVersion.splitHyphen cs).1 ++ suffixed (ApiVersion.splitHyphen cs).2 = cs := by
  induction cs with
  | nil => rfl
  | cons c cs ih =>
    unfold ApiVersion.splitHyphen
    split
    · next hc => rw [hc]; rfl
    · exact congrArg (c :: ·) ih

/-- What has no hyphen is cut off as it is. -/
theorem splitHyphen_of_not_mem {cs : List Char} (h : '-' ∉ cs) (rest : Option (List Char)) :
    ApiVersion.splitHyphen (cs ++ suffixed rest) = (cs, rest) := by
  induction cs with
  | nil => cases rest <;> rfl
  | cons c cs ih =>
    obtain ⟨hc, hcs⟩ := not_or.1 (mt List.mem_cons.2 h)
    rw [List.cons_append, ApiVersion.splitHyphen, if_neg (Ne.symm hc), ih hcs]

/-- A field that can be read holds no hyphen. -/
theorem hyphen_not_mem_of_readField {size n : Nat} {cs : List Char} (h : ApiVersion.readField size cs = some n) :
    '-' ∉ cs := by
  intro hmem
  rcases (length_of_readField h).2 '-' hmem with hc | hc
  · exact absurd hc (by decide)
  · exact absurd hc (by decide)

/-- A version is read from three fields and a suffix. -/
theorem read?_eq_some_iff_fields {text : String} {v : ApiVersion} :
    ApiVersion.read? text = some v ↔ ∃ year month day suffix,
      text.toList = year ++ '-' :: (month ++ '-' :: (day ++ suffixed suffix)) ∧
      ApiVersion.readField 4 year = some v.year ∧ ApiVersion.readField 2 month = some v.month ∧
      ApiVersion.readField 2 day = some v.day ∧ ApiVersion.readStage suffix = some v.stage := by
  constructor
  · intro h
    simp only [ApiVersion.read?, Option.bind_eq_bind, Option.bind_eq_some_iff] at h
    obtain ⟨rest, hrest, rest', hrest', year, hyear, month, hmonth, day, hday, stage, hstage, h⟩ := h
    split at h
    · obtain rfl := Option.some.inj h
      have h₁ := splitHyphen_append text.toList
      have h₂ := splitHyphen_append rest
      have h₃ := splitHyphen_append rest'
      rw [hrest] at h₁
      rw [hrest'] at h₂
      refine ⟨_, _, _, _, ?_, hyear, hmonth, hday, hstage⟩
      rw [h₃]
      change _ = _ ++ '-' :: (_ ++ suffixed (some rest'))
      rw [h₂]
      exact h₁.symm
    · cases h
  · rintro ⟨year, month, day, suffix, htext, hyear, hmonth, hday, hstage⟩
    have h₁ := splitHyphen_of_not_mem (hyphen_not_mem_of_readField hyear) (some (month ++ '-' :: (day ++ suffixed suffix)))
    have h₂ := splitHyphen_of_not_mem (hyphen_not_mem_of_readField hmonth) (some (day ++ suffixed suffix))
    have h₃ := splitHyphen_of_not_mem (hyphen_not_mem_of_readField hday) suffix
    rw [suffixed, ← htext] at h₁
    rw [suffixed] at h₂
    simp only [ApiVersion.read?, h₁, h₂, h₃, Option.bind_eq_bind, Option.bind_some, hyear, hmonth, hday, hstage]
    exact dif_pos ⟨v.year_le, v.month_mem, v.day_mem⟩

/-- A date of four, two and two digits, with a suffix after another hyphen or none. -/
structure IsVersionText (text : String) (year month day : Nat) (suffix : Option (List Char)) : Prop where
  fields : ∃ y m d, text.toList = y ++ '-' :: (m ++ '-' :: (d ++ suffixed suffix)) ∧
    IsNumeral 4 y year ∧ IsNumeral 2 m month ∧ IsNumeral 2 d day
  month_mem : 1 ≤ month ∧ month ≤ 12
  day_mem : 1 ≤ day ∧ day ≤ 31
  suffix_ne : suffix ≠ some []

/-- Digits do not start with a plus sign. -/
theorem IsNumeral.head?_ne_plus {size n : Nat} {cs : List Char} (h : IsNumeral size cs n) : cs.head? ≠ some '+' :=
  fun hc => absurd (h.digits _ (List.mem_of_mem_head? hc)) (by decide)

/-- A version without a suffix is released, and one with a suffix that is not empty is a preview. -/
theorem readStage_eq_some_iff {suffix : Option (List Char)} {stage : Stage} :
    ApiVersion.readStage suffix = some stage ↔
      suffix ≠ some [] ∧ stage = if suffix = none then .released else .preview := by
  rcases suffix with _ | _ | ⟨c, cs⟩ <;> simp [ApiVersion.readStage, eq_comm]

/-- Such a text can be read. -/
theorem IsVersionText.read? {text : String} {year month day : Nat} {suffix : Option (List Char)}
    (h : IsVersionText text year month day suffix) :
    ∃ v, ApiVersion.read? text = some v ∧ v.year = year ∧ v.month = month ∧ v.day = day ∧
      v.stage = if suffix = none then .released else .preview := by
  obtain ⟨⟨y, m, d, htext, hy, hm, hd⟩, hmonth, hday, hsuffix⟩ := h
  have hyear : year ≤ 9999 := by
    have hlt := ofDigitChars_lt hy.digits
    rw [hy.value, hy.length] at hlt
    omega
  refine ⟨⟨year, month, day, if suffix = none then .released else .preview, hyear, hmonth, hday⟩, ?_, rfl, rfl, rfl, rfl⟩
  refine read?_eq_some_iff_fields.2 ⟨y, m, d, suffix, htext, ?_, ?_, ?_, readStage_eq_some_iff.2 ⟨hsuffix, rfl⟩⟩
  · exact (readField_eq_some_iff (by decide) hy.head?_ne_plus).2 hy
  · exact (readField_eq_some_iff (by decide) hm.head?_ne_plus).2 hm
  · exact (readField_eq_some_iff (by decide) hd.head?_ne_plus).2 hd

/-- What is read from a text without a plus sign in the date is written there. -/
theorem exists_isVersionText {text : String} {v : ApiVersion} (h : ApiVersion.read? text = some v)
    (hplus : '+' ∉ text.toList.take 10) : ∃ suffix, IsVersionText text v.year v.month v.day suffix := by
  obtain ⟨y, m, d, suffix, htext, hy, hm, hd, hstage⟩ := read?_eq_some_iff_fields.1 h
  have hdate : text.toList.take 10 = y ++ '-' :: (m ++ '-' :: d) := by
    have hlength : (y ++ '-' :: (m ++ '-' :: d)).length = 10 := by
      simp [(length_of_readField hy).1, (length_of_readField hm).1, (length_of_readField hd).1]
    have hall : text.toList = (y ++ '-' :: (m ++ '-' :: d)) ++ suffixed suffix := by simp [htext]
    rw [hall, ← hlength, List.take_left]
  simp only [hdate, List.mem_append, List.mem_cons, not_or] at hplus
  obtain ⟨hy', -, hm', -, hd'⟩ := hplus
  refine ⟨suffix, ⟨y, m, d, htext, ?_, ?_, ?_⟩, v.month_mem, v.day_mem, (readStage_eq_some_iff.1 hstage).1⟩
  · exact (readField_eq_some_iff (by decide) fun h => hy' (List.mem_of_mem_head? h)).1 hy
  · exact (readField_eq_some_iff (by decide) fun h => hm' (List.mem_of_mem_head? h)).1 hm
  · exact (readField_eq_some_iff (by decide) fun h => hd' (List.mem_of_mem_head? h)).1 hd

/-- The suffix that is written for a stage. -/
def stageSuffix : Stage → Option (List Char)
  | .released => none
  | .preview => some "preview".toList

/-- What is written for a version is such a text. -/
theorem isVersionText_text (v : ApiVersion) : IsVersionText v.text v.year v.month v.day (stageSuffix v.stage) where
  fields := by
    have hyear := v.year_le
    have hmonth := v.month_mem
    have hday := v.day_mem
    refine ⟨_, _, _, ?_, isNumeral_padded (by decide) (by omega), isNumeral_padded (by decide) (by omega),
      isNumeral_padded (by decide) (by omega)⟩
    rw [ApiVersion.text, String.toList_ofList]
    cases v.stage <;> simp [stageSuffix, suffixed]
  month_mem := v.month_mem
  day_mem := v.day_mem
  suffix_ne := by cases v.stage <;> simp [stageSuffix]

/-- A version reads back from its text. -/
theorem read?_text (v : ApiVersion) : ApiVersion.read? v.text = some v := by
  obtain ⟨w, hw, hyear, hmonth, hday, hstage⟩ := (isVersionText_text v).read?
  have hstage' : w.stage = v.stage := by
    rw [hstage]
    cases v.stage <;> simp [stageSuffix]
  obtain ⟨_, _, _, _, _, _, _⟩ := v
  obtain ⟨_, _, _, _, _, _, _⟩ := w
  simp only at hyear hmonth hday hstage'
  subst hyear hmonth hday hstage'
  exact hw

/-- Two texts of one date with one suffix are the same. -/
theorem IsVersionText.unique {a b : String} {year month day : Nat} {suffix : Option (List Char)}
    (ha : IsVersionText a year month day suffix) (hb : IsVersionText b year month day suffix) : a = b := by
  obtain ⟨y, m, d, htext, hy, hm, hd⟩ := ha.fields
  obtain ⟨y', m', d', htext', hy', hm', hd'⟩ := hb.fields
  rw [← String.toList_inj, htext, htext', hy.unique hy', hm.unique hm', hd.unique hd']

/-- Without a plus sign in the date exactly the texts of a date with a suffix or none are versions. A version reads back
from its text, which is the text it was read from if that has no suffix or the one that is written for previews. -/
theorem versions_exact (text : String) :
    ('+' ∉ text.toList.take 10 → ((ApiVersion.read? text).isSome = true ↔
      ∃ year month day suffix, IsVersionText text year month day suffix)) ∧
    ∀ v, ApiVersion.read? text = some v → ApiVersion.read? v.text = some v ∧
      ∀ year month day suffix, IsVersionText text year month day suffix →
        suffix = none ∨ suffix = some "preview".toList → v.text = text := by
  refine ⟨fun hplus => ⟨fun h => ?_, fun ⟨_, _, _, _, h⟩ => ?_⟩, fun v hv => ⟨read?_text v, ?_⟩⟩
  · obtain ⟨v, hv⟩ := Option.isSome_iff_exists.1 h
    obtain ⟨suffix, h⟩ := exists_isVersionText hv hplus
    exact ⟨_, _, _, suffix, h⟩
  · obtain ⟨v, hv, -⟩ := h.read?
    rw [hv]
    rfl
  · intro year month day suffix h hsuffix
    obtain ⟨w, hw, rfl, rfl, rfl, hstage⟩ := h.read?
    obtain rfl := Option.some.inj (hv.symm.trans hw)
    have hown : stageSuffix v.stage = suffix := by
      rw [hstage]
      rcases hsuffix with rfl | rfl <;> rfl
    exact (hown ▸ isVersionText_text v).unique h

/-- A suffix other than the one that is written for previews can be read, and is not kept. -/
theorem versions_exact_suffixed :
    '+' ∉ "2023-02-31-beta.1".toList.take 10 ∧
      ((ApiVersion.read? "2023-02-31-beta.1").isSome = true ↔
        ∃ year month day suffix, IsVersionText "2023-02-31-beta.1" year month day suffix) ∧
      ∃ v, ApiVersion.read? "2023-02-31-beta.1" = some v ∧ ApiVersion.read? v.text = some v ∧
        v.text = "2023-02-31-preview" := by
  have hplus : '+' ∉ "2023-02-31-beta.1".toList.take 10 := by decide
  obtain ⟨hiff, hversion⟩ := versions_exact "2023-02-31-beta.1"
  refine ⟨hplus, hiff hplus, ⟨2023, 2, 31, .preview, by decide, by decide, by decide⟩, by decide, ?_, by decide⟩
  exact (hversion _ (by decide)).1

/-- A plus sign may stand in place of the first digit of a field. -/
theorem plus_taken_for_digit :
    (ApiVersion.read? "+023-01-01").isSome = true ∧
      ¬ ∃ year month day suffix, IsVersionText "+023-01-01" year month day suffix := by
  refine ⟨by decide, ?_⟩
  rintro ⟨year, month, day, suffix, ⟨y, m, d, htext, hy, -⟩, -⟩
  obtain ⟨c, y, rfl⟩ := List.exists_cons_of_length_eq_add_one hy.length
  obtain ⟨rfl, -⟩ := List.cons.inj htext
  exact absurd (hy.digits _ List.mem_cons_self) (by decide)

end BicepMigration.Catalog
