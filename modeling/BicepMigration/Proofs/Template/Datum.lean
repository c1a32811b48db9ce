import Mathlib.Data.List.Forall2
import Mathlib.Data.List.Perm.Subperm
import BicepMigration.Proofs.Number.NumberText
import BicepMigration.Proofs.Number.Rounding
import BicepMigration.Template.Scanned

/-!
# What values denote

A literal value and a JSON value denote data: a string its content, a number its exact decimal value, an array
the list of its items, an object the finite map from its keys to its values. The comparison of a value with a
JSON value looks up the keys of the value only and compares numbers in binary64, so it can be trusted where no
object repeats a key and no two numbers that binary64 takes for one another differ. Main statement: a value that
compares equal then denotes what the JSON value denotes.
-/

namespace BicepMigration.Template

open Number

/-- What a literal value denotes. -/
inductive Datum where
  | null
  | bool (value : Bool)
  | number (value : ℚ)
  | string (text : String)
  | array (items : List Datum)
  /-- The value under each key, if there is one. -/
  | object (fields : String → Option Datum)

/-- The number that a text denotes, if it is a numeral. -/
def decimalValue? (text : String) : Option ℚ := (Decimal.read? text.toList).map Decimal.value

/-- The text is a numeral of at most fifteen digits that is not too small to be normal. -/
def IsShortNumeral (text : String) : Prop := ∃ q, decimalValue? text = some q ∧ IsShort q

namespace Value

mutual

/-- What a value denotes. Nothing if it is no literal. Of entries with one key the first one counts. -/
def datum? : Value → Option Datum
  | .expression _ => none
  | .interpolated _ => none
  | .string fragment => (stringContent? fragment.raw).map .string
  | .number text => (decimalValue? text).map .number
  | .bool value => some (.bool value)
  | .null => some .null
  | .array items => (itemsDatum? items).map .array
  | .object entries => (entriesDatum? entries).map fun fields => .object fun key => List.lookup key fields

/-- What elements denote. -/
def itemsDatum? : List Value → Option (List Datum)
  | [] => some []
  | item :: rest => do
    let first ← item.datum?
    let others ← itemsDatum? rest
    some (first :: others)

/-- What the values of entries denote, with the keys. -/
def entriesDatum? : List (Property Value) → Option (List (String × Datum))
  | [] => some []
  | ⟨key, _, value, _⟩ :: rest => do
    let first ← value.datum?
    let others ← entriesDatum? rest
    some ((key, first) :: others)

end

mutual

/-- No object in the value has two entries with one key. -/
def DistinctKeys : Value → Prop
  | .array items => ItemsDistinctKeys items
  | .object entries => (entries.map (·.key)).Nodup ∧ EntriesDistinctKeys entries
  | _ => True

/-- No object in the elements has two entries with one key. -/
def ItemsDistinctKeys : List Value → Prop
  | [] => True
  | item :: rest => item.DistinctKeys ∧ ItemsDistinctKeys rest

/-- No object in the values of entries has two entries with one key. -/
def EntriesDistinctKeys : List (Property Value) → Prop
  | [] => True
  | ⟨_, _, value, _⟩ :: rest => value.DistinctKeys ∧ EntriesDistinctKeys rest

end

mutual

/-- The texts of the numbers in a value. -/
def numerals : Value → List String
  | .number text => [text]
  | .array items => itemsNumerals items
  | .object entries => entriesNumerals entries
  | _ => []

/-- The texts of the numbers in elements. -/
def itemsNumerals : List Value → List String
  | [] => []
  | item :: rest => item.numerals ++ itemsNumerals rest

/-- The texts of the numbers in the values of entries. -/
def entriesNumerals : List (Property Value) → List String
  | [] => []
  | ⟨_, _, value, _⟩ :: rest => value.numerals ++ entriesNumerals rest

end

end Value

end BicepMigration.Template

namespace BicepMigration.Json

open Template

mutual

/-- What a JSON value denotes. Of entries with one key the first one counts. -/
def datum? : Json → Option Datum
  | .null => some .null
  | .bool value => some (.bool value)
  | .number value => (decimalValue? value.text).map .number
  | .string value => some (.string value)
  | .array items => (itemsDatum? items).map .array
  | .object entries => (entriesDatum? entries).map fun fields => .object fun key => List.lookup key fields

/-- What elements denote. -/
def itemsDatum? : List Json → Option (List Datum)
  | [] => some []
  | item :: rest => do
    let first ← item.datum?
    let others ← itemsDatum? rest
    some (first :: others)

/-- What the values of entries denote, with the keys. -/
def entriesDatum? : List (String × Json) → Option (List (String × Datum))
  | [] => some []
  | (key, value) :: rest => do
    let first ← value.datum?
    let others ← entriesDatum? rest
    some ((key, first) :: others)

end

mutual

/-- The texts of the numbers in a value. -/
def numerals : Json → List String
  | .number value => [value.text]
  | .array items => itemsNumerals items
  | .object entries => entriesNumerals entries
  | _ => []

/-- The texts of the numbers in elements. -/
def itemsNumerals : List Json → List String
  | [] => []
  | item :: rest => item.numerals ++ itemsNumerals rest

/-- The texts of the numbers in the values of entries. -/
def entriesNumerals : List (String × Json) → List String
  | [] => []
  | (_, value) :: rest => value.numerals ++ entriesNumerals rest

end

end BicepMigration.Json

namespace BicepMigration.Template

open Number

/-- Numbers that compare equal are spelled alike or both short. -/
def NumeralsTold (texts others : List String) : Prop :=
  ∀ a ∈ texts, ∀ b ∈ others, numbersEqual a b = true → a = b ∨ (IsShortNumeral a ∧ IsShortNumeral b)

/-- Fewer numerals are told apart as well. -/
theorem NumeralsTold.mono {texts others texts' others' : List String} (h : NumeralsTold texts others)
    (ht : texts' ⊆ texts) (ho : others' ⊆ others) : NumeralsTold texts' others' :=
  fun a ha b hb => h a (ht ha) b (ho hb)

/-- Numerals that compare equal denote the same number, if they are spelled alike or both short. -/
theorem decimalValue?_eq_of_numbersEqual {a b : String} (h : numbersEqual a b = true)
    (hs : a = b ∨ (IsShortNumeral a ∧ IsShortNumeral b)) : decimalValue? a = decimalValue? b := by
  by_cases hab : a = b
  · rw [hab]
  · obtain ⟨⟨p, hp, hps⟩, ⟨q, hq, hqs⟩⟩ := hs.resolve_left hab
    obtain ⟨c, hc, rfl⟩ := Option.map_eq_some_iff.1 hp
    obtain ⟨d, hd, rfl⟩ := Option.map_eq_some_iff.1 hq
    simp only [numbersEqual, hab, readBinary64?, hc, hd, Option.bind_some, decide_false, Bool.false_or] at h
    split at h
    · next x y hx hy => rw [hp, hq, eq_of_sameValue hps hqs hx hy h]
    · cases h

/-- Every JSON number denotes a number. -/
theorem exists_decimalValue?_number (value : JsonNumber) : ∃ q, decimalValue? value.text = some q := by
  obtain ⟨d, hd⟩ := Option.isSome_iff_exists.1 (isSome_read?_number value)
  exact ⟨d.value, by rw [decimalValue?, hd]; rfl⟩

/-- A numeral written with less than sixteen digits is short. -/
theorem isShortNumeral_of_read? {text : String} {d : Decimal} (h : Decimal.read? text.toList = some d)
    (hd : d.digits < 10 ^ 15) (he : -300 ≤ d.exponent) : IsShortNumeral text := by
  refine ⟨d.value, by rw [decimalValue?, h]; rfl, if d.negative then -d.digits else d.digits, d.exponent, ?_, ?_, he⟩
  · cases hneg : d.negative <;> simp [Decimal.value, signFactor, hneg]
  · split <;> simpa using hd

/-- A value and a JSON value denote the same. -/
def Agree (v : Value) (d : Json) : Prop := ∃ datum, v.datum? = some datum ∧ d.datum? = some datum

/-- What the values of a table denote, with the keys. -/
def collect {α : Type} (datum? : α → Option Datum) : List (String × α) → Option (List (String × Datum))
  | [] => some []
  | (key, value) :: rest => do
    let first ← datum? value
    let others ← collect datum? rest
    some ((key, first) :: others)

/-- The data of properties are collected under their keys. -/
theorem entriesDatum?_eq_collect (entries : ObjectLiteral) :
    Value.entriesDatum? entries = collect Value.datum? (entries.map fun p => (p.key, p.value)) := by
  induction entries with
  | nil => rfl
  | cons p rest ih => simp [Value.entriesDatum?, collect, ih]

/-- The data of entries are collected under their keys. -/
theorem json_entriesDatum?_eq_collect (entries : List (String × Json)) :
    Json.entriesDatum? entries = collect Json.datum? entries := by
  induction entries with
  | nil => rfl
  | cons e rest ih => simp [Json.entriesDatum?, collect, ih]

section Tables

variable {α β : Type} {f : α → Option Datum} {g : β → Option Datum} {table : List (String × α)}

/-- What a table denotes under a key is what its entry with that key denotes. -/
theorem lookup_collect (key : String) {fields : List (String × Datum)} (h : collect f table = some fields) :
    fields.lookup key = (table.lookup key).bind f := by
  induction table generalizing fields with
  | nil =>
    obtain rfl : [] = fields := by simpa [collect] using h
    rfl
  | cons e rest ih =>
    obtain ⟨k, value⟩ := e
    simp only [collect, Option.bind_eq_bind, Option.bind_eq_some_iff, Option.some.injEq] at h
    obtain ⟨first, hf, others, ho, rfl⟩ := h
    rw [List.lookup_cons, List.lookup_cons]
    split
    · exact hf.symm
    · exact ih ho

/-- Where every value has a datum the table has one. -/
theorem exists_collect (h : ∀ e ∈ table, ∃ datum, f e.2 = some datum) : ∃ fields, collect f table = some fields := by
  induction table with
  | nil => exact ⟨[], rfl⟩
  | cons e rest ih =>
    obtain ⟨first, hf⟩ := h _ List.mem_cons_self
    obtain ⟨others, ho⟩ := ih fun e he => h e (List.mem_cons_of_mem _ he)
    exact ⟨(e.1, first) :: others, by simp [collect, hf, ho]⟩

/-- What is looked up in a table is in it. -/
theorem mem_of_lookup {key : String} {value : α} (h : table.lookup key = some value) : (key, value) ∈ table := by
  obtain ⟨before, after, rfl, -⟩ := List.lookup_eq_some_iff.1 h
  simp

/-- An entry of a table without repeated keys is the one that is looked up. -/
theorem lookup_of_mem (hn : (table.map Prod.fst).Nodup) {e : String × α} (he : e ∈ table) :
    table.lookup e.1 = some e.2 := by
  induction table with
  | nil => cases he
  | cons first table ih =>
    rw [List.map_cons, List.nodup_cons] at hn
    rcases List.mem_cons.1 he with rfl | hm
    · rw [List.lookup_cons, beq_self_eq_true]
    · have hne : (e.1 == first.1) = false :=
        beq_eq_false_iff_ne.2 fun heq => hn.1 (heq ▸ List.mem_map_of_mem hm)
      rw [List.lookup_cons, hne]
      exact ih hn.2 hm

/-- Tables with as many entries denote the same map if the first repeats no key and each entry of it denotes the same
as the entry of the second under its key. -/
theorem exists_fields {others : List (String × β)} (hn : (table.map Prod.fst).Nodup)
    (hl : table.length = others.length)
    (h : ∀ e ∈ table, ∃ d datum, others.lookup e.1 = some d ∧ f e.2 = some datum ∧ g d = some datum) :
    ∃ fields fields', collect f table = some fields ∧ collect g others = some fields' ∧
      ∀ key, fields.lookup key = fields'.lookup key := by
  have hsub : table.map Prod.fst ⊆ others.map Prod.fst := by
    intro key hk
    obtain ⟨e, he, rfl⟩ := List.mem_map.1 hk
    obtain ⟨d, -, hd, -⟩ := h e he
    exact List.mem_map_of_mem (mem_of_lookup hd)
  -- as many keys, so there are no others and none is repeated on the other side either
  have hperm : (table.map Prod.fst).Perm (others.map Prod.fst) :=
    (List.subperm_of_subset hn hsub).perm_of_length_le (by simp [hl])
  obtain ⟨fields, hf⟩ : ∃ fields, collect f table = some fields := exists_collect fun e he => by
    obtain ⟨-, datum, -, hv, -⟩ := h e he
    exact ⟨datum, hv⟩
  obtain ⟨fields', hf'⟩ : ∃ fields', collect g others = some fields' := exists_collect fun e he => by
    obtain ⟨e', he', hk⟩ := List.mem_map.1 (hperm.symm.subset (List.mem_map_of_mem he))
    obtain ⟨d, datum, hd, -, hj⟩ := h e' he'
    have heq := lookup_of_mem (hperm.nodup hn) he
    rw [← hk, hd, Option.some.injEq] at heq
    exact ⟨datum, heq ▸ hj⟩
  refine ⟨fields, fields', hf, hf', fun key => ?_⟩
  rw [lookup_collect key hf, lookup_collect key hf']
  rcases ht : table.lookup key with _ | value
  · rcases ho : others.lookup key with _ | d
    · rfl
    · exfalso
      obtain ⟨e, he, rfl⟩ := List.mem_map.1 (hperm.symm.subset (List.mem_map_of_mem (mem_of_lookup ho)))
      rw [lookup_of_mem hn he] at ht
      cases ht
  · obtain ⟨d, datum, hd, hv, hj⟩ := h _ (mem_of_lookup ht)
    rw [hd]
    exact hv.trans hj.symm

end Tables

/-- Objects with as many entries agree if no key is repeated and each entry agrees with the JSON value under its
key. -/
theorem agree_object {entries : ObjectLiteral} {values : List (String × Json)}
    (hn : (entries.map (·.key)).Nodup) (hl : entries.length = values.length)
    (h : ∀ p ∈ entries, ∃ d, values.lookup p.key = some d ∧ Agree p.value d) :
    Agree (.object entries) (.object values) := by
  obtain ⟨fields, fields', hf, hf', hlook⟩ :=
    @exists_fields _ _ Value.datum? Json.datum? (entries.map fun p => (p.key, p.value)) values
      (by simpa [Function.comp_def] using hn) (by simpa using hl) fun e he => by
        obtain ⟨p, hp, rfl⟩ := List.mem_map.1 he
        obtain ⟨d, hd, datum, hv, hj⟩ := h p hp
        exact ⟨d, datum, hd, hv, hj⟩
  refine ⟨.object fun key => fields.lookup key, ?_, ?_⟩
  · rw [Value.datum?, entriesDatum?_eq_collect, hf]
    rfl
  · rw [Json.datum?, json_entriesDatum?_eq_collect, hf', funext hlook]
    rfl

/-- The numerals of an entry are some of those of the table. -/
theorem numerals_subset_of_lookup {values : List (String × Json)} {key : String} {d : Json}
    (h : values.lookup key = some d) : d.numerals ⊆ Json.entriesNumerals values := by
  have hm := mem_of_lookup h
  clear h
  induction values with
  | nil => cases hm
  | cons e values ih =>
    obtain ⟨k, value⟩ := e
    rcases List.mem_cons.1 hm with heq | hm
    · obtain ⟨rfl, rfl⟩ := Prod.mk.inj heq
      exact List.subset_append_left _ _
    · exact List.Subset.trans (ih hm) (List.subset_append_right _ _)

mutual

/-- A value that compares equal denotes what the JSON value denotes. -/
theorem agree_of_literalEq : ∀ (v : Value) {d : Json}, v.literalEq d = some true → v.DistinctKeys →
    NumeralsTold v.numerals d.numerals → Agree v d
  | .expression _, d, h, _, _ => by simp [Value.literalEq] at h
  | .interpolated _, d, h, _, _ => by simp [Value.literalEq] at h
  | .string fragment, d, h, _, _ => by
    cases d with
    | string text =>
      obtain ⟨content, hc, ht⟩ := Option.map_eq_some_iff.1 h
      obtain rfl : content = text := by simpa using ht
      exact ⟨.string content, by simp [Value.datum?, hc], rfl⟩
    | _ => simp [Value.literalEq, Value.isLiteral] at h
  | .number text, d, h, _, hn => by
    cases d with
    | number value =>
      obtain ⟨q, hq⟩ := exists_decimalValue?_number value
      have he : numbersEqual text value.text = true := by simpa [Value.literalEq] using h
      have ht := decimalValue?_eq_of_numbersEqual he (hn _ List.mem_cons_self _ List.mem_cons_self he)
      exact ⟨.number q, by simp [Value.datum?, ht, hq], by simp [Json.datum?, hq]⟩
    | _ => simp [Value.literalEq, Value.isLiteral] at h
  | .bool a, d, h, _, _ => by
    cases d with
    | bool b =>
      obtain rfl : a = b := by simpa [Value.literalEq] using h
      exact ⟨.bool a, rfl, rfl⟩
    | _ => simp [Value.literalEq, Value.isLiteral] at h
  | .null, d, h, _, _ => by
    cases d with
    | null => exact ⟨.null, rfl, rfl⟩
    | _ => simp [Value.literalEq, Value.isLiteral] at h
  | .array items, d, h, hk, hn => by
    cases d with
    | array values =>
      simp only [Value.literalEq] at h
      split at h
      · next hl =>
        obtain ⟨data, hi, hj⟩ := itemsDatum?_eq_of_itemsEq items hl h hk hn
        exact ⟨.array data, by simp [Value.datum?, hi], by simp [Json.datum?, hj]⟩
      · split at h <;> cases h
    | _ =>
      simp only [Value.literalEq] at h
      split at h <;> cases h
  | .object entries, d, h, hk, hn => by
    cases d with
    | object values =>
      simp only [Value.literalEq] at h
      split at h
      · cases h
      · split at h
        · next hl => exact agree_object hk.1 hl (agree_of_entriesEq entries h hk.2 hn)
        · cases h
    | _ =>
      simp only [Value.literalEq] at h
      split at h <;> cases h

/-- Elements that compare equal one by one denote the same list. -/
theorem itemsDatum?_eq_of_itemsEq : ∀ (items : List Value) {values : List Json}, items.length = values.length →
    Value.itemsEq items values = some true → Value.ItemsDistinctKeys items →
    NumeralsTold (Value.itemsNumerals items) (Json.itemsNumerals values) →
    ∃ data, Value.itemsDatum? items = some data ∧ Json.itemsDatum? values = some data
  | [], [], _, _, _, _ => ⟨[], rfl, rfl⟩
  | item :: rest, value :: values, hl, h, hk, hn => by
    simp only [Value.itemsEq, Option.bind_eq_bind, Option.bind_eq_some_iff, Option.some.injEq,
      Bool.and_eq_true] at h
    obtain ⟨first, hf, others, ho, rfl, rfl⟩ := h
    obtain ⟨datum, hv, hd⟩ := agree_of_literalEq item hf hk.1
      (hn.mono (List.subset_append_left _ _) (List.subset_append_left _ _))
    obtain ⟨data, hi, hj⟩ := itemsDatum?_eq_of_itemsEq rest (Nat.succ.inj hl) ho hk.2
      (hn.mono (List.subset_append_right _ _) (List.subset_append_right _ _))
    exact ⟨datum :: data, by simp [Value.itemsDatum?, hv, hi], by simp [Json.itemsDatum?, hd, hj]⟩

/-- Entries that compare equal denote what the JSON values under their keys denote. -/
theorem agree_of_entriesEq : ∀ (entries : ObjectLiteral) {values : List (String × Json)},
    Value.entriesEq entries values = some true → Value.EntriesDistinctKeys entries →
    NumeralsTold (Value.entriesNumerals entries) (Json.entriesNumerals values) →
    ∀ p ∈ entries, ∃ d, values.lookup p.key = some d ∧ Agree p.value d
  | [], values, _, _, _ => by simp
  | ⟨key, quoted, value, line⟩ :: rest, values, h, hk, hn => by
    simp only [Value.entriesEq] at h
    split at h
    · cases h
    · next d hd =>
      split at h
      · next hv =>
        intro p hp
        rcases List.mem_cons.1 hp with rfl | hp
        · exact ⟨d, hd, agree_of_literalEq value hv hk.1
            (hn.mono (List.subset_append_left _ _) (numerals_subset_of_lookup hd))⟩
        · exact agree_of_entriesEq rest h hk.2 (hn.mono (List.subset_append_right _ _) (List.Subset.refl _)) p hp
      · next hne => exact absurd h hne

end

/-- A value that compares equal with a JSON value denotes the same, if no object in it repeats a key and numbers that
compare equal are spelled alike or short. -/
theorem literalEq_denotes {v : Value} {d : Json} (h : v.literalEq d = some true) (hk : v.DistinctKeys)
    (hn : NumeralsTold v.numerals d.numerals) : ∃ datum, v.datum? = some datum ∧ d.datum? = some datum :=
  agree_of_literalEq v h hk hn

/-- An object with a number and a list. -/
def quotaValue : Value :=
  .object [.plain "quota" (.number "5.0"), .plain "zones" (.array [.string ⟨"'one'", none⟩, .null])]

/-- The same object with the number spelled in another way and the entries in another order. -/
def quotaJson : Json := .object [("zones", .array [.string "one", .null]), ("quota", .ofNat 5)]

/-- An object with numbers equals its default, and both have a datum. -/
theorem literalEq_denotes_quota :
    quotaValue.literalEq quotaJson = some true ∧ quotaValue.DistinctKeys ∧
      NumeralsTold quotaValue.numerals quotaJson.numerals ∧
      ∃ datum, quotaValue.datum? = some datum ∧ quotaJson.datum? = some datum := by
  have h : quotaValue.literalEq quotaJson = some true := by decide +kernel
  have hk : quotaValue.DistinctKeys := by
    simp [quotaValue, Value.DistinctKeys, Value.EntriesDistinctKeys, Value.ItemsDistinctKeys, Property.plain]
  have hn : NumeralsTold quotaValue.numerals quotaJson.numerals := by
    intro a ha b hb _
    obtain rfl : a = "5.0" := List.mem_singleton.1 ha
    obtain rfl : b = "5" := List.mem_singleton.1 hb
    have ha : Decimal.read? "5.0".toList = some ⟨false, 50, -1⟩ := by decide +kernel
    have hb : Decimal.read? "5".toList = some ⟨false, 5, 0⟩ := by decide +kernel
    exact .inr ⟨isShortNumeral_of_read? ha (by decide) (by decide), isShortNumeral_of_read? hb (by decide) (by decide)⟩
  exact ⟨h, hk, hn, literalEq_denotes h hk hn⟩

/-- The value under a key in the body of the first statement of a template. -/
def firstEntry? (source key : String) : Option Value := do
  let template ← (scan source).toOption
  let s ← template.statements.head?
  let body ← s.body
  body.get? key

/-- What a datum holds under a key. -/
def Datum.field? (key : String) : Datum → Option Datum
  | .object fields => fields key
  | _ => none

/-- The number that a datum is. -/
def Datum.number? : Datum → Option ℚ
  | .number q => some q
  | _ => none

/-- A repeated key hides a missing one, and binary64 has one number for neighbouring whole numbers: values that
compare equal and denote something else. -/
theorem literalEq_trusts_too_much :
    (∃ v, firstEntry? "module m 'x' = \x7b\n  v: \x7ba: 1, a: 1\x7d\n\x7d\n" "v" = some v ∧
      v.literalEq (.object [("a", .ofNat 1), ("b", .ofNat 2)]) = some true ∧
      v.datum? ≠ (Json.object [("a", .ofNat 1), ("b", .ofNat 2)]).datum?) ∧
    ∃ v, firstEntry? "module m 'x' = \x7b\n  v: 9007199254740993\n\x7d\n" "v" = some v ∧
      v.literalEq (.ofNat 9007199254740992) = some true ∧
      v.datum? ≠ (Json.ofNat 9007199254740992).datum? := by
  constructor
  · have hall : ( firstEntry? "module m 'x' = \x7b\n  v: \x7ba: 1, a: 1\x7d\n\x7d\n" "v").any (fun v =>
        v.literalEq (.object [("a", .ofNat 1), ("b", .ofNat 2)]) = some true &&
          (v.datum?.bind (Datum.field? "b")).isNone) = true := by decide +kernel
    obtain ⟨v, hv, hp⟩ := (Option.any_eq_true _ _).1 hall
    simp only [Bool.and_eq_true, decide_eq_true_eq] at hp
    refine ⟨v, hv, hp.1, fun heq => ?_⟩
    rw [heq] at hp
    exact absurd hp.2 (by decide +kernel)
  · have hall : ( firstEntry? "module m 'x' = \x7b\n  v: 9007199254740993\n\x7d\n" "v").any (fun v =>
        v.literalEq (.ofNat 9007199254740992) = some true &&
          v.datum?.bind Datum.number? = some 9007199254740993) = true := by decide +kernel
    obtain ⟨v, hv, hp⟩ := (Option.any_eq_true _ _).1 hall
    simp only [Bool.and_eq_true, decide_eq_true_eq] at hp
    refine ⟨v, hv, hp.1, fun heq => ?_⟩
    rw [heq] at hp
    exact absurd hp.2 (by decide +kernel)

end BicepMigration.Template
