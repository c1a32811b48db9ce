import BicepMigration.Proofs.Template.LiteralUse

/-!
# Which comparisons are decided

A comparison with a JSON value says nothing exactly where the value holds an expression or a string with holes. A
string that cannot be decoded would say nothing either. There is none in a template: a string is scanned up to its end,
and an escape in it is never cut off.
-/

namespace BicepMigration.Template

open Text

/-- A value is in another one, at any depth. -/
inductive Value.Within : Value → Value → Prop where
  | self {v : Value} : Within v v
  | entry {w : Value} {p : Property Value} {entries : ObjectLiteral} : p ∈ entries → Within w p.value →
      Within w (.object entries)
  | item {w v : Value} {items : List Value} : v ∈ items → Within w v → Within w (.array items)

/-- The value is an expression or a string with holes. -/
def Value.isDeferred : Value → Bool
  | .expression _ | .interpolated _ => true
  | _ => false

/-- All strings in a value can be decoded. -/
def Value.Decodes (v : Value) : Prop := ∀ f, (Value.string f).Within v → ∃ text, stringContent? f.raw = some text

namespace Value

variable {v w : Value} {entries : ObjectLiteral} {items : List Value}

/-- What holds of all scalars in a value holds of all scalars in a value in it. -/
theorem Every.of_within {leaf : Value → Prop} (h : v.Every leaf) (hw : w.Within v) : w.Every leaf := by
  induction hw with
  | self => exact h
  | entry hp _ ih =>
    cases h with
    | scalar hs => cases hs
    | object _ hall => exact ih (hall _ hp)
  | item hv _ ih =>
    cases h with
    | scalar hs => cases hs
    | array hall => exact ih (hall _ hv)

/-- A value is no literal if something within it is none. -/
theorem Within.isLiteral_eq_false (h : w.Within v) (hw : w.isLiteral = false) : v.isLiteral = false := by
  induction h with
  | self => exact hw
  | @entry p entries hp _ ih =>
    refine Bool.eq_false_iff.2 fun hl => ?_
    rw [isLiteral_of_entriesLiteral hl p hp] at ih
    cases ih
  | @item v items hv _ ih =>
    refine Bool.eq_false_iff.2 fun hl => ?_
    rw [isLiteral_of_areLiteral hl v hv] at ih
    cases ih

mutual

/-- In a value that is no literal something is left for later. -/
theorem exists_deferred : (v : Value) → v.isLiteral = false → ∃ w : Value, w.Within v ∧ w.isDeferred = true
  | .expression f, _ => ⟨.expression f, .self, rfl⟩
  | .interpolated f, _ => ⟨.interpolated f, .self, rfl⟩
  | .array items, h =>
    have ⟨item, hitem, w, hw, hd⟩ := exists_deferred_items items h
    ⟨w, .item hitem hw, hd⟩
  | .object entries, h =>
    have ⟨p, hp, w, hw, hd⟩ := exists_deferred_entries entries h
    ⟨w, .entry hp hw, hd⟩
  | .string _, h | .number _, h | .bool _, h | .null, h => by cases h

/-- The same for elements. -/
theorem exists_deferred_items : (items : List Value) → areLiteral items = false →
    ∃ item ∈ items, ∃ w : Value, w.Within item ∧ w.isDeferred = true
  | item :: rest, h => by
    cases hitem : item.isLiteral with
    | false =>
      obtain ⟨w, hw, hd⟩ := exists_deferred item hitem
      exact ⟨item, List.mem_cons_self, w, hw, hd⟩
    | true =>
      obtain ⟨other, hmem, hfound⟩ := exists_deferred_items rest (by simpa [areLiteral, hitem] using h)
      exact ⟨other, List.mem_cons_of_mem _ hmem, hfound⟩

/-- The same for properties. -/
theorem exists_deferred_entries : (entries : List (Property Value)) → entriesLiteral entries = false →
    ∃ p ∈ entries, ∃ w : Value, w.Within p.value ∧ w.isDeferred = true
  | ⟨key, quoted, value, line⟩ :: rest, h => by
    cases hvalue : value.isLiteral with
    | false =>
      obtain ⟨w, hw, hd⟩ := exists_deferred value hvalue
      exact ⟨_, List.mem_cons_self, w, hw, hd⟩
    | true =>
      obtain ⟨other, hmem, hfound⟩ := exists_deferred_entries rest (by simpa [entriesLiteral, hvalue] using h)
      exact ⟨other, List.mem_cons_of_mem _ hmem, hfound⟩

end

/-- What is left for later is no literal. -/
theorem isLiteral_of_isDeferred (h : w.isDeferred = true) : w.isLiteral = false := by
  cases w <;> first | rfl | cases h

/-- A value is no literal if an expression or a string with holes is in it. -/
theorem isLiteral_eq_false_iff : v.isLiteral = false ↔ ∃ w : Value, w.Within v ∧ w.isDeferred = true :=
  ⟨exists_deferred v, fun ⟨_, hw, hd⟩ => hw.isLiteral_eq_false (isLiteral_of_isDeferred hd)⟩

/-- A value decodes if it has no other strings than one that does. -/
theorem Decodes.of_within (h : v.Decodes) (hw : ∀ f, (Value.string f).Within w → (Value.string f).Within v) :
    w.Decodes := fun f hf => h f (hw f hf)

mutual

/-- A comparison says nothing exactly where the value is no literal. -/
theorem literalEq_eq_none_iff : (v : Value) → v.Decodes → (d : Json) → (v.literalEq d = none ↔ v.isLiteral = false)
  | .expression _, _, _ | .interpolated _, _, _ => by simp [literalEq, isLiteral]
  | .string f, h, d => by
    obtain ⟨text, htext⟩ := h f .self
    cases d <;> simp [literalEq, isLiteral, htext]
  | .number _, _, d | .bool _, _, d | .null, _, d => by cases d <;> simp [literalEq, isLiteral]
  | .array items, h, d => by
    have hitems := itemsEq_eq_none_iff items fun item hitem => h.of_within fun _ => .item hitem
    cases d with
    | array values =>
      rw [literalEq]
      split
      · next hlength => exact hitems values hlength
      · cases hl : areLiteral items <;> simp [isLiteral, hl]
    | _ => cases hl : areLiteral items <;> simp [literalEq, isLiteral, hl]
  | .object entries, h, d => by
    have hentries := entriesEq_ne_none entries fun p hp => h.of_within fun _ => .entry hp
    cases d with
    | object values =>
      rw [literalEq, isLiteral]
      cases hl : entriesLiteral entries with
      | false => simp
      | true =>
        simp only [Bool.not_true, Bool.false_eq_true, if_false, reduceCtorEq, iff_false]
        split
        · exact hentries hl values
        · simp
    | _ => cases hl : entriesLiteral entries <;> simp [literalEq, isLiteral, hl]

/-- Elements are not decided exactly if one of them is no literal. -/
theorem itemsEq_eq_none_iff : (items : List Value) → (∀ item ∈ items, item.Decodes) → (values : List Json) →
    items.length = values.length → (itemsEq items values = none ↔ areLiteral items = false)
  | [], _, [], _ => by simp [itemsEq, areLiteral]
  | item :: rest, h, value :: values, hlength => by
    have hfirst := literalEq_eq_none_iff item (h item List.mem_cons_self) value
    have hrest := itemsEq_eq_none_iff rest (fun other hmem => h other (List.mem_cons_of_mem _ hmem)) values
      (Nat.succ.inj hlength)
    rw [itemsEq, areLiteral, Bool.and_eq_false_iff, ← hfirst, ← hrest]
    cases item.literalEq value <;> cases itemsEq rest values <;> simp

/-- Properties that are literals are decided. -/
theorem entriesEq_ne_none : (entries : List (Property Value)) → (∀ p ∈ entries, p.value.Decodes) →
    entriesLiteral entries = true → (values : List (String × Json)) → entriesEq entries values ≠ none
  | [], _, _, _ => by simp [entriesEq]
  | ⟨key, quoted, value, line⟩ :: rest, h, hl, values => by
    rw [entriesLiteral, Bool.and_eq_true] at hl
    have hrest := entriesEq_ne_none rest (fun p hp => h p (List.mem_cons_of_mem _ hp)) hl.2 values
    rw [entriesEq]
    split
    · simp
    · next expected _ =>
      have hvalue := literalEq_eq_none_iff value (h _ List.mem_cons_self) expected
      split
      · exact hrest
      · intro hnone
        rw [hvalue, hl.1] at hnone
        cases hnone

end

end Value

section Strings

/-- What stands between two marks is found. -/
theorem between?_append (mark inner : List Char) : between? mark (mark ++ (inner ++ mark)) = some inner := by
  simp [between?]

/-- The text of a string that was split off can be decoded. -/
theorem exists_unescape {cs text rest : List Char} (h : splitString cs = some (text, rest)) :
    ∃ decoded, unescape text = some decoded := by
  fun_induction splitString cs generalizing text rest with
  | case1 | case3 | case5 | case6 => cases h
  | case2 | case4 =>
    obtain ⟨rfl, -⟩ := Prod.mk.inj (Option.some.inj h)
    exact ⟨[], rfl⟩
  | case7 d rest _ _ _ ih =>
    obtain ⟨⟨inner, more⟩, hsplit, heq⟩ := Option.map_eq_some_iff.1 h
    obtain ⟨rfl, -⟩ := Prod.mk.inj heq
    obtain ⟨decoded, hdecoded⟩ := ih hsplit
    exact ⟨escapedChar d :: decoded, by simp [unescape, hdecoded]⟩
  | case8 c d rest _ _ hc ih =>
    obtain ⟨⟨inner, more⟩, hsplit, heq⟩ := Option.map_eq_some_iff.1 h
    obtain ⟨rfl, -⟩ := Prod.mk.inj heq
    obtain ⟨decoded, hdecoded⟩ := ih hsplit
    exact ⟨c :: decoded, by simp [unescape, hc, hdecoded]⟩

/-- A string literal is spelled with its quotes. -/
inductive IsQuoted : List Char → Prop where
  | line {text : List Char} : text = [] ∨ splitString (text ++ ['\'']) = some (text, ['\'']) →
      IsQuoted ('\'' :: (text ++ ['\'']))
  | block {body : List Char} : throughFirst ['\'', '\'', '\''] body = some (body, []) →
      IsQuoted ('\'' :: '\'' :: '\'' :: body)

/-- A string in quotes has a content. -/
theorem IsQuoted.exists_content {raw : String} (h : IsQuoted raw.toList) : ∃ text, stringContent? raw = some text := by
  unfold stringContent?
  cases hb : between? ['\'', '\'', '\''] raw.toList with
  | some inner => exact ⟨_, rfl⟩
  | none =>
    generalize raw.toList = cs at h hb
    cases h with
    | @line text htext =>
      have hinner : between? ['\''] ('\'' :: (text ++ ['\''])) = some text := between?_append ['\''] text
      have hdecoded : ∃ decoded, unescape text = some decoded := by
        rcases htext with rfl | hsplit
        · exact ⟨[], rfl⟩
        · exact exists_unescape hsplit
      obtain ⟨decoded, hdecoded⟩ := hdecoded
      exact ⟨String.ofList decoded, by simp [hinner, hdecoded]⟩
    | @block body hbody =>
      obtain ⟨inner, rfl⟩ := suffix_of_throughFirst hbody
      have hinner := between?_append ['\'', '\'', '\''] inner
      simp only [List.cons_append, List.nil_append] at hinner hb
      rw [hb] at hinner
      cases hinner

/-- A scalar that is a string was one token or the tokens of a string without holes. -/
theorem scalar_eq_string {source : String} {first : Token} {others : List Token} {f : Fragment}
    (h : scalar source first others = .string f) : f = Fragment.ofTokens source first others ∧
      (others = [] ∧ first.kind = .multilineString ∨
        first.kind = .stringStart ∧ afterString 1 others = some [] ∧ ∀ t ∈ others, t.kind ≠ .holeStart) := by
  have hgeneral (h : generalScalar source first others = .string f) : f = Fragment.ofTokens source first others ∧
      first.kind = .stringStart ∧ afterString 1 others = some [] ∧ ∀ t ∈ others, t.kind ≠ .holeStart := by
    obtain ⟨heq, hform⟩ := (@generalScalar_of_isLiteral source first others) (by rw [h]; rfl)
    exact ⟨Value.string.inj (h.symm.trans heq), hform⟩
  unfold scalar at h
  simp only at h
  split at h
  · split at h
    · cases h
    · next hk => exact ⟨(Value.string.inj h).symm, .inl ⟨rfl, hk⟩⟩
    · split at h
      · cases h
      · split at h
        · cases h
        · split at h
          · cases h
          · exact (hgeneral h).imp_right .inr
    · exact (hgeneral h).imp_right .inr
  · split at h
    · cases h
    · exact (hgeneral h).imp_right .inr
  · exact (hgeneral h).imp_right .inr

/-- A string without holes ends with its quote, after its text. -/
theorem kinds_of_string {zone : Zone} (hz : zone ≠ .code) {ts : List Token} {n : Nest}
    (hr : Nest.run ⟨zone, []⟩ (kinds ts) = some n) (ha : afterString 1 ts = some []) (hh : ∀ t ∈ ts, t.kind ≠ .holeStart) :
    kinds ts = [.stringEnd] ∨ zone = .string ∧ kinds ts = [.stringText, .stringEnd] := by
  induction ts generalizing zone with
  | nil => cases ha
  | cons t ts ih =>
    rw [kinds_cons, Nest.run_cons] at hr
    obtain ⟨n', hn, hr⟩ := Option.bind_eq_some_iff.1 hr
    rcases Nest.after_string hz hn with ⟨hk, -⟩ | hk | hk
    · rw [afterString, hk] at ha
      rw [hk] at hn
      -- text is followed by no further text
      cases zone with
      | code => exact absurd rfl hz
      | closing => cases hn
      | string =>
        obtain rfl := Option.some.inj hn
        rcases ih (by simp) hr (by simpa using ha) fun u hu => hh u (List.mem_cons_of_mem _ hu) with hts | ⟨hzone, -⟩
        · exact .inr ⟨rfl, by rw [kinds_cons, hk, hts]⟩
        · cases hzone
    · exact absurd hk (hh t List.mem_cons_self)
    · rw [afterString, hk] at ha
      obtain rfl : ts = [] := by simpa using ha
      exact .inl (by rw [kinds_cons, hk]; rfl)

/-- A string that is read from a template is spelled with its quotes. -/
theorem isQuoted_of_isRead {source : String} {l : Layout} (hs : source.toList = l.chars) {f : Fragment}
    (h : IsRead source l.tokens (.string f)) : IsQuoted f.raw.toList := by
  obtain ⟨t, ts, hread, he, before, after, hall, hbefore, hafter⟩ := h
  have hscalar : scalar source t ts = .string f := by
    rw [← readValue_of_isScalar (by rw [hread]; rfl), hread]
  obtain ⟨rfl, hform⟩ := scalar_eq_string hscalar
  obtain ⟨x, first, others, y, hf, -, hrun, -⟩ := exists_isFragment_ofTokens hs hall hbefore hafter
  have hkinds : first.kind :: others.map (·.kind) = t.kind :: kinds ts := by
    rw [← kinds_cons, hrun, kinds_tokensAt, List.map_cons]
  obtain ⟨hkind, hothers⟩ := List.cons.inj hkinds
  obtain ⟨-, ⟨hspelled, -⟩, -, hlegible⟩ := hf.legible
  rw [hf.raw, bare_cons]
  rcases hform with ⟨rfl, hk⟩ | ⟨hk, ha, hh⟩
  · obtain rfl : others = [] := by simpa using hothers
    rw [hkind, hk] at hspelled
    obtain ⟨body, htext, hbody⟩ := hspelled
    rw [htext, written_nil, List.append_nil]
    exact .block hbody
  · rw [hkind, hk] at hspelled
    have hbalanced := he.balanced
    rw [Balanced, kinds_cons, hk] at hbalanced
    rcases @kinds_of_string .string (by simp) ts _ hbalanced ha hh with hts | ⟨-, hts⟩
    · rw [hts] at hothers
      obtain ⟨closing, rfl, hclosing⟩ := List.map_eq_singleton_iff.1 hothers
      obtain ⟨-, ⟨hquote, hgap⟩, -, -⟩ := hlegible
      rw [hclosing] at hquote hgap
      rw [hspelled, written_cons, hquote, hgap rfl]
      exact .line (.inl rfl)
    · rw [hts] at hothers
      obtain ⟨middle, rest, rfl, hmiddle, hrest⟩ := List.map_eq_cons_iff.1 hothers
      obtain ⟨closing, rfl, hclosing⟩ := List.map_eq_singleton_iff.1 hrest
      obtain ⟨-, ⟨htext, hgap⟩, -, -, ⟨hquote, hgap'⟩, -, -⟩ := hlegible
      rw [hmiddle] at htext hgap
      rw [hclosing] at hquote hgap'
      rw [hspelled, written_cons, written_cons, hgap rfl, hquote, hgap' rfl]
      exact .line (.inr htext.2)

end Strings

/-- Comparing a value of a template with a JSON value says nothing exactly where an expression or a string with holes is
in the value. -/
theorem literalEq_decides {source : String} {template : ScannedTemplate} (h : scan source = .ok template) {s : Statement}
    (hs : s ∈ template.statements) {body : ObjectLiteral} (hbody : s.body = some body) {v : Value}
    (hv : v.Within (.object body)) (d : Json) :
    (v.literalEq d = none ↔ v.isLiteral = false) ∧
      (v.isLiteral = false ↔ ∃ w : Value, w.Within v ∧ w.isDeferred = true) := by
  have hread := ((statementHolds_of_scan h s hs).body body hbody).of_within hv
  obtain ⟨l, hl, rfl⟩ := scan_eq_ok_iff.1 h
  refine ⟨Value.literalEq_eq_none_iff v (fun f hf => ?_) d, Value.isLiteral_eq_false_iff⟩
  cases hread.of_within hf with
  | scalar _ hf => exact (isQuoted_of_isRead hl hf).exists_content

/-- A property whose value holds an expression after a part that differs. -/
def mixedSource : String := "module m 'x' = \x7b\n  v: ['a', \x7b\n    b: c\n  \x7d]\n\x7d\n"

/-- An array with an expression in it is not decided. -/
theorem literalEq_decides_mixed : ∃ template s body v, scan mixedSource = .ok template ∧ s ∈ template.statements ∧
    s.body = some body ∧ Value.Within v (.object body) ∧ v.literalEq (.array [.string "z"]) = none ∧
      ∃ w : Value, w.Within v ∧ w.isDeferred = true := by
  have hfound : (scan mixedSource).toOption.bind (fun template => template.statements.head?.bind fun s =>
      s.body.bind fun body => body.head?.map (·.value.isLiteral)) = some false := by decide +kernel
  cases h : scan mixedSource with
  | error e =>
    rw [h] at hfound
    cases hfound
  | ok template =>
    rw [h] at hfound
    change template.statements.head?.bind _ = _ at hfound
    obtain ⟨s, hs, hfound⟩ := Option.bind_eq_some_iff.1 hfound
    obtain ⟨body, hbody, hfound⟩ := Option.bind_eq_some_iff.1 hfound
    obtain ⟨p, hp, hl⟩ := Option.map_eq_some_iff.1 hfound
    have hv : p.value.Within (.object body) := .entry (List.mem_of_head? hp) .self
    obtain ⟨hnone, hdeferred⟩ := literalEq_decides h (List.mem_of_head? hs) hbody hv (.array [.string "z"])
    exact ⟨template, s, body, p.value, rfl, List.mem_of_head? hs, hbody, hv, hnone.2 hl, hdeferred.1 hl⟩

end BicepMigration.Template
