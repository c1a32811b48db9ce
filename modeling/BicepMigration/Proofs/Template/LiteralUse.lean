import BicepMigration.Proofs.Template.ReadUse

/-!
# Literals use no symbols

A literal is written without names, apart from the words for truth values and nothing. So a value that equals a JSON
value uses no symbol, if none of the symbols is one of these words.
-/

namespace BicepMigration.Template

open Text

/-- Directly inside a string comes its text, a hole or its end. -/
theorem Nest.after_string {n m : Nest} (hz : n.zone ≠ .code) {kind : TokenKind} (h : n.after kind = some m) :
    (kind = .stringText ∧ m.zone ≠ .code) ∨ kind = .holeStart ∨ kind = .stringEnd := by
  obtain ⟨zone, opened⟩ := n
  cases zone with
  | code => exact absurd rfl hz
  | string | closing =>
    cases kind with
    | stringText => cases h <;> exact .inl ⟨rfl, by simp⟩
    | holeStart => exact .inr (.inl rfl)
    | stringEnd => exact .inr (.inr rfl)
    | _ => cases h

/-- A string without holes has no names. -/
theorem kind_ne_of_string {ts : List Token} {n m : Nest} (hz : n.zone ≠ .code) (hr : n.run (kinds ts) = some m)
    (ha : afterString 1 ts = some []) (hh : ∀ t ∈ ts, t.kind ≠ .holeStart) : ∀ t ∈ ts, t.kind ≠ .identifier := by
  induction ts generalizing n with
  | nil => simp
  | cons t ts ih =>
    rw [kinds_cons, Nest.run_cons] at hr
    obtain ⟨n', hn, hr⟩ := Option.bind_eq_some_iff.1 hr
    rcases Nest.after_string hz hn with ⟨hk, hz'⟩ | hk | hk
    · rw [afterString, hk] at ha
      refine List.forall_mem_cons.2 ⟨by simp [hk], ih hz' hr (by simpa using ha) fun u hu => hh u (by simp [hu])⟩
    · exact absurd hk (hh t List.mem_cons_self)
    · rw [afterString, hk] at ha
      obtain rfl : ts = [] := by simpa using ha
      simp [hk]

/-- The words that stand for truth values and for nothing. -/
def literalWords : List String := ["true", "false", "null"]

/-- The words of literals are among those of calls. -/
theorem literalWords_subset : literalWords ⊆ callWords := by
  simp [literalWords, callWords]

/-- The value of tokens that are not a single literal: a string, if they are one, or else an expression. -/
def generalScalar (source : String) (first : Token) (others : List Token) : Value :=
  if first.kind = .stringStart && (afterString 0 (first :: others)).any List.isEmpty then
    if others.any (·.kind = .holeStart) then .interpolated (Fragment.ofTokens source first others)
    else .string (Fragment.ofTokens source first others)
  else .expression (Fragment.ofTokens source first others)

/-- Such a value is a literal only if the tokens are those of a string without holes. -/
theorem generalScalar_of_isLiteral {source : String} {first : Token} {others : List Token}
    (h : (generalScalar source first others).isLiteral = true) :
    generalScalar source first others = .string (Fragment.ofTokens source first others) ∧ first.kind = .stringStart ∧
      afterString 1 others = some [] ∧ ∀ t ∈ others, t.kind ≠ .holeStart := by
  rw [generalScalar] at h ⊢
  split at h
  · next hs =>
    split at h
    · cases h
    · next hholes =>
      rw [if_pos hs, if_neg hholes]
      simp only [Bool.and_eq_true, decide_eq_true_eq] at hs
      obtain ⟨hk, hs⟩ := hs
      rw [afterString, if_pos hk] at hs
      obtain ⟨rest, hrest, hnil⟩ := (Option.any_eq_true _ _).1 hs
      rw [List.isEmpty_iff.1 hnil] at hrest
      exact ⟨rfl, hk, hrest, by simpa using hholes⟩
  · cases h

/-- A scalar that is a literal has no names, or it is a word. -/
theorem kind_ne_of_isLiteral {source : String} {first : Token} {others : List Token}
    (hb : Balanced (kinds (first :: others))) (hl : (scalar source first others).isLiteral = true) :
    (∀ t ∈ first :: others, t.kind ≠ .identifier) ∨
      others = [] ∧ first.kind = .identifier ∧ first.text ∈ literalWords ∧
        ∀ edited depth, renderValue edited depth (scalar source first others) = first.text := by
  have hgeneral (h : (generalScalar source first others).isLiteral = true) :
      ∀ t ∈ first :: others, t.kind ≠ .identifier := by
    obtain ⟨-, hk, hrest, hholes⟩ := generalScalar_of_isLiteral h
    rw [Balanced, kinds_cons, hk] at hb
    refine List.forall_mem_cons.2 ⟨by simp [hk], ?_⟩
    exact @kind_ne_of_string others ⟨.string, []⟩ _ (by simp) hb hrest hholes
  unfold scalar at hl ⊢
  simp only at hl ⊢
  split at hl
  · split at hl
    · next hk => simp [hk]
    · next hk => simp [hk]
    · next hk =>
      split at hl
      · next ht => simp [renderValue, literalWords, ht, hk]
      · split at hl
        · next ht => simp [renderValue, literalWords, ht, hk]
        · split at hl
          · next ht => simp [renderValue, literalWords, ht, hk]
          · rw [if_neg (by simp [hk])] at hl
            cases hl
    · exact .inl (hgeneral hl)
  · split at hl
    · next hs =>
      simp only [Bool.and_eq_true, decide_eq_true_eq] at hs
      simp [hs.1.1.1, hs.1.2]
    · exact .inl (hgeneral hl)
  · exact .inl (hgeneral hl)

variable {strict : Bool} {source : String} {l : Layout} {symbols : List String}

/-- A scalar without edits is written as its text, or it is a truth value or nothing. -/
theorem renderValue_unedited_scalar (source : String) (depth : Nat) (first : Token) (others : List Token) :
    renderValue (.unedited source) depth (scalar source first others) = (Fragment.ofTokens source first others).raw ∨
      others = [] ∧ first.kind = .identifier ∧ first.text ∈ callWords := by
  unfold scalar
  simp only
  repeat' split
  all_goals simp_all [renderValue, callWords, EditedText.fragment, Fragment.ofTokens, EditedText.text_unedited]

/-- A literal that is read from a template uses nothing. -/
theorem not_leafUses_of_isLiteral (hs : source.toList = l.chars) (hw : ∀ word ∈ callWords, word ∉ symbols) {v : Value}
    (hv : IsRead source l.tokens v) (hscalar : v.isScalar = true) (hl : v.isLiteral = true) (side : Side) :
    ¬ LeafUses strict symbols (.unedited source) side v := by
  obtain ⟨first, others, rfl, he, hstands⟩ := hv
  rw [readValue_of_isScalar hscalar] at hl ⊢
  rw [LeafUses]
  rcases kind_ne_of_isLiteral he.balanced hl with hk | ⟨rfl, hk, hmem, hr⟩
  · rcases renderValue_unedited_scalar source 0 first others with hr | ⟨-, hname, -⟩
    · rw [hr]
      exact not_textUses_raw hs hstands he.balanced hk side
    · exact absurd hname (hk first (by simp))
  · rw [hr]
    exact not_textUses_name (isName_of_mem_callWords (literalWords_subset hmem)) (hw _ (literalWords_subset hmem))

/-- Each value of literal properties is a literal. -/
theorem isLiteral_of_entriesLiteral {entries : List (Property Value)} (h : Value.entriesLiteral entries = true) :
    ∀ p ∈ entries, p.value.isLiteral = true := by
  induction entries with
  | nil => simp
  | cons p rest ih =>
    simp only [Value.entriesLiteral, Bool.and_eq_true] at h
    exact List.forall_mem_cons.2 ⟨h.1, ih h.2⟩

/-- Each of literal elements is a literal. -/
theorem isLiteral_of_areLiteral {items : List Value} (h : Value.areLiteral items = true) :
    ∀ v ∈ items, v.isLiteral = true := by
  induction items with
  | nil => simp
  | cons v rest ih =>
    simp only [Value.areLiteral, Bool.and_eq_true] at h
    exact List.forall_mem_cons.2 ⟨h.1, ih h.2⟩

/-- A literal uses nothing, if its scalars do not. -/
theorem not_any_of_isLiteral {leaf : Side → Value → Prop} {side : Side} {v : Value}
    (he : v.Every fun w => w.isLiteral = true → ∀ side, ¬ leaf side w) (hl : v.isLiteral = true) : ¬ v.Any leaf side := by
  intro ha
  induction ha with
  | scalar hs hleaf =>
    cases he with
    | scalar _ hno => exact hno hl _ hleaf
    | object | array => cases hs
  | entry hp _ ih =>
    cases he with
    | scalar hs => cases hs
    | object _ hv => exact ih (hv _ hp) (isLiteral_of_entriesLiteral hl _ hp)
  | item hv _ ih =>
    cases he with
    | scalar hs => cases hs
    | array hitems => exact ih (hitems _ hv) (isLiteral_of_areLiteral hl _ hv)

mutual

/-- What equals a JSON value is a literal. -/
theorem isLiteral_of_literalEq : ∀ (v : Value) {d : Json}, v.literalEq d = some true → v.isLiteral = true
  | .expression _, d, h => by simp [Value.literalEq] at h
  | .interpolated _, d, h => by simp [Value.literalEq] at h
  | .array items, d, h => by
    cases d with
    | array values =>
      simp only [Value.literalEq] at h
      split at h
      · next hl => exact areLiteral_of_itemsEq items hl h
      · split at h <;> cases h
    | _ =>
      simp only [Value.literalEq] at h
      split at h <;> cases h
  | .object entries, d, h => by
    cases d with
    | object values =>
      simp only [Value.literalEq] at h
      split at h
      · cases h
      · next hl => simpa [Value.isLiteral] using hl
    | _ =>
      simp only [Value.literalEq] at h
      split at h <;> cases h
  | .string _, _, _ | .number _, _, _ | .bool _, _, _ | .null, _, _ => rfl

/-- Elements that equal JSON values one by one are literals. -/
theorem areLiteral_of_itemsEq : ∀ (items : List Value) {values : List Json}, items.length = values.length →
    Value.itemsEq items values = some true → Value.areLiteral items = true
  | [], _, _, _ => rfl
  | item :: rest, value :: values, hl, h => by
    simp only [Value.itemsEq, Option.bind_eq_bind, Option.bind_eq_some_iff, Option.some.injEq, Bool.and_eq_true] at h
    obtain ⟨first, hf, others, ho, rfl, rfl⟩ := h
    rw [Value.areLiteral, isLiteral_of_literalEq item hf, areLiteral_of_itemsEq rest (Nat.succ.inj hl) ho]
    rfl

end

end BicepMigration.Template
