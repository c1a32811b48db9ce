import BicepMigration.Proofs.Template.RenderedUse

/-!
# Uses in values that are read

A value is read from its tokens part by part. Its keys, brackets and separators are no uses, so the uses that stay among
its tokens are those in its scalars. An element of an array stands after an opening bracket or after a separator, and is
written at the start of a line: this makes a difference only for a name before a colon after the bracket.
-/

namespace BicepMigration.Template

open Text

variable {strict : Bool} {source : String} {l : Layout} {symbols : List String} {replace : Replacements}
  {before after : List Token}

/-- What is written for a scalar: its text with uses replaced, its text as it stands, which has no names then, or a
word. -/
theorem renderValue_scalar_cases (edited : EditedText) (depth : Nat) (first : Token) (others : List Token) :
    renderValue edited depth (scalar source first others) = edited.fragment (Fragment.ofTokens source first others) ∨
      (renderValue edited depth (scalar source first others) = (Fragment.ofTokens source first others).raw ∧
        ∀ t ∈ first :: others, t.kind ≠ .identifier) ∨
      (others = [] ∧ first.kind = .identifier ∧ first.text ∈ callWords ∧
        renderValue edited depth (scalar source first others) = first.text) := by
  unfold scalar
  simp only
  repeat' split
  all_goals simp_all [renderValue, callWords]

/-- The words of calls are names. -/
theorem isName_of_mem_callWords {word : String} (h : word ∈ callWords) : IsName word := by
  simp only [callWords, List.mem_cons, List.not_mem_nil, or_false] at h
  rcases h with rfl | rfl | rfl | rfl | rfl | rfl | rfl
  all_goals exact isName_word rfl rfl (by decide)

/-- The raw text of tokens without names uses nothing. -/
theorem not_textUses_raw (hs : source.toList = l.chars) {t : Token} {ts : List Token}
    (hstands : StandsIn l.tokens (t :: ts)) (hb : Balanced (kinds (t :: ts))) (hk : ∀ u ∈ t :: ts, u.kind ≠ .identifier)
    (side : Side) : ¬ TextUses strict symbols side (Fragment.ofTokens source t ts).raw := by
  obtain ⟨before, after, hall, hbefore, hafter⟩ := hstands
  obtain ⟨x, first, others, y, hf, -, hrun, -⟩ := exists_isFragment_ofTokens hs hall hbefore hafter
  have hkinds : kinds (t :: ts) = (first :: others).map (·.kind) := by rw [hrun, kinds_tokensAt]
  rw [hkinds] at hb
  refine not_textUses_of_kind ⟨by simp, hb, hf.legible⟩ hf.raw fun m hm hkind => ?_
  have hmem : m.kind ∈ kinds (t :: ts) := by
    rw [hkinds]
    exact List.mem_map_of_mem hm
  obtain ⟨u, hu, hsame⟩ := List.mem_map.1 hmem
  exact hk u hu (hsame.trans hkind)

/-- A scalar uses a symbol where a use among its tokens stays. -/
theorem Replacing.leafUses_scalar_iff (h : Replacing strict source l symbols replace) {first : Token}
    {others : List Token} (hall : l.tokens = before.reverse ++ (first :: others ++ after))
    (hb : Balanced (kinds (first :: others))) (hbefore : ∀ u, before.head? = some u → u.kind.Neutral)
    (hafter : ∀ u, after.head? = some u → u.kind.Neutral) (hcolon : startsColon after = false) {side : Side}
    (hside : Agrees strict symbols replace side before (first :: others ++ after)) :
    LeafUses strict symbols (replacedText source l symbols replace) side (scalar source first others) ↔
      Occurs (KeptUse strict symbols replace) before (first :: others) after := by
  have hleft : TokensApart before.reverse (first :: others) :=
    tokensApart_of_last fun u hu => hbefore u (by rwa [List.getLast?_reverse] at hu)
  have hright : TokensApart (first :: others) after := tokensApart_of_head hafter
  rw [LeafUses]
  rcases (@renderValue_scalar_cases source) (replacedText source l symbols replace) 0 first others with
    hr | ⟨hr, hk⟩ | ⟨rfl, hk, hmem, hr⟩
  · rw [hr]
    exact h.textUses_fragment_iff hall hb hleft hright hcolon hside
  · rw [hr]
    have hstands : StandsIn l.tokens (first :: others) := ⟨before.reverse, after, hall, hleft, hright⟩
    exact iff_of_false (not_textUses_raw h.source hstands hb hk side) (not_occurs_of_kind hk _ _)
  · have hnone := h.words _ hmem
    rw [hr]
    refine iff_of_false (not_textUses_name (isName_of_mem_callWords hmem) hnone) ?_
    rw [occurs_cons, occurs_nil, or_false]
    exact fun hu => hnone hu.symbol

/-- An element stands after an opening bracket or after a separator. -/
def AfterOpening (opening : TokenKind) (before : List Token) : Prop :=
  ∀ u, before.head? = some u → u.kind = opening ∨ u.kind.separates = true

/-- A separator or a close stands after an element. -/
def BeforeEnd (after : List Token) : Prop :=
  ∀ u, after.head? = some u → u.kind.separates = true ∨ u.kind.closes = true

/-- Before the first element stands something neutral. -/
theorem AfterOpening.neutral {opening : TokenKind} (h : AfterOpening opening before) (ho : opening.opens = true) :
    ∀ u, before.head? = some u → u.kind.Neutral := fun u hu =>
  (h u hu).elim (fun hk => hk ▸ TokenKind.neutral_of_opens ho) TokenKind.neutral_of_separates

/-- Behind the last element stands something neutral. -/
theorem BeforeEnd.neutral (h : BeforeEnd after) : ∀ u, after.head? = some u → u.kind.Neutral := fun u hu =>
  (h u hu).elim TokenKind.neutral_of_separates TokenKind.neutral_of_closes

/-- Behind the last element stands no colon. -/
theorem BeforeEnd.startsColon (h : BeforeEnd after) : startsColon after = false := by
  cases after with
  | nil => rfl
  | cons u after =>
    have hu := h u rfl
    cases hk : u.kind <;> simp [Template.startsColon, hk, TokenKind.separates, TokenKind.closes] at hu ⊢

/-- Before an element there is what stands before all elements, or a separator. -/
theorem afterOpening_element {opening : TokenKind} {seps rest : List Token} {first : Token}
    (hs : ∀ t ∈ seps, t.kind.separates = true) (hf : first.kind.separates = false)
    (h : AfterOpening opening before ∨ ∀ t, (seps ++ first :: rest).head? = some t → t.kind.separates = true) :
    AfterOpening opening (seps.reverse ++ before) := by
  intro u hu
  cases hr : seps.reverse with
  | nil =>
    obtain rfl := List.reverse_eq_nil_iff.1 hr
    refine h.elim (fun hb => hb u hu) fun hsep => ?_
    rw [hsep first rfl] at hf
    cases hf
  | cons v vs =>
    rw [hr] at hu
    obtain rfl : v = u := Option.some.inj hu
    exact .inr (hs v (List.mem_reverse.1 (by simp [hr])))

/-- Separators may stand before the end. -/
theorem beforeEnd_append {rest : List Token} (hr : ∀ t, rest.head? = some t → t.kind.separates = true)
    (h : BeforeEnd after) : BeforeEnd (rest ++ after) := by
  cases rest with
  | nil => exact h
  | cons t ts => exact fun u hu => .inl (hr u hu)

/-- Separators are no uses. -/
theorem occurs_element {seps : List Token} (hs : ∀ t ∈ seps, t.kind.separates = true) (element rest : List Token) :
    Occurs (KeptUse strict symbols replace) before (seps ++ (element ++ rest)) after ↔
      Occurs (KeptUse strict symbols replace) (seps.reverse ++ before) element (rest ++ after) ∨
        Occurs (KeptUse strict symbols replace) (element.reverse ++ (seps.reverse ++ before)) rest after := by
  rw [occurs_append, occurs_append, or_iff_right]
  exact not_occurs_of_kind (fun t ht => (TokenKind.neutral_of_separates (hs t ht)).1) _ _

/-- A literal has no names. -/
theorem IsLiteral.kind_ne {literal : List Token} {text : String} (h : IsLiteral literal text) :
    ∀ t ∈ literal, t.kind ≠ .identifier := by
  cases h with
  | empty ho hc => simp [ho, hc]
  | text ho hm hc _ => simp [ho, hm, hc]

/-- A key is no use. -/
theorem not_occurs_key {key : List Token} {name : String} {quoted : Bool} {colon : Token} {rest : List Token}
    (hk : IsKey key name quoted) (hc : colon.kind = .colon) (hb : AfterOpening .braceOpen before) :
    ¬ Occurs (KeptUse strict symbols replace) before key (colon :: rest) := by
  cases quoted with
  | false =>
    obtain ⟨t, rfl, -, -⟩ := hk
    rw [occurs_cons, occurs_nil, or_false]
    intro hu
    have hside : sideBefore strict before = .key := by
      cases before with
      | nil => rfl
      | cons u before =>
        have hkind := hb u rfl
        have hnot : u.kind ≠ .dot := by
          rintro hd
          simp [hd, TokenKind.separates] at hkind
        simp only [sideBefore, List.head?_cons, Option.map_some, Option.getD_some, Side.after, if_neg hnot]
        rw [if_pos]
        rcases hkind with hkind | hkind <;> simp [hkind]
    have ha := hu.admits
    simp [hside, startsColon, hc, Side.admits] at ha
  | true => exact not_occurs_of_kind (IsLiteral.kind_ne hk) _ _

/-- The uses in a property are those in its value. -/
theorem occurs_property {key value : List Token} {name : String} {quoted : Bool} {colon : Token}
    (hk : IsKey key name quoted) (hc : colon.kind = .colon) (hb : AfterOpening .braceOpen before) :
    Occurs (KeptUse strict symbols replace) before (key ++ colon :: value) after ↔
      Occurs (KeptUse strict symbols replace) (colon :: (key.reverse ++ before)) value after := by
  rw [occurs_append, List.cons_append, or_iff_right (not_occurs_key hk hc hb), occurs_cons,
    or_iff_right (not_keptUse_of_kind (by simp [hc]))]

/-- An element of an array is a use where it would be one at the start of a line. -/
theorem Replacing.agrees_item (h : Replacing strict source l symbols replace) {first : Token} {others : List Token}
    (hall : l.tokens = before.reverse ++ (first :: others ++ after)) (hb : AfterOpening .bracketOpen before) :
    Agrees strict symbols replace .key before (first :: others ++ after) := by
  intro hk hmem hstays
  cases before with
  | nil => rfl
  | cons u before =>
    rcases hb u rfl with hu | hu
    · -- after the bracket a name counts, in the strict sense only where it would at the start of a line
      cases strict with
      | true => simp [sideBefore, Side.after, hu]
      | false =>
        have hside : sideBefore false (u :: before) = .other := by
          simp [sideBefore, Side.after, hu, TokenKind.separates]
        have hcolon := h.opened _ _ _ hall ⟨hk, hmem, by rw [hside]; rfl, hstays⟩ (by simp [hu])
        rw [hcolon, hside]
        rfl
    · have hnot : u.kind ≠ .dot := by
        rintro hd
        simp [hd, TokenKind.separates] at hu
      simp [sideBefore, Side.after, hu, hnot]

/-- Brackets are no uses. -/
theorem occurs_enclosed {first close : Token} {inside : List Token} (ho : first.kind.opens = true)
    (hc : close.kind.closes = true) :
    Occurs (KeptUse strict symbols replace) before (first :: (inside ++ [close])) after ↔
      Occurs (KeptUse strict symbols replace) (first :: before) inside (close :: after) := by
  rw [occurs_cons, or_iff_right (not_keptUse_of_kind (TokenKind.neutral_of_opens ho).1), occurs_append]
  refine or_iff_left ?_
  rw [occurs_cons, occurs_nil, or_false]
  exact not_keptUse_of_kind (TokenKind.neutral_of_closes hc).1

mutual

/-- A value that is read uses a symbol where a use among its tokens stays. -/
theorem Replacing.any_readValue_iff (h : Replacing strict source l symbols replace) (first : Token)
    (others before after : List Token) (side : Side) (he : IsElement (kinds (first :: others)))
    (hall : l.tokens = before.reverse ++ (first :: others ++ after))
    (hbefore : ∀ u, before.head? = some u → u.kind.Neutral) (hafter : BeforeEnd after)
    (hside : Agrees strict symbols replace side before (first :: others ++ after)) :
    (readValue source first others).Any (LeafUses strict symbols (replacedText source l symbols replace)) side ↔
      Occurs (KeptUse strict symbols replace) before (first :: others) after := by
  have hreading := isReading_readValue source first others
  generalize readValue source first others = value at hreading ⊢
  cases hreading with
  | scalar =>
    rw [any_scalar_iff (isScalar_scalar ..)]
    exact h.leafUses_scalar_iff hall he.balanced hbefore hafter.neutral hafter.startsColon hside
  | @object inside entries ho hi hr =>
    have hw := weight_enclosed?_lt hi
    obtain ⟨close, hothers, hclose, hinside⟩ := exists_enclosed .brace (by simp) (by rw [ho]; rfl) he hi
    have hcloses : close.kind.closes = true := hclose ▸ rfl
    rw [any_object_iff, hothers, occurs_enclosed (by rw [ho]; rfl) hcloses]
    refine h.any_readEntries_iff (elements inside) _ _ (parted_elements hinside) hr ?_ (.inl fun u hu => ?_) fun u hu => ?_
    · rw [hall, hothers]
      simp
    · exact .inl (Option.some.inj hu ▸ ho)
    · exact .inr (Option.some.inj hu ▸ hcloses)
  | @array inside ho hi =>
    have hw := weight_enclosed?_lt hi
    obtain ⟨close, hothers, hclose, hinside⟩ := exists_enclosed .square (by simp) (by rw [ho]; rfl) he hi
    have hcloses : close.kind.closes = true := hclose ▸ rfl
    rw [any_array_iff, hothers, occurs_enclosed (by rw [ho]; rfl) hcloses]
    refine h.any_readItems_iff (elements inside) _ _ (parted_elements hinside) ?_ (.inl fun u hu => ?_) fun u hu => ?_
    · rw [hall, hothers]
      simp
    · exact .inl (Option.some.inj hu ▸ ho)
    · exact .inr (Option.some.inj hu ▸ hcloses)
termination_by others.length + 1

/-- Properties that are read use a symbol where a use among their tokens stays. -/
theorem Replacing.any_readEntries_iff (h : Replacing strict source l symbols replace) {toks : List Token}
    (es : List (List Token)) (before after : List Token) (hp : Parted toks es) {entries : ObjectLiteral} (hr : readEntries source es = some entries)
    (hall : l.tokens = before.reverse ++ (toks ++ after))
    (hbefore : AfterOpening .braceOpen before ∨ ∀ t, toks.head? = some t → t.kind.separates = true)
    (hafter : BeforeEnd after) :
    (∃ p ∈ entries, p.value.Any (LeafUses strict symbols (replacedText source l symbols replace)) .other) ↔
      Occurs (KeptUse strict symbols replace) before toks after := by
  match es, hp with
  | _, .done hs =>
    obtain rfl : [] = entries := by simpa [readEntries] using hr
    have hnone := (@not_occurs_of_kind strict symbols replace) (fun t ht => (TokenKind.neutral_of_separates (hs t ht)).1)
      before after
    simpa using hnone
  | _, @Parted.element seps first others rest es hs he hrest hp =>
    obtain ⟨p, entries', hproperty, hr', rfl⟩ := readEntries_cons_eq_some hr
    have hl := length_propertyAt_lt hproperty
    obtain ⟨key, colon, helement, hk, hc⟩ := propertyAt_cases hproperty
    have hopening := afterOpening_element hs he.not_separates hbefore
    have hcons : seps ++ first :: (others ++ rest) = seps ++ (key ++ colon :: p.value.1 :: p.value.2 ++ rest) := by
      rw [← helement, List.cons_append]
    rw [hcons] at hall ⊢
    have hrest' := h.any_readEntries_iff es
      ((key ++ colon :: p.value.1 :: p.value.2).reverse ++ (seps.reverse ++ before)) after hp hr'
      (by rw [hall]; simp) (.inr hrest) hafter
    have hside : sideBefore strict (colon :: (key.reverse ++ (seps.reverse ++ before))) = .other := by
      simp [sideBefore, Side.after, hc, TokenKind.separates]
    have hfirst := h.any_readValue_iff p.value.1 p.value.2 (colon :: (key.reverse ++ (seps.reverse ++ before)))
      (rest ++ after) .other (isElement_value hproperty he) (by rw [hall]; simp) (fun u hu => by
        rw [← Option.some.inj hu, hc]
        exact ⟨by simp, by simp⟩) (beforeEnd_append hrest hafter) (hside ▸ agrees_self _ _)
    rw [occurs_element hs, occurs_property hk hc hopening, ← hrest', ← hfirst]
    simp only [List.mem_cons, exists_eq_or_imp]
termination_by weight es
decreasing_by
  all_goals
    simp only [weight, List.length_cons] at *
    omega

/-- Elements that are read use a symbol where a use among their tokens stays. -/
theorem Replacing.any_readItems_iff (h : Replacing strict source l symbols replace) {toks : List Token}
    (es : List (List Token)) (before after : List Token) (hp : Parted toks es) (hall : l.tokens = before.reverse ++ (toks ++ after))
    (hbefore : AfterOpening .bracketOpen before ∨ ∀ t, toks.head? = some t → t.kind.separates = true)
    (hafter : BeforeEnd after) :
    (∃ v ∈ readItems source es, v.Any (LeafUses strict symbols (replacedText source l symbols replace)) .key) ↔
      Occurs (KeptUse strict symbols replace) before toks after := by
  match es, hp with
  | _, .done hs =>
    have hnone := (@not_occurs_of_kind strict symbols replace) (fun t ht => (TokenKind.neutral_of_separates (hs t ht)).1)
      before after
    simpa [readItems] using hnone
  | _, @Parted.element seps first others rest es hs he hrest hp =>
    have hopening := afterOpening_element hs he.not_separates hbefore
    have hcons : seps ++ first :: (others ++ rest) = seps ++ (first :: others ++ rest) := rfl
    rw [hcons] at hall ⊢
    have hplace : l.tokens = (seps.reverse ++ before).reverse ++ (first :: others ++ (rest ++ after)) := by
      rw [hall]
      simp
    have hfirst := h.any_readValue_iff first others (seps.reverse ++ before) (rest ++ after) .key he hplace
      (hopening.neutral rfl) (beforeEnd_append hrest hafter) (h.agrees_item hplace hopening)
    have hothers := h.any_readItems_iff es ((first :: others).reverse ++ (seps.reverse ++ before)) after hp
      (by rw [hall]; simp) (.inr hrest) hafter
    rw [occurs_element hs, ← hfirst, ← hothers, readItems]
    simp only [List.mem_cons, exists_eq_or_imp]
termination_by weight es
decreasing_by
  all_goals
    simp only [weight, List.length_cons] at *
    omega

end

end BicepMigration.Template
