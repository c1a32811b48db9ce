import BicepMigration.Proofs.Template.Element
import BicepMigration.Template.Statement

/-!
# Parts of declarations

The tokens between two brackets are elements and separators in turn, and an element of an object is a key, a colon
and a value. The head of a declaration is its keyword, a name, a literal and an equals sign. Each of these is read
exactly where the tokens have the form, so parts can be found in tokens and tokens can be made of parts.
-/

namespace BicepMigration.Template

/-- Tokens are parted into elements by separators outside brackets. -/
inductive Parted : List Token → List (List Token) → Prop where
  /-- Separators after the last element. -/
  | done {seps : List Token} : (∀ t ∈ seps, t.kind.separates = true) → Parted seps []
  /-- Separators before an element, the element, and the others. -/
  | element {seps : List Token} {first : Token} {others rest : List Token} {es : List (List Token)} :
      (∀ t ∈ seps, t.kind.separates = true) → IsElement (kinds (first :: others)) →
      (∀ t, rest.head? = some t → t.kind.separates = true) → Parted rest es →
      Parted (seps ++ first :: (others ++ rest)) ((first :: others) :: es)

/-- An element does not start with a separator. -/
theorem IsElement.not_separates {k : TokenKind} {ks : List TokenKind} (h : IsElement (k :: ks)) :
    k.separates = false := by
  have hk := h.unbroken.1
  simpa using hk

/-- Separators are balanced. -/
theorem balanced_separators {seps : List Token} (h : ∀ t ∈ seps, t.kind.separates = true) : Balanced (kinds seps) := by
  induction seps with
  | nil => rfl
  | cons t seps ih =>
    have hk : Nest.top.after t.kind = some .top := by
      have hs := h t (by simp)
      cases hk : t.kind <;> simp [hk, TokenKind.separates] at hs <;> rfl
    rw [Balanced, kinds_cons, Nest.run_cons, hk]
    exact ih fun u hu => h u (List.mem_cons_of_mem _ hu)

/-- An element is read up to the separator after it. -/
theorem breakOutside_of_isElement {first : Token} {others rest : List Token}
    (h : IsElement (kinds (first :: others))) (hr : ∀ t, rest.head? = some t → t.kind.separates = true) :
    breakOutside TokenKind.separates (first.kind.depthAfter 0) (others ++ rest) = (others, rest) := by
  have hbreak : breakOutside TokenKind.separates 0 rest = ([], rest) := by
    cases rest with
    | nil => rfl
    | cons t ts =>
      have ht := hr t rfl
      rw [breakOutside, if_pos (by simp [ht])]
  have hall := breakOutside_of_unbroken (n := .top) rest h.unbroken h.balanced
  have hnot : ¬ (0 = 0 && first.kind.separates) = true := by simp [h.not_separates]
  change breakOutside TokenKind.separates 0 (first :: (others ++ rest)) =
    (first :: others ++ (breakOutside TokenKind.separates 0 rest).1, (breakOutside TokenKind.separates 0 rest).2) at hall
  rw [hbreak, breakOutside, if_neg hnot, List.append_nil] at hall
  obtain ⟨h₁, h₂⟩ := Prod.mk.inj hall
  exact Prod.ext (List.cons.inj h₁).2 h₂

/-- Separators at the start are passed over. -/
theorem dropWhile_separators {seps : List Token} (h : ∀ t ∈ seps, t.kind.separates = true) (toks : List Token) :
    (seps ++ toks).dropWhile (·.kind.separates) = toks.dropWhile (·.kind.separates) :=
  List.dropWhile_append_of_pos h

/-- Parted tokens have the elements that they are parted into. -/
theorem elements_of_parted {toks : List Token} {es : List (List Token)} (h : Parted toks es) : elements toks = es := by
  induction h with
  | @done seps hs =>
    have hd : seps.dropWhile (·.kind.separates) = [] := by
      have h := dropWhile_separators hs []
      rwa [List.append_nil] at h
    rw [elements]
    split
    · rfl
    · next ht =>
      rw [hd] at ht
      cases ht
  | @element seps first others rest es hs he hr _ ih =>
    have hd : (seps ++ first :: (others ++ rest)).dropWhile (·.kind.separates) = first :: (others ++ rest) := by
      rw [dropWhile_separators hs, List.dropWhile_cons, if_neg]
      simp [he.not_separates]
    rw [elements]
    split
    · next ht =>
      rw [hd] at ht
      cases ht
    · next t ts ht =>
      rw [hd] at ht
      obtain ⟨rfl, rfl⟩ := List.cons.inj ht
      simp only
      rw [breakOutside_of_isElement he hr, ih]

/-- Balanced tokens are parted into their elements. -/
theorem parted_elements {toks : List Token} (h : Balanced (kinds toks)) : Parted toks (elements toks) := by
  obtain ⟨seps, hseps, hs⟩ : ∃ seps, toks = seps ++ toks.dropWhile (·.kind.separates) ∧
      ∀ t ∈ seps, t.kind.separates = true :=
    ⟨toks.takeWhile (·.kind.separates), List.takeWhile_append_dropWhile.symm,
      fun t ht => List.all_eq_true.1 List.all_takeWhile t ht⟩
  rw [elements]
  split
  · next hd =>
    rw [hd, List.append_nil] at hseps
    rw [hseps]
    exact .done hs
  · next first ts hd =>
    have hlt := length_afterSeparators hd
    have hle := length_breakOutside_le TokenKind.separates (first.kind.depthAfter 0) ts
    have hfirst : first.kind.separates = false := by
      have hnot := List.head_dropWhile_not (fun t : Token => t.kind.separates) (l := toks) (by simp [hd])
      simpa [hd] using hnot
    rw [hd] at hseps
    have hb : Balanced (kinds (first :: ts)) := by
      rw [hseps, kinds_append] at h
      exact h.of_append (balanced_separators hs)
    have hnot : ¬ (0 = 0 && first.kind.separates) = true := by simp [hfirst]
    have hbreak : breakOutside TokenKind.separates 0 (first :: ts) =
        (first :: (breakOutside TokenKind.separates (first.kind.depthAfter 0) ts).1,
          (breakOutside TokenKind.separates (first.kind.depthAfter 0) ts).2) := by
      rw [breakOutside, if_neg hnot]
    obtain ⟨hb₁, hb₂⟩ := (@balanced_breakOutside TokenKind.separates) (fun _ hk => hk) hb
    have hu := unbroken_breakOutside TokenKind.separates 0 (first :: ts)
    have happend := breakOutside_append TokenKind.separates (first.kind.depthAfter 0) ts
    have hstop : ∀ t, (breakOutside TokenKind.separates (first.kind.depthAfter 0) ts).2.head? = some t →
        t.kind.separates = true := by
      intro t ht
      obtain ⟨us, hus⟩ := List.head?_eq_some_iff.1 ht
      exact stop_of_breakOutside hus
    rw [hbreak] at hb₁ hb₂ hu
    have hparted := Parted.element hs ⟨hb₁, hu⟩ hstop (parted_elements hb₂)
    rw [happend, ← hseps] at hparted
    exact hparted
termination_by toks.length

/-- A word is an identifier. -/
theorem kind_of_isWord {t : Token} {word : String} (h : t.isWord word = true) : t.kind = .identifier := by
  simp only [Token.isWord, Bool.and_eq_true, decide_eq_true_eq] at h
  exact h.1

/-- A single-line string without holes, and the text that it stands for. -/
inductive IsLiteral : List Token → String → Prop where
  | empty {opening closing : Token} : opening.kind = .stringStart → closing.kind = .stringEnd →
      IsLiteral [opening, closing] ""
  | text {opening middle closing : Token} {cs : List Char} : opening.kind = .stringStart →
      middle.kind = .stringText → closing.kind = .stringEnd → unescape middle.text.toList = some cs →
      IsLiteral [opening, middle, closing] (String.ofList cs)

/-- A literal is read exactly where one stands. -/
theorem literalAt_eq_some_iff {toks rest : List Token} {text : String} :
    literalAt toks = some (text, rest) ↔ ∃ literal, toks = literal ++ rest ∧ IsLiteral literal text := by
  constructor
  · intro h
    unfold literalAt at h
    split at h
    · next opening middle others =>
      split at h
      · next ho =>
        split at h
        · next hm =>
          simp only [Option.some.injEq, Prod.mk.injEq] at h
          obtain ⟨rfl, rfl⟩ := h
          exact ⟨_, rfl, .empty ho hm⟩
        · split at h
          · next hm =>
            split at h
            · next closing others =>
              split at h
              · next hc =>
                obtain ⟨cs, hcs, he⟩ := Option.map_eq_some_iff.1 h
                simp only [Prod.mk.injEq] at he
                obtain ⟨rfl, rfl⟩ := he
                exact ⟨_, rfl, .text ho hm hc hcs⟩
              · simp at h
            · simp at h
          · simp at h
      · simp at h
    · simp at h
  · rintro ⟨literal, rfl, h⟩
    cases h with
    | empty ho hc => simp [literalAt, ho, hc]
    | text ho hm hc ht => simp [literalAt, ho, hm, hc, ht]

/-- The tokens of a string are read as its text. -/
theorem IsLiteral.literalAt {literal : List Token} {text : String} (h : IsLiteral literal text) (rest : List Token) :
    literalAt (literal ++ rest) = some (text, rest) :=
  literalAt_eq_some_iff.2 ⟨literal, rfl, h⟩

/-- The tokens of a string are an element. -/
theorem IsLiteral.isElement {literal : List Token} {text : String} (h : IsLiteral literal text) :
    IsElement (kinds literal) := by
  cases h with
  | empty ho hc =>
    rw [kinds_cons, kinds_cons, kinds_nil, ho, hc]
    exact ⟨rfl, by simp [TokenKind.separates], by simp [TokenKind.separates], trivial⟩
  | text ho hm hc ht =>
    rw [kinds_cons, kinds_cons, kinds_cons, kinds_nil, ho, hm, hc]
    exact ⟨rfl, by simp [TokenKind.separates], by simp [TokenKind.separates], by simp [TokenKind.separates], trivial⟩

/-- The key of a property: a name, or a literal in quotes. -/
def IsKey (toks : List Token) (key : String) (quoted : Bool) : Prop :=
  if quoted then IsLiteral toks key else ∃ t, toks = [t] ∧ t.kind = .identifier ∧ t.text = key

/-- The tokens of a key are an element. -/
theorem IsKey.isElement {toks : List Token} {key : String} {quoted : Bool} (h : IsKey toks key quoted) :
    IsElement (kinds toks) := by
  cases quoted with
  | true => exact IsLiteral.isElement h
  | false =>
    obtain ⟨t, rfl, hk, -⟩ := h
    rw [kinds_cons, hk]
    exact .single rfl rfl

/-- A property is read exactly where a key, a colon and a value stand. -/
theorem propertyAt_cases {element : List Token} {p : Property (Token × List Token)}
    (h : propertyAt element = some p) :
    ∃ key colon, element = key ++ colon :: p.value.1 :: p.value.2 ∧ IsKey key p.key p.quoted ∧
      colon.kind = .colon := by
  unfold propertyAt at h
  split at h
  · simp at h
  · next t ts =>
    simp only at h
    split at h
    · next key colon first others hk =>
      split at h
      · next hc =>
        obtain rfl := Option.some.inj h
        by_cases ht : t.kind = .identifier
        · rw [if_pos ht] at hk
          simp only [Option.some.injEq, Prod.mk.injEq] at hk
          obtain ⟨rfl, rfl⟩ := hk
          refine ⟨[t], colon, rfl, ?_, hc⟩
          simp only [ht, IsKey]
          exact ⟨t, rfl, ht, rfl⟩
        · rw [if_neg ht] at hk
          obtain ⟨literal, hl, hliteral⟩ := literalAt_eq_some_iff.1 hk
          refine ⟨literal, colon, hl, ?_, hc⟩
          simpa [ht, IsKey] using hliteral
      · simp at h
    · simp at h

/-- The value of a property is an element too. -/
theorem isElement_value {element : List Token} {p : Property (Token × List Token)} (h : propertyAt element = some p)
    (he : IsElement (kinds element)) : IsElement (kinds (p.value.1 :: p.value.2)) := by
  obtain ⟨key, colon, rfl, hk, hc⟩ := propertyAt_cases h
  rw [kinds_append, kinds_cons, hc, List.append_cons] at he
  exact he.of_append (hk.isElement.balanced.append rfl)

/-- Where a key, a colon and a value stand a property is read. -/
theorem propertyAt_of_isKey {key : List Token} {name : String} {quoted : Bool} {colon first : Token}
    (hk : IsKey key name quoted) (hc : colon.kind = .colon) (others : List Token) :
    ∃ line, propertyAt (key ++ colon :: first :: others) = some ⟨name, quoted, (first, others), line⟩ := by
  cases quoted with
  | false =>
    obtain ⟨t, rfl, ht, rfl⟩ := hk
    exact ⟨t.line, by simp [propertyAt, ht, hc]⟩
  | true =>
    have hl := IsLiteral.literalAt hk (colon :: first :: others)
    have hstart : ∃ t ts, key = t :: ts ∧ t.kind = .stringStart := by
      cases hk with
      | empty ho _ => exact ⟨_, _, rfl, ho⟩
      | text ho _ _ _ => exact ⟨_, _, rfl, ho⟩
    obtain ⟨t, ts, rfl, ht⟩ := hstart
    refine ⟨t.line, ?_⟩
    rw [List.cons_append] at hl ⊢
    simp [propertyAt, ht, hl, hc]

/-- The word `existing`, or nothing. -/
def IsExisting (toks : List Token) (existing : Bool) : Prop :=
  if existing then ∃ t, toks = [t] ∧ t.isWord "existing" = true else toks = []

/-- The head of a declaration: a keyword, a name, a literal, perhaps a word, and an equals sign. -/
structure IsHead (toks : List Token) (head : DeclarationHead) : Prop where
  parts : ∃ keyword name literal existing equals, toks = keyword :: name :: (literal ++ (existing ++ [equals])) ∧
    name.kind = .identifier ∧ name.text = head.symbol ∧ IsLiteral literal head.target ∧
    IsExisting existing head.existing ∧ equals.kind = .assign

/-- What the head of a declaration is read from. -/
theorem readHead_cases {toks rest : List Token} {head : DeclarationHead} (h : readHead toks = some (head, rest)) :
    ∃ taken, toks = taken ++ rest ∧ IsHead taken head := by
  unfold readHead at h
  split at h
  · next keyword name others =>
    split at h
    · next hn =>
      split at h
      · simp at h
      · next target after hl =>
        obtain ⟨literal, rfl, hliteral⟩ := literalAt_eq_some_iff.1 hl
        split at h
        · simp at h
        · next equals after' hd =>
          split at h
          · next he =>
            simp only [Option.some.injEq, Prod.mk.injEq] at h
            obtain ⟨rfl, rfl⟩ := h
            unfold dropWord at hd
            by_cases hw : startsWithWord "existing" after = true
            · rw [if_pos hw] at hd
              cases after with
              | nil => simp at hd
              | cons w after =>
                rw [List.tail_cons] at hd
                subst hd
                refine ⟨keyword :: name :: (literal ++ ([w] ++ [equals])), by simp,
                  ⟨keyword, name, literal, [w], equals, rfl, hn, rfl, hliteral, ?_, he⟩⟩
                rw [hw]
                exact ⟨w, rfl, by simpa [startsWithWord] using hw⟩
            · rw [if_neg hw] at hd
              subst hd
              refine ⟨keyword :: name :: (literal ++ ([] ++ [equals])), by simp,
                ⟨keyword, name, literal, [], equals, rfl, hn, rfl, hliteral, ?_, he⟩⟩
              rw [Bool.eq_false_iff.2 hw]
              rfl
          · simp at h
    · simp at h
  · simp at h

/-- Where the head of a declaration stands it is read. -/
theorem readHead_of_isHead {taken : List Token} {head : DeclarationHead} (h : IsHead taken head) (rest : List Token) :
    readHead (taken ++ rest) = some (head, rest) := by
  obtain ⟨keyword, name, literal, existing, equals, rfl, hn, hsymbol, hl, hw, he⟩ := h.parts
  obtain ⟨symbol, target, exists'⟩ := head
  simp only at hsymbol hl hw
  subst hsymbol
  have hliteral := hl.literalAt (existing ++ ([equals] ++ rest))
  have hall : keyword :: name :: (literal ++ (existing ++ [equals])) ++ rest =
      keyword :: name :: (literal ++ (existing ++ ([equals] ++ rest))) := by simp
  rw [hall, readHead, if_pos hn, hliteral]
  cases exists' with
  | true =>
    obtain ⟨w, rfl, hw⟩ := hw
    simp [dropWord, startsWithWord, hw, he]
  | false =>
    obtain rfl : existing = [] := hw
    have hnot : equals.isWord "existing" = false := by simp [Token.isWord, he]
    simp [dropWord, startsWithWord, hnot, he]

/-- The head of a declaration is balanced. -/
theorem IsHead.balanced {taken : List Token} {head : DeclarationHead} (h : IsHead taken head)
    (hk : ∀ t, taken.head? = some t → t.kind = .identifier) : Balanced (kinds taken) := by
  obtain ⟨keyword, name, literal, existing, equals, rfl, hn, -, hl, hw, he⟩ := h.parts
  have hkeyword := hk keyword rfl
  have hexisting : Balanced (kinds existing) := by
    cases hx : head.existing with
    | true =>
      rw [hx] at hw
      obtain ⟨w, rfl, hw⟩ := hw
      rw [kinds_cons, kind_of_isWord hw]
      rfl
    | false =>
      rw [hx] at hw
      obtain rfl : existing = [] := hw
      rfl
  rw [kinds_cons, kinds_cons, kinds_append, kinds_append, hkeyword, hn]
  refine Balanced.append (a := [.identifier, .identifier]) rfl (hl.isElement.balanced.append (hexisting.append ?_))
  rw [kinds_cons, he]
  rfl

/-- The tokens in brackets that make up a value. -/
theorem exists_enclosed {first : Token} {others inside : List Token} (bracket : Bracket) (hb : bracket ≠ .hole)
    (hf : Nest.top.after first.kind = some ⟨.code, [bracket]⟩) (he : IsElement (kinds (first :: others)))
    (h : enclosed? others = some inside) :
    ∃ close, others = inside ++ [close] ∧ close.kind = bracket.closeKind ∧ Balanced (kinds inside) := by
  unfold enclosed? at h
  split at h
  · next found close hbreak =>
    obtain rfl := Option.some.inj h
    obtain ⟨hfound, hclose⟩ := balanced_of_breakAtClose hb hf he.balanced hbreak
    exact ⟨close, (breakAtClose_append hbreak).symm, hclose, hfound⟩
  · cases h

/-- What a value is read as, from the tokens in its brackets. -/
theorem readValue_eq (source : String) (first : Token) (others : List Token) :
    readValue source first others =
      if first.kind = .braceOpen then
        match enclosed? others with
        | none => scalar source first others
        | some inside =>
          match readEntries source (elements inside) with
          | none => scalar source first others
          | some entries => .object entries
      else if first.kind = .bracketOpen && !(others.head?.any (·.isWord "for")) then
        match enclosed? others with
        | none => scalar source first others
        | some inside => .array (readItems source (elements inside))
      else scalar source first others := by
  rw [readValue]
  split
  · split
    · next hnone => rw [hnone]
    · next inside hsome => cases hread : readEntries source (elements inside) <;> simp only [hsome, hread]
  · split
    · split
      · next hnone => rw [hnone]
      · next inside hsome => simp only [hsome]
    · rfl

/-- The values that tokens are read as: an object or an array, from the tokens in its brackets, or a scalar. -/
inductive IsReading (source : String) (first : Token) (others : List Token) : Value → Prop
  | scalar : IsReading source first others (scalar source first others)
  | object {inside : List Token} {entries : ObjectLiteral} (opens : first.kind = .braceOpen)
      (encloses : enclosed? others = some inside) (reads : readEntries source (elements inside) = some entries) :
      IsReading source first others (.object entries)
  | array {inside : List Token} (opens : first.kind = .bracketOpen) (encloses : enclosed? others = some inside) :
      IsReading source first others (.array (readItems source (elements inside)))

/-- A value is read from its tokens. -/
theorem isReading_readValue (source : String) (first : Token) (others : List Token) :
    IsReading source first others (readValue source first others) := by
  rw [readValue_eq]
  split
  · next ho =>
    cases hi : enclosed? others with
    | none => exact .scalar
    | some inside =>
      cases hr : readEntries source (elements inside) with
      | none => simpa only [hr] using .scalar
      | some entries => simpa only [hr] using .object ho hi hr
  · split
    · next hb =>
      cases hi : enclosed? others with
      | none => exact .scalar
      | some inside => exact .array (of_decide_eq_true (Bool.and_eq_true_iff.1 hb).1) hi
    · exact .scalar

/-- Properties are read one after another. -/
theorem readEntries_cons (source : String) (element : List Token) (rest : List (List Token)) :
    readEntries source (element :: rest) =
      match propertyAt element with
      | none => none
      | some p =>
        (readEntries source rest).map (⟨p.key, p.quoted, readValue source p.value.1 p.value.2, p.line⟩ :: ·) := by
  rw [readEntries]
  split
  · next hnone => rw [hnone]
  · next p hsome => simp only [hsome]

/-- Elements are read as properties if each of them is one. -/
theorem readEntries_cons_eq_some {source : String} {element : List Token} {rest : List (List Token)}
    {entries : ObjectLiteral} (h : readEntries source (element :: rest) = some entries) :
    ∃ p others, propertyAt element = some p ∧ readEntries source rest = some others ∧
      entries = ⟨p.key, p.quoted, readValue source p.value.1 p.value.2, p.line⟩ :: others := by
  rw [readEntries_cons] at h
  split at h
  · cases h
  · next p hp =>
    obtain ⟨others, hothers, rfl⟩ := Option.map_eq_some_iff.1 h
    exact ⟨p, others, hp, hothers, rfl⟩

end BicepMigration.Template
