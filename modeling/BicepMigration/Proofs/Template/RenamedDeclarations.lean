import Mathlib.Data.List.Forall2
import BicepMigration.Proofs.Template.RenamedTokens

/-!
# Declarations in renamed tokens

Where the words that a statement is read by are not exchanged, renamed tokens declare what the tokens before did, as
far as its symbol, its target and its form go. What its body and its condition say may differ. Main statement: a
declaration with a body is one in renamed tokens too.
-/

namespace BicepMigration.Template

open Text

/-- The words that the form of a statement is read by. -/
def readWords : List String := ["param", "var", "resource", "module", "output", "existing", "if", "for"]

/-- None of these words is exchanged for another name. -/
def SparesWords (r : Token → Token → Prop) : Prop := ∀ t u, r t u → t.text ∉ readWords

variable {r : Token → Token → Prop} {fixed : Bool} {t : Token} {a b : List Token} {source source' : String}

/-- Tokens of one kind and text are the same words. -/
theorem Token.isWord_congr {t u : Token} (hk : u.kind = t.kind) (ht : u.text = t.text) (word : String) :
    u.isWord word = t.isWord word := by
  rw [Token.isWord, Token.isWord, hk, ht]

/-- A statement that declares something starts with a declaring word. -/
theorem exists_word_of_kindAt (h : kindAt (t :: a) ≠ .other) :
    ∃ word ∈ readWords, word ∈ declaringWords ∧ t.isWord word = true := by
  simp only [kindAt] at h
  repeat' split at h
  · next ht => exact ⟨"param", by decide, by decide, ht⟩
  · next ht => exact ⟨"var", by decide, by decide, ht⟩
  · next ht => exact ⟨"resource", by decide, by decide, ht⟩
  · next ht => exact ⟨"module", by decide, by decide, ht⟩
  · next ht => exact ⟨"output", by decide, by decide, ht⟩
  · exact absurd rfl h

namespace Renamed

section Heads

/-- A token that is no name stays. -/
theorem kept_of_ne (h : Renamed r fixed (t :: a) b) (hk : t.kind ≠ .identifier) :
    ∃ u us, b = u :: us ∧ u.kind = t.kind ∧ u.text = t.text ∧ Renamed r t.declares a us := by
  cases h with
  | keep hk ht h => exact ⟨_, _, rfl, hk, ht, h⟩
  | swap ht => exact absurd ht hk

/-- A token after a declaring word stays. -/
theorem kept_of_fixed (h : Renamed r true (t :: a) b) :
    ∃ u us, b = u :: us ∧ u.kind = t.kind ∧ u.text = t.text ∧ Renamed r t.declares a us := by
  cases h with
  | keep hk ht h => exact ⟨_, _, rfl, hk, ht, h⟩

/-- A word that is not exchanged stays. -/
theorem kept_of_word (h : Renamed r fixed (t :: a) b) (hr : SparesWords r) {word : String} (hword : word ∈ readWords)
    (ht : t.isWord word = true) :
    ∃ u us, b = u :: us ∧ u.kind = t.kind ∧ u.text = t.text ∧ Renamed r t.declares a us := by
  cases h with
  | keep hk htext h => exact ⟨_, _, rfl, hk, htext, h⟩
  | swap _ _ hrel =>
    obtain ⟨-, htext⟩ : t.kind = .identifier ∧ t.text = word := by simpa [Token.isWord] using ht
    exact absurd (htext ▸ hword) (hr _ _ hrel)

/-- A name without members stays one. -/
theorem tail_of_no_point (h : Renamed r fixed (t :: a) b) (ha : ∀ u us, a = u :: us → u.kind ≠ .dot) :
    ∃ u us, b = u :: us ∧ u.kind = t.kind ∧ Renamed r false a us := by
  cases h with
  | keep hk _ h => exact ⟨_, _, rfl, hk, h.loosen⟩
  | @swap t u m n a b ht hu _ hm hn hiff h =>
    cases hm with
    | nil =>
      obtain rfl := hiff.1 rfl
      exact ⟨u, b, rfl, hu.trans ht.symm, h⟩
    | cons hp _ _ => exact absurd hp (ha _ _ rfl)

/-- What is told by the kind of the first token is told again. -/
theorem any_head? (h : Renamed r fixed a b) (p : TokenKind → Bool) :
    b.head?.any (fun t => p t.kind) = a.head?.any fun t => p t.kind := by
  cases a with
  | nil => rw [h.nil_left]
  | cons t a =>
    obtain ⟨u, us, rfl, hk⟩ := h.cons_left
    simp [hk]

/-- The end of a line stays. -/
theorem atLineEnd (h : Renamed r fixed a b) : atLineEnd b = atLineEnd a := by
  cases a with
  | nil => rw [h.nil_left]
  | cons t a =>
    obtain ⟨u, us, rfl, hk⟩ := h.cons_left
    simp [Template.atLineEnd, hk]

/-- A word that is not exchanged starts the tokens again. -/
theorem startsWithWord (h : Renamed r fixed a b) (hr : SparesWords r) {word : String} (hword : word ∈ readWords)
    (hs : startsWithWord word a = true) :
    Template.startsWithWord word b = true ∧ Renamed r false a.tail b.tail := by
  cases a with
  | nil => cases hs
  | cons t a =>
    obtain ⟨u, us, rfl, hk, ht, h⟩ := h.kept_of_word hr hword hs
    exact ⟨(Token.isWord_congr hk ht word).trans hs, h.loosen⟩

/-- What comes after an optional word is no name, so it comes after the same word again. -/
theorem dropWord (h : Renamed r fixed a b) (hr : SparesWords r) (word : String) (hword : word ∈ readWords)
    (hd : ∀ u, (dropWord word a).head? = some u → u.kind ≠ .identifier) :
    Template.startsWithWord word b = Template.startsWithWord word a ∧
      Renamed r false (Template.dropWord word a) (Template.dropWord word b) := by
  unfold Template.dropWord at hd ⊢
  by_cases hs : Template.startsWithWord word a = true
  · obtain ⟨hs', htail⟩ := h.startsWithWord hr hword hs
    rw [hs, hs', if_pos rfl, if_pos rfl]
    exact ⟨rfl, htail⟩
  · rw [if_neg hs] at hd
    have hs' : ¬ Template.startsWithWord word b = true := by
      intro hs'
      cases a with
      | nil =>
        rw [h.nil_left] at hs'
        cases hs'
      | cons t a =>
        obtain ⟨u, us, rfl, hk⟩ := h.cons_left
        exact hd t rfl (hk ▸ kind_of_isWord hs')
    rw [if_neg hs, if_neg hs']
    rw [Bool.not_eq_true] at hs hs'
    exact ⟨hs'.trans hs.symm, h.loosen⟩

/-- The keyword of a declaration and the name after it stay. -/
theorem kept_of_kindAt (h : Renamed r fixed (t :: a) b) (hr : SparesWords r) (hk : Template.kindAt (t :: a) ≠ .other) :
    ∃ u us, b = u :: us ∧ u.kind = t.kind ∧ u.text = t.text ∧ Renamed r true a us := by
  obtain ⟨word, hword, hdeclaring, ht⟩ := exists_word_of_kindAt hk
  obtain ⟨-, htext⟩ : t.kind = .identifier ∧ t.text = word := by simpa [Token.isWord] using ht
  have hdeclares : t.declares = true := by
    rw [Token.declares, htext]
    simpa [kind_of_isWord ht] using hdeclaring
  rw [← hdeclares]
  exact h.kept_of_word hr hword ht

/-- A statement that declares something declares a thing of the same kind. -/
theorem kindAt (h : Renamed r fixed a b) (hr : SparesWords r) (hk : Template.kindAt a ≠ .other) :
    Template.kindAt b = Template.kindAt a := by
  cases a with
  | nil => exact absurd rfl hk
  | cons t a =>
    obtain ⟨u, us, rfl, hkind, htext, -⟩ := h.kept_of_kindAt hr hk
    simp only [Template.kindAt, Token.isWord_congr hkind htext]

end Heads

/-- A string without holes stays. -/
theorem literalAt (h : Renamed r fixed a b) {text : String} {rest : List Token}
    (hl : literalAt a = some (text, rest)) :
    ∃ rest', Template.literalAt b = some (text, rest') ∧ Renamed r false rest rest' := by
  unfold Template.literalAt at hl
  split at hl
  · next opening middle more =>
    split at hl
    · next ho =>
      obtain ⟨opening', us, rfl, hok, -, h⟩ := h.kept_of_ne (by simp [ho])
      split at hl
      · next hm =>
        obtain ⟨rfl, rfl⟩ : "" = text ∧ more = rest := by simpa using hl
        obtain ⟨middle', more', rfl, hmk, -, h⟩ := h.kept_of_ne (by simp [hm])
        exact ⟨more', by simp [Template.literalAt, hok, ho, hmk, hm], h.loosen⟩
      · split at hl
        · next hm =>
          obtain ⟨middle', more', rfl, hmk, hmt, h⟩ := h.kept_of_ne (by simp [hm])
          split at hl
          · next closing last =>
            split at hl
            · next hc =>
              obtain ⟨closing', last', rfl, hck, -, h⟩ := h.kept_of_ne (by simp [hc])
              obtain ⟨content, hcontent, heq⟩ := Option.map_eq_some_iff.1 hl
              obtain ⟨rfl, rfl⟩ := Prod.mk.inj heq
              exact ⟨last', by simp [Template.literalAt, hok, ho, hmk, hm, hmt, hck, hc, hcontent], h.loosen⟩
            · cases hl
          · cases hl
        · cases hl
    · cases hl
  · cases hl

/-- A name and a target are declared again, with the same words around them. -/
theorem readHead (h : Renamed r fixed a b) (hr : SparesWords r) (hk : Template.kindAt a ≠ .other)
    {head : DeclarationHead} {rest : List Token} (hh : readHead a = some (head, rest)) :
    ∃ rest', Template.readHead b = some (head, rest') ∧ Renamed r false rest rest' := by
  unfold Template.readHead at hh
  split at hh
  · next keyword name more =>
    obtain ⟨keyword', us, rfl, -, -, h⟩ := h.kept_of_kindAt hr hk
    obtain ⟨name', more', rfl, hname, htext, h⟩ := h.kept_of_fixed
    split at hh
    · next hn =>
      split at hh
      · cases hh
      · next target after hl =>
        obtain ⟨after', hl', h⟩ := h.literalAt hl
        split at hh
        · cases hh
        · next equals last hd =>
          split at hh
          · next he =>
            obtain ⟨rfl, rfl⟩ := Prod.mk.inj (Option.some.inj hh)
            obtain ⟨hs, hdrop⟩ := h.dropWord hr "existing" (by decide) (by simp [hd, he])
            rw [hd] at hdrop
            obtain ⟨equals', last', hd', hek, -, h⟩ := hdrop.kept_of_ne (by simp [he])
            refine ⟨last', ?_, h.loosen⟩
            simp only [Template.readHead, hname, hn, hl', hd', hek, he, htext, hs, if_true]
          · cases hh
    · cases hh
  · cases hh

/-- A condition before a body is read again. -/
theorem readOptionalCondition (h : Renamed r fixed a b) (hr : SparesWords r) {c : Option Fragment} {rest : List Token}
    (hc : readOptionalCondition source a = some (c, rest))
    (hrest : ∀ t, rest.head? = some t → t.kind ≠ .identifier) :
    ∃ c' rest', Template.readOptionalCondition source' b = some (c', rest') ∧ c'.isSome = c.isSome ∧
      Renamed r false rest rest' := by
  rcases readOptionalCondition_eq_some hc with ⟨hs, f, rfl, hcondition⟩ | ⟨hs, rfl, rfl⟩
  · obtain ⟨hs', htail⟩ := h.startsWithWord hr (by decide) hs
    obtain ⟨opening, first, others, close, ha, hopens, hclose, -⟩ := readCondition_cases hcondition
    rw [ha] at htail
    obtain ⟨t', ts', hb, htk, -, hts⟩ := htail.kept_of_ne (by simp [hopens])
    obtain ⟨found', close', last', hclose', -, hfound, hlast⟩ := hts.breakAtClose hclose
    obtain ⟨first', others', rfl, -⟩ := hfound.cons_left
    refine ⟨some (.ofTokens source' first' others'), last', ?_, rfl, hlast⟩
    simp only [Template.readOptionalCondition, hs', if_true, hb, readCondition, htk, hopens, hclose', Option.map_some]
  · obtain ⟨hs', -⟩ := h.dropWord hr "if" (by decide) (by rwa [Template.dropWord, if_neg hs])
    exact ⟨none, b, by rw [Template.readOptionalCondition, if_neg (hs' ▸ hs)], rfl, h.loosen⟩

/-- The elements are cut at the same separators. -/
theorem elements (h : Renamed r fixed a b) :
    List.Forall₂ (Renamed r false) (elements a) (Template.elements b) := by
  have hskip : Renamed r false (a.dropWhile (·.kind.separates)) (b.dropWhile (·.kind.separates)) :=
    (@Renamed.dropWhile r fixed a b TokenKind.separates h) rfl
  fun_induction Template.elements a generalizing b fixed with
  | case1 toks hnil =>
    rw [hnil] at hskip
    rw [elements_of_nil hskip.nil_left]
    exact .nil
  | case2 toks t ts hcons _ _ parts =>
    rename_i ih
    rw [hcons] at hskip
    have ht : t.kind.separates = false := by
      simpa [hcons] using List.head_dropWhile_not (fun t : Token => t.kind.separates) (l := toks) (by simp [hcons])
    obtain ⟨u, us, hb, hk⟩ := hskip.cons_left
    rw [hb] at hskip
    have hbreak := @Renamed.breakOutside r false (t :: ts) (u :: us) TokenKind.separates hskip rfl rfl 0
    simp only [Template.breakOutside, hk, ht, Bool.and_false, Bool.false_eq_true, if_false] at hbreak
    rw [elements_of_cons hb, hk]
    exact .cons hbreak.1 (ih hbreak.2 (@Renamed.dropWhile r false _ _ TokenKind.separates hbreak.2 rfl))

/-- The key of a property is one again. -/
theorem isKey {key : List Token} {name : String} {quoted : Bool} (h : Renamed r fixed (key ++ a) b)
    (hk : IsKey key name quoted) (ha : ∀ u us, a = u :: us → u.kind ≠ .dot) :
    ∃ key' name' b', b = key' ++ b' ∧ IsKey key' name' quoted ∧ Renamed r false a b' := by
  cases quoted with
  | true =>
    obtain ⟨b', hl, hrest⟩ := h.literalAt (IsLiteral.literalAt hk a)
    obtain ⟨key', rfl, hk'⟩ := literalAt_eq_some_iff.1 hl
    exact ⟨key', name, b', rfl, hk', hrest⟩
  | false =>
    obtain ⟨t, rfl, ht, -⟩ := hk
    obtain ⟨u, b', rfl, hu, h⟩ := Renamed.tail_of_no_point h ha
    exact ⟨[u], u.text, b', rfl, ⟨u, rfl, hu.trans ht, rfl⟩, h⟩

/-- An element is a property again. -/
theorem propertyAt (h : Renamed r fixed a b) (hp : (propertyAt a).isSome) : (Template.propertyAt b).isSome := by
  obtain ⟨p, hp⟩ := Option.isSome_iff_exists.1 hp
  obtain ⟨key, colon, rfl, hkey, hc⟩ := propertyAt_cases hp
  obtain ⟨key', name', b', rfl, hkey', h⟩ := h.isKey hkey fun u us hu => by
    obtain ⟨rfl, -⟩ := List.cons.inj hu
    simp [hc]
  obtain ⟨colon', b', rfl, hc', -, h⟩ := h.kept_of_ne (by simp [hc])
  obtain ⟨first', others', rfl, -⟩ := h.cons_left
  obtain ⟨line, hp'⟩ := propertyAt_of_isKey hkey' (hc'.trans hc) others'
  rw [hp']
  rfl

/-- Elements that are properties are so again. -/
theorem readEntries {es fs : List (List Token)} (h : List.Forall₂ (Renamed r false) es fs)
    (he : (readEntries source es).isSome) : (Template.readEntries source' fs).isSome := by
  induction h with
  | nil => rw [Template.readEntries]; rfl
  | @cons e f es fs h _ ih =>
    rw [readEntries_cons] at he ⊢
    cases hp : Template.propertyAt e with
    | none =>
      rw [hp] at he
      cases he
    | some p =>
      simp only [hp, Option.isSome_map] at he
      obtain ⟨p', hp'⟩ := Option.isSome_iff_exists.1 (h.propertyAt (hp ▸ rfl))
      simp only [hp', Option.isSome_map]
      exact ih he

/-- A body in braces is read again. -/
theorem readBody (h : Renamed r fixed a b) (hb : (readBody source a).isSome) :
    (Template.readBody source' b).isSome := by
  obtain ⟨⟨body, rest⟩, hbody⟩ := Option.isSome_iff_exists.1 hb
  obtain ⟨opening, found, close, rfl, hopens, hclose, hentries, hend⟩ := readBody_cases hbody
  obtain ⟨u, us, rfl, hu, -, h⟩ := h.kept_of_ne (by simp [hopens])
  obtain ⟨inside', close', rest', hclose', -, hinside, hrest⟩ := h.breakAtClose hclose
  simp only [Template.readBody, hu, hopens, if_true, hclose', hrest.atLineEnd, hend, Option.isSome_map]
  exact readEntries hinside.elements (by rw [hentries]; rfl)

end Renamed

/-- A body starts with a brace. -/
theorem kind_of_readBody (hb : (readBody source a).isSome) : ∀ t, a.head? = some t → t.kind = .braceOpen := by
  obtain ⟨⟨body, rest⟩, hbody⟩ := Option.isSome_iff_exists.1 hb
  obtain ⟨opening, found, close, rfl, hopens, -⟩ := readBody_cases hbody
  exact fun t ht => Option.some.inj ht ▸ hopens

/-- What a declaration says, apart from what its body and its condition say. -/
structure Form where
  symbol : Option String
  target : Option String
  hasBody : Bool
  hasCondition : Bool
  existing : Bool
  looped : Bool
  deriving DecidableEq, Repr

/-- The form of a declaration. -/
def Declaration.form (d : Declaration) : Form :=
  ⟨d.symbol, d.target, d.body.isSome, d.condition.isSome, d.existing, d.looped⟩

/-- The form of what a statement declares. -/
def Statement.form (s : Statement) : Form :=
  ⟨s.symbol, s.target, s.body.isSome, s.condition.isSome, s.existing, s.looped⟩

/-- Statements with a symbol that say the same have the same form. -/
theorem Statement.form_of_sense {s s' : Statement} (h : s'.sense = s.sense) (hs : s'.symbol.isSome) :
    s'.kind = s.kind ∧ s'.form = s.form := by
  have hsymbol : s'.symbol = s.symbol := congrArg (·.symbol) h
  obtain ⟨symbol, hsome⟩ := Option.isSome_iff_exists.1 hs
  have htarget : (s'.symbol.bind fun _ => s'.target) = s.symbol.bind fun _ => s.target := congrArg (·.target) h
  have hlooped : (s'.symbol.isSome && s'.looped) = (s.symbol.isSome && s.looped) := congrArg (·.looped) h
  have hbody : (s'.body.map ObjectLiteral.unplaced).isSome = (s.body.map ObjectLiteral.unplaced).isSome :=
    congrArg (·.body.isSome) h
  have hcondition : (s'.condition.map Fragment.unplaced).isSome = (s.condition.map Fragment.unplaced).isSome :=
    congrArg (·.condition.isSome) h
  rw [← hsymbol, hsome, Option.bind_some, Option.bind_some] at htarget
  rw [← hsymbol, hs, Bool.true_and, Bool.true_and] at hlooped
  rw [Option.isSome_map, Option.isSome_map] at hbody hcondition
  refine ⟨congrArg (·.kind) h, ?_⟩
  rw [Statement.form, Statement.form, hsymbol, htarget, hbody, hcondition, hlooped,
    show s'.existing = s.existing from congrArg (·.existing) h]

/-- A declaration with a body is one of the same form in renamed tokens. -/
theorem Renamed.readDeclaration (h : Renamed r fixed a b) (hr : SparesWords r) (hk : Template.kindAt a ≠ .other)
    {d : Declaration} {rest : List Token} (hd : readDeclaration source a = some (d, rest)) (hb : d.body.isSome) :
    ∃ d' rest', Template.readDeclaration source' b = some (d', rest') ∧ d'.form = d.form := by
  obtain ⟨head, after, hhead, ⟨-, -, rfl⟩ | ⟨hbracket, condition, last, body, hcondition, hbody, rfl⟩⟩ :=
    readDeclaration_cases hd
  · cases hb
  · obtain ⟨after', hhead', h⟩ := h.readHead hr hk hhead
    have hsome : (Template.readBody source last).isSome := by rw [hbody]; rfl
    obtain ⟨condition', last', hcondition', hsame, hlast⟩ := (@Renamed.readOptionalCondition r false after after'
      source source') h hr hcondition fun t ht => by simp [kind_of_readBody hsome t ht]
    obtain ⟨⟨body', final'⟩, hbody'⟩ := Option.isSome_iff_exists.1 ((@Renamed.readBody r false last last'
      source source') hlast hsome)
    have hbracket' : ¬ after'.head?.any (·.kind = .bracketOpen) = true := by
      rwa [h.any_head? fun k => k = .bracketOpen]
    refine ⟨⟨some head.symbol, some head.target, some body', condition', head.existing, false⟩, final', ?_, ?_⟩
    · simp only [Template.readDeclaration, hhead', if_neg hbracket', hcondition', hbody', Option.map_some]
    · simp only [Declaration.form, hsame, Option.isSome_some]

/-- What a declaration says is what its statement declares. -/
theorem readStatementBody_of_declaration {d : Declaration × List Token}
    (hk : kindAt a = .resource ∨ kindAt a = .module) (hd : readDeclaration source a = some d) :
    readStatementBody source a = d := by
  rw [readStatementBody]
  rcases hk with hk | hk <;> simp [hk, hd]

/-- A statement with a body has the same form in renamed tokens. -/
theorem Renamed.form_readStatement {t u : Token} (h : Renamed r false (t :: a) (u :: b)) (hr : SparesWords r)
    (hb : (readStatement source t a).1.body.isSome) :
    (readStatement source' u b).1.kind = (readStatement source t a).1.kind ∧
      (readStatement source' u b).1.form = (readStatement source t a).1.form := by
  have hafter : Renamed r false (readDecorators source (t :: a)).2 (readDecorators source' (u :: b)).2 :=
    h.afterDecorators
  change (readStatementBody source (readDecorators source (t :: a)).2).1.body.isSome at hb
  change Template.kindAt (readDecorators source' (u :: b)).2 = Template.kindAt (readDecorators source (t :: a)).2 ∧
    (readStatementBody source' (readDecorators source' (u :: b)).2).1.form =
      (readStatementBody source (readDecorators source (t :: a)).2).1.form
  generalize (readDecorators source (t :: a)).2 = toks at hafter hb ⊢
  generalize (readDecorators source' (u :: b)).2 = toks' at hafter ⊢
  obtain ⟨body, hbody⟩ := Option.isSome_iff_exists.1 hb
  obtain ⟨hkind, hd⟩ := readDeclaration_of_body hbody
  have hother : Template.kindAt toks ≠ .other := by rcases hkind with hk | hk <;> simp [hk]
  have hsame := hafter.kindAt hr hother
  obtain ⟨d', rest', hd', hform⟩ := (@Renamed.readDeclaration r false toks toks' source source') hafter hr hother hd hb
  rw [readStatementBody_of_declaration (hsame ▸ hkind) hd']
  exact ⟨hsame, hform⟩

end BicepMigration.Template
