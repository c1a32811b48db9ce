import BicepMigration.Proofs.Template.ReadUse

/-!
# Uses in declarations

A declaration with a body has decorators, a head, perhaps a condition, and the body. Its head is made of words, a name
and a literal, so the uses that stay among its tokens are those in its decorators, its condition and its body. Main
statement: whether a symbol is used in these parts can be told from the tokens of the declaration.
-/

namespace BicepMigration.Template

open Text

variable {strict : Bool} {source : String} {l : Layout} {symbols : List String} {replace : Replacements}
  {before after : List Token}

/-- One of the symbols is used in what is written for the parts of a declaration. -/
def StatementUses (strict : Bool) (symbols : List String) (edited : EditedText) (s : Statement) : Prop :=
  (∃ f ∈ s.decorators, TextUses strict symbols .key (edited.fragment f)) ∨
    (∃ f, s.condition = some f ∧ TextUses strict symbols .other (edited.fragment f)) ∨
    ∃ body, s.body = some body ∧ (Value.object body).Any (LeafUses strict symbols edited) .other

/-- A decorator uses a symbol where a use in it stays. -/
theorem Replacing.textUses_line_iff (h : Replacing strict source l symbols replace) {t : Token} {ts : List Token}
    (ht : t.kind = .atSign) (hall : l.tokens = before.reverse ++ (t :: ts ++ after)) (hb : Balanced (kinds (t :: ts)))
    (hafter : atLineEnd after = true) :
    TextUses strict symbols .key ((replacedText source l symbols replace).fragment (Fragment.ofTokens source t ts)) ↔
      Occurs (KeptUse strict symbols replace) before (t :: ts) after := by
  obtain ⟨hleft, hright⟩ := (@tokensApart_line t ts after) ht hafter before.reverse
  refine h.textUses_fragment_iff hall hb hleft hright ?_ fun hk => by simp [ht] at hk
  cases after with
  | nil => rfl
  | cons u after =>
    have hu : u.kind = .newline := by simpa [atLineEnd] using hafter
    simp [startsColon, hu]

/-- The uses in decorators are those among their tokens. -/
theorem Replacing.any_readDecorators_iff (h : Replacing strict source l symbols replace) (toks : List Token)
    (hall : l.tokens = before.reverse ++ toks) (hb : Balanced (kinds toks)) :
    ∃ taken, toks = taken ++ (readDecorators source toks).2 ∧ Balanced (kinds taken) ∧
      ((∃ f ∈ (readDecorators source toks).1,
          TextUses strict symbols .key ((replacedText source l symbols replace).fragment f)) ↔
        Occurs (KeptUse strict symbols replace) before taken (readDecorators source toks).2) := by
  have hlines := decorated_readDecorators source toks
  generalize (readDecorators source toks).1 = decorators at hlines ⊢
  generalize (readDecorators source toks).2 = after at hlines ⊢
  induction hlines generalizing before with
  | done => exact ⟨[], rfl, rfl, by simp⟩
  | @line t ts blank rest after decorators hline _ ih =>
    obtain ⟨hl, hr⟩ := hline.balanced hb
    have hthis := h.textUses_line_iff hline.starts hall hl hline.atLineEnd
    obtain ⟨taken, rfl, hbt, hothers⟩ :=
      @ih (blank.reverse ++ ((t :: ts).reverse ++ before)) (by rw [hall]; simp) hr
    refine ⟨t :: ts ++ (blank ++ taken), by simp, ?_, ?_⟩
    · rw [kinds_append, kinds_append]
      exact hl.append ((balanced_newlines hline.newlines).append hbt)
    · have hnone : ∀ u ∈ blank, u.kind ≠ .identifier := fun u hu => by simp [hline.newlines u hu]
      rw [occurs_append, List.append_assoc, occurs_append, or_iff_right (not_occurs_of_kind hnone _ _), ← hthis,
        ← hothers]
      simp only [List.mem_cons, exists_eq_or_imp]

/-- A word is no symbol. -/
theorem Replacing.not_keptUse_word (h : Replacing strict source l symbols replace) {t : Token} {word : String}
    (ht : t.isWord word = true) (hw : word ∈ callWords) : ¬ KeptUse strict symbols replace before t after := by
  simp only [Token.isWord, Bool.and_eq_true, decide_eq_true_eq] at ht
  exact fun hu => h.words word hw (ht.2 ▸ hu.symbol)

/-- The head of a declaration uses nothing. -/
theorem Replacing.not_occurs_head (h : Replacing strict source l symbols replace) {taken : List Token}
    {head : DeclarationHead} (hh : IsHead taken head)
    (hk : ∀ t, taken.head? = some t → t.isWord "resource" = true ∨ t.isWord "module" = true) :
    ¬ Occurs (KeptUse strict symbols replace) before taken after := by
  obtain ⟨keyword, name, literal, existing, equals, rfl, hn, -, hl, hx, he⟩ := hh.parts
  have hkeyword : keyword.kind = .identifier ∧ keyword.text ∈ declaringWords := by
    rcases hk keyword rfl with hw | hw
    all_goals
      simp only [Token.isWord, Bool.and_eq_true, decide_eq_true_eq] at hw
      rw [hw.2]
      exact ⟨hw.1, by decide⟩
  have hname {rest : List Token} : ¬ KeptUse strict symbols replace (keyword :: before) name rest := by
    intro hu
    have hside : sideBefore strict (keyword :: before) = .declared := by
      simp [sideBefore, Side.after, hkeyword.1, hkeyword.2, TokenKind.separates]
    have ha := hu.admits
    rw [hside] at ha
    cases ha
  have hexisting {before rest : List Token} : ¬ Occurs (KeptUse strict symbols replace) before existing rest := by
    cases hex : head.existing with
    | true =>
      rw [hex] at hx
      obtain ⟨w, rfl, hw⟩ := hx
      rw [occurs_cons, occurs_nil, or_false]
      exact h.not_keptUse_word hw (by decide)
    | false =>
      rw [hex] at hx
      obtain rfl : existing = [] := hx
      exact id
  rw [occurs_cons, occurs_cons, occurs_append, occurs_append, occurs_cons, occurs_nil, or_false]
  rintro (hu | hu | hu | hu | hu)
  · exact (hk keyword rfl).elim (fun hw => h.not_keptUse_word hw (by decide) hu)
      fun hw => h.not_keptUse_word hw (by decide) hu
  · exact hname hu
  · exact not_occurs_of_kind hl.kind_ne _ _ hu
  · exact hexisting hu
  · exact not_keptUse_of_kind (by simp [he]) hu

/-- The uses in a condition are those among its tokens. -/
theorem Replacing.any_readOptionalCondition_iff (h : Replacing strict source l symbols replace) {toks rest : List Token}
    {condition : Option Fragment} (hr : readOptionalCondition source toks = some (condition, rest))
    (hall : l.tokens = before.reverse ++ toks) (hb : Balanced (kinds toks)) :
    ∃ taken, toks = taken ++ rest ∧ Balanced (kinds taken) ∧
      ((∃ f, condition = some f ∧
          TextUses strict symbols .other ((replacedText source l symbols replace).fragment f)) ↔
        Occurs (KeptUse strict symbols replace) before taken rest) := by
  rcases readOptionalCondition_cases hr hb with ⟨rfl, rfl⟩ | ⟨word, opening, first, others, close, rfl, hif, ho, hc, hf, rfl⟩
  · exact ⟨[], rfl, rfl, by simp⟩
  refine ⟨word :: opening :: (first :: others ++ [close]), by simp, balanced_ifTokens hif ho hc hf, ?_⟩
  have hside : sideBefore strict (opening :: word :: before) = .other := by
    simp [sideBefore, Side.after, ho, TokenKind.separates]
  have hleft : TokensApart (opening :: word :: before).reverse (first :: others) := tokensApart_of_last fun u hu => by
    rw [List.getLast?_reverse] at hu
    rw [← Option.some.inj hu, ho]
    exact TokenKind.neutral_of_opens rfl
  have hright : TokensApart (first :: others) (close :: rest) := tokensApart_of_head fun u hu => by
    rw [← Option.some.inj hu, hc]
    exact TokenKind.neutral_of_closes rfl
  have hinside := h.textUses_fragment_iff (by rw [hall]; simp) hf hleft hright (by simp [startsColon, hc])
    (hside ▸ agrees_self _ _)
  have houtside : Occurs (KeptUse strict symbols replace) before (word :: opening :: (first :: others ++ [close])) rest ↔
      Occurs (KeptUse strict symbols replace) (opening :: word :: before) (first :: others) (close :: rest) := by
    rw [occurs_cons, or_iff_right (h.not_keptUse_word hif (by decide)), occurs_enclosed (by rw [ho]; rfl) (by rw [hc]; rfl)]
  simp only [Option.some.injEq, exists_eq_left']
  exact hinside.trans houtside.symm

/-- The uses in a body are those among its tokens. -/
theorem Replacing.any_body_iff (h : Replacing strict source l symbols replace) {opening close : Token}
    {found : List Token} {body : ObjectLiteral} (hr : readEntries source (elements found) = some body)
    (hall : l.tokens = before.reverse ++ (opening :: (found ++ [close]) ++ after)) (ho : opening.kind = .braceOpen)
    (hc : close.kind.closes = true) (hb : Balanced (kinds found)) :
    (Value.object body).Any (LeafUses strict symbols (replacedText source l symbols replace)) .other ↔
      Occurs (KeptUse strict symbols replace) before (opening :: (found ++ [close])) after := by
  rw [any_object_iff, occurs_enclosed (by rw [ho]; rfl) hc]
  refine h.any_readEntries_iff (elements found) (opening :: before) (close :: after) (parted_elements hb) hr ?_
    (.inl fun u hu => ?_) fun u hu => ?_
  · rw [hall]
    simp
  · rw [← Option.some.inj hu]
    exact .inl ho
  · rw [← Option.some.inj hu]
    exact .inr hc

/-- The uses in a declaration with a body are those in its decorators, its condition and its body. -/
theorem Replacing.statementUses_iff (h : Replacing strict source l symbols replace) {s : Statement}
    {first : Token} {others rest : List Token} (hread : readStatement source first (others ++ rest) = (s, rest))
    (hall : l.tokens = before.reverse ++ first :: (others ++ rest)) (hb : Balanced (kinds (first :: (others ++ rest))))
    {body : ObjectLiteral} (hbody : s.body = some body) :
    StatementUses strict symbols (replacedText source l symbols replace) s ↔
      Occurs (KeptUse strict symbols replace) before (first :: others) rest := by
  obtain ⟨decorators, hd, hbd, hdecorators⟩ := h.any_readDecorators_iff (first :: (others ++ rest)) hall hb
  have hds : s.decorators = (readDecorators source (first :: (others ++ rest))).1 :=
    (congrArg (·.1.decorators) hread).symm
  have hbody' : (readStatementBody source (readDecorators source (first :: (others ++ rest))).2).1.body = some body :=
    (congrArg (·.1.body) hread).trans hbody
  have hcondition' : s.condition =
      (readStatementBody source (readDecorators source (first :: (others ++ rest))).2).1.condition :=
    (congrArg (·.1.condition) hread).symm
  have hrest : (readStatementBody source (readDecorators source (first :: (others ++ rest))).2).2 = rest :=
    congrArg (·.2) hread
  rw [hd, kinds_append] at hb
  have hbody_balanced := hb.of_append hbd
  generalize (readDecorators source (first :: (others ++ rest))).2 = toks at hd hdecorators hbody' hcondition' hrest hbody_balanced
  obtain ⟨taken, head, after, opening, found, close, rfl, hhead, hwords, hafter, hparts⟩ :=
    exists_declarationParts hbody_balanced hbody'
  generalize readStatementBody source (taken ++ after) = declared at hbody' hcondition' hrest hparts
  obtain ⟨d, rest'⟩ := declared
  obtain rfl : rest' = rest := hrest
  have hplace : l.tokens = (taken.reverse ++ (decorators.reverse ++ before)).reverse ++ after := by
    rw [hall, hd]
    simp
  obtain ⟨condition, rfl, -, hcondition⟩ := h.any_readOptionalCondition_iff hparts.condition hplace hafter
  obtain ⟨hfound, hclose⟩ := hparts.balanced hafter
  have hinside := h.any_body_iff hparts.entries
    (show l.tokens = (condition.reverse ++ (taken.reverse ++ (decorators.reverse ++ before))).reverse ++
      (opening :: (found ++ [close]) ++ rest') by rw [hplace]; simp) hparts.opens (by rw [hclose]; rfl) hfound
  have hrun : first :: others = decorators ++ (taken ++ (condition ++ opening :: (found ++ [close]))) := by
    refine List.append_cancel_right (?_ : first :: others ++ rest' = _ ++ rest')
    rw [List.cons_append, hd]
    simp
  have hends : opening :: (found ++ [close]) ++ rest' = opening :: (found ++ close :: rest') := by simp
  simp only [StatementUses, hds, hcondition', hbody, Option.some.injEq, exists_eq_left']
  rw [hrun, occurs_append, occurs_append, or_iff_right (h.not_occurs_head hhead hwords), occurs_append, ← hinside,
    List.append_assoc, List.append_assoc, hends]
  exact or_congr hdecorators (or_congr hcondition Iff.rfl)

end BicepMigration.Template
