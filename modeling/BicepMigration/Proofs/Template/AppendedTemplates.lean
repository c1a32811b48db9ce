import BicepMigration.Proofs.Template.CoveredBodies
import BicepMigration.Proofs.Template.JoinedStatements

/-!
# Templates that go on with another one

A template that can be scanned ends outside strings, comments and brackets, so another one can follow on the next line,
and its tokens are then those of both. The statements are those of both too, if the first template does not end with
decorators: these would go on in the second one. A keyword `resource` or `module` that ends the first template takes a
literal at the start of the second one for its target, and stays as it is only if there is none. Main statement: this, for
all templates of which the second one has no byte-order mark.
-/

namespace BicepMigration.Template

open Text

variable {source : String} {toks : List Token}

/-- The token is one of the statement, after its decorators, and no newline. -/
structure Statement.GoesOn (s : Statement) (t : Token) : Prop where
  owns : s.Owns t
  not_newline : t.kind ≠ .newline
  after : ∀ f ∈ s.decorators, ∀ span ∈ f.span, span.stop ≤ t.span.start

/-- A statement goes on with a token of its own that is no newline and stands behind its decorators. -/
theorem Statement.goesOn_iff {s : Statement} {t : Token} : s.GoesOn t ↔
    s.Owns t ∧ t.kind ≠ .newline ∧ ∀ f ∈ s.decorators, ∀ span ∈ f.span, span.stop ≤ t.span.start :=
  ⟨fun h => ⟨h.owns, h.not_newline, h.after⟩, fun h => ⟨h.1, h.2.1, h.2.2⟩⟩

instance (s : Statement) (t : Token) : Decidable (s.GoesOn t) := decidable_of_iff' _ Statement.goesOn_iff

section Decorators

/-- What comes after decorators starts with no newline. -/
theorem not_newline_of_readDecorators (h : ∀ t ∈ toks.head?, t.kind ≠ .newline) :
    ∀ t ∈ (readDecorators source toks).2.head?, t.kind ≠ .newline := by
  have hlines := decorated_readDecorators source toks
  generalize (readDecorators source toks).1 = decorators at hlines
  generalize (readDecorators source toks).2 = after at hlines ⊢
  induction hlines with
  | done => exact h
  | line hline _ ih => exact ih hline.head_ne

/-- Every token before the end of the decorators is a newline or stands in one of them. -/
theorem exists_decorated (source : String) (h : Successive toks) :
    ∃ taken, toks = taken ++ (readDecorators source toks).2 ∧
      (∀ t ∈ taken, t.kind = .newline ∨
        ∃ f ∈ (readDecorators source toks).1, ∃ span ∈ f.span, t.span.start < span.stop) ∧
      ∀ f ∈ (readDecorators source toks).1, ∀ span ∈ f.span,
        ∀ t ∈ (readDecorators source toks).2, span.stop ≤ t.span.start := by
  have hlines := decorated_readDecorators source toks
  generalize (readDecorators source toks).1 = decorators at hlines ⊢
  generalize (readDecorators source toks).2 = after at hlines ⊢
  induction hlines with
  | done => exact ⟨[], rfl, by simp, by simp⟩
  | @line t ts blank rest after decorators hline _ ih =>
    have hfirst := h.sublist (List.sublist_append_left (t :: ts) _)
    obtain ⟨taken, rfl, hin, hafter⟩ :=
      ih (h.sublist ((List.sublist_append_right blank rest).trans (List.sublist_append_right _ _)))
    refine ⟨t :: ts ++ (blank ++ taken), by simp, fun u hu => ?_, fun f hf span hspan u hu => ?_⟩
    · rcases List.mem_append.1 hu with hu | hu
      · have hstop := (hfirst.between u hu).2
        have hpos := hfirst.nonempty u hu
        exact .inr ⟨_, List.mem_cons_self, _, rfl, Nat.lt_of_lt_of_le hpos hstop⟩
      · rcases List.mem_append.1 hu with hu | hu
        · exact .inl (hline.newlines u hu)
        · rcases hin u hu with hnewline | ⟨f, hf, hspan⟩
          · exact .inl hnewline
          · exact .inr ⟨f, List.mem_cons_of_mem _ hf, hspan⟩
    · rcases List.mem_cons.1 hf with rfl | hf
      · -- the decorator stops where the last token of its line does
        obtain rfl := Option.some.inj hspan
        have hlast : ts.getLast?.getD t ∈ t :: ts := List.mem_of_getLast? List.getLast?_cons
        exact (List.pairwise_append.1 h.increasing).2.2 _ hlast u (by simp [hu])
      · exact hafter f hf span hspan u hu

end Decorators

section Last

/-- Tokens without a statement are newlines. -/
theorem newlines_of_readStatements_eq_nil (h : readStatements source toks = []) : ∀ t ∈ toks, t.kind = .newline := by
  obtain ⟨blank, hblank, hnl⟩ := exists_newlines toks
  cases hskip : skipNewlines toks with
  | nil =>
    rw [hskip, List.append_nil] at hblank
    rwa [hblank]
  | cons first others =>
    rw [hskip] at hblank
    rw [hblank, readStatements_cons hnl (head_skipNewlines hskip)] at h
    cases h

/-- The last statement, with what is read after its decorators. -/
theorem exists_last {s : Statement} (h : (readStatements source toks).getLast? = some s) :
    ∃ before first others, toks = before ++ first :: others ∧ first.kind ≠ .newline ∧
      s = (readStatement source first others).1 ∧
      (keywordTails source toks).getLast? = some (readDecorators source (first :: others)).2 := by
  induction toks using induction_on_statements source with
  | newlines blank hblank =>
    rw [readStatements_newlines hblank] at h
    cases h
  | statement blank first others hblank hfirst ih =>
    rw [readStatements_cons hblank hfirst, List.getLast?_cons] at h
    rw [keywordTails_cons hblank hfirst, List.getLast?_cons]
    have hsuffix := suffix_readStatement source first others
    cases hlast : (readStatements source (readStatement source first others).2).getLast? with
    | none =>
      have hnl := newlines_of_readStatements_eq_nil (List.getLast?_eq_none_iff.1 hlast)
      rw [hlast] at h
      refine ⟨blank, first, others, rfl, hfirst, (Option.some.inj h).symm, ?_⟩
      rw [keywordTails_newlines hnl]
      rfl
    | some last =>
      rw [hlast] at h
      obtain ⟨before, first', others', heq, hfirst', hs, htail⟩ := ih (hlast.trans h)
      obtain ⟨taken, htaken⟩ := hsuffix
      refine ⟨blank ++ (taken ++ before), first', others', ?_, hfirst', hs, by rw [htail]; rfl⟩
      rw [← htaken, heq]
      simp

/-- The last statement alone can have no more than a keyword after its decorators. -/
theorem getLast?_of_tail_eq_nil {tail : List Token} (ht : tail ∈ keywordTails source toks) (h : tail.tail = []) :
    (keywordTails source toks).getLast? = some tail := by
  induction toks using induction_on_statements source with
  | newlines blank hblank =>
    rw [keywordTails_newlines hblank] at ht
    cases ht
  | statement blank first others hblank hfirst ih =>
    rw [keywordTails_cons hblank hfirst] at ht ⊢
    rcases List.mem_cons.1 ht with rfl | ht
    · -- no other token than a newline can follow a line of one token
      have hrest : ∀ t ∈ (readStatement source first others).2, t.kind = .newline := by
        change ∀ t ∈ (readStatementBody source (readDecorators source (first :: others)).2).2, t.kind = .newline
        have hend := atLineEnd_breakLine (readDecorators source (first :: others)).2
        have hle := length_breakLine_le (readDecorators source (first :: others)).2
        have hlen := congrArg List.length h
        rw [List.length_tail, List.length_nil] at hlen
        rw [readStatementBody_snd]
        match hb : (breakLine (readDecorators source (first :: others)).2).2 with
        | [] => simp
        | [u] =>
          rw [hb] at hend
          simpa using head_of_atLineEnd hend
        | u :: v :: us =>
          rw [hb, List.length_cons, List.length_cons] at hle
          omega
      rw [keywordTails_newlines hrest]
      rfl
    · rw [List.getLast?_cons, ih ht]
      rfl

/-- A template with statements has a last one. -/
theorem exists_getLast? {tail : List Token} (h : (keywordTails source toks).getLast? = some tail) :
    ∃ s, (readStatements source toks).getLast? = some s := by
  cases hlast : (readStatements source toks).getLast? with
  | none =>
    have hnl := newlines_of_readStatements_eq_nil (List.getLast?_eq_none_iff.1 hlast)
    rw [keywordTails_newlines hnl] at h
    cases h
  | some s => exact ⟨s, rfl⟩

/-- A token that goes on with a statement stands after the decorators among the tokens that the statement is read from. -/
theorem mem_of_goesOn {before others : List Token} {first t : Token} (h : Successive (before ++ first :: others))
    (ht : t ∈ before ++ first :: others) (hgoes : (readStatement source first others).1.GoesOn t) :
    t ∈ (readDecorators source (first :: others)).2 := by
  obtain ⟨-, -, hcross⟩ := List.pairwise_append.1 h.increasing
  rcases List.mem_append.1 ht with hbefore | hmem
  · have hstop := hcross t hbefore first List.mem_cons_self
    have hpos := h.nonempty t ht
    have hstart : first.span.start ≤ t.span.start := hgoes.owns.1
    omega
  · obtain ⟨taken, htaken, hin, -⟩ := exists_decorated source (h.sublist (List.sublist_append_right _ _))
    rw [htaken] at hmem
    rcases List.mem_append.1 hmem with hmem | hmem
    · rcases hin t hmem with hnewline | ⟨f, hf, span, hspan, hlt⟩
      · exact absurd hnewline hgoes.not_newline
      · exact absurd (hgoes.after f hf span hspan) (Nat.not_le.2 hlt)
    · exact hmem

/-- If the last statement goes on after its decorators, then all do. -/
theorem keyworded_of_goesOn (hs : Successive toks)
    (h : ∀ s ∈ (readStatements source toks).getLast?, ∃ t ∈ toks, s.GoesOn t) : Keyworded source toks := by
  refine keyworded_of_getLast fun hnil => ?_
  obtain ⟨s, hlast⟩ := exists_getLast? hnil
  obtain ⟨t, ht, hgoes⟩ := h s hlast
  obtain ⟨before, first, others, rfl, -, rfl, htail⟩ := exists_last hlast
  have hmem := mem_of_goesOn hs ht hgoes
  rw [Option.some.inj (htail.symm.trans hnil)] at hmem
  cases hmem

end Last

/-- The template ends with the keyword of a declaration, and nothing else comes after the decorators of its last
statement. -/
def EndsInKeyword (template : ScannedTemplate) : Prop :=
  ∃ s ∈ template.statements.getLast?, ∃ t ∈ template.tokens.getLast?,
    (s.kind = .resource ∨ s.kind = .module) ∧ s.GoesOn t ∧ ∀ u ∈ template.tokens, s.GoesOn u → u = t

/-- The template starts with a single-line string without holes. -/
def StartsWithLiteral (template : ScannedTemplate) : Prop := (literalAt template.tokens).isSome = true

/-- A keyword alone after the decorators of a statement ends the template. -/
theorem endsInKeyword_of_tail {tail : List Token} (hs : Successive toks)
    (hk : Keyworded source toks) (ht : tail ∈ keywordTails source toks) (hkind : (kindAt tail).isDeclared = true)
    (h : tail.tail = []) : EndsInKeyword ⟨source, toks, readStatements source toks⟩ := by
  obtain ⟨t, htail⟩ : ∃ t, tail = [t] := by
    obtain ⟨t, ts, rfl⟩ := List.exists_cons_of_ne_nil (hk tail ht)
    exact ⟨t, congrArg (t :: ·) h⟩
  have hlast := getLast?_of_tail_eq_nil ht h
  obtain ⟨s, hs'⟩ := exists_getLast? hlast
  obtain ⟨before, first, others, rfl, hfirst, rfl, hafter⟩ := exists_last hs'
  obtain rfl : (readDecorators source (first :: others)).2 = tail := Option.some.inj (hafter.symm.trans hlast)
  have hstatement := hs.sublist (List.sublist_append_right before (first :: others))
  obtain ⟨taken, htaken, -, hstops⟩ := exists_decorated source hstatement
  have hnewline : t.kind ≠ .newline := by
    refine @not_newline_of_readDecorators source (first :: others) ?_ t (by rw [htail]; rfl)
    simpa using hfirst
  rw [htail] at htaken hstops
  have hend : (first :: others).getLast? = some t := by rw [htaken]; simp
  have hrest : (readStatement source first others).2 = [] := by
    change (readStatementBody source (readDecorators source (first :: others)).2).2 = []
    rw [readStatementBody_snd, htail]
    simp [breakLine, breakOutside, hnewline]
  have hbetween := hstatement.between t (List.mem_of_getLast? hend)
  have howns : (readStatement source first others).1.Owns t := by
    rw [Statement.Owns, fst_readStatement, hrest, List.length_nil, Nat.sub_zero, List.take_length]
    exact hbetween
  refine ⟨_, hs', t, ?_, ?_, ⟨howns, hnewline, fun f hf span hspan => ?_⟩, fun u hu hgoes => ?_⟩
  · rw [Option.mem_def, List.getLast?_append, hend]
    rfl
  · have hsame : (readStatement source first others).1.kind = kindAt (readDecorators source (first :: others)).2 := rfl
    rw [hsame]
    simpa [StatementKind.isDeclared] using hkind
  · exact hstops f hf span hspan t (by simp)
  · have hmem := mem_of_goesOn hs hu hgoes
    rw [htail] at hmem
    exact List.mem_singleton.1 hmem

/-- A template consists of two, the second one on the line after the first one. -/
structure Appends (template more joined : ScannedTemplate) : Prop where
  source : joined.source = template.source ++ ("\n" ++ more.source)
  /-- The tokens are those of both templates with a newline between them. -/
  tokens : ∃ column, joined.tokens = template.tokens ++ newlineAfter template.source column ::
    more.tokens.map (Token.moved (template.source.utf8ByteSize + 1) (template.source.toList.count '\n' + 1))
  /-- The statements are those of both templates, if the last one of the first goes on after its decorators. All but the
  target and the loop of a statement without a symbol stay as they are, and these too unless the first template ends in
  a keyword and the second one starts with a literal. -/
  statements : (∀ s ∈ template.statements.getLast?, ∃ t ∈ template.tokens, s.GoesOn t) →
    ∃ own, joined.statements = own ++ more.statements.map
        (Statement.moved (template.source.utf8ByteSize + 1) (template.source.toList.count '\n' + 1)) ∧
      own.map Statement.own = template.statements.map Statement.own ∧
      (¬ (EndsInKeyword template ∧ StartsWithLiteral more) → own = template.statements)

variable {more : String} {template rest : ScannedTemplate}

/-- One template after another can be scanned, and it has the tokens and the statements of both. -/
theorem scan_appends (h : scan source = .ok template) (hm : scan more = .ok rest)
    (hmark : more.toList.head? ≠ some byteOrderMark) :
    ∃ joined, scan (source ++ ("\n" ++ more)) = .ok joined ∧ Appends template rest joined := by
  obtain ⟨joined, column, hjoined, hsource, htokens, hstatements⟩ := exists_appended h hm hmark
  obtain ⟨l, -, rfl⟩ := scan_eq_ok_iff.1 h
  obtain ⟨r, -, rfl⟩ := scan_eq_ok_iff.1 hm
  refine ⟨joined, hjoined, hsource, ⟨column, htokens⟩, fun hgoes => ?_⟩
  have hk := keyworded_of_goesOn l.successive hgoes
  obtain ⟨own, hread, hown, hsame⟩ := hstatements hk
  refine ⟨own, hread, hown, fun hne => hsame fun tail ht hkind hshort => ?_⟩
  by_contra hliteral
  exact hne ⟨endsInKeyword_of_tail l.successive hk ht hkind hshort, Option.isSome_iff_ne_none.2 hliteral⟩

/-- The scan of a text that can be read. -/
theorem scan_tokensOf {source : String} (h : (tokenize source).isOk = true) :
    scan source = .ok ⟨source, tokensOf source, readStatements source (tokensOf source)⟩ := by
  rw [scan, tokenize_eq h]
  rfl

/-- A decorated parameter with a comment after it. -/
def precedingSource : String := "@description('é')\nparam a string // b"

/-- A resource whose body holds a string of many lines, and a variable. -/
def followingSource : String := "resource r 'T/a@2020-01-01' = \x7b\n  a: '''\n'''\n\x7d\nvar b = r.id"

/-- A template that ends in a declaration is followed by one that starts with a decorator. -/
theorem scan_appends_decorated :
    scan precedingSource = .ok ⟨precedingSource, tokensOf precedingSource,
        readStatements precedingSource (tokensOf precedingSource)⟩ ∧
      (∀ s ∈ (readStatements precedingSource (tokensOf precedingSource)).getLast?,
        ∃ t ∈ tokensOf precedingSource, s.GoesOn t) ∧
      ∃ joined, scan (precedingSource ++ ("\n" ++ followingSource)) = .ok joined ∧
        Appends ⟨precedingSource, tokensOf precedingSource, readStatements precedingSource (tokensOf precedingSource)⟩
          ⟨followingSource, tokensOf followingSource, readStatements followingSource (tokensOf followingSource)⟩
          joined := by
  have h := (@scan_tokensOf precedingSource) (by decide +kernel)
  have hm := (@scan_tokensOf followingSource) (by decide +kernel)
  exact ⟨h, by decide +kernel, scan_appends h hm (by decide)⟩

/-- A keyword alone takes the literal on the next line for its target, though the line after it is a statement of its
own. -/
theorem scan_takes_target :
    ∃ template rest joined, scan "resource" = .ok template ∧ scan "'T/a@2020-01-01'\n" = .ok rest ∧
      scan ("resource" ++ ("\n" ++ "'T/a@2020-01-01'\n")) = .ok joined ∧
      (∀ s ∈ template.statements.getLast?, ∃ t ∈ template.tokens, s.GoesOn t) ∧
      joined.statements ≠ template.statements ++ rest.statements.map (Statement.moved 9 1) ∧
      template.statements.map (·.target) = [none] ∧
      joined.statements.map (·.target) = [some "T/a@2020-01-01", none] := by
  refine ⟨_, _, _, scan_tokensOf (by decide +kernel), scan_tokensOf (by decide +kernel),
    scan_tokensOf (by decide +kernel), by decide +kernel, fun heq => ?_, by decide +kernel, by decide +kernel⟩
  have htargets := congrArg (List.map (·.target)) heq
  exact absurd htargets (by decide +kernel)

end BicepMigration.Template
