import BicepMigration.Proofs.Template.StatementRun
import BicepMigration.Proofs.Template.Aspect

/-!
# What is seen of statements

Statements are read from tokens and from the text of fragments. So if the tokens of two templates are seen alike, each
under the aspect of its own template, then so are the statements, and they take the tokens that are exchanged for each
other. Main statement: this, for all statements of a template.
-/

namespace BicepMigration.Template

open Text

/-- What a declaration says, under an aspect. -/
def Declaration.seen (aspect : Aspect) (d : Declaration) : Declaration :=
  { d with body := d.body.map (Value.seenEntries aspect), condition := d.condition.map aspect.fragment }

/-- A statement under an aspect. -/
def Statement.seen (aspect : Aspect) (s : Statement) : Statement :=
  { s with
    span := aspect.span s.span
    decorators := s.decorators.map aspect.fragment
    line := aspect.line s.line
    body := s.body.map (Value.seenEntries aspect)
    condition := s.condition.map aspect.fragment }

@[simp] theorem Statement.seen_whole (s : Statement) : s.seen .whole = s := by
  have hbody : s.body.map (Value.seenEntries .whole) = s.body := by cases s.body <;> simp
  have hdecorators : s.decorators.map Aspect.whole.fragment = s.decorators := List.map_id _
  have hcondition : s.condition.map Aspect.whole.fragment = s.condition := Option.map_id_apply
  simp only [Statement.seen, hbody, hdecorators, hcondition]
  rfl

variable {aspect aspect' : Aspect} {source source' : String} {g : Token → Token} {toks : List Token}

/-- Decorators are seen alike. -/
theorem seen_readDecorators (h : SeenAlike aspect aspect' source source' g toks) :
    (readDecorators source' (toks.map g)).1.map aspect'.fragment = (readDecorators source toks).1.map aspect.fragment ∧
      (readDecorators source' (toks.map g)).2 = (readDecorators source toks).2.map g := by
  fun_induction readDecorators source toks with
  | case1 =>
    rw [List.map_nil, readDecorators]
    exact ⟨rfl, rfl⟩
  | case2 t ts hat _ line others ih =>
    have hcons := breakLine_cons ts (t := t) (by simp [hat]) (by simp [hat, TokenKind.opens])
      (by simp [hat, TokenKind.closes])
    have hline : line.1 = t :: (breakLine ts).1 := congrArg Prod.fst hcons
    have hrest : skipNewlines line.2 <:+: t :: ts :=
      ((suffix_skipNewlines _).trans (suffix_breakLine (t :: ts))).isInfix
    obtain ⟨hd, ha⟩ := ih (h.mono hrest)
    have hbreak : breakLine (g t :: ts.map g) = (line.1.map g, line.2.map g) := h.toResembles.breakLine (t :: ts)
    have hfragment := h.fragment t line.1.tail (by
      rw [hline]
      exact hline ▸ (prefix_breakLine (t :: ts)).isInfix)
    rw [List.map_cons, readDecorators, dif_pos (by rw [h.kind, hat])]
    simp only [hbreak, h.toResembles.skipNewlines]
    refine ⟨?_, ha⟩
    rw [← List.map_tail, List.map_cons, List.map_cons, hd, hfragment]
  | case3 t ts hat =>
    rw [List.map_cons, readDecorators, dif_neg (by rwa [h.kind])]
    exact ⟨rfl, rfl⟩

/-- Conditions are seen alike. -/
theorem seen_readOptionalCondition (h : SeenAlike aspect aspect' source source' g toks) :
    (readOptionalCondition source' (toks.map g)).map (fun (c, rest) => (c.map aspect'.fragment, rest)) =
      (readOptionalCondition source toks).map fun (c, rest) => (c.map aspect.fragment, rest.map g) := by
  unfold readOptionalCondition
  rw [h.toResembles.startsWithWord]
  split
  · cases toks with
    | nil => rfl
    | cons word toks =>
      cases toks with
      | nil => rfl
      | cons t ts =>
        simp only [List.map_cons, List.tail_cons, readCondition, h.kind, h.toResembles.breakAtClose]
        split
        · rcases hb : breakAtClose 0 ts with _ | ⟨found, close, rest⟩
          · rfl
          · cases found with
            | nil => rfl
            | cons first others =>
              have hi : first :: others <:+: word :: t :: ts := by
                refine List.IsInfix.trans ?_ ((List.suffix_cons _ _).trans (List.suffix_cons _ _)).isInfix
                rw [← breakAtClose_append hb]
                exact (List.prefix_append _ _).isInfix
              simp only [Option.map_some, List.map_cons, h.fragment first others hi]
        · rfl
  · rfl

/-- Bodies are seen alike. -/
theorem seen_readBody (h : SeenAlike aspect aspect' source source' g toks) :
    (readBody source' (toks.map g)).map (fun (body, rest) => (Value.seenEntries aspect' body, rest)) =
      (readBody source toks).map fun (body, rest) => (Value.seenEntries aspect body, rest.map g) := by
  cases toks with
  | nil => rfl
  | cons t ts =>
    simp only [List.map_cons, readBody, h.kind, h.toResembles.breakAtClose]
    split
    · rcases hb : breakAtClose 0 ts with _ | ⟨found, close, rest⟩
      · rfl
      · have hi : found <:+: t :: ts := by
          refine List.IsInfix.trans ?_ (List.suffix_cons _ _).isInfix
          rw [← breakAtClose_append hb]
          exact (List.prefix_append _ _).isInfix
        have he := seen_readEntries (elements found) fun e he => (h.mono hi).mono (infix_of_mem_elements he)
        simp only [Option.map_some, h.toResembles.atLineEnd, h.toResembles.elements]
        split
        · rw [Option.map_map, Option.map_map]
          have hpair := congrArg (Option.map (·, rest.map g)) he
          rwa [Option.map_map, Option.map_map] at hpair
        · rfl
    · rfl

/-- Declarations are seen alike. -/
theorem seen_readDeclaration (h : SeenAlike aspect aspect' source source' g toks) :
    (readDeclaration source' (toks.map g)).map (fun (d, rest) => (d.seen aspect', rest)) =
      (readDeclaration source toks).map fun (d, rest) => (d.seen aspect, rest.map g) := by
  unfold readDeclaration
  rw [h.toResembles.readHead]
  rcases hh : readHead toks with _ | ⟨head, rest⟩
  · rfl
  · have hrest := h.mono (suffix_readHead hh).isInfix
    have hloop : (rest.map g).head?.any (·.kind = .bracketOpen) = rest.head?.any (·.kind = .bracketOpen) :=
      h.toResembles.head?_any (fun k => k = .bracketOpen) rest
    simp only [Option.map_some, hloop, h.toResembles.breakLine, h.toResembles.startsLoop]
    split
    · rfl
    · have hc := seen_readOptionalCondition hrest
      rcases hr : readOptionalCondition source rest with _ | ⟨condition, after⟩
      · rw [hr, Option.map_none, Option.map_eq_none_iff] at hc
        rw [hc]
        rfl
      · rw [hr, Option.map_some, Option.map_eq_some_iff] at hc
        obtain ⟨⟨condition', after'⟩, hr', heq⟩ := hc
        obtain ⟨hcondition, rfl⟩ := Prod.mk.inj heq
        have hb := seen_readBody (hrest.mono (suffix_readOptionalCondition hr).isInfix)
        rw [hr']
        simp only [Option.map_map]
        rcases hs : readBody source after with _ | ⟨body, last⟩
        · rw [hs, Option.map_none, Option.map_eq_none_iff] at hb
          rw [hb]
          rfl
        · rw [hs, Option.map_some, Option.map_eq_some_iff] at hb
          obtain ⟨⟨body', last'⟩, hs', heq⟩ := hb
          obtain ⟨hbody, rfl⟩ := Prod.mk.inj heq
          rw [hs']
          simp only [Option.map_some, Function.comp_apply, Declaration.seen, hbody, hcondition]

/-- What statements declare is seen alike. -/
theorem seen_readStatementBody (h : SeenAlike aspect aspect' source source' g toks) :
    (readStatementBody source' (toks.map g)).1.seen aspect' = (readStatementBody source toks).1.seen aspect ∧
      (readStatementBody source' (toks.map g)).2 = (readStatementBody source toks).2.map g := by
  have hd := seen_readDeclaration h
  have hundeclared (kind : StatementKind) :
      (opaqueDeclaration kind toks).seen aspect' = (opaqueDeclaration kind toks).seen aspect := rfl
  unfold readStatementBody
  simp only [h.toResembles.kindAt, h.toResembles.opaqueDeclaration, h.toResembles.breakLine]
  split
  · rcases hr : readDeclaration source toks with _ | ⟨d, rest⟩
    · rw [hr, Option.map_none, Option.map_eq_none_iff] at hd
      rw [hd]
      exact ⟨hundeclared _, rfl⟩
    · rw [hr, Option.map_some, Option.map_eq_some_iff] at hd
      obtain ⟨⟨d', rest'⟩, hr', heq⟩ := hd
      obtain ⟨hd, rfl⟩ := Prod.mk.inj heq
      rw [hr']
      exact ⟨hd, rfl⟩
  · exact ⟨hundeclared _, rfl⟩

/-- Statements end with tokens that are exchanged for each other. -/
theorem snd_readStatement_map {first : Token} {others : List Token}
    (h : SeenAlike aspect aspect' source source' g (first :: others)) :
    (readStatement source' (g first) (others.map g)).2 = (readStatement source first others).2.map g := by
  have ha := (seen_readDecorators h).2
  have hb := (seen_readStatementBody (h.mono (suffix_readDecorators source (first :: others)).isInfix)).2
  rw [← ha] at hb
  exact hb

/-- A statement under an aspect, from its parts. -/
theorem seen_readStatement_eq (aspect : Aspect) (source : String) (first : Token) (others : List Token) :
    (readStatement source first others).1.seen aspect =
      let declared := (readStatementBody source (readDecorators source (first :: others)).2).1.seen aspect
      let taken := others.take (others.length - (readStatement source first others).2.length)
      ⟨kindAt (readDecorators source (first :: others)).2, declared.symbol, declared.target,
        aspect.span ⟨first.span.start, (taken.getLast?.getD first).span.stop⟩,
        (readDecorators source (first :: others)).1.map aspect.fragment, aspect.line first.line, declared.body,
        declared.condition, declared.existing, declared.looped⟩ := rfl

/-- A statement is seen alike, if the spans that it can take are. -/
theorem seen_readStatement {first : Token} {others : List Token}
    (h : SeenAlike aspect aspect' source source' g (first :: others))
    (hspan : ∀ taken, first :: taken <:+: first :: others →
      aspect'.span ⟨(g first).span.start, ((taken.map g).getLast?.getD (g first)).span.stop⟩ =
        aspect.span ⟨first.span.start, (taken.getLast?.getD first).span.stop⟩) :
    (readStatement source' (g first) (others.map g)).1.seen aspect' =
      (readStatement source first others).1.seen aspect := by
  obtain ⟨hdecorators, hafter⟩ := seen_readDecorators h
  have hbody := (seen_readStatementBody (h.mono (suffix_readDecorators source (first :: others)).isInfix)).1
  have htaken :
      first :: others.take (others.length - (readStatement source first others).2.length) <:+: first :: others :=
    ((List.prefix_cons_inj first).2 (List.take_prefix _ _)).isInfix
  rw [List.map_cons] at hdecorators hafter
  rw [seen_readStatement_eq, seen_readStatement_eq, hdecorators, hafter, hbody, h.toResembles.kindAt,
    snd_readStatement_map h, List.length_map, List.length_map, ← List.map_take]
  simp only [hspan _ htaken, h.line first List.mem_cons_self]

/-- The statements of a template are seen alike. -/
theorem seen_readStatements (h : SeenAlike aspect aspect' source source' g toks) :
    (readStatements source' (toks.map g)).map (Statement.seen aspect') =
      (readStatements source toks).map (Statement.seen aspect) := by
  have hmap {blank : List Token} (hb : ∀ t ∈ blank, t.kind = .newline) : ∀ t ∈ blank.map g, t.kind = .newline := by
    simpa [h.kind] using hb
  induction toks using induction_on_statements source with
  | newlines blank hblank => rw [readStatements_newlines hblank, readStatements_newlines (hmap hblank)]; rfl
  | statement blank first others hblank hfirst ih =>
    have hstatement := h.mono (List.suffix_append blank _).isInfix
    have hrest := hstatement.mono (suffix_readStatement source first others).isInfix
    rw [List.map_append, List.map_cons, readStatements_cons hblank hfirst,
      readStatements_cons (hmap hblank) (by rwa [h.kind]), List.map_cons, List.map_cons,
      seen_readStatement hstatement fun taken ht => hstatement.span first taken hfirst ht,
      snd_readStatement_map hstatement, ih hrest]

end BicepMigration.Template
