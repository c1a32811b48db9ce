import BicepMigration.Proofs.Template.RenamedDeclarations
import BicepMigration.Proofs.Template.RewrittenStatements

/-!
# Headings of statements

The heading of a statement is what it says before its body and its condition. Renaming keeps it, where the words that a
statement is read by are neither exchanged nor put in. A keyword alone on its line takes a literal on the next line for
its target, so the heading of such a statement also depends on what comes next. Main statement: a statement of a
template that is not written anew keeps its heading.
-/

namespace BicepMigration.Template

open Text

/-- What a statement says before its body and its condition. -/
structure Heading where
  kind : StatementKind
  symbol : Option String
  target : Option String
  existing : Bool
  looped : Bool
  deriving DecidableEq, Repr

/-- The heading of a statement. -/
def Statement.heading (s : Statement) : Heading := ⟨s.kind, s.symbol, s.target, s.existing, s.looped⟩

/-- The heading of a statement of a kind that declares something. -/
def Declaration.heading (kind : StatementKind) (d : Declaration) : Heading :=
  ⟨kind, d.symbol, d.target, d.existing, d.looped⟩

/-- The heading that is read from a keyword on. -/
def headingAt (source : String) (toks : List Token) : Heading :=
  (readStatementBody source toks).1.heading (kindAt toks)

/-- The heading of a statement is read behind its decorators. -/
theorem heading_readStatement (source : String) (first : Token) (others : List Token) :
    (readStatement source first others).1.heading = headingAt source (readDecorators source (first :: others)).2 := rfl

variable {source source' : String} {r : Token → Token → Prop} {fixed : Bool} {a b : List Token}

section Reading

variable {line rest : List Token} {t : Token}

/-- The name after a keyword. -/
def nameAt : List Token → Option String
  | _ :: name :: _ => if name.kind = .identifier then some name.text else none
  | _ => none

/-- The same literal is read from tokens, and the same loop after it. -/
def SameTarget (a b : List Token) : Prop :=
  (literalAt b).map (·.1) = (literalAt a).map (·.1) ∧ ((literalAt a).isSome → assignsLoop b = assignsLoop a)

/-- A declaration has the name behind its keyword. -/
theorem symbol_opaqueDeclaration (kind : StatementKind) (toks : List Token) :
    (opaqueDeclaration kind toks).symbol = if kind = .other then none else nameAt toks := by
  match toks with
  | [] => cases kind <;> rfl
  | [t] => cases kind <;> rfl
  | t :: u :: toks => cases kind <;> rfl

/-- What is read after a keyword depends on the name and on what comes after that. -/
theorem heading_opaqueDeclaration (kind : StatementKind) (hname : nameAt b = nameAt a)
    (hs : SameTarget (a.drop 2) (b.drop 2)) :
    (opaqueDeclaration kind b).heading kind = (opaqueDeclaration kind a).heading kind := by
  obtain ⟨htarget, hloop⟩ := hs
  have htargets : (opaqueDeclaration kind b).target = (opaqueDeclaration kind a).target := by
    simp only [opaqueDeclaration, htarget]
  have hlooped : (opaqueDeclaration kind b).looped = (opaqueDeclaration kind a).looped := by
    change ((opaqueDeclaration kind b).target.isSome && assignsLoop (b.drop 2)) =
      ((opaqueDeclaration kind a).target.isSome && assignsLoop (a.drop 2))
    rw [htargets]
    cases hl : literalAt (a.drop 2) with
    | none => simp [opaqueDeclaration, hl]
    | some found => rw [hloop (by rw [hl]; rfl)]
  rw [Declaration.heading, Declaration.heading, symbol_opaqueDeclaration, symbol_opaqueDeclaration, hname, htargets,
    hlooped]
  rfl

/-- A head that is read has the name behind its keyword. -/
theorem nameAt_of_readHead {t u : Token} {ts : List Token} {head : DeclarationHead}
    (h : readHead (t :: u :: ts) = some (head, rest)) : nameAt (t :: u :: ts) = some head.symbol := by
  simp only [readHead] at h
  repeat' split at h
  all_goals simp only [Option.some.injEq, Prod.mk.injEq, reduceCtorEq] at h
  rw [← h.1, nameAt, if_pos (by assumption)]

/-- A declaration that is read in full declares the name after its keyword. -/
theorem symbol_of_readDeclaration {toks : List Token} {d : Declaration}
    (h : readDeclaration source toks = some (d, rest)) : d.symbol = nameAt toks := by
  match toks with
  | [] => cases h
  | [t] => cases h
  | t :: u :: ts =>
    obtain ⟨head, after, hhead, ⟨-, -, rfl⟩ | ⟨-, _, _, _, -, -, rfl⟩⟩ := readDeclaration_cases h
    all_goals exact (nameAt_of_readHead hhead).symm

/-- A statement that declares something has the name after its keyword for a symbol. -/
theorem symbol_readStatementBody (source : String) (toks : List Token) :
    (readStatementBody source toks).1.symbol = if kindAt toks = .other then none else nameAt toks := by
  unfold readStatementBody
  simp only
  split
  · next hk =>
    have hother : kindAt toks ≠ .other := by
      intro hother
      simp [hother] at hk
    cases hd : readDeclaration source toks with
    | none => exact symbol_opaqueDeclaration ..
    | some d => exact (symbol_of_readDeclaration hd).trans (if_neg hother).symm
  · exact symbol_opaqueDeclaration ..

/-- A head that is read has the string behind its name. -/
theorem target_of_readHead {toks : List Token} {head : DeclarationHead} (h : readHead toks = some (head, rest)) :
    (literalAt (toks.drop 2)).map (·.1) = some head.target := by
  obtain ⟨taken, rfl, ⟨keyword, name, literal, existing, equals, rfl, -, -, hliteral, -⟩⟩ := readHead_cases h
  have hdrop : (keyword :: name :: (literal ++ (existing ++ [equals])) ++ rest).drop 2 =
      literal ++ (existing ++ [equals] ++ rest) := by simp
  rw [hdrop, hliteral.literalAt]
  rfl

/-- A declaration that is read in full has the literal after its name for a target. -/
theorem target_of_readDeclaration {toks : List Token} {d : Declaration}
    (h : readDeclaration source toks = some (d, rest)) :
    d.target = (literalAt (toks.drop 2)).map (·.1) := by
  obtain ⟨head, after, hhead, ⟨-, -, rfl⟩ | ⟨-, _, _, _, -, -, rfl⟩⟩ := readDeclaration_cases h
  all_goals exact (target_of_readHead hhead).symm

/-- A resource has the literal after its name for a target. -/
theorem target_readStatementBody (source : String) {toks : List Token} (hk : kindAt toks = .resource) :
    (readStatementBody source toks).1.target = (literalAt (toks.drop 2)).map (·.1) := by
  unfold readStatementBody
  simp only [hk, decide_true, Bool.true_or, if_true]
  cases hd : readDeclaration source toks with
  | none => simp [opaqueDeclaration]
  | some d => exact target_of_readDeclaration hd

/-- A statement without a declaring keyword has no heading. -/
theorem headingAt_of_other (h : kindAt a = .other) : headingAt source a = ⟨.other, none, none, false, false⟩ := by
  simp [headingAt, readStatementBody, h, opaqueDeclaration, Declaration.heading]

/-- A keyword alone on its line declares nothing. -/
theorem readDeclaration_keyword (he : atLineEnd rest = true) : readDeclaration source (t :: rest) = none := by
  cases rest with
  | nil => rfl
  | cons n rest => simp [readDeclaration, readHead, head_of_atLineEnd he]

/-- Where the line ends behind the keyword there is no name. -/
theorem nameAt_keyword (he : atLineEnd rest = true) : nameAt (t :: rest) = none := by
  cases rest with
  | nil => rfl
  | cons n rest => simp [nameAt, head_of_atLineEnd he]

end Reading

namespace Renamed

section Words

variable (hr : SparesWords r) (hr' : SparesWords fun t u => r u t)
include hr hr'

/-- Words that are read stay. -/
theorem startsWithWord_eq (h : Renamed r fixed a b) {word : String} (hword : word ∈ readWords) :
    Template.startsWithWord word b = Template.startsWithWord word a := by
  rw [Bool.eq_iff_iff]
  exact ⟨fun hs => (h.symm.startsWithWord hr' hword hs).1, fun hs => (h.startsWithWord hr hword hs).1⟩

/-- The kind of a statement stays. -/
theorem kindAt_eq (h : Renamed r fixed a b) : Template.kindAt b = Template.kindAt a := by
  by_cases ha : Template.kindAt a = .other
  · by_cases hb : Template.kindAt b = .other
    · rw [ha, hb]
    · exact (h.symm.kindAt hr' hb).symm
  · exact h.kindAt hr ha

/-- A loop stays one. -/
theorem startsLoop (h : Renamed r fixed a b) : Template.startsLoop b = Template.startsLoop a := by
  have hloop (ts : List Token) :
      Template.startsLoop ts = (ts.head?.any (·.kind = .bracketOpen) && Template.startsWithWord "for" ts.tail) := by
    match ts with
    | [] => rfl
    | [t] => simp [Template.startsLoop, Template.startsWithWord]
    | t :: u :: ts => simp [Template.startsLoop, Template.startsWithWord]
  rw [hloop, hloop, h.any_head? fun k => k = .bracketOpen]
  cases a with
  | nil => rfl
  | cons t a =>
    by_cases ht : t.kind = .bracketOpen
    · obtain ⟨u, us, rfl, -, -, h⟩ := h.kept_of_ne (by simp [ht])
      rw [List.tail_cons, List.tail_cons, h.startsWithWord_eq hr hr' (by decide)]
    · simp [ht]

/-- An assigned loop stays one. -/
theorem assignsLoop (h : Renamed r fixed a b) : Template.assignsLoop b = Template.assignsLoop a := by
  induction h with
  | nil => rfl
  | keep hk _ h ih => rw [Template.assignsLoop, Template.assignsLoop, hk, h.startsLoop hr hr', ih]
  | swap ht hu _ hm hn _ _ ih =>
    have hname {t : Token} (ht : t.kind = .identifier) {m : List Token} (hm : AreMembers m) (ts : List Token) :
        Template.assignsLoop (t :: (m ++ ts)) = Template.assignsLoop ts := by
      have hmembers : Template.assignsLoop (m ++ ts) = Template.assignsLoop ts := by
        induction hm with
        | nil => rfl
        | cons hp hn _ ih => simpa [Template.assignsLoop, hp, hn] using ih
      simpa [Template.assignsLoop, ht] using hmembers
    rw [hname ht hm, hname hu hn, ih]

end Words

/-- The name of a declaration stays. -/
theorem nameAt_eq (h : Renamed r fixed a b) (hr : SparesWords r) (hk : Template.kindAt a ≠ .other) :
    nameAt b = nameAt a := by
  cases a with
  | nil => exact absurd rfl hk
  | cons t a =>
    obtain ⟨t', b, rfl, -, -, h⟩ := h.kept_of_kindAt hr hk
    cases a with
    | nil => rw [h.nil_left]; rfl
    | cons u a =>
      obtain ⟨u', b, rfl, huk, hut, -⟩ := h.kept_of_fixed
      simp only [nameAt, huk, hut]

/-- A string stays. -/
theorem literalAt_eq (h : Renamed r fixed a b) :
    (Template.literalAt b).map (·.1) = (Template.literalAt a).map (·.1) := by
  cases ha : Template.literalAt a with
  | some found =>
    obtain ⟨rest, hb, -⟩ := h.literalAt ha
    rw [hb]
    rfl
  | none =>
    cases hb : Template.literalAt b with
    | none => rfl
    | some found =>
      obtain ⟨rest, ha', -⟩ := h.symm.literalAt hb
      rw [ha] at ha'
      cases ha'

/-- A declaration is one with the same heading in renamed tokens. -/
theorem exists_heading (source source' : String) (h : Renamed r fixed a b) (hr : SparesWords r) (hr' : SparesWords fun t u => r u t)
    (hk : Template.kindAt a ≠ .other) {d : Declaration} {rest : List Token}
    (hd : Template.readDeclaration source a = some (d, rest)) (kind : StatementKind) :
    ∃ d' rest', Template.readDeclaration source' b = some (d', rest') ∧ d'.heading kind = d.heading kind := by
  by_cases hb : d.body.isSome
  · obtain ⟨d', rest', hd', hform⟩ := (@Renamed.readDeclaration r fixed a b source source') h hr hk hd hb
    refine ⟨d', rest', hd', ?_⟩
    simp only [Declaration.form, Form.mk.injEq] at hform
    rw [Declaration.heading, hform.1, hform.2.1, hform.2.2.2.2.1, hform.2.2.2.2.2, Declaration.heading]
  · obtain ⟨head, after, hhead, ⟨hbracket, -, rfl⟩ | ⟨-, _, _, _, -, -, rfl⟩⟩ := readDeclaration_cases hd
    · obtain ⟨after', hhead', h⟩ := h.readHead hr hk hhead
      have hbracket' : after'.head?.any (·.kind = .bracketOpen) = true := by
        rwa [h.any_head? fun k => k = .bracketOpen]
      refine ⟨_, _, by rw [Template.readDeclaration, hhead']; exact if_pos hbracket', ?_⟩
      rw [h.startsLoop hr hr']
    · exact absurd rfl hb

/-- A declaration keeps its heading. -/
theorem heading_readDeclaration (h : Renamed r fixed a b) (hr : SparesWords r) (hr' : SparesWords fun t u => r u t)
    (hk : Template.kindAt a ≠ .other) (kind : StatementKind) :
    (Template.readDeclaration source' b).map (·.1.heading kind) =
      (Template.readDeclaration source a).map (·.1.heading kind) := by
  cases ha : Template.readDeclaration source a with
  | some found =>
    obtain ⟨d', rest', hb, hheading⟩ := exists_heading source source' h hr hr' hk ha kind
    rw [hb, Option.map_some, Option.map_some, hheading]
  | none =>
    cases hb : Template.readDeclaration source' b with
    | none => rfl
    | some found =>
      have hk' : Template.kindAt b ≠ .other := by rwa [h.kindAt_eq hr hr']
      obtain ⟨d', rest', ha', -⟩ := exists_heading source' source h.symm hr' hr hk' hb kind
      rw [ha] at ha'
      cases ha'

end Renamed

/-- A heading is read from the declaration, or from the line if there is none. -/
theorem headingAt_congr (hk : kindAt b = kindAt a)
    (hd : (readDeclaration source' b).map (·.1.heading (kindAt a)) =
      (readDeclaration source a).map (·.1.heading (kindAt a)))
    (hname : nameAt b = nameAt a) (hs : SameTarget (a.drop 2) (b.drop 2)) :
    headingAt source' b = headingAt source a := by
  have hopaque := heading_opaqueDeclaration (kindAt a) hname hs
  have hbody (source : String) (toks : List Token) : headingAt source toks =
      if kindAt toks = .resource ∨ kindAt toks = .module then
        ((readDeclaration source toks).map (·.1.heading (kindAt toks))).getD
          ((opaqueDeclaration (kindAt toks) toks).heading (kindAt toks))
      else (opaqueDeclaration (kindAt toks) toks).heading (kindAt toks) := by
    rw [headingAt, readStatementBody]
    simp only [Bool.or_eq_true, decide_eq_true_eq]
    split
    · cases readDeclaration source toks <;> rfl
    · rfl
  rw [hbody, hbody, hk, hd, hopaque]

section Lines

variable {line line' rest rest' : List Token}

/-- Whatever follows, the target stays. -/
theorem sameTarget_append (h : Renamed r fixed a b) (hr : SparesWords r) (hr' : SparesWords fun t u => r u t)
    (he : atLineEnd rest = true) (he' : atLineEnd rest' = true) : SameTarget (a ++ rest) (b ++ rest') := by
  have htarget {rest : List Token} (he : atLineEnd rest = true) (toks : List Token) :
      (literalAt (toks ++ rest)).map (·.1) = (literalAt toks).map (·.1) := by
    rw [literalAt_append he, Option.map_map]
    rfl
  refine ⟨by rw [htarget he, htarget he', h.literalAt_eq], fun _ => ?_⟩
  rw [assignsLoop_append he, assignsLoop_append he', h.assignsLoop hr hr']

/-- Renamed lines have the same heading, if the same target is read from what comes after them. -/
theorem headingAt_renamed (h : Renamed r false line line') (hr : SparesWords r) (hr' : SparesWords fun t u => r u t)
    (hb : Balanced (kinds line)) (hb' : Balanced (kinds line')) (he : atLineEnd rest = true)
    (he' : atLineEnd rest' = true) (hs : SameTarget rest.tail rest'.tail) :
    headingAt source' (line' ++ rest') = headingAt source (line ++ rest) := by
  have hkind : kindAt (line' ++ rest') = kindAt (line ++ rest) := by
    rw [kindAt_append he, kindAt_append he', h.kindAt_eq hr hr']
  by_cases hother : kindAt (line ++ rest) = .other
  · rw [headingAt_of_other hother, headingAt_of_other (hkind.trans hother)]
  · rw [kindAt_append he] at hother
    cases line with
    | nil => exact absurd rfl hother
    | cons t line =>
      obtain ⟨t', line', rfl, htk, -, h'⟩ := h.kept_of_kindAt hr hother
      cases line with
      | nil =>
        -- what comes next is read from here on
        rw [h'.nil_left] at hkind ⊢
        refine headingAt_congr hkind ?_ ?_ ?_
        · simp only [List.cons_append, List.nil_append, readDeclaration_keyword he, readDeclaration_keyword he']
        · simp only [List.cons_append, List.nil_append, nameAt_keyword he, nameAt_keyword he']
        · simpa only [List.cons_append, List.nil_append, List.drop_succ_cons, List.drop_one] using hs
      | cons u line =>
        obtain ⟨u', line', rfl, huk, hut, h''⟩ := h'.kept_of_fixed
        have hfirst : ∀ v, (t :: u :: line).head? = some v → v.kind = .identifier := by
          rintro v ⟨⟩
          obtain ⟨word, -, -, hword⟩ := exists_word_of_kindAt hother
          exact kind_of_isWord hword
        have hfirst' : ∀ v, (t' :: u' :: line').head? = some v → v.kind = .identifier := by
          rintro v ⟨⟩
          exact htk.trans (hfirst t rfl)
        refine headingAt_congr hkind ?_ ?_ ?_
        · rw [readDeclaration_append hb (List.cons_ne_nil _ _) hfirst he,
            readDeclaration_append hb' (List.cons_ne_nil _ _) hfirst' he', Option.map_map, Option.map_map]
          exact h.heading_readDeclaration hr hr' hother _
        · simp only [List.cons_append, nameAt, huk, hut]
        · exact sameTarget_append h'' hr hr' he he'

end Lines

section Rewrites

/-- A string starts with its quote. -/
theorem literalAt_of_kind_ne {t : Token} {ts : List Token} (h : t.kind ≠ .stringStart) : literalAt (t :: ts) = none := by
  cases ts <;> simp [literalAt, h]

/-- Two statements without targets have the same. -/
theorem sameTarget_of_none (ha : literalAt a = none) (hb : literalAt b = none) : SameTarget a b :=
  ⟨by rw [ha, hb], fun h => by rw [ha] at h; cases h⟩

/-- A statement with a body starts with a decorator or its keyword. -/
theorem IsPiece.starts {here : Cursor} {first : Lexeme} {body rest : List Lexeme} {s : Statement}
    (h : IsPiece source here first body rest s) (hb : s.body.isSome) :
    first.kind = .identifier ∨ first.kind = .atSign := by
  by_cases hk : first.kind = .atSign
  · exact .inr hk
  · obtain ⟨entries, hentries⟩ := Option.isSome_iff_exists.1 hb
    have hread := congrArg (·.1.body) h.reads
    simp only [hentries] at hread
    change (readStatementBody source (readDecorators source (first.token here :: _)).2).1.body = some entries at hread
    obtain ⟨hkind, -⟩ := readDeclaration_of_body hread
    rw [afterDecorators_of_ne hk] at hkind
    obtain ⟨word, -, -, hword⟩ := exists_word_of_kindAt (by rcases hkind with hk | hk <;> rw [hk] <;> decide)
    exact .inl (kind_of_isWord hword)

variable {symbols : List String} {replace : Replacements} {pick : Picks} {index : Nat} {before : List Token}
  {here here' : Cursor} {ls : List Lexeme} {ss : List Statement} {cs : List Change}
  (hr : SparesWords r) (hr' : SparesWords fun t u => r u t)
include hr hr'

/-- After the end of a line the same target is read from rewritten lexemes. -/
theorem Rewrites.sameTarget (h : Rewrites source symbols replace pick index before here ls ss cs)
    (hblock : ∀ i new more, pick i = some (new, more) → IsBlock new more ∧ IsAlone (new :: more))
    (hc : ∀ c ∈ useChanges symbols replace before here ls, c.Renames ∧ c.Relates r) (he : AtLineEnd ls)
    (here' : Cursor) : SameTarget (tokensAt here ls).tail (tokensAt here' (news cs)).tail := by
  have hnone {here : Cursor} {l : Lexeme} {ls : List Lexeme} (hl : l.kind ≠ .stringStart) :
      literalAt (tokensAt here (l :: ls)) = none := by
    rw [tokensAt_cons]
    exact literalAt_of_kind_ne hl
  cases h with
  | done hls =>
    rw [news_kept]
    match ls with
    | [] => exact sameTarget_of_none rfl rfl
    | [l] => exact sameTarget_of_none rfl rfl
    | l :: m :: ls => exact sameTarget_of_none (hnone (by simp [hls m])) (hnone (by simp [hls m]))
  | @piece _ _ _ blank first body rest s others run more hblank hpiece hbody hrun huse hrest =>
    obtain ⟨hcrun, -⟩ := mem_useChanges hblank huse hc
    rw [news_append, news_append, news_kept]
    match blank with
    | [] => exact absurd (he first rfl) hpiece.first_ne
    | l :: m :: blank =>
      have hm : m.kind = .newline := hblank m (by simp)
      exact sameTarget_of_none (hnone (by simp [hm])) (hnone (by simp [hm]))
    | [l] =>
      simp only [List.cons_append, List.nil_append, tokensAt_cons, List.tail_cons]
      cases hp : pick index with
      | some block =>
        obtain ⟨new, more'⟩ := block
        have hstarts := hpiece.starts (hbody (by rw [hp]; rfl))
        have hstarts' := (hblock index new more' hp).1.starts
        have hne {l : Lexeme} (h : l.kind = .identifier ∨ l.kind = .atSign) : l.kind ≠ .stringStart := by
          rcases h with h | h <;> simp [h]
        exact sameTarget_of_none (hnone (hne hstarts)) (hnone (hne hstarts'))
      | none =>
        have hrenamed := renamed_news (fun c hmem => (hcrun c hmem).1) (fun c hmem => (hcrun c hmem).2)
          (sparesDeclared_run huse) (here.advance (l.gap ++ l.text)) (here'.advance (l.gap ++ l.text))
        rw [hrun, tokensAt_cons] at hrenamed
        rw [statementChanges, tokensAt_append, tokensAt_append, ← List.cons_append]
        exact sameTarget_append hrenamed hr hr' (atLineEnd_tokensAt.2 hpiece.ends)
          (atLineEnd_tokensAt.2 (hrest.atLineEnd_news hpiece.ends))

omit hr hr' in
/-- The heading of a statement is read after its decorators, with what comes after the statement. -/
theorem IsSingle.heading_eq {first : Token} {others rest : List Token} (h : IsSingle source first others (rest = []))
    (he : atLineEnd rest = true) : (readStatement source first (others ++ rest)).1.heading =
      headingAt source ((readDecorators source (first :: others)).2 ++ rest) := by
  rw [heading_readStatement, readDecorators_statement h.balanced he h.declared]

/-- The headings of a rewritten template, one by one: a statement that is not written anew keeps its heading. -/
theorem Rewrites.headings (h : Rewrites source symbols replace pick index before here ls ss cs)
    (hblock : ∀ i new more, pick i = some (new, more) → IsBlock new more ∧ IsAlone (new :: more))
    (hc : ∀ c ∈ useChanges symbols replace before here ls, c.Renames ∧ c.Relates r) (here' : Cursor) :
    List.Forall₂ (fun s s' => pick s.2 = none → s'.heading = s.1.heading) (ss.zipIdx index)
      (readStatements source' (tokensAt here' (news cs))) := by
  induction h generalizing here' with
  | done hls =>
    rw [news_kept, readStatements_newlines (forall_kind_tokensAt.2 hls)]
    exact .nil
  | @piece index before here blank first body rest s others run more hblank hpiece _ hrun huse hrest ih =>
    obtain ⟨hcrun, hcrest⟩ := mem_useChanges hblank huse hc
    obtain ⟨t, ts, toks, ht, htoks, hsingle, hend, hread⟩ := hrest.exists_first hpiece hrun hblank (hblock index)
      (fun c hmem => (hcrun c hmem).1) (sparesDeclared_run huse) source' here'
    rw [hread, List.zipIdx_cons, htoks]
    refine .cons (fun hp => ?_) (ih hcrest _)
    have hrenamed := renamed_news (fun c hmem => (hcrun c hmem).1) (fun c hmem => (hcrun c hmem).2)
      (sparesDeclared_run huse) (here.advance (written blank)) (here'.advance (written blank))
    rw [hp, statementChanges] at ht
    rw [hrun, tokensAt_cons, ht] at hrenamed
    -- what follows the statement starts where the statement ends
    have hplace : ((here.advance (written blank)).advance (first.gap ++ first.text)).advance (written body) =
        (here.advance (written blank)).advance (written (first :: body)) := by simp [Cursor.advance_append]
    have hold := congrArg Prod.fst hpiece.reads
    rw [tokensAt_append, hplace] at hold
    have hsame := hrest.sameTarget hr hr' hblock hcrest hpiece.ends ((here'.advance (written blank)).advance
      (written (news (statementChanges (pick index) first body run))))
    rw [← htoks] at hsame ⊢
    have hends := (@atLineEnd_tokensAt ((here.advance (written blank)).advance (written (first :: body))) rest).2 hpiece.ends
    have hsingle₀ := hpiece.single.imp fun hl => show tokensAt ((here.advance (written blank)).advance
      (written (first :: body))) rest = [] by rw [hl]; rfl
    have hheading := hsingle₀.heading_eq hends
    rw [show (readStatement source _ _).1 = s from hold] at hheading
    rw [hsingle.heading_eq hend, hheading]
    exact headingAt_renamed hrenamed.afterDecorators hr hr' (balanced_readDecorators hsingle₀.balanced)
      (balanced_readDecorators hsingle.balanced) hends hend hsame

end Rewrites

end BicepMigration.Template
