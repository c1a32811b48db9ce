import BicepMigration.Proofs.Template.MovedTokens
import BicepMigration.Proofs.Template.SharedText
import BicepMigration.Proofs.Template.SoundSpans

/-!
# One template after another

A template can go on with another one on the next line. The statements of both stay as they are, those of the second
one in another place, unless the first one ends with decorators: these then belong to what comes after them. A keyword
alone on the last line may get a target from what comes after, but still declares nothing. Main statement: the text of
both can be scanned, and it has the tokens and the statements of both.
-/

namespace BicepMigration.Template

open Text

section Keywords

variable {source : String} {toks : List Token}

/-- Each statement goes on after its decorators. -/
def Keyworded (source : String) (toks : List Token) : Prop := ∀ tail ∈ keywordTails source toks, tail ≠ []

/-- Newlines hold no statement. -/
theorem keywordTails_newlines {blank : List Token} (hb : ∀ t ∈ blank, t.kind = .newline) :
    keywordTails source blank = [] := by
  have hskip := skipNewlines_append_of_newlines hb []
  rw [List.append_nil] at hskip
  rw [keywordTails]
  split
  · rfl
  · next h => cases hskip.symm.trans h

/-- Only the last statement can end with its decorators. -/
theorem keyworded_of_getLast (h : (keywordTails source toks).getLast? ≠ some []) : Keyworded source toks := by
  induction toks using induction_on_statements source with
  | newlines blank hblank =>
    rw [Keyworded, keywordTails_newlines hblank]
    simp
  | statement blank first others hblank hfirst ih =>
    have hcons := (@keywordTails_cons source _ others _) hblank hfirst
    have hlast : (readDecorators source (first :: others)).2 = [] →
        keywordTails source (readStatement source first others).2 = [] := by
      intro hd
      have hrest : (readStatement source first others).2 = [] := by
        change (readStatementBody source (readDecorators source (first :: others)).2).2 = []
        rw [readStatementBody_snd, hd]
        rfl
      rw [hrest]
      exact keywordTails_newlines (by simp)
    rw [hcons, List.getLast?_cons] at h
    rw [Keyworded, hcons]
    intro tail ht
    rcases List.mem_cons.1 ht with rfl | ht
    · intro hd
      rw [hlast hd, hd] at h
      exact h rfl
    · refine ih ?_ tail ht
      intro heq
      rw [heq] at h
      exact h rfl

/-- Statements are found by their tokens, whatever the source. -/
theorem keywordTails_congr {source' : String} (h : SharesText source source' toks) :
    keywordTails source' toks = keywordTails source toks := by
  induction toks using induction_on_statements source with
  | newlines blank hblank => rw [keywordTails_newlines hblank, keywordTails_newlines hblank]
  | statement blank first others hblank hfirst ih =>
    have hstatement := h.mono (List.suffix_append blank _).isInfix
    rw [keywordTails_cons hblank hfirst, keywordTails_cons hblank hfirst, readDecorators_congr hstatement,
      readStatement_congr hstatement, ih (hstatement.mono (suffix_readStatement source first others).isInfix)]

/-- What is read after the decorators of a statement that goes on in a line of its own. -/
theorem IsSingle.readDecorators_ne_nil {first : Token} {others rest : List Token}
    (h : IsSingle source first others False) (he : atLineEnd rest = true) :
    (readDecorators source (first :: (others ++ rest))).2 ≠ [] := by
  rw [readDecorators_statement h.balanced he fun hd => absurd hd h.declared]
  exact List.append_ne_nil_of_left_ne_nil h.declared _

/-- A rewritten template ends with decorators only if it did before. -/
theorem Rewrites.keyworded {source' : String} {symbols : List String} {replace : Replacements} {pick : Picks}
    {index : Nat} {before : List Token} {here here' : Cursor} {ls : List Lexeme} {ss : List Statement} {cs : List Change}
    (h : Rewrites source symbols replace pick index before here ls ss cs)
    (hblock : ∀ i new more, pick i = some (new, more) → IsBlock new more ∧ IsAlone (new :: more))
    (hr : ∀ c ∈ useChanges symbols replace before here ls, c.Renames) (hk : Keyworded source (tokensAt here ls)) :
    Keyworded source' (tokensAt here' (news cs)) := by
  induction h generalizing here' with
  | done hls =>
    rw [news_kept, Keyworded, keywordTails_newlines (forall_kind_tokensAt.2 hls)]
    simp
  | @piece index before here blank first body rest s others run more hblank hpiece _ hrun huse hrest ih =>
    obtain ⟨hrunr, hrestr⟩ := mem_useChanges hblank huse hr
    rw [tokensAt_append, tokensAt_cons, Keyworded, keywordTails_cons (forall_kind_tokensAt.2 hblank) hpiece.first_ne,
      hpiece.reads] at hk
    have hsingle : IsSingle source (first.token (here.advance (written blank)))
        (tokensAt ((here.advance (written blank)).advance (first.gap ++ first.text)) body) False := by
      refine ⟨hpiece.single.balanced, hpiece.single.rest, fun hd => ?_⟩
      have hfirst := hk _ List.mem_cons_self
      rw [hpiece.single.declared hd, List.append_nil] at hfirst
      exact hfirst hd
    obtain ⟨t, ts, toks, -, htoks, hsingle', hnewline, hend, -, htokens⟩ :=
      hrest.exists_first_tokens blank hpiece hsingle hrun (hblock index) hrunr (sparesDeclared_run huse) source' here'
    have hnext := (hsingle'.imp False.elim).append hend
    rw [htokens, Keyworded, keywordTails_cons (forall_kind_tokensAt.2 hblank) hnewline, hnext.1, htoks]
    intro tail ht
    rcases List.mem_cons.1 ht with rfl | ht
    · rw [← htoks]
      exact hsingle'.readDecorators_ne_nil hend
    · exact ih hrestr (fun tail ht => hk tail (List.mem_cons_of_mem _ ht)) tail ht

end Keywords

section Append

variable {source : String} {toks rest : List Token}

/-- Newlines before statements do not matter. -/
theorem readStatements_append_of_newlines {blank : List Token} (hb : ∀ t ∈ blank, t.kind = .newline) :
    readStatements source (blank ++ rest) = readStatements source rest := by
  obtain ⟨blank', hrest, hb'⟩ := exists_newlines rest
  have hall : ∀ t ∈ blank ++ blank', t.kind = .newline := fun t ht =>
    (List.mem_append.1 ht).elim (hb t) (hb' t)
  cases hskip : skipNewlines rest with
  | nil =>
    rw [hskip, List.append_nil] at hrest
    rw [hrest, readStatements_newlines hall, readStatements_newlines hb']
  | cons first others =>
    rw [hskip] at hrest
    rw [hrest, ← List.append_assoc, readStatements_cons hall (head_skipNewlines hskip),
      readStatements_cons hb' (head_skipNewlines hskip)]

/-- Statements say by their own tokens what they say before others, and the others stay as they are. The former stay as
they are too, unless the last one ends with a keyword alone and the others start with a literal. -/
theorem own_readStatements_append (hb : Balanced (kinds toks)) (he : atLineEnd rest = true)
    (hk : Keyworded source toks) :
    ∃ own, readStatements source (toks ++ rest) = own ++ readStatements source rest ∧
      own.map Statement.own = (readStatements source toks).map Statement.own ∧
      ((∀ tail ∈ keywordTails source toks, (kindAt tail).isDeclared = true → tail.tail = [] →
        literalAt rest.tail = none) → own = readStatements source toks) := by
  induction toks using induction_on_statements source with
  | newlines blank hblank =>
    rw [readStatements_newlines hblank]
    exact ⟨[], readStatements_append_of_newlines hblank, rfl, fun _ => rfl⟩
  | statement blank first others hblank hfirst ih =>
    rw [Keyworded, keywordTails_cons hblank hfirst] at hk
    have hne : (readDecorators source (first :: others)).2 = [] → rest = [] := fun hd =>
      absurd hd (hk _ List.mem_cons_self)
    rw [kinds_append] at hb
    have hstatement := hb.of_append (balanced_newlines hblank)
    obtain ⟨taken, after, htaken, hafter, -, hrun, -⟩ := exists_run source hfirst hstatement
    have hbalanced : Balanced (kinds (readStatement source first others).2) := by
      rw [htaken, ← List.cons_append, kinds_append] at hstatement
      rw [hafter]
      exact hstatement.of_append hrun
    obtain ⟨own, hread, hown, hsame⟩ := ih hbalanced fun tail ht => hk tail (List.mem_cons_of_mem _ ht)
    refine ⟨(readStatement source first (others ++ rest)).1 :: own, ?_, ?_, fun hnext => ?_⟩
    · rw [List.append_assoc, List.cons_append, readStatements_cons hblank hfirst,
        snd_readStatement_append hstatement he hne, hread]
      rfl
    · rw [readStatements_cons hblank hfirst, List.map_cons, List.map_cons, hown,
        own_readStatement_append hstatement he hne]
    · rw [keywordTails_cons hblank hfirst] at hnext
      rw [readStatements_cons hblank hfirst, hsame fun tail ht => hnext tail (List.mem_cons_of_mem _ ht),
        fst_readStatement_append hstatement he hne (hnext _ List.mem_cons_self)]

end Append

section Relocated

variable {source source' : String} {g : Token → Token} {toks : List Token}

/-- Statements in another place say the same. -/
theorem sense_readStatements_map (h : Carries source source' g toks) :
    (readStatements source' (toks.map g)).map Statement.sense = (readStatements source toks).map Statement.sense := by
  have hseen := congrArg (List.map Statement.own) (seen_readStatements h.seenAlike)
  simpa only [List.map_map, Function.comp_def, ← Statement.sense_eq] using hseen

end Relocated

section Layouts

/-- A gap at the end of a text is one before a newline. -/
theorem IsGap.before_newline {gap next : List Char} (h : IsGap gap next) (hn : next = []) (rest : List Char) :
    IsGap gap ('\n' :: rest) := by
  induction h with
  | nil => exact .nil
  | blank hc hb _ ih => exact .blank hc hb (ih hn)
  | block ht _ ih => exact .block ht (ih hn)
  | line ho hbody _ => exact .line ho hbody fun c hc => (Option.some.inj hc).symm

/-- The layout of one template after another, on the next line. -/
theorem Layout.exists_joined (l more : Layout) (hmark : more.mark = []) :
    ∃ joined : Layout, joined.start = l.start ∧
      joined.lexemes = l.lexemes ++ ⟨l.tail, .newline, ['\n']⟩ :: more.lexemes ∧
      joined.chars = l.chars ++ '\n' :: more.chars := by
  have hnewline : Legible (⟨l.tail, .newline, ['\n']⟩ :: more.lexemes) more.tail :=
    ⟨l.isGap.before_newline rfl _, ⟨rfl, fun h => by cases h⟩, trivial, more.legible⟩
  have hfollows : Follows l.tail (written (⟨l.tail, .newline, ['\n']⟩ :: more.lexemes) ++ more.tail) := by
    have hstop : Follows [] ('\n' :: (written more.lexemes ++ more.tail)) := follows_of_isStop (by decide)
    simpa using hstop.prepend l.tail
  refine ⟨⟨l.mark, l.lexemes ++ ⟨l.tail, .newline, ['\n']⟩ :: more.lexemes, more.tail, l.mark_eq, fun hm => ?_,
    legible_append.2 ⟨l.legible.of_follows hfollows, hnewline⟩, more.isGap, ?_⟩, rfl, rfl, ?_⟩
  · have hhead := l.head_ne hm
    rw [written_append, written_cons]
    cases hw : written l.lexemes ++ l.tail with
    | nil =>
      obtain ⟨hlexemes, htail⟩ := List.append_eq_nil_iff.1 hw
      rw [hlexemes, htail]
      simp [byteOrderMark]
    | cons c cs =>
      rw [hw] at hhead
      simpa [← List.append_assoc, hw] using hhead
  · rw [List.map_append]
    exact l.balanced.append (balanced_newline.append more.balanced)
  · simp [Layout.chars, hmark]

/-- A line after a template starts after all its bytes and lines. -/
theorem Layout.advance_newline {source : String} (l : Layout) (h : source.toList = l.chars) :
    (l.start.advance (written l.lexemes)).advance (l.tail ++ ['\n']) =
      Cursor.origin.moved (source.utf8ByteSize + 1) (source.toList.count '\n' + 1) := by
  have hstart : l.start = Cursor.origin.moved (byteLength l.mark) 0 := by simp [Layout.start, Cursor.origin, Cursor.moved]
  have hcount : source.toList.count '\n' = (written l.lexemes ++ l.tail).count '\n' := by
    rw [h, Layout.chars, List.count_append]
    rcases l.mark_eq with hm | hm <;> simp [hm, byteOrderMark]
  rw [← Cursor.advance_append, ← List.append_assoc, hstart, Cursor.advance_moved, Cursor.advance_append,
    Cursor.advance_origin, hcount, ← byteLength_toList, h, Layout.chars]
  simp only [byteLength_append, Cursor.advance_cons, Cursor.advance_nil, Cursor.next, if_true, Cursor.moved, Cursor.origin,
    Cursor.mk.injEq, and_true]
  omega

end Layouts

/-- A template that consists of two, one after the other. -/
structure Joins (template more joined : ScannedTemplate) : Prop where
  source : joined.source = template.source ++ ("\n" ++ more.source)
  /-- The tokens of the second one come after a newline, in other places. -/
  tokens : ∃ line g, line.kind = .newline ∧ Relocates g ∧
    joined.tokens = template.tokens ++ line :: more.tokens.map g
  /-- The statements of the first one stay, and those of the second one come after them. -/
  statements : ∃ own others, joined.statements = own ++ others ∧
    own.map Statement.own = template.statements.map Statement.own ∧
    others.map Statement.sense = more.statements.map Statement.sense

variable {source more : String} {template rest joined : ScannedTemplate}

/-- A statement of the first template stands in the same place. -/
theorem Joins.exists_statement (h : Joins template rest joined) {i : Nat} {s : Statement}
    (hs : template.statements[i]? = some s) : ∃ s', joined.statements[i]? = some s' ∧ s'.own = s.own := by
  obtain ⟨own, others, hstatements, hown, -⟩ := h.statements
  have hi : (own.map Statement.own)[i]? = some s.own := by
    rw [hown, List.getElem?_map, hs]
    rfl
  rw [List.getElem?_map] at hi
  obtain ⟨s', hs', hsame⟩ := Option.map_eq_some_iff.1 hi
  refine ⟨s', ?_, hsame⟩
  rw [hstatements, List.getElem?_append_left (List.getElem?_eq_some_iff.1 hs').1, hs']

/-- The tokens of a template are balanced. -/
theorem balanced_of_scan (h : scan source = .ok template) : Balanced (kinds template.tokens) := by
  obtain ⟨l, -, rfl⟩ := scan_eq_ok_iff.1 h
  rw [Layout.tokens, kinds_tokensAt]
  exact l.balanced

/-- Tokens of a template have their text in a longer one. -/
theorem sharesText_append (h : scan source = .ok template) (more : String) :
    SharesText source (source ++ more) template.tokens := by
  rintro first others ⟨before, after, hall⟩
  have hcuts := cuts_of_append (hall.symm.trans (List.append_assoc ..))
  have hsource : template.source = source := by
    obtain ⟨l, -, rfl⟩ := scan_eq_ok_iff.1 h
    rfl
  have hslice := ((soundScan h).spans _ hcuts).slice_append more
  rw [hsource] at hslice
  exact congrArg (fun raw => (⟨raw, some _⟩ : Fragment)) hslice

/-- The size of a text with a newline after it. -/
theorem size_line (text : String) : (text ++ "\n").utf8ByteSize = text.utf8ByteSize + 1 := by
  rw [String.utf8ByteSize_append]
  rfl

/-- The newline after a template. -/
def newlineAfter (source : String) (column : Nat) : Token :=
  ⟨.newline, "\n", ⟨source.utf8ByteSize, source.utf8ByteSize + 1⟩, source.toList.count '\n' + 1, column⟩

/-- The tokens of a layout that consists of two are those of both, the second ones further on. -/
theorem exists_tokens_joined {l r j : Layout} (hl : source.toList = l.chars) (hrmark : r.mark = [])
    (hstart : j.start = l.start) (hlexemes : j.lexemes = l.lexemes ++ ⟨l.tail, .newline, ['\n']⟩ :: r.lexemes) :
    ∃ column, j.tokens = l.tokens ++ newlineAfter source column ::
      r.tokens.map (Token.moved (source.utf8ByteSize + 1) (source.toList.count '\n' + 1)) := by
  have hmore : r.start = Cursor.origin := by simp [Layout.start, hrmark, Cursor.origin]
  have hend := l.advance_newline hl
  have hline : ((l.start.advance (written l.lexemes)).advance l.tail).next '\n' =
      Cursor.origin.moved (source.utf8ByteSize + 1) (source.toList.count '\n' + 1) := by
    rw [← hend, Cursor.advance_append, Cursor.advance_cons, Cursor.advance_nil]
  refine ⟨((l.start.advance (written l.lexemes)).advance l.tail).column, ?_⟩
  simp only [Cursor.next, if_true, Cursor.moved, Cursor.origin, Cursor.mk.injEq] at hline
  rw [Layout.tokens, hlexemes, tokensAt_append, tokensAt, hstart, hend, tokensAt_moved, ← hmore]
  refine congrArg (l.tokens ++ · :: _) ?_
  have hsize : byteLength ['\n'] = 1 := rfl
  simp only [Token.ofChars, newlineAfter, hsize, Token.mk.injEq, Span.mk.injEq, true_and, and_true]
  omega

/-- One template after another can be scanned. Its tokens are those of both, the second ones further on, with a newline
between them. If the first one does not end with its decorators, its statements are those of both. -/
theorem exists_appended (h : scan source = .ok template) (hm : scan more = .ok rest)
    (hmark : more.toList.head? ≠ some byteOrderMark) :
    ∃ joined column, scan (source ++ ("\n" ++ more)) = .ok joined ∧ joined.source = source ++ ("\n" ++ more) ∧
      joined.tokens = template.tokens ++ newlineAfter source column ::
        rest.tokens.map (Token.moved (source.utf8ByteSize + 1) (source.toList.count '\n' + 1)) ∧
      (Keyworded source template.tokens → ∃ own,
        joined.statements =
          own ++ rest.statements.map (Statement.moved (source.utf8ByteSize + 1) (source.toList.count '\n' + 1)) ∧
        own.map Statement.own = template.statements.map Statement.own ∧
        ((∀ tail ∈ keywordTails source template.tokens, (kindAt tail).isDeclared = true → tail.tail = [] →
          literalAt rest.tokens = none) → own = template.statements)) := by
  have hshares := sharesText_append h ("\n" ++ more)
  have hbalanced := balanced_of_scan h
  obtain ⟨l, hl, rfl⟩ := scan_eq_ok_iff.1 h
  obtain ⟨r, hr, rfl⟩ := scan_eq_ok_iff.1 hm
  have hrmark : r.mark = [] := r.mark_eq.resolve_right fun hbom => hmark (by rw [hr, Layout.chars, hbom]; rfl)
  obtain ⟨j, hstart, hlexemes, hchars⟩ := l.exists_joined r hrmark
  have hj : (source ++ ("\n" ++ more)).toList = j.chars := by
    rw [hchars, String.toList_append, String.toList_append, hl, hr]
    rfl
  obtain ⟨column, htokens⟩ := exists_tokens_joined hl hrmark hstart hlexemes
  refine ⟨_, column, scan_of_layout hj, rfl, htokens, fun hk => ?_⟩
  have hkeys : Keyworded (source ++ ("\n" ++ more)) l.tokens := by
    rw [Keyworded, keywordTails_congr hshares]
    exact hk
  obtain ⟨own, hread, hown, hsame⟩ := (@own_readStatements_append _ _ (newlineAfter source column ::
    r.tokens.map (Token.moved (source.utf8ByteSize + 1) (source.toList.count '\n' + 1)))) hbalanced
    (by simp [atLineEnd, newlineAfter]) hkeys
  refine ⟨own, ?_, ?_, fun hnext => ?_⟩
  · have hmoved := readStatements_moved (source ++ "\n") more (source.toList.count '\n' + 1) r.tokens
    rw [size_line, String.append_assoc] at hmoved
    rw [htokens, hread, ← hmoved]
    exact congrArg (own ++ ·) ((@readStatements_append_of_newlines _ _ [newlineAfter source column])
      (by simp [newlineAfter]))
  · rw [hown, readStatements_congr hshares]
  · rw [hsame, readStatements_congr hshares]
    intro tail ht hk hshort
    rw [keywordTails_congr hshares] at ht
    rw [List.tail_cons, (resembles_moved _ _).literalAt, hnext tail ht hk hshort]
    rfl

/-- One template after another can be scanned, and is both of them. -/
theorem exists_joins (h : scan source = .ok template) (hm : scan more = .ok rest)
    (hmark : more.toList.head? ≠ some byteOrderMark) (hk : Keyworded source template.tokens) :
    ∃ joined, scan (source ++ ("\n" ++ more)) = .ok joined ∧ Joins template rest joined := by
  obtain ⟨joined, column, hjoined, hsource, htokens, hstatements⟩ := exists_appended h hm hmark
  obtain ⟨own, hread, hown, -⟩ := hstatements hk
  obtain ⟨l, -, rfl⟩ := scan_eq_ok_iff.1 h
  obtain ⟨r, -, rfl⟩ := scan_eq_ok_iff.1 hm
  have hmoved : Relocates (Token.moved (source.utf8ByteSize + 1) (source.toList.count '\n' + 1)) :=
    ⟨fun _ => rfl, fun _ => rfl⟩
  refine ⟨joined, hjoined, hsource, ⟨_, _, rfl, hmoved, htokens⟩, own, _, hread, hown, ?_⟩
  have hsense := sense_readStatements_map
    (carries_moved (source ++ "\n") more (source.toList.count '\n' + 1) r.tokens)
  rw [readStatements_moved, size_line] at hsense
  exact hsense

end BicepMigration.Template
