import BicepMigration.Proofs.Migration.DeclarationSearch
import BicepMigration.Proofs.Migration.FreshSymbols

/-!
# Resources that are still declared

A resource of a plan may still be declared in an artifact. Reading a declaration is more tolerant than the search for
it: comments may stand between its parts, or nothing at all, and the target may be encoded. Main statement: a
declaration that is spelled with white space only, and with a target as it is, is reported.
-/

namespace BicepMigration.Text

/-- White space is in no word. -/
theorem isWordChar_of_isBlank {c : Char} (h : isBlank c = true) : isWordChar c = false := by
  have hmem : c.toNat ∈ List.range' 9 5 ++ (List.range' 0x2000 11 ++
      [0x20, 0x85, 0xA0, 0x1680, 0x2028, 0x2029, 0x202F, 0x205F, 0x3000]) := by
    simp only [isBlank, Bool.or_eq_true, Bool.and_eq_true, decide_eq_true_eq] at h
    simp only [List.mem_append, List.mem_range'_1, List.mem_cons, List.not_mem_nil, or_false]
    omega
  have hall : ∀ n ∈ List.range' 9 5 ++ (List.range' 0x2000 11 ++
      [0x20, 0x85, 0xA0, 0x1680, 0x2028, 0x2029, 0x202F, 0x205F, 0x3000]), inRanges n wordRanges = false := by
    decide +kernel
  exact hall _ hmem

end BicepMigration.Text

namespace BicepMigration.Template

open Text

section Lines

variable {source : String} {toks : List Token}

/-- A line starts after the tokens. -/
def AtLineStart (before : List Token) : Prop := ∀ t, before.getLast? = some t → t.kind = .newline

/-- A line starts after two parts if one starts after each of them. -/
theorem AtLineStart.append {a b : List Token} (ha : AtLineStart a) (hb : AtLineStart b) : AtLineStart (a ++ b) := by
  intro t ht
  rw [List.getLast?_append] at ht
  cases hlast : b.getLast? with
  | none => exact ha t (by simpa [hlast] using ht)
  | some u => exact hb t (by rw [hlast]; simpa [hlast] using ht)

/-- Where a line starts after some tokens, it does with others before them. -/
theorem AtLineStart.prepend {a b : List Token} (hb : AtLineStart b) (hne : b ≠ []) : AtLineStart (a ++ b) := by
  intro t ht
  rw [List.getLast?_append, List.getLast?_eq_some_getLast hne, Option.some_or] at ht
  exact hb t (by rw [List.getLast?_eq_some_getLast hne, ht])

/-- After newlines a line starts. After a line end there are some, if anything else comes. -/
theorem exists_line_start (toks : List Token) :
    ∃ blank, toks = blank ++ skipNewlines toks ∧ AtLineStart blank ∧
      (atLineEnd toks = true → skipNewlines toks ≠ [] → blank ≠ []) := by
  obtain ⟨blank, hblank, hnewlines⟩ := exists_newlines toks
  refine ⟨blank, hblank, fun t ht => hnewlines t (List.mem_of_getLast? ht), ?_⟩
  rintro he hne rfl
  have hskip : skipNewlines toks = toks := hblank.symm
  obtain ⟨t, ts, rfl⟩ := List.exists_cons_of_ne_nil (hskip ▸ hne)
  exact head_skipNewlines hskip (head_of_atLineEnd he)

/-- After decorators the keyword starts a line. -/
theorem exists_decorator_lines (source : String) (toks : List Token) (hne : (readDecorators source toks).2 ≠ []) :
    ∃ taken, toks = taken ++ (readDecorators source toks).2 ∧ AtLineStart taken := by
  have hlines := decorated_readDecorators source toks
  generalize (readDecorators source toks).1 = decorators at hlines
  generalize (readDecorators source toks).2 = after at hlines hne ⊢
  induction hlines with
  | done => exact ⟨[], rfl, fun t ht => by cases ht⟩
  | @line t ts blank rest after decorators hline hothers ih =>
    obtain ⟨taken, rfl, hstart⟩ := ih hne
    have hblank : AtLineStart blank := fun u hu => hline.newlines u (List.mem_of_getLast? hu)
    refine ⟨t :: ts ++ blank ++ taken, by simp, ?_⟩
    exact (hblank.prepend (hline.blank_ne_nil (hothers.ne_nil hne))).append hstart

/-- Every keyword starts a line. -/
theorem exists_of_mem_keywordTails (source : String) (toks : List Token) {tail : List Token}
    (ht : tail ∈ keywordTails source toks) (hne : tail ≠ []) :
    ∃ before, toks = before ++ tail ∧ AtLineStart before ∧ (atLineEnd toks = true → before ≠ []) := by
  fun_induction keywordTails source toks with
  | case1 => cases ht
  | case2 toks first others h _ _ ih =>
    obtain ⟨blank, hblank, hstart, hblank_ne⟩ := exists_line_start toks
    rw [h] at hblank hblank_ne
    have hnonempty (he : atLineEnd toks = true) (more : List Token) : blank ++ more ≠ [] :=
      List.append_ne_nil_of_left_ne_nil (hblank_ne he (List.cons_ne_nil first others)) more
    rcases List.mem_cons.1 ht with rfl | ht
    · obtain ⟨taken, htaken, hline⟩ := exists_decorator_lines source (first :: others) hne
      refine ⟨blank ++ taken, ?_, hstart.append hline, fun he => hnonempty he taken⟩
      rw [List.append_assoc, ← htaken]
      exact hblank
    · -- the others come after the line of this statement, so a newline is before each of them
      have hrest : (readStatement source first others).2 = (breakLine (readDecorators source (first :: others)).2).2 :=
        readStatementBody_snd ..
      obtain ⟨before, hbefore, hline, hbefore_ne⟩ := ih ht
      have hbefore_ne := hbefore_ne (hrest ▸ atLineEnd_breakLine _)
      have hsuffix : (readStatement source first others).2 <:+ first :: others := by
        rw [hrest]
        exact (show _ <:+ _ from ⟨_, breakLine_append _⟩).trans (suffix_readDecorators source (first :: others))
      obtain ⟨taken, htaken⟩ := hsuffix
      refine ⟨blank ++ (taken ++ before), ?_, (hline.prepend hbefore_ne).prepend ?_, fun he => hnonempty he _⟩
      · rw [List.append_assoc, List.append_assoc, ← hbefore, htaken]
        exact hblank
      · exact List.append_ne_nil_of_right_ne_nil taken hbefore_ne

end Lines

section Places

/-- Before a token that is no newline, a gap ends with white space or with a comment in marks. -/
theorem IsGap.isWordChar_last {gap next : List Char} (h : IsGap gap next) {d : Char} (hnext : next.head? = some d)
    (hd : d ≠ '\n') {c : Char} (hc : gap.getLast? = some c) : isWordChar c = false := by
  induction h with
  | nil => cases hc
  | @blank b cs next hb hblank _ ih =>
    rw [List.getLast?_cons] at hc
    cases hlast : cs.getLast? with
    | none =>
      obtain rfl : b = c := by simpa [hlast] using hc
      exact isWordChar_of_isBlank hblank
    | some e => exact ih hnext (by simpa [hlast] using hc)
  | @block body cs next hbody _ ih =>
    cases hlast : cs.getLast? with
    | none =>
      obtain ⟨start, rfl⟩ := suffix_of_throughFirst hbody
      obtain rfl := List.getLast?_eq_none_iff.1 hlast
      obtain rfl : '/' = c := by simpa [List.getLast?_cons, List.getLast?_append] using hc
      decide
    | some e =>
      refine ih hnext ?_
      rw [hlast]
      simpa [List.getLast?_cons, List.getLast?_append, hlast] using hc
  | line _ _ hline => exact absurd (hline d hnext) hd

variable {source : String} {l : Layout}

/-- The character before a name that starts a line is not one of a word. -/
theorem isWordChar_before {x : List Lexeme} {name : Lexeme} {rest : List Lexeme} (hl : l.lexemes = x ++ name :: rest)
    (hx : ∀ m, x.getLast? = some m → m.kind = .newline) (hname : name.kind = .identifier) {c : Char}
    (hc : (l.mark ++ (written x ++ name.gap)).getLast? = some c) : isWordChar c = false := by
  have hlegible := l.legible
  rw [hl, legible_append] at hlegible
  obtain ⟨hlx, hgap, ⟨hspelled, -⟩, -⟩ := hlegible
  rw [hname] at hspelled
  obtain ⟨d, ds, htext, hd, -⟩ := hspelled
  rw [List.getLast?_append, List.getLast?_append] at hc
  cases hglast : name.gap.getLast? with
  | some e =>
    obtain rfl : e = c := by simpa [hglast] using hc
    exact hgap.isWordChar_last (by rw [htext]; rfl) (plain_of_wordChar (.inl hd)).1 hglast
  | none =>
    rw [hglast, Option.none_or] at hc
    rcases List.eq_nil_or_concat x with rfl | ⟨y, m, hy⟩
    · rcases l.mark_eq with hmark | hmark
      · rw [hmark] at hc
        cases hc
      · obtain rfl : byteOrderMark = c := by simpa [hmark] using hc
        decide +kernel
    · rw [List.concat_eq_append] at hy
      subst hy
      have hm := hx m (by simp)
      have hlast : (written (y ++ [m])).getLast? = some '\n' := by
        have hs := ((legible_append.1 hlx).2).2.1.1
        rw [hm] at hs
        obtain hs : m.text = ['\n'] := hs
        simp [hs, List.getLast?_append]
      rw [hlast] at hc
      obtain rfl : '\n' = c := by simpa using hc
      decide

/-- A literal is written in quotes. -/
theorem written_literal {opening inner closing : Lexeme} {ls : List Lexeme} {rest : List Char}
    (h : Legible (opening :: inner :: closing :: ls) rest) (ho : opening.kind = .stringStart)
    (hi : inner.kind = .stringText) (hc : closing.kind = .stringEnd) :
    written (opening :: inner :: closing :: ls) = opening.gap ++ '\'' :: (inner.text ++ '\'' :: written ls) := by
  obtain ⟨-, hopening, -, -, hinner, -, -, hclosing, -⟩ := h
  have hotext : opening.text = ['\''] := by
    have h := hopening.1
    rwa [ho] at h
  have hctext : closing.text = ['\''] := by
    have h := hclosing.1
    rwa [hc] at h
  have higap : inner.gap = [] := hinner.2 (by rw [hi]; rfl)
  have hcgap : closing.gap = [] := hclosing.2 (by rw [hc]; rfl)
  simp [higap, hcgap, hotext, hctext]

/-- Where a declaration with a literal stands in the text. -/
theorem exists_place_of_tail (hs : source.toList = l.chars) {before rest : List Token}
    {keyword name opening inner closing : Token}
    (htokens : l.tokens = before ++ keyword :: name :: opening :: inner :: closing :: rest)
    (hline : AtLineStart before) (hkeyword : keyword.kind = .identifier) (hopening : opening.kind = .stringStart)
    (hinner : inner.kind = .stringText) (hclosing : closing.kind = .stringEnd) :
    ∃ start after, source.toList = start ++
        ((slice source ⟨keyword.span.start, opening.span.start⟩).toList ++
          '\'' :: (inner.text.toList ++ '\'' :: after)) ∧
      keyword.span.start = byteLength start ∧ ∀ c, start.getLast? = some c → isWordChar c = false := by
  obtain ⟨x, _, hl, rfl, htail⟩ := tokensAt_eq_append htokens
  obtain ⟨k, _, rfl, rfl, hafterKeyword⟩ := tokensAt_eq_cons htail.symm
  obtain ⟨n, _, rfl, rfl, hafterName⟩ := tokensAt_eq_cons hafterKeyword.symm
  obtain ⟨o, _, rfl, rfl, hafterOpening⟩ := tokensAt_eq_cons hafterName.symm
  obtain ⟨i, _, rfl, rfl, hafterInner⟩ := tokensAt_eq_cons hafterOpening.symm
  obtain ⟨c, y, rfl, rfl, -⟩ := tokensAt_eq_cons hafterInner.symm
  clear htail hafterKeyword hafterName hafterOpening hafterInner htokens
  have hlegible := l.legible
  rw [hl] at hlegible
  obtain ⟨-, -, -, -, -, -, -, hliteral⟩ := legible_append.1 hlegible
  have hchars : source.toList = (l.mark ++ (written x ++ k.gap)) ++ ((k.text ++ (n.gap ++ (n.text ++ o.gap))) ++
      '\'' :: (i.text ++ '\'' :: (written y ++ l.tail))) := by
    rw [hs, Layout.chars, hl, written_append, written_cons, written_cons,
      written_literal hliteral hopening hinner hclosing]
    simp only [List.append_assoc, List.cons_append]
  have hlast : ∀ m, x.getLast? = some m → m.kind = .newline := by
    intro m hm
    obtain ⟨init, rfl⟩ := List.getLast?_eq_some_iff.1 hm
    refine hline (m.token (l.start.advance (written init))) ?_
    rw [tokensAt_append, tokensAt_cons, tokensAt_nil, List.getLast?_append]
    rfl
  have hoffset : ((l.start.advance (written x)).advance k.gap).offset = byteLength (l.mark ++ (written x ++ k.gap)) := by
    simp [Layout.start, Cursor.advance_offset, Nat.add_assoc]
  refine ⟨_, written y ++ l.tail, ?_, hoffset, fun d hd => isWordChar_before hl hlast hkeyword hd⟩
  rw [Token.ofChars_text, String.toList_ofList, toList_slice_of_append hchars hoffset]
  · exact hchars
  · simp [Cursor.advance_offset, Nat.add_assoc]

end Places

/-- The text of a string without backslashes holds no quote. -/
theorem quote_not_mem_of_splitString {text : List Char} (h : splitString (text ++ ['\'']) = some (text, ['\'']))
    (hb : '\\' ∉ text) : '\'' ∉ text := by
  induction text with
  | nil => simp
  | cons c text ih =>
    obtain ⟨d, more, hmore⟩ := List.exists_cons_of_ne_nil (show text ++ ['\''] ≠ [] by simp)
    simp only [List.mem_cons, not_or] at hb
    rw [List.cons_append, hmore, splitString] at h
    split at h
    · cases h
    · next hquote =>
      split at h
      · cases h
      · rw [if_neg (Ne.symm hb.1), ← hmore] at h
        obtain ⟨⟨found, rest⟩, hfound, heq⟩ := Option.map_eq_some_iff.1 h
        simp only [Prod.mk.injEq, List.cons.injEq, true_and] at heq
        obtain ⟨rfl, rfl⟩ := heq
        simp only [Bool.or_eq_true, decide_eq_true_eq, not_or] at hquote
        simp only [List.mem_cons, not_or]
        exact ⟨fun he => hquote.1 he.symm, ih hfound hb.2⟩

/-- A resource with a target is read from a keyword, a name and a literal. -/
theorem exists_parts_of_heading {source symbol target : String} {s : Statement} {tail : List Token}
    (h : s.heading = headingAt source tail) (hkind : s.kind = .resource) (hsymbol : s.symbol = some symbol)
    (htarget : s.target = some target) (hne : target ≠ "") :
    ∃ keyword name opening inner closing rest, tail = keyword :: name :: opening :: inner :: closing :: rest ∧
      keyword.kind = .identifier ∧ (name.kind = .identifier ∧ name.text = symbol) ∧ opening.kind = .stringStart ∧
      inner.kind = .stringText ∧ closing.kind = .stringEnd ∧ unescape inner.text.toList = some target.toList := by
  have hk : kindAt tail = .resource := (congrArg (·.kind) h).symm.trans hkind
  have hname : nameAt tail = some symbol := by
    have hs := (congrArg (·.symbol) h).symm.trans hsymbol
    rw [headingAt, Declaration.heading, symbol_readStatementBody, hk] at hs
    simpa using hs
  have hliteral : (literalAt (tail.drop 2)).map (·.1) = some target := by
    rw [← target_readStatementBody source hk]
    exact (congrArg (·.target) h).symm.trans htarget
  obtain ⟨keyword, others, rfl, hkeyword⟩ := (@exists_keyword tail) (by simp [hk])
  cases others with
  | nil => simp [nameAt] at hname
  | cons name others =>
    have hn : name.kind = .identifier ∧ name.text = symbol := by simpa [nameAt] using hname
    obtain ⟨⟨found, rest⟩, hfound, rfl⟩ := Option.map_eq_some_iff.1 hliteral
    obtain ⟨literal, hall, hl⟩ := literalAt_eq_some_iff.1 hfound
    rw [List.drop_succ_cons, List.drop_succ_cons, List.drop_zero] at hall
    subst hall
    cases hl with
    | empty => exact absurd rfl hne
    | @text opening inner closing cs ho hi hc hcs =>
      exact ⟨keyword, name, opening, inner, closing, rest, rfl, hkeyword, hn, ho, hi, hc,
        by rw [hcs, String.toList_ofList]⟩

end BicepMigration.Template

namespace BicepMigration.Migration

open Template Text

/-- A declaration as it is written: from its keyword to the quote before its target, and the target in the quotes. -/
def writtenHead (source : String) : List Token → Option (List Char × List Char)
  | keyword :: _ :: opening :: inner :: _ =>
    some ((slice source ⟨keyword.span.start, opening.span.start⟩).toList, inner.text.toList)
  | _ => none

/-- A declaration is spelled out: nothing but white space stands between its keyword, its symbol and the quote before
its target, and the target is not encoded. -/
def IsSpelledOut (source symbol : String) (tail : List Token) : Prop :=
  ∃ opening target, writtenHead source tail = some (opening, target) ∧ IsOpening symbol opening ∧ '\\' ∉ target

variable {template : ScannedTemplate} {plan : List PlanEntry} {e : PlanEntry}

/-- What is found is reported as an error. -/
theorem residual_of_isSome {text : String} (h : scan text = .ok template) (he : e ∈ plan)
    (hfound : (declaration? template e).isSome = true) :
    (∃ offset, residualError template e offset ∈ (validate plan text).diagnostics) ∧
      0 < (validate plan text).errors := by
  obtain ⟨offset, hoffset⟩ := Option.isSome_iff_exists.1 hfound
  have hmem : residualError template e offset ∈ (validate plan text).diagnostics := by
    rw [validate, h]
    refine List.mem_append_left _ (List.mem_append_left _ (List.mem_map.2 ⟨(e, offset), ?_, rfl⟩))
    exact List.mem_filterMap.2 ⟨e, he, by rw [hoffset]; rfl⟩
  exact ⟨⟨offset, hmem⟩, List.countP_pos_iff.2 ⟨_, hmem, rfl⟩⟩

/-- A planned resource that is still declared is reported, if its declaration is spelled out and its target does not end
like the start of a declaration. -/
theorem residual_reported {text : String} {s : Statement} {tail : List Token} (h : scan text = .ok template)
    (he : e ∈ plan) (hs : (s, tail) ∈ template.statements.zip (keywordTails text template.tokens))
    (hkind : s.kind = .resource) (hsymbol : s.symbol = some e.symbol)
    (htarget : s.target = some (e.resourceType ++ "@" ++ e.apiVersion)) (hspelled : IsSpelledOut text e.symbol tail)
    (hapart : ∀ opening, IsOpening e.symbol opening → ¬ opening <:+ (e.resourceType ++ "@" ++ e.apiVersion).toList) :
    (∃ offset, residualError template e offset ∈ (validate plan text).diagnostics) ∧
      0 < (validate plan text).errors := by
  refine residual_of_isSome h he ?_
  obtain ⟨l, hchars, rfl⟩ := scan_eq_ok_iff.1 h
  have hheading := List.forall₂_zip (forall₂_keywordTails text l.tokens) hs
  have hne : e.target ≠ "" := fun hnil => by simpa [PlanEntry.target] using congrArg String.toList hnil
  obtain ⟨keyword, name, opening, inner, closing, rest, rfl, hkeyword, ⟨hname, hsymbol'⟩, ho, hi, hc, hunescape⟩ :=
    exists_parts_of_heading hheading hkind hsymbol htarget hne
  obtain ⟨before, hbefore, hline, -⟩ := exists_of_mem_keywordTails text l.tokens (List.of_mem_zip hs).2
    (List.cons_ne_nil _ _)
  obtain ⟨_, _, hwritten, hopening, hplain⟩ := hspelled
  obtain ⟨rfl, rfl⟩ := Prod.mk.inj (Option.some.inj hwritten)
  have hmem {t : Token} (ht : t ∈ keyword :: name :: opening :: inner :: closing :: rest) :
      ∃ m ∈ l.lexemes, m.kind = t.kind ∧ t.text.toList = m.text := by
    have htall : t ∈ l.tokens := hbefore ▸ List.mem_append_right before ht
    obtain ⟨m, hm, hk, htext⟩ := mem_tokensAt htall
    exact ⟨m, hm, hk, by rw [htext, String.toList_ofList]⟩
  have hinner : inner.text.toList = e.target.toList := by
    rw [unescape_plain fun c hc => by rintro rfl; exact hplain hc] at hunescape
    exact Option.some.inj hunescape
  have hsearch : e.IsSearchable := by
    refine ⟨?_, ?_, hapart⟩
    · obtain ⟨m, hm, hk, htext⟩ := hmem (t := name) (by simp)
      have hspelled := l.legible.forall_spelled m hm
      rw [hk, hname, ← htext, hsymbol'] at hspelled
      exact hspelled
    · obtain ⟨m, hm, hk, htext⟩ := hmem (t := inner) (by simp)
      have hspelled := l.legible.forall_spelled m hm
      rw [hk, hi, ← htext] at hspelled
      exact hinner ▸ quote_not_mem_of_splitString hspelled.2 hplain
  obtain ⟨start, after, hplace, hstart, hword⟩ := exists_place_of_tail hchars hbefore hline hkeyword ho hi hc
  rw [hinner] at hplace
  exact isSome_declaration? hsearch hopening hplace (t := keyword) (hbefore ▸ by simp) hkeyword hstart hword

/-- The plan for one resource. -/
def accountEntry : PlanEntry :=
  { symbol := "sa"
    newSymbol := "saModule"
    resourceType := "T/a"
    apiVersion := "2020-01-01"
    module := "br:m/a"
    mappingIndex := 0
    statementIndex := 0
    translated := []
    unmapped := [] }

/-- A template in which the resource is declared, after a decorator and a comment. -/
def keptSource : String := "@secure()\n/* kept */resource sa\t'T/a@2020-01-01' = \x7b\n\x7d\n"

/-- A declaration that was left is reported as an error. -/
theorem residual_reported_kept :
    scan keptSource = .ok (templateOf keptSource) ∧
      ∃ p ∈ (templateOf keptSource).statements.zip (keywordTails keptSource (templateOf keptSource).tokens),
        p.1.kind = .resource ∧ p.1.symbol = some "sa" ∧ p.1.target = some "T/a@2020-01-01" ∧
          IsSpelledOut keptSource "sa" p.2 ∧
          (∃ offset, residualError (templateOf keptSource) accountEntry offset ∈
            (validate [accountEntry] keptSource).diagnostics) ∧ 0 < (validate [accountEntry] keptSource).errors := by
  have hdeclared : ∃ p ∈ (templateOf keptSource).statements.zip
      (keywordTails keptSource (templateOf keptSource).tokens), p.1.kind = .resource ∧ p.1.symbol = some "sa" ∧
        p.1.target = some "T/a@2020-01-01" ∧
          writtenHead keptSource p.2 = some ("resource sa\t".toList, "T/a@2020-01-01".toList) := by
    decide +kernel
  obtain ⟨⟨s, tail⟩, hs, hkind, hsymbol, htarget, hwritten⟩ := hdeclared
  have h := scan_of_mem_templateOf (List.of_mem_zip hs).1
  have hspelled : IsSpelledOut keptSource "sa" tail :=
    ⟨_, _, hwritten, ⟨[' '], ['\t'], ⟨by simp, List.forall_mem_singleton.2 rfl⟩,
      ⟨by simp, List.forall_mem_singleton.2 rfl⟩, rfl⟩, by decide⟩
  exact ⟨h, (s, tail), hs, hkind, hsymbol, htarget, hspelled, residual_reported h List.mem_cons_self hs hkind hsymbol
    htarget hspelled (apart_of_last (c := '1') (by decide) (by decide))⟩

/-- A template in which the resource is declared next to its module, without white space before the target. -/
def touchingSource : String :=
  "module saModule 'br:m/a' = \x7b\n\x7d\nresource sa'T/a@2020-01-01' = \x7b\n\x7d\n"

/-- Without white space before its target a declaration is not found. -/
theorem residual_missed :
    scan touchingSource = .ok (templateOf touchingSource) ∧
      (∃ s ∈ (templateOf touchingSource).statements, s.kind = .resource ∧ s.symbol = some accountEntry.symbol ∧
        s.target = some (accountEntry.resourceType ++ "@" ++ accountEntry.apiVersion)) ∧
      (validate [accountEntry] touchingSource).errors = 0 := by
  have hdeclared : ∃ s ∈ (templateOf touchingSource).statements, s.kind = .resource ∧
      s.symbol = some accountEntry.symbol ∧
      s.target = some (accountEntry.resourceType ++ "@" ++ accountEntry.apiVersion) := by
    decide +kernel
  obtain ⟨s, hs, hresource⟩ := hdeclared
  exact ⟨scan_of_mem_templateOf hs, ⟨s, hs, hresource⟩, by decide +kernel⟩

-- A comment can take the start of a declaration, if the target ends like one.
example : declaration? (templateOf "/* resource sa 'T@V*/resource sa 'T@V*/resource sa ' = \x7b\n\x7d\n")
    { accountEntry with resourceType := "T", apiVersion := "V*/resource sa " } = none := by
  decide +kernel

end BicepMigration.Migration
