import BicepMigration.Proofs.Template.SoundSpans

/-!
# Text between tokens

Reading passes over characters that make no token. Which bytes these are is seen from the tokens: they lie in no span.
The tokens of a template stand with a gap before each one and a gap after the last one, so a longest run of such bytes is
one of these gaps, and at the start of the text also the byte-order mark. Main statement: only white space and comments
lie between tokens, nothing lies between the tokens of a string, and a newline is passed over in a comment only.
-/

namespace BicepMigration.Template

open Text

section Spec

variable (source : String) (ts : List Token)

/-- The byte belongs to no token. -/
def IsUncovered (n : Nat) : Prop := ∀ t ∈ ts, t.span.contains n = false

/-- A longest run of bytes that belong to no token. -/
structure IsUncoveredRun (run : Span) : Prop where
  nonempty : run.start < run.stop
  stop_le : run.stop ≤ source.utf8ByteSize
  uncovered : ∀ n, run.start ≤ n → n < run.stop → IsUncovered ts n
  start_maximal : run.start = 0 ∨ ¬ IsUncovered ts (run.start - 1)
  stop_maximal : run.stop = source.utf8ByteSize ∨ ¬ IsUncovered ts run.stop

/-- The text of the span is white space and comments, given what follows it. At the start of the text a byte-order mark
may come first. -/
def IsTrivia (span : Span) : Prop :=
  ∃ mark gap, slice? source span = some (String.ofList (mark ++ gap)) ∧
    (mark = [] ∨ mark = [byteOrderMark] ∧ span.start = 0) ∧ IsGap gap (dropBytes span.stop source.toList)

/-- The span is that of a complete block comment, and none of its bytes belongs to a token. -/
def IsBlockComment (span : Span) : Prop :=
  ∃ body, slice? source span = some (String.ofList ('/' :: '*' :: body)) ∧
    throughFirst ['*', '/'] body = some (body, []) ∧ ∀ n, span.contains n = true → IsUncovered ts n

/-- The tokens leave out white space and comments only. -/
structure KeepsText : Prop where
  /-- What belongs to no token is white space and comments. -/
  runs : ∀ run, IsUncoveredRun source ts run → IsTrivia source run
  /-- A token inside a string starts where the token before it stops. -/
  strings : ∀ before t t' after, ts = before ++ t :: t' :: after → t'.kind.insideString = true →
    t'.span.start = t.span.stop
  /-- A newline is a token, if it stands in no string of many lines and in no comment. -/
  newlines : ∀ before after, source.toList = before ++ '\n' :: after →
    (∃ t ∈ ts, t.kind = .newline ∧ t.span = ⟨byteLength before, byteLength before + 1⟩) ∨
      (∃ t ∈ ts, t.kind = .multilineString ∧ t.span.contains (byteLength before) = true) ∨
      ∃ span, IsBlockComment source ts span ∧ span.contains (byteLength before) = true

end Spec

section Bytes

variable {ts : List Token} {n : Nat}

/-- A byte is not covered if each token ends before it or starts behind it. -/
theorem isUncovered_iff : IsUncovered ts n ↔ ∀ t ∈ ts, n < t.span.start ∨ t.span.stop ≤ n := by
  unfold IsUncovered Span.contains
  simp only [Bool.and_eq_false_iff, decide_eq_false_iff_not, Nat.not_le, Nat.not_lt]

/-- A byte is covered if it stands in a token. -/
theorem not_isUncovered_iff : ¬ IsUncovered ts n ↔ ∃ t ∈ ts, t.span.start ≤ n ∧ n < t.span.stop := by
  rw [isUncovered_iff]
  simp

end Bytes

section Gaps

variable {here : Cursor} {x y ls : List Lexeme} {tail : List Char}

/-- What stands before the first of the lexemes, or before the end. -/
def leadingGap (tail : List Char) : List Lexeme → List Char
  | [] => tail
  | l :: _ => l.gap

/-- What stands after that gap. -/
def afterGap (tail : List Char) : List Lexeme → List Char
  | [] => []
  | l :: ls => l.text ++ (written ls ++ tail)

/-- The gap at the start and what follows it are the whole text. -/
theorem leadingGap_append_afterGap (ls : List Lexeme) (tail : List Char) :
    leadingGap tail ls ++ afterGap tail ls = written ls ++ tail := by
  cases ls <;> simp [leadingGap, afterGap]

/-- What stands before the first token is a gap. -/
theorem isGap_leadingGap (hl : Legible ls tail) (ht : IsGap tail []) : IsGap (leadingGap tail ls) (afterGap tail ls) := by
  cases ls with
  | nil => exact ht
  | cons l ls => exact hl.1

/-- No token covers a byte of a gap. -/
theorem isUncovered_leadingGap (hne : ∀ l ∈ x ++ y, l.text ≠ []) {n : Nat}
    (hle : here.offset + byteLength (written x) ≤ n)
    (hlt : n < here.offset + byteLength (written x) + byteLength (leadingGap tail y)) :
    IsUncovered (tokensAt here (x ++ y)) n := by
  refine isUncovered_iff.2 fun t ht => ?_
  rw [tokensAt_append] at ht
  rcases List.mem_append.1 ht with ht | ht
  · exact .inr (Nat.le_trans (stop_tokensAt_le here x t ht) hle)
  · cases y with
    | nil => cases ht
    | cons l rest =>
      have hrest : ∀ m ∈ rest, m.text ≠ [] := fun m hm => hne m (by simp [hm])
      have hstart : here.offset + byteLength (written x) + byteLength l.gap ≤ t.span.start := by
        rcases List.mem_cons.1 ht with rfl | ht
        · exact Nat.le_of_eq (by rw [Token.ofChars_span, Cursor.advance_offset, Cursor.advance_offset])
        · have hafter := ((apart_tokensAt hrest _).2 t ht).1
          rw [Cursor.advance_offset, Cursor.advance_offset, byteLength_append] at hafter
          omega
      exact .inl (Nat.lt_of_lt_of_le hlt hstart)

/-- A token starts after its gap. -/
theorem not_isUncovered_text {l : Lexeme} (hne : l.text ≠ []) :
    ¬ IsUncovered (tokensAt here (x ++ l :: y)) (here.offset + byteLength (written x) + byteLength l.gap) := by
  have hpos := byteLength_pos hne
  refine not_isUncovered_iff.2 ⟨Token.ofChars l.kind ((here.advance (written x)).advance l.gap) l.text, ?_, ?_⟩
  · rw [tokensAt_append, tokensAt_cons]
    simp
  · simp only [Token.ofChars_span, Cursor.advance_offset]
    omega

/-- A newline in a gap stands in a block comment. -/
theorem IsGap.exists_block {gap next a b : List Char} (h : IsGap gap next) (hn : gap = a ++ '\n' :: b) :
    ∃ before body after, gap = before ++ ('/' :: '*' :: body ++ after) ∧
      throughFirst ['*', '/'] body = some (body, []) ∧ byteLength before ≤ byteLength a ∧
      byteLength a < byteLength before + byteLength ('/' :: '*' :: body) := by
  induction h generalizing a with
  | nil => simp at hn
  | @blank c cs next hc hb _ ih =>
    cases a with
    | nil => exact absurd (List.cons.inj hn).1 hc
    | cons d a =>
      obtain ⟨rfl, hcs⟩ := List.cons.inj hn
      obtain ⟨before, body, after, rfl, hbody, hle, hlt⟩ := ih hcs
      refine ⟨c :: before, body, after, rfl, hbody, ?_, ?_⟩ <;> simp only [byteLength_cons] at * <;> omega
  | @block body cs next hbody _ ih =>
    rw [← List.cons_append, ← List.cons_append] at hn
    rcases Nat.lt_or_ge (byteLength a) (byteLength ('/' :: '*' :: body)) with hlt | hge
    · exact ⟨[], body, cs, rfl, hbody, Nat.zero_le _, by simpa using hlt⟩
    · obtain ⟨rest, rfl, hcs⟩ := exists_append_of_byteLength_le hn hge
      obtain ⟨before, body', after, rfl, hbody', hle, hlt⟩ := ih hcs
      refine ⟨'/' :: '*' :: body ++ before, body', after, by simp, hbody', ?_, ?_⟩ <;>
        simp only [byteLength_append] at * <;> omega
  | @line opening body next ho hbody _ =>
    have hmem : '\n' ∈ opening ++ body := by simp [hn]
    rcases List.mem_append.1 hmem with hmem | hmem
    · rcases ho with rfl | rfl <;> exact absurd hmem (by decide)
    · exact absurd rfl (hbody _ hmem)

/-- A character of a joined text stands in the first part or in the second one. -/
theorem append_eq_append_cons {a b before after : List Char} {c : Char} (h : a ++ b = before ++ c :: after) :
    (∃ rest, a = before ++ c :: rest) ∨ ∃ rest, before = a ++ rest ∧ b = rest ++ c :: after := by
  rcases List.append_eq_append_iff.1 h with ⟨rest, hbefore, hb⟩ | ⟨rest, ha, hc⟩
  · exact .inr ⟨rest, hbefore, hb⟩
  · cases rest with
    | nil => exact .inr ⟨[], by simpa using ha.symm, hc.symm⟩
    | cons d rest =>
      obtain ⟨rfl, -⟩ := List.cons.inj hc
      exact .inl ⟨rest, ha⟩

/-- A character of a template stands in a token, or in a gap. -/
theorem exists_of_written {before after : List Char} {c : Char} (h : written ls ++ tail = before ++ c :: after) :
    (∃ x l y a b, ls = x ++ l :: y ∧ l.text = a ++ c :: b ∧ before = written x ++ (l.gap ++ a)) ∨
      ∃ x y a b, ls = x ++ y ∧ leadingGap tail y = a ++ c :: b ∧ before = written x ++ a := by
  induction ls generalizing before with
  | nil => exact .inr ⟨[], [], before, after, rfl, h, rfl⟩
  | cons l ls ih =>
    rw [written_cons, List.append_assoc, List.append_assoc] at h
    rcases append_eq_append_cons h with ⟨b, hgap⟩ | ⟨a, rfl, hafter⟩
    · exact .inr ⟨[], l :: ls, before, b, rfl, hgap, rfl⟩
    · rcases append_eq_append_cons hafter with ⟨b, htext⟩ | ⟨a', rfl, hrest⟩
      · exact .inl ⟨[], l, ls, a, b, rfl, htext, rfl⟩
      · rcases ih hrest with ⟨x, m, y, a', b, rfl, htext, rfl⟩ | ⟨x, y, a', b, rfl, hgap, rfl⟩
        · exact .inl ⟨l :: x, m, y, a', b, rfl, htext, by simp⟩
        · exact .inr ⟨l :: x, y, a', b, rfl, hgap, by simp⟩

end Gaps

section Runs

variable {source : String} {l : Layout} {run : Span}

/-- A longest run starts where a token stops, or at the start of the text. -/
theorem IsUncoveredRun.exists_start (h : IsUncoveredRun source l.tokens run) :
    ∃ x y, l.lexemes = x ++ y ∧ (run.start = l.start.offset + byteLength (written x) ∨ x = [] ∧ run.start = 0) := by
  rcases h.start_maximal with hzero | hcovered
  · exact ⟨[], l.lexemes, rfl, .inr ⟨rfl, hzero⟩⟩
  · obtain ⟨t, ht, hbefore⟩ := not_isUncovered_iff.1 hcovered
    have hat := isUncovered_iff.1 (h.uncovered run.start (Nat.le_refl _) h.nonempty) t ht
    obtain ⟨a, b, hab⟩ := List.append_of_mem ht
    obtain ⟨x, y, hxy, -, hy⟩ := tokensAt_eq_append hab
    obtain ⟨m, rest, rfl, rfl, -⟩ := tokensAt_eq_cons hy.symm
    refine ⟨x ++ [m], rest, by rw [hxy]; simp, .inl ?_⟩
    simp only [Token.ofChars_span, Cursor.advance_offset] at hbefore hat
    simp only [written_append, written_cons, written_nil, List.append_nil, byteLength_append]
    omega

/-- The size of a text, cut in two between lexemes. -/
theorem Layout.size_eq (hl : source.toList = l.chars) {x y : List Lexeme} (hxy : l.lexemes = x ++ y) :
    source.utf8ByteSize = l.start.offset + byteLength (written x) +
      (byteLength (leadingGap l.tail y) + byteLength (afterGap l.tail y)) := by
  rw [← byteLength_append, leadingGap_append_afterGap, ← byteLength_toList, hl, Layout.chars, hxy]
  simp [Layout.start, Nat.add_assoc]

/-- A longest run stops where the next token starts. -/
theorem IsUncoveredRun.stop_eq (h : IsUncoveredRun source l.tokens run) (hl : source.toList = l.chars) {x y : List Lexeme}
    (hxy : l.lexemes = x ++ y)
    (hstart : run.start = l.start.offset + byteLength (written x) ∨ x = [] ∧ run.start = 0) :
    run.stop = l.start.offset + byteLength (written x) + byteLength (leadingGap l.tail y) := by
  have hne := l.legible.forall_ne_nil
  have hsize := l.size_eq hl hxy
  have htokens : l.tokens = tokensAt l.start (x ++ y) := by rw [Layout.tokens, hxy]
  rw [hxy] at hne
  have hnonempty := h.nonempty
  have hstop := h.stop_le
  -- the run gets over the byte-order mark, since no token starts in it
  have hmark : l.start.offset + byteLength (written x) ≤ run.stop := by
    rcases hstart with hstart | ⟨rfl, hstart⟩
    · omega
    · rw [written_nil, byteLength_nil, Nat.add_zero]
      rcases h.stop_maximal with hend | hcovered
      · omega
      · obtain ⟨t, ht, hle, -⟩ := not_isUncovered_iff.1 hcovered
        exact Nat.le_trans ((apart_tokensAt l.legible.forall_ne_nil l.start).2 t ht).1 hle
  refine Nat.le_antisymm ?_ ?_
  · by_contra hgt
    cases y with
    | nil =>
      rw [hsize, afterGap, byteLength_nil] at hstop
      omega
    | cons m y =>
      have hcovered := @not_isUncovered_text l.start x y m (hne m (by simp))
      rw [← htokens] at hcovered
      simp only [leadingGap] at hgt
      exact hcovered (h.uncovered _ (by omega) (by omega))
  · by_contra hlt
    rcases h.stop_maximal with hend | hcovered
    · omega
    · rw [htokens] at hcovered
      exact hcovered (isUncovered_leadingGap hne hmark (Nat.not_le.1 hlt))

/-- A longest run is a gap, and at the start of the text the byte-order mark comes before it. -/
theorem IsUncoveredRun.isTrivia (h : IsUncoveredRun source l.tokens run) (hl : source.toList = l.chars) :
    IsTrivia source run := by
  obtain ⟨x, y, hxy, hstart⟩ := h.exists_start
  have hstop := h.stop_eq hl hxy hstart
  have hlegible := l.legible
  rw [hxy] at hlegible
  have hgap := isGap_leadingGap (legible_append.1 hlegible).2 l.isGap
  have htext : source.toList = l.mark ++ (written x ++ (leadingGap l.tail y ++ afterGap l.tail y)) := by
    rw [leadingGap_append_afterGap, hl, Layout.chars, hxy]
    simp
  have hafter : dropBytes run.stop source.toList = afterGap l.tail y := by
    have hlen : run.stop = byteLength (l.mark ++ (written x ++ leadingGap l.tail y)) := by
      simp [hstop, Layout.start, Nat.add_assoc]
    have hparts : source.toList = l.mark ++ (written x ++ leadingGap l.tail y) ++ afterGap l.tail y := by
      rw [htext]
      simp
    rw [hlen, hparts, dropBytes_byteLength_append]
  rw [← hafter] at hgap
  rcases hstart with hstart | ⟨rfl, hstart⟩
  · refine ⟨[], leadingGap l.tail y, ?_, .inl rfl, hgap⟩
    refine @slice?_of_append _ (l.mark ++ written x) _ (afterGap l.tail y) _ (by rw [htext]; simp) ?_ ?_
    · rw [hstart, byteLength_append]
      rfl
    · rw [hstop, hstart]
      rfl
  · refine ⟨l.mark, leadingGap l.tail y, ?_, l.mark_eq.imp id fun hm => ⟨hm, hstart⟩, hgap⟩
    refine @slice?_of_append _ [] _ (afterGap l.tail y) _ (by rw [htext]; simp) hstart ?_
    rw [hstop, hstart, byteLength_append]
    simp [Layout.start]

end Runs

/-- Nothing is passed over between the tokens of a string. -/
theorem stop_of_insideString {here : Cursor} {ls : List Lexeme} {tail : List Char} (hl : Legible ls tail)
    {before after : List Token} {t t' : Token} (h : tokensAt here ls = before ++ t :: t' :: after)
    (hinside : t'.kind.insideString = true) : t'.span.start = t.span.stop := by
  obtain ⟨x, y, rfl, -, hy⟩ := tokensAt_eq_append h
  obtain ⟨l, rest, rfl, rfl, hrest⟩ := tokensAt_eq_cons hy.symm
  obtain ⟨m, rest, rfl, rfl, -⟩ := tokensAt_eq_cons hrest.symm
  have hgap := (legible_append.1 hl).2.2.2.2.2.1.2 hinside
  simp [hgap, Cursor.advance_offset, Nat.add_assoc]

/-- A newline in the text of a token is the token, or the token is a string of many lines. -/
theorem Layout.keeps_newline_text (l : Layout) {x y : List Lexeme} {m : Lexeme} {a b : List Char}
    (hxy : l.lexemes = x ++ m :: y) (htext : m.text = a ++ '\n' :: b) :
    ∃ t ∈ l.tokens, t.kind = .newline ∧ t.span = ⟨byteLength (l.mark ++ (written x ++ (m.gap ++ a))),
        byteLength (l.mark ++ (written x ++ (m.gap ++ a))) + 1⟩ ∨
      t.kind = .multilineString ∧ t.span.contains (byteLength (l.mark ++ (written x ++ (m.gap ++ a)))) = true := by
  have hspelled := l.legible.forall_spelled m (by simp [hxy])
  have hmem : Token.ofChars m.kind ((l.start.advance (written x)).advance m.gap) m.text ∈ l.tokens := by
    rw [Layout.tokens, hxy, tokensAt_append, tokensAt_cons]
    simp
  refine ⟨_, hmem, ?_⟩
  rcases newline_cases hspelled (by simp [htext]) with ⟨hkind, hnewline⟩ | hkind
  · refine .inl ⟨hkind, ?_⟩
    obtain rfl : a = [] := by
      rw [hnewline] at htext
      cases a with
      | nil => rfl
      | cons c a => simp at htext
    simp [Cursor.advance_offset, hnewline, Layout.start, Nat.add_assoc]
    rfl
  · refine .inr ⟨hkind, ?_⟩
    have hlen := congrArg byteLength htext
    simp only [byteLength_append, byteLength_cons] at hlen
    have hpos := ('\n').utf8Size_pos
    simp only [Span.contains, Token.ofChars_span, Cursor.advance_offset, Layout.start, byteLength_append,
      Bool.and_eq_true, decide_eq_true_eq]
    omega

/-- A newline in a gap stands in a comment. -/
theorem Layout.keeps_newline_gap {source : String} (l : Layout) (hl : source.toList = l.chars) {x y : List Lexeme}
    {a b : List Char} (hxy : l.lexemes = x ++ y) (hgap : leadingGap l.tail y = a ++ '\n' :: b) :
    ∃ span, IsBlockComment source l.tokens span ∧
      span.contains (byteLength (l.mark ++ (written x ++ a))) = true := by
  have hne := l.legible.forall_ne_nil
  have hlegible := l.legible
  rw [hxy] at hlegible hne
  obtain ⟨p, body, q, hblock, hbody, hle, hlt⟩ :=
    (isGap_leadingGap (legible_append.1 hlegible).2 l.isGap).exists_block hgap
  have hlen := congrArg byteLength hblock
  simp only [byteLength_append] at hlen
  refine ⟨⟨byteLength (l.mark ++ (written x ++ p)),
    byteLength (l.mark ++ (written x ++ p)) + byteLength ('/' :: '*' :: body)⟩, ⟨body, ?_, hbody, fun n hn => ?_⟩, ?_⟩
  · refine @slice?_of_append _ (l.mark ++ (written x ++ p)) _ (q ++ afterGap l.tail y) _ ?_ rfl rfl
    rw [hl, Layout.chars, hxy, written_append, List.append_assoc, ← leadingGap_append_afterGap y, hblock]
    simp
  · rw [Layout.tokens, hxy]
    simp only [Span.contains, Bool.and_eq_true, decide_eq_true_eq, byteLength_append] at hn
    refine @isUncovered_leadingGap _ _ _ l.tail hne n ?_ ?_ <;> simp only [Layout.start] <;> omega
  · simp only [Span.contains, Bool.and_eq_true, decide_eq_true_eq, byteLength_append]
    omega

/-- A newline of a template is a token, or it stands in a string of many lines or in a comment. -/
theorem Layout.keeps_newline {source : String} (l : Layout) (hl : source.toList = l.chars) {before after : List Char}
    (h : source.toList = before ++ '\n' :: after) :
    (∃ t ∈ l.tokens, t.kind = .newline ∧ t.span = ⟨byteLength before, byteLength before + 1⟩) ∨
      (∃ t ∈ l.tokens, t.kind = .multilineString ∧ t.span.contains (byteLength before) = true) ∨
      ∃ span, IsBlockComment source l.tokens span ∧ span.contains (byteLength before) = true := by
  have hmark : '\n' ∉ l.mark := by
    rcases l.mark_eq with hm | hm <;> rw [hm] <;> decide
  have hchars := h
  rw [hl, Layout.chars] at hchars
  rcases append_eq_append_cons hchars with ⟨rest, hm⟩ | ⟨rest, rfl, hwritten⟩
  · exact absurd (hm ▸ by simp) hmark
  rcases exists_of_written hwritten with ⟨x, m, y, a, b, hxy, htext, rfl⟩ | ⟨x, y, a, b, hxy, hgap, rfl⟩
  · obtain ⟨t, ht, hnewline | hstring⟩ := l.keeps_newline_text hxy htext
    · exact .inl ⟨t, ht, hnewline⟩
    · exact .inr (.inl ⟨t, ht, hstring⟩)
  · exact .inr (.inr (l.keeps_newline_gap hl hxy hgap))

/-- Reading loses white space and comments only. -/
theorem tokenize_keeps_text {source : String} {ts : List Token} (h : tokenize source = .ok ts) : KeepsText source ts := by
  obtain ⟨l, hl, rfl⟩ := tokenize_eq_ok_iff.1 h
  exact ⟨fun run hrun => hrun.isTrivia hl, fun before t t' after heq => stop_of_insideString l.legible heq,
    fun before after htext => l.keeps_newline hl htext⟩

/-- A template with a byte-order mark, comments of each kind, and marks of comments inside strings. -/
def commentedSource : String :=
  "\uFEFF // a\nvar b = 'x // $\x7b/* y\n*/1\x7d #' # c\n/* d *//**/'''\n/*''' \u2003~"

/-- Comments of each kind are left out, and nothing else. -/
theorem tokenize_keeps_text_commented :
    tokenize commentedSource = .ok (tokensOf commentedSource) ∧ KeepsText commentedSource (tokensOf commentedSource) := by
  have h : tokenize commentedSource = .ok (tokensOf commentedSource) := tokenize_eq (by decide +kernel)
  exact ⟨h, tokenize_keeps_text h⟩

end BicepMigration.Template
