import BicepMigration.Proofs.Template.Layout
import BicepMigration.Proofs.Template.StatementRun
import BicepMigration.Template.Scanned

/-!
# Templates as statements

The lexemes of a template are newlines and runs of lexemes that make a statement each. Every run is balanced and
stands at the end of its line, and the span of its statement goes from its first token to its last one.
-/

namespace BicepMigration.Template

open Text

/-- Tokens of lexemes are parted as the lexemes are. -/
theorem tokensAt_eq_append {here : Cursor} {ls : List Lexeme} {a b : List Token} (h : tokensAt here ls = a ++ b) :
    ∃ x y, ls = x ++ y ∧ a = tokensAt here x ∧ b = tokensAt (here.advance (written x)) y := by
  induction a generalizing here ls with
  | nil => exact ⟨[], ls, rfl, rfl, h.symm⟩
  | cons t ts ih =>
    cases ls with
    | nil => simp at h
    | cons l ls =>
      obtain ⟨rfl, hrest⟩ := List.cons.inj h
      obtain ⟨x, y, rfl, rfl, rfl⟩ := ih hrest
      exact ⟨l :: x, y, rfl, rfl, by simp [Cursor.advance_append]⟩

/-- The first token is that of the first lexeme. -/
theorem tokensAt_eq_cons {here : Cursor} {ls : List Lexeme} {t : Token} {ts : List Token}
    (h : tokensAt here ls = t :: ts) :
    ∃ l rest, ls = l :: rest ∧ t = Token.ofChars l.kind (here.advance l.gap) l.text ∧
      ts = tokensAt (here.advance (l.gap ++ l.text)) rest := by
  cases ls with
  | nil => simp at h
  | cons l rest =>
    obtain ⟨rfl, rfl⟩ := List.cons.inj h
    exact ⟨l, rest, rfl, rfl, rfl⟩

/-- Every token is that of a lexeme. -/
theorem mem_tokensAt {here : Cursor} {ls : List Lexeme} {t : Token} (h : t ∈ tokensAt here ls) :
    ∃ l ∈ ls, l.kind = t.kind ∧ t.text = String.ofList l.text := by
  induction ls generalizing here with
  | nil => simp at h
  | cons l ls ih =>
    rcases List.mem_cons.1 h with rfl | h
    · exact ⟨l, by simp, rfl, rfl⟩
    · obtain ⟨m, hm, hk⟩ := ih h
      exact ⟨m, List.mem_cons_of_mem _ hm, hk⟩

/-- The last token of lexemes ends where they do. -/
theorem stop_getLast_tokensAt (here : Cursor) (first : Lexeme) (others : List Lexeme) :
    ((tokensAt (here.advance (first.gap ++ first.text)) others).getLast?.getD
      (Token.ofChars first.kind (here.advance first.gap) first.text)).span.stop =
      (runSpan here.offset first others).stop := by
  induction others generalizing here first with
  | nil => simp [runSpan, Token.ofChars, Cursor.advance_offset, Nat.add_assoc]
  | cons l ls ih =>
    have hl := ih (here.advance (first.gap ++ first.text)) l
    simp only [tokensAt]
    rw [List.getLast?_cons, Option.getD_some, hl]
    simp [runSpan, Cursor.advance_offset, Nat.add_assoc]

/-- A newline comes next, or nothing. -/
def AtLineEnd (ls : List Lexeme) : Prop := ∀ l, ls.head? = some l → l.kind = .newline

/-- Tokens stand at the end of a line if their lexemes do. -/
theorem atLineEnd_tokensAt {here : Cursor} {ls : List Lexeme} : atLineEnd (tokensAt here ls) = true ↔ AtLineEnd ls := by
  cases ls with
  | nil => simp [AtLineEnd, atLineEnd]
  | cons l ls => simp [AtLineEnd, atLineEnd, tokensAt, Token.ofChars]

/-- Lexemes that are read as one statement where they start, with others after them. -/
structure IsPiece (source : String) (here : Cursor) (first : Lexeme) (body rest : List Lexeme) (s : Statement) :
    Prop where
  first_ne : first.kind ≠ .newline
  balanced : Balanced ((first :: body).map (·.kind))
  ends : AtLineEnd rest
  reads : readStatement source (Token.ofChars first.kind (here.advance first.gap) first.text)
      (tokensAt (here.advance (first.gap ++ first.text)) (body ++ rest)) =
    (s, tokensAt (here.advance (written (first :: body))) rest)
  span : s.span = runSpan here.offset first body

/-- Lexemes that start at a place are read as statements. -/
inductive Pieces (source : String) : Cursor → List Lexeme → List Statement → Prop where
  /-- Newlines after the last statement. -/
  | done {here : Cursor} {ls : List Lexeme} : (∀ l ∈ ls, l.kind = .newline) → Pieces source here ls []
  /-- Newlines before a statement, the statement, and the others. -/
  | piece {here : Cursor} {blank : List Lexeme} {first : Lexeme} {body rest : List Lexeme} {s : Statement}
      {others : List Statement} :
      (∀ l ∈ blank, l.kind = .newline) → IsPiece source (here.advance (written blank)) first body rest s →
      Pieces source ((here.advance (written blank)).advance (written (first :: body))) rest others →
      Pieces source here (blank ++ first :: (body ++ rest)) (s :: others)

/-- The token before the end of lexemes is that of their last one. -/
theorem exists_last_lexeme {here : Cursor} {first : Lexeme} {body rest : List Lexeme} {before : List Token} {last : Token}
    (h : tokensAt here (first :: (body ++ rest)) =
      before ++ last :: tokensAt (here.advance (written (first :: body))) rest) :
    ∃ x l, first :: body = x ++ [l] ∧ l.kind = last.kind := by
  rw [← List.cons_append, tokensAt_append, List.append_cons] at h
  obtain ⟨x, y, hxy, -, hy⟩ := tokensAt_eq_append (List.append_cancel_right h)
  obtain ⟨l, others, rfl, rfl, hothers⟩ := tokensAt_eq_cons hy.symm
  cases others with
  | nil => exact ⟨x, l, hxy, rfl⟩
  | cons m ms => simp [tokensAt] at hothers

/-- A statement with a body ends with a close. -/
theorem IsPiece.exists_close {source : String} {here : Cursor} {first : Lexeme} {body rest : List Lexeme}
    {s : Statement} (h : IsPiece source here first body rest s) {entries : ObjectLiteral}
    (hb : s.body = some entries) :
    ∃ before close, first :: body = before ++ [close] ∧ close.kind.closes = true := by
  have hreads := h.reads
  have hbody := congrArg (fun r => r.1.body) hreads
  simp only [hb] at hbody
  obtain ⟨before, close, hall, hclose⟩ := Template.exists_close hbody
  rw [hreads] at hall
  obtain ⟨x, l, hrun, hkind⟩ := exists_last_lexeme hall
  exact ⟨x, l, hrun, hkind ▸ hclose⟩

/-- All tokens are of one kind if all lexemes are. -/
theorem forall_kind_tokensAt {here : Cursor} {ls : List Lexeme} {kind : TokenKind} :
    (∀ t ∈ tokensAt here ls, t.kind = kind) ↔ ∀ l ∈ ls, l.kind = kind := by
  have hk : (∀ k ∈ kinds (tokensAt here ls), k = kind) ↔ ∀ k ∈ ls.map (·.kind), k = kind := by
    rw [kinds_tokensAt]
  simpa [kinds] using hk

/-- Newlines are balanced. -/
theorem balanced_newlineLexemes {ls : List Lexeme} (h : ∀ l ∈ ls, l.kind = .newline) : Balanced (ls.map (·.kind)) := by
  rw [← kinds_tokensAt .origin]
  exact balanced_newlines (forall_kind_tokensAt.2 h)

/-- Every statement of a balanced template is read from lexemes of its own. -/
theorem Pieces.exists_piece {source : String} {here : Cursor} {ls : List Lexeme} {ss : List Statement} (h : Pieces source here ls ss)
    (hb : Balanced (ls.map (·.kind))) {s : Statement} (hs : s ∈ ss) :
    ∃ x first body rest, ls = x ++ first :: (body ++ rest) ∧
      IsPiece source (here.advance (written x)) first body rest s ∧
      Balanced ((first :: (body ++ rest)).map (·.kind)) := by
  induction h with
  | done => cases hs
  | @piece here blank first body rest t others hblank hpiece _ ih =>
    rw [List.map_append] at hb
    have hbhere : Balanced ((first :: (body ++ rest)).map (·.kind)) := hb.of_append (balanced_newlineLexemes hblank)
    rcases List.mem_cons.1 hs with rfl | hs
    · exact ⟨blank, first, body, rest, rfl, hpiece, hbhere⟩
    · rw [← List.cons_append, List.map_append] at hbhere
      obtain ⟨x, f, b, r, rfl, hp, hbp⟩ := ih (hbhere.of_append hpiece.balanced) hs
      refine ⟨blank ++ (first :: body ++ x), f, b, r, by simp, ?_, hbp⟩
      simpa [Cursor.advance_append] using hp

/-- A statement is read from the first of some lexemes, and the others come after it. -/
theorem exists_isPiece (source : String) {here : Cursor} {first : Lexeme} {others : List Lexeme}
    (hf : first.kind ≠ .newline) (hb : Balanced ((first :: others).map (·.kind))) :
    ∃ body rest, others = body ++ rest ∧
      IsPiece source here first body rest
        (readStatement source (Token.ofChars first.kind (here.advance first.gap) first.text)
          (tokensAt (here.advance (first.gap ++ first.text)) others)).1 := by
  rw [← kinds_tokensAt here] at hb
  obtain ⟨taken, after, htaken, hread, hspan, hrun, hend⟩ := exists_run source (by simpa using hf) hb
  obtain ⟨body, rest, rfl, rfl, hrest⟩ := tokensAt_eq_append htaken
  have hplace : (here.advance (first.gap ++ first.text)).advance (written body) =
      here.advance (written (first :: body)) := by
    simp [Cursor.advance_append]
  rw [hplace] at hrest
  subst hrest
  rw [stop_getLast_tokensAt] at hspan
  refine ⟨body, rest, rfl, hf, ?_, atLineEnd_tokensAt.1 hend, Prod.ext rfl hread, ?_⟩
  · rw [← kinds_tokensAt here]
    exact hrun
  · rw [hspan]
    simp [runSpan, Token.ofChars, Cursor.advance_offset]

/-- The statements of a template are read from its lexemes. -/
theorem pieces_readStatements (source : String) {here : Cursor} {ls : List Lexeme}
    (hb : Balanced (ls.map (·.kind))) : Pieces source here ls (readStatements source (tokensAt here ls)) := by
  obtain ⟨blank, hblank, hnl⟩ := exists_newlines (tokensAt here ls)
  obtain ⟨x, y, rfl, rfl, hy⟩ := tokensAt_eq_append hblank
  have hx := forall_kind_tokensAt.1 hnl
  rw [List.map_append] at hb
  have hby := hb.of_append (balanced_newlineLexemes hx)
  rw [readStatements]
  split
  · next h =>
    rw [h] at hy
    cases y with
    | nil =>
      rw [List.append_nil]
      exact .done hx
    | cons l ls => cases hy
  · next first others h =>
    have hf := head_skipNewlines h
    rw [h] at hy
    obtain ⟨l, after, rfl, rfl, rfl⟩ := tokensAt_eq_cons hy.symm
    obtain ⟨body, rest, rfl, hpiece⟩ := exists_isPiece source (by simpa using hf) hby
    rw [← List.cons_append, List.map_append] at hby
    have hrest : Pieces source ((here.advance (written x)).advance (written (l :: body))) rest _ :=
      pieces_readStatements source (hby.of_append hpiece.balanced)
    have hread := congrArg (·.2) hpiece.reads
    simp only at hread ⊢
    rw [hread]
    exact .piece hx hpiece hrest
termination_by ls.length

/-- Exactly the texts with a layout are templates, and their statements are read from the tokens of the layout. -/
theorem scan_eq_ok_iff {source : String} {template : ScannedTemplate} :
    scan source = .ok template ↔
      ∃ l : Layout, source.toList = l.chars ∧ template = ⟨source, l.tokens, readStatements source l.tokens⟩ := by
  unfold scan
  constructor
  · intro h
    cases ht : tokenize source with
    | error e => simp [ht, Except.map] at h
    | ok tokens =>
      obtain ⟨l, hl, rfl⟩ := tokenize_eq_ok_iff.1 ht
      exact ⟨l, hl, by simpa [ht, Except.map] using h.symm⟩
  · rintro ⟨l, hl, rfl⟩
    rw [tokenize_eq_ok_iff.2 ⟨l, hl, rfl⟩]
    rfl

/-- A text with a layout can be scanned. -/
theorem scan_of_layout {source : String} {l : Layout} (h : source.toList = l.chars) :
    scan source = .ok ⟨source, l.tokens, readStatements source l.tokens⟩ :=
  scan_eq_ok_iff.2 ⟨l, h, rfl⟩

end BicepMigration.Template
