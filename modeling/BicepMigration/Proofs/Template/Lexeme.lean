import BicepMigration.Proofs.Text.Slice
import BicepMigration.Template.Lexer

/-!
# Lexemes

A lexeme is a token together with the white space and comments before it. A template is the text of its
lexemes, followed by white space and comments. Which lexemes a text has depends on what follows a token: a
name ends only where no name can go on. The conditions here name at most the next two characters, so text
can be exchanged where the first character of what follows stays the same, or where a character follows
that ends every token.
-/

namespace BicepMigration.Template

open Text

/-- A token with the text before it that makes no token. -/
structure Lexeme where
  /-- White space and comments before the token. -/
  gap : List Char
  /-- What the token is. -/
  kind : TokenKind
  /-- The characters of the token. -/
  text : List Char

/-- A name as a lexeme. -/
def nameLexeme (name : String) : Lexeme := ⟨[], .identifier, name.toList⟩

instance : Inhabited Lexeme := ⟨nameLexeme ""⟩

/-- The text of lexemes. -/
def written : List Lexeme → List Char
  | [] => []
  | l :: ls => l.gap ++ (l.text ++ written ls)

/-- The text of lexemes without what stands before the first token. -/
def bare : List Lexeme → List Char
  | [] => []
  | l :: ls => l.text ++ written ls

/-- The tokens of lexemes that start at a place. -/
def tokensAt (here : Cursor) : List Lexeme → List Token
  | [] => []
  | l :: ls => Token.ofChars l.kind (here.advance l.gap) l.text :: tokensAt (here.advance (l.gap ++ l.text)) ls

/-- The span of lexemes that start at an offset, from the first token to the last one. -/
def runSpan (offset : Nat) (first : Lexeme) (others : List Lexeme) : Span :=
  ⟨offset + byteLength first.gap, offset + byteLength (written (first :: others))⟩

@[simp] theorem Token.ofChars_kind (kind : TokenKind) (here : Cursor) (text : List Char) :
    (Token.ofChars kind here text).kind = kind := rfl

@[simp] theorem Token.ofChars_text (kind : TokenKind) (here : Cursor) (text : List Char) :
    (Token.ofChars kind here text).text = String.ofList text := rfl

@[simp] theorem Token.ofChars_span (kind : TokenKind) (here : Cursor) (text : List Char) :
    (Token.ofChars kind here text).span = ⟨here.offset, here.offset + byteLength text⟩ := rfl

@[simp] theorem written_nil : written [] = [] := rfl

@[simp] theorem written_cons (l : Lexeme) (ls : List Lexeme) :
    written (l :: ls) = l.gap ++ (l.text ++ written ls) := rfl

@[simp] theorem bare_cons (l : Lexeme) (ls : List Lexeme) : bare (l :: ls) = l.text ++ written ls := rfl

@[simp] theorem written_append (a b : List Lexeme) : written (a ++ b) = written a ++ written b := by
  induction a with
  | nil => rfl
  | cons l ls ih => simp [ih]

@[simp] theorem tokensAt_nil (here : Cursor) : tokensAt here [] = [] := rfl

/-- The tokens of two runs come one after another, and the second run starts where the first one ends. -/
theorem tokensAt_append (here : Cursor) (a b : List Lexeme) :
    tokensAt here (a ++ b) = tokensAt here a ++ tokensAt (here.advance (written a)) b := by
  induction a generalizing here with
  | nil => rfl
  | cons l ls ih => simp [tokensAt, ih, Cursor.advance_append]

/-- Every lexeme makes one token. -/
@[simp] theorem length_tokensAt (here : Cursor) (ls : List Lexeme) : (tokensAt here ls).length = ls.length := by
  induction ls generalizing here with
  | nil => rfl
  | cons l ls ih => simp [tokensAt, ih]

/-- Tokens take characters, and each one ends before the next one starts. -/
theorem apart_tokensAt {ls : List Lexeme} (h : ∀ l ∈ ls, l.text ≠ []) (here : Cursor) :
    (tokensAt here ls).Pairwise (fun a b => a.span.stop ≤ b.span.start) ∧
      ∀ t ∈ tokensAt here ls, here.offset ≤ t.span.start ∧ t.span.start < t.span.stop := by
  induction ls generalizing here with
  | nil => simp
  | cons l ls ih =>
    obtain ⟨hp, hle⟩ := ih (fun m hm => h m (List.mem_cons_of_mem _ hm)) (here.advance (l.gap ++ l.text))
    have hpos := byteLength_pos (h l List.mem_cons_self)
    refine ⟨List.pairwise_cons.2 ⟨fun t ht => ?_, hp⟩, fun t ht => ?_⟩
    · have hstart := (hle t ht).1
      rw [Cursor.advance_offset, byteLength_append] at hstart
      simp only [Token.ofChars_span, Cursor.advance_offset]
      omega
    · rcases List.mem_cons.1 ht with rfl | ht
      · simp only [Token.ofChars_span, Cursor.advance_offset]
        omega
      · obtain ⟨hstart, hstop⟩ := hle t ht
        rw [Cursor.advance_offset] at hstart
        exact ⟨by omega, hstop⟩

/-- White space and comments, given the characters after them. -/
inductive IsGap : List Char → List Char → Prop where
  | nil {next : List Char} : IsGap [] next
  | blank {c : Char} {cs next : List Char} : c ≠ '\n' → isBlank c = true → IsGap cs next → IsGap (c :: cs) next
  | block {body cs next : List Char} : throughFirst ['*', '/'] body = some (body, []) → IsGap cs next →
      IsGap ('/' :: '*' :: (body ++ cs)) next
  | line {opening body next : List Char} : opening = ['#'] ∨ opening = ['/', '/'] → (∀ c ∈ body, c ≠ '\n') →
      (∀ c, next.head? = some c → c = '\n') → IsGap (opening ++ body) next

/-- A character that starts no other lexeme. -/
def IsMarkChar (c : Char) : Prop :=
  c ≠ '\n' ∧ isBlank c = false ∧ c ≠ '#' ∧ c ≠ '\'' ∧ c.isDigit = false ∧ isNameStart c = false ∧
    bracketOpenedBy c = none ∧ bracketClosedBy c = none

/-- A mark of one character or two. -/
def IsMark (kind : TokenKind) (text : List Char) : Prop :=
  ∃ c, IsMarkChar c ∧
    ((text = [c] ∧ markAt c none = (kind, 1)) ∨ ∃ d, text = [c, d] ∧ markAt c (some d) = (kind, 2))

/-- The characters can make a token of the kind. -/
def IsSpelled : TokenKind → List Char → Prop
  | .identifier, text => ∃ c cs, text = c :: cs ∧ isNameStart c = true ∧ ∀ d ∈ cs, isNamePart d = true
  | .number, text => ∃ c cs, text = c :: cs ∧ c.isDigit = true ∧ splitNumber cs = (cs, [])
  | .stringStart, text => text = ['\'']
  | .stringEnd, text => text = ['\'']
  | .stringText, text => text ≠ [] ∧ splitString (text ++ ['\'']) = some (text, ['\''])
  | .holeStart, text => text = ['$', '{']
  | .holeEnd, text => text = ['}']
  | .multilineString, text =>
    ∃ body, text = '\'' :: '\'' :: '\'' :: body ∧ throughFirst ['\'', '\'', '\''] body = some (body, [])
  | .braceOpen, text => text = ['{']
  | .braceClose, text => text = ['}']
  | .bracketOpen, text => text = ['[']
  | .bracketClose, text => text = [']']
  | .parenOpen, text => text = ['(']
  | .parenClose, text => text = [')']
  | .newline, text => text = ['\n']
  | kind, text => IsMark kind text

/-- The token goes on no further before the given characters. -/
def EndsAt (kind : TokenKind) (text rest : List Char) : Prop :=
  match kind with
  | .identifier => ∀ c, rest.head? = some c → isNamePart c = false
  | .number => splitNumber rest = ([], rest)
  | .stringStart => rest.take 2 ≠ ['\'', '\'']
  | .colon | .comma | .dot | .question | .atSign | .assign | .operator =>
    ∀ c, text = [c] → markAt c rest.head? = (kind, 1) ∧
      (c = '/' → rest.head? ≠ some '/' ∧ rest.head? ≠ some '*')
  | _ => True

namespace TokenKind

/-- The token stands inside a string. -/
def insideString : TokenKind → Bool
  | stringText | holeStart | stringEnd => true
  | _ => false

end TokenKind

/-- The characters of a lexeme make its token. Inside a string no characters are passed over. -/
def Lexeme.IsSpelled (l : Lexeme) : Prop :=
  Template.IsSpelled l.kind l.text ∧ (l.kind.insideString = true → l.gap = [])

/-- The lexemes can be told apart in their text, which the given characters follow. -/
def Legible : List Lexeme → List Char → Prop
  | [], _ => True
  | l :: ls, rest =>
    IsGap l.gap (l.text ++ (written ls ++ rest)) ∧ l.IsSpelled ∧ EndsAt l.kind l.text (written ls ++ rest) ∧
      Legible ls rest

/-- Two runs are legible together if the first one is before the second one. -/
theorem legible_append {a b : List Lexeme} {rest : List Char} :
    Legible (a ++ b) rest ↔ Legible a (written b ++ rest) ∧ Legible b rest := by
  induction a with
  | nil => simp [Legible]
  | cons l ls ih => simp [Legible, ih, and_assoc]

/-- A token has characters. -/
theorem text_ne_nil {kind : TokenKind} {text : List Char} (h : IsSpelled kind text) : text ≠ [] := by
  cases kind with
  | identifier | number =>
    obtain ⟨c, cs, rfl, -⟩ := h
    simp
  | stringText => exact h.1
  | multilineString =>
    obtain ⟨body, rfl, -⟩ := h
    simp
  | colon | comma | dot | question | atSign | assign | operator =>
    obtain ⟨c, -, ⟨rfl, -⟩ | ⟨d, rfl, -⟩⟩ := h <;> simp
  | _ =>
    simp only [IsSpelled] at h
    simp [h]

/-- No legible lexeme is empty. -/
theorem Legible.forall_ne_nil {ls : List Lexeme} {rest : List Char} (h : Legible ls rest) :
    ∀ l ∈ ls, l.text ≠ [] := by
  induction ls with
  | nil => simp
  | cons l ls ih =>
    obtain ⟨-, hs, -, hl⟩ := h
    intro m hm
    rcases List.mem_cons.1 hm with rfl | hm
    · exact text_ne_nil hs.1
    · exact ih hl m hm

/-- Legible lexemes are spelled as what they are. -/
theorem Legible.forall_spelled {ls : List Lexeme} {rest : List Char} (h : Legible ls rest) :
    ∀ l ∈ ls, IsSpelled l.kind l.text := by
  induction ls with
  | nil => simp
  | cons l ls ih =>
    obtain ⟨-, hs, -, hl⟩ := h
    intro m hm
    rcases List.mem_cons.1 hm with rfl | hm
    · exact hs.1
    · exact ih hl m hm

/-- A gap depends on the first character after it only. -/
theorem IsGap.of_head_eq {gap next next' : List Char} (h : IsGap gap next) (hh : next'.head? = next.head?) :
    IsGap gap next' := by
  induction h with
  | nil => exact .nil
  | blank hn hb _ ih => exact .blank hn hb (ih hh)
  | block ht _ ih => exact .block ht (ih hh)
  | line ho hb he => exact .line ho hb fun c hc => he c (hh ▸ hc)

/-- Blanks are a gap before anything. -/
theorem isGap_replicate (n : Nat) (next : List Char) : IsGap (List.replicate n ' ') next := by
  induction n with
  | zero => exact .nil
  | succ n ih => exact .blank (by decide) (by decide) ih

/-- A number starts with a digit, or with a point before a digit. -/
theorem splitNumber_eq_nil_iff {rest : List Char} :
    splitNumber rest = ([], rest) ↔
      ∀ c, rest.head? = some c → c.isDigit = false ∧
        (c = '.' → ∀ d, rest.tail.head? = some d → d.isDigit = false) := by
  match rest with
  | [] => simp [splitNumber]
  | [c] => by_cases h : c.isDigit = true <;> simp [splitNumber, h]
  | c :: d :: cs =>
    by_cases h : (c.isDigit || (c = '.' && d.isDigit)) = true
    · have hn : splitNumber (c :: d :: cs) ≠ ([], c :: d :: cs) := by
        rw [splitNumber, if_pos h]
        simp
      simp only [List.head?_cons, List.tail_cons, Option.some.injEq, forall_eq', hn, false_iff, not_and]
      intro hc hd
      simp [hc] at h
      simp [hd h.1] at h
    · rw [splitNumber, if_neg h]
      simp only [true_iff, List.head?_cons, List.tail_cons, Option.some.injEq, forall_eq']
      simp only [Bool.or_eq_true, Bool.and_eq_true, decide_eq_true_eq, not_or, not_and,
        Bool.not_eq_true] at h
      exact h

/-- Where a token ends is seen from the next two characters. -/
theorem EndsAt.of_take_eq {kind : TokenKind} {text rest rest' : List Char} (h : EndsAt kind text rest)
    (ht : rest'.take 2 = rest.take 2) : EndsAt kind text rest' := by
  have h₁ : rest'.head? = rest.head? := by
    rcases rest' with _ | ⟨_, _ | _⟩ <;> rcases rest with _ | ⟨_, _ | _⟩ <;> simp_all
  have h₂ : rest'.tail.head? = rest.tail.head? := by
    rcases rest' with _ | ⟨_, _ | _⟩ <;> rcases rest with _ | ⟨_, _ | _⟩ <;> simp_all
  cases kind <;> simp only [EndsAt] at h ⊢ <;> first
    | trivial
    | (rw [h₁]; exact h)
    | (rw [ht]; exact h)
    | (rw [splitNumber_eq_nil_iff] at h ⊢; rw [h₁, h₂]; exact h)

/-- Other text may follow a token in place of the given one. -/
def Follows (rest rest' : List Char) : Prop :=
  ∀ (before : List Char) (kind : TokenKind) (text : List Char), IsSpelled kind text →
    EndsAt kind text (before ++ rest) → EndsAt kind text (before ++ rest')

/-- Lexemes stay legible before another text that follows as well. -/
theorem Legible.of_follows {ls : List Lexeme} {rest rest' : List Char} (h : Legible ls rest)
    (hf : Follows rest rest') : Legible ls rest' := by
  induction ls with
  | nil => trivial
  | cons l ls ih =>
    obtain ⟨hg, hs, he, hl⟩ := h
    refine ⟨?_, hs, hf _ _ _ hs.1 he, ih hl⟩
    obtain ⟨c, cs, hc⟩ := List.exists_cons_of_ne_nil (text_ne_nil hs.1)
    refine hg.of_head_eq ?_
    simp [hc]

/-- The kinds of marks. -/
def markKinds : List TokenKind := [.colon, .comma, .dot, .atSign, .operator, .question, .assign]

/-- A character alone is a mark of some kind. Before another character it stays that mark, or both are an operator. -/
theorem markAt_cases (c : Char) (next : Option Char) :
    ∃ kind ∈ markKinds, markAt c none = (kind, 1) ∧
      (markAt c next = (kind, 1) ∨
        markAt c next = (.operator, 2) ∧ ∃ d ∈ ['=', '~', '?', '&', '|'], next = some d) := by
  have hequal (h : (next = some '=' || next = some '~') = true) : ∃ d ∈ ['=', '~', '?', '&', '|'], next = some d := by
    simp only [Bool.or_eq_true, decide_eq_true_eq] at h
    rcases h with rfl | rfl
    · exact ⟨'=', by simp, rfl⟩
    · exact ⟨'~', by simp, rfl⟩
  unfold markAt
  by_cases hcolon : c = ':'
  · simp only [if_pos hcolon]
    exact ⟨.colon, by decide, rfl, .inl rfl⟩
  simp only [if_neg hcolon]
  by_cases hcomma : c = ','
  · simp only [if_pos hcomma]
    exact ⟨.comma, by decide, rfl, .inl rfl⟩
  simp only [if_neg hcomma]
  by_cases hdot : c = '.'
  · simp only [if_pos hdot]
    exact ⟨.dot, by decide, rfl, .inl rfl⟩
  simp only [if_neg hdot]
  by_cases hat : c = '@'
  · simp only [if_pos hat]
    exact ⟨.atSign, by decide, rfl, .inl rfl⟩
  simp only [if_neg hat]
  by_cases hquestion : c = '?'
  · simp only [if_pos hquestion]
    refine ⟨.question, by decide, rfl, ?_⟩
    split
    · next h => exact .inr ⟨rfl, '?', by simp, h⟩
    · exact .inl rfl
  simp only [if_neg hquestion]
  by_cases hassign : c = '='
  · simp only [if_pos hassign]
    refine ⟨.assign, by decide, rfl, ?_⟩
    split
    · next h => exact .inr ⟨rfl, hequal h⟩
    · exact .inl rfl
  simp only [if_neg hassign]
  by_cases hcompare : (c = '!' || c = '<' || c = '>') = true
  · simp only [if_pos hcompare]
    refine ⟨.operator, by decide, rfl, ?_⟩
    split
    · next h => exact .inr ⟨rfl, hequal h⟩
    · exact .inl rfl
  simp only [if_neg hcompare]
  by_cases hlogic : (c = '&' || c = '|') = true
  · simp only [if_pos hlogic]
    refine ⟨.operator, by decide, rfl, ?_⟩
    split
    · next h =>
      simp only [Bool.or_eq_true, decide_eq_true_eq] at hlogic
      refine .inr ⟨rfl, c, ?_, h⟩
      rcases hlogic with rfl | rfl <;> simp
    · exact .inl rfl
  simp only [if_neg hlogic]
  exact ⟨.operator, by decide, rfl, .inl rfl⟩

/-- A character that goes on with no token. -/
def isStop (c : Char) : Bool :=
  !isNamePart c && !(['.', '\'', '=', '~', '?', '&', '|', '/', '*'].contains c)

/-- A mark of one character is one before a character that ends all marks. -/
theorem markAt_of_isStop {c d : Char} (hd : isStop d = true) {kind : TokenKind}
    (h : markAt c none = (kind, 1)) : markAt c (some d) = (kind, 1) := by
  obtain ⟨kind', -, hnone, hnext | ⟨-, e, he, hde⟩⟩ := markAt_cases c (some d)
  · rw [hnext, ← hnone, h]
  · obtain rfl := Option.some.inj hde
    simp only [isStop, Bool.and_eq_true, Bool.not_eq_true', List.contains_eq_mem, decide_eq_false_iff_not] at hd
    exact absurd (List.mem_of_mem_tail (List.mem_of_mem_tail (List.mem_append_left ['/', '*'] he))) hd.2

/-- Every token ends before a stop. -/
theorem endsAt_of_isStop {kind : TokenKind} {text rest : List Char} {c : Char} (hs : IsSpelled kind text)
    (hc : isStop c = true) : EndsAt kind text (c :: rest) := by
  have hc' := hc
  simp only [isStop, Bool.and_eq_true, Bool.not_eq_true', List.contains_eq_mem, decide_eq_false_iff_not,
    List.mem_cons, List.not_mem_nil, or_false, not_or] at hc'
  obtain ⟨hname, hdot, hquote, -, -, -, -, -, hslash, hstar⟩ := hc'
  cases kind with
  | identifier =>
    intro d hd
    simp only [List.head?_cons, Option.some.injEq] at hd
    rwa [← hd]
  | number =>
    refine splitNumber_eq_nil_iff.2 fun d hd => ?_
    simp only [List.head?_cons, Option.some.injEq] at hd
    subst hd
    refine ⟨?_, fun h => absurd h hdot⟩
    simp only [isNamePart, Char.isAlphanum, Bool.or_eq_false_iff] at hname
    exact hname.2.2
  | stringStart =>
    simp only [EndsAt, List.take_succ_cons, ne_eq, List.cons.injEq, not_and]
    exact fun h => absurd h hquote
  | colon | comma | dot | question | atSign | assign | operator =>
    intro d hd
    obtain ⟨e, -, ⟨he, hm⟩ | ⟨f, hf, -⟩⟩ := hs
    · rw [hd] at he
      simp only [List.cons.injEq, and_true] at he
      subst he
      refine ⟨markAt_of_isStop hc hm, fun _ => ?_⟩
      simp [hslash, hstar]
    · rw [hd] at hf
      simp at hf
  | _ => trivial

/-- A stop may come after any lexemes. -/
theorem follows_of_isStop {rest rest' : List Char} {c : Char} (hc : isStop c = true) :
    Follows rest (c :: rest') := by
  intro before kind text hs he
  match before with
  | [] => exact endsAt_of_isStop hs hc
  | [a] =>
    simp only [isStop, Bool.and_eq_true, Bool.not_eq_true', List.contains_eq_mem, decide_eq_false_iff_not,
      List.mem_cons, List.not_mem_nil, or_false, not_or] at hc
    obtain ⟨hname, -, hquote, -⟩ := hc
    cases kind with
    | identifier => exact he
    | number =>
      have hn := splitNumber_eq_nil_iff.1 he
      refine splitNumber_eq_nil_iff.2 fun d hd => ⟨(hn d hd).1, fun _ e hce => ?_⟩
      simp only [List.cons_append, List.nil_append, List.tail_cons, List.head?_cons, Option.some.injEq] at hce
      subst hce
      simp only [isNamePart, Char.isAlphanum, Bool.or_eq_false_iff] at hname
      exact hname.2.2
    | stringStart =>
      simp only [EndsAt, List.cons_append, List.nil_append, List.take_succ_cons, List.take_zero, ne_eq,
        List.cons.injEq, and_true, not_and]
      exact fun _ => hquote
    | colon | comma | dot | question | atSign | assign | operator => exact he
    | _ => trivial
  | a :: b :: before => exact he.of_take_eq rfl

/-- What follows a gap and the first character of a name may be exchanged. -/
theorem follows_of_isNameStart {gap rest rest' : List Char} {c : Char} (hc : isNameStart c = true) :
    Follows (gap ++ c :: rest) (gap ++ c :: rest') := by
  intro before kind text _ he
  rw [← List.append_assoc] at he ⊢
  match before ++ gap, he with
  | [], he =>
    cases kind with
    | number =>
      have hn := splitNumber_eq_nil_iff.1 he
      refine splitNumber_eq_nil_iff.2 fun d hd => ⟨(hn d hd).1, fun hdot => ?_⟩
      simp only [List.nil_append, List.head?_cons, Option.some.injEq] at hd
      subst hd
      subst hdot
      exact absurd hc (by decide)
    | stringStart =>
      simp only [EndsAt, List.nil_append, List.take_succ_cons, ne_eq, List.cons.injEq, not_and]
      rintro rfl
      exact absurd hc (by decide)
    | identifier | colon | comma | dot | question | atSign | assign | operator => exact he
    | _ => trivial
  | [a], he => exact he.of_take_eq rfl
  | a :: b :: before, he => exact he.of_take_eq rfl

end BicepMigration.Template
