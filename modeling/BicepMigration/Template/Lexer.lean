import BicepMigration.Text.Blank
import BicepMigration.Template.Token
import BicepMigration.Template.ScanError

/-!
# Reading tokens

The reader takes one lexeme at a time from the characters that are left: the longest one that can start
there. It keeps the place it has reached and the brackets that stand open. Inside a string it reads up to
the next hole or to the closing quote. Main statement: each step leaves fewer characters, so reading ends.
-/

namespace BicepMigration.Template

open Text

/-- A bracket that stands open, with the place of its opening mark. -/
structure OpenBracket where
  bracket : Bracket
  line : Nat
  column : Nat
  deriving DecidableEq, Repr

/-- Whether the next characters are code or the text of a single-line string. -/
inductive LexMode where
  | code
  | string
  deriving DecidableEq, Repr

/-- Where the reader stands. -/
structure LexState where
  /-- How to read the next characters. -/
  mode : LexMode
  /-- The place of the next character. -/
  here : Cursor
  /-- Brackets that stand open, the innermost first. -/
  opened : List OpenBracket
  /-- The characters that are left. -/
  rest : List Char

/-- A character that can start an identifier. -/
def isNameStart (c : Char) : Bool :=
  c = '_' || c.isAlpha

/-- A character that can continue an identifier. -/
def isNamePart (c : Char) : Bool :=
  c = '_' || c.isAlphanum

/-- Characters up to and with the first occurrence of a mark, and the characters after it. -/
def throughFirst (mark : List Char) : List Char → Option (List Char × List Char)
  | [] => if mark.isPrefixOf [] then some (mark, []) else none
  | c :: cs =>
    if mark.isPrefixOf (c :: cs) then some (mark, (c :: cs).drop mark.length)
    else (throughFirst mark cs).map fun (text, rest) => (c :: text, rest)

/-- The digits at the start, with the points that have a digit after them, and the characters after those. -/
def splitNumber : List Char → List Char × List Char
  | [] => ([], [])
  | [c] => if c.isDigit then ([c], []) else ([], [c])
  | c :: d :: cs =>
    if c.isDigit || (c = '.' && d.isDigit) then
      let (digits, rest) := splitNumber (d :: cs)
      (c :: digits, rest)
    else ([], c :: d :: cs)

/-- The text of a single-line string up to its closing quote or its next hole, and the characters from
there on. A backslash keeps the character after it in the text. Nothing if the line or the input ends
before. -/
def splitString : List Char → Option (List Char × List Char)
  | [] => none
  | [c] => if c = '\'' then some ([], [c]) else none
  | c :: d :: cs =>
    if c = '\'' || (c = '$' && d = '{') then some ([], c :: d :: cs)
    else if c = '\n' then none
    else if c = '\\' then
      if d = '\n' then none else (splitString cs).map fun (text, rest) => (c :: d :: text, rest)
    else (splitString (d :: cs)).map fun (text, rest) => (c :: text, rest)

/-- The bracket that a mark opens. -/
def bracketOpenedBy (c : Char) : Option (Bracket × TokenKind) :=
  if c = '{' then some (.brace, .braceOpen)
  else if c = '[' then some (.square, .bracketOpen)
  else if c = '(' then some (.round, .parenOpen)
  else none

/-- The bracket that a mark closes outside a hole. -/
def bracketClosedBy (c : Char) : Option (Bracket × TokenKind) :=
  if c = '}' then some (.brace, .braceClose)
  else if c = ']' then some (.square, .bracketClose)
  else if c = ')' then some (.round, .parenClose)
  else none

/-- The kind and the number of characters of a mark, from its first character and the one after it. A
character that means nothing else is an operator by itself. -/
def markAt (c : Char) (next : Option Char) : TokenKind × Nat :=
  if c = ':' then (.colon, 1)
  else if c = ',' then (.comma, 1)
  else if c = '.' then (.dot, 1)
  else if c = '@' then (.atSign, 1)
  else if c = '?' then if next = some '?' then (.operator, 2) else (.question, 1)
  else if c = '=' then if next = some '=' || next = some '~' then (.operator, 2) else (.assign, 1)
  else if c = '!' || c = '<' || c = '>' then
    (.operator, if next = some '=' || next = some '~' then 2 else 1)
  else if c = '&' || c = '|' then (.operator, if next = some c then 2 else 1)
  else (.operator, 1)

/-- The state after passing over characters that make no token. -/
def LexState.skip (s : LexState) (text rest : List Char) : LexState :=
  { s with here := s.here.advance text, rest := rest }

/-- One token, and the state after it. -/
def LexState.emit (s : LexState) (kind : TokenKind) (text rest : List Char) : List Token × LexState :=
  ([Token.ofChars kind s.here text], s.skip text rest)

/-- An error at the place that the reader has reached. -/
def LexState.fail {α : Type} (s : LexState) (fault : ScanFault) : Except ScanError α :=
  .error ⟨s.here.line, s.here.column, fault⟩

/-- Reads the lexeme that starts with `c` in code. -/
def codeStep (s : LexState) (c : Char) (cs : List Char) : Except ScanError (List Token × LexState) :=
  if c = '\n' then .ok (s.emit .newline [c] cs)
  else if isBlank c then .ok ([], s.skip [c] cs)
  else if c = '#' || (c = '/' && cs.head? = some '/') then
    .ok ([], s.skip (c :: cs.takeWhile (· ≠ '\n')) (cs.dropWhile (· ≠ '\n')))
  else if c = '/' && cs.head? = some '*' then
    match throughFirst ['*', '/'] cs.tail with
    | none => s.fail .openComment
    | some (text, rest) => .ok ([], s.skip (c :: '*' :: text) rest)
  else if c = '\'' then
    if cs.take 2 = ['\'', '\''] then
      match throughFirst ['\'', '\'', '\''] (cs.drop 2) with
      | none => s.fail .openMultilineString
      | some (text, rest) => .ok (s.emit .multilineString (c :: '\'' :: '\'' :: text) rest)
    else .ok ({ s with mode := .string }.emit .stringStart [c] cs)
  else if c.isDigit then
    let (digits, rest) := splitNumber cs
    .ok (s.emit .number (c :: digits) rest)
  else if isNameStart c then .ok (s.emit .identifier (c :: cs.takeWhile isNamePart) (cs.dropWhile isNamePart))
  else
    match bracketOpenedBy c with
    | some (bracket, kind) =>
      .ok ({ s with opened := ⟨bracket, s.here.line, s.here.column⟩ :: s.opened }.emit kind [c] cs)
    | none =>
      match bracketClosedBy c with
      | some (bracket, kind) =>
        match s.opened with
        | [] => s.fail (.unexpected c)
        | opened :: outer =>
          if c = '}' && opened.bracket = .hole then
            .ok ({ s with mode := .string, opened := outer }.emit .holeEnd [c] cs)
          else if opened.bracket = bracket then .ok ({ s with opened := outer }.emit kind [c] cs)
          else s.fail (.mismatched c opened.bracket opened.line opened.column)
      | none =>
        let (kind, count) := markAt c cs.head?
        .ok (s.emit kind (c :: cs.take (count - 1)) (cs.drop (count - 1)))

/-- Reads the text of a string, if there is any, and the quote or the hole that ends it. -/
def stringStep (s : LexState) : Except ScanError (List Token × LexState) :=
  match splitString s.rest with
  | none => s.fail .openString
  | some (text, rest) =>
    let before := if text = [] then [] else [Token.ofChars .stringText s.here text]
    let s := { s.skip text rest with mode := .code }
    let (mark, after) :=
      if rest.head? = some '$' then
        { s with opened := ⟨.hole, s.here.line, s.here.column⟩ :: s.opened }.emit .holeStart
          (rest.take 2) (rest.drop 2)
      else s.emit .stringEnd (rest.take 1) (rest.drop 1)
    .ok (before ++ mark, after)

/-- Reads the next lexeme, if any character is left. -/
def LexState.step (s : LexState) : Option (Except ScanError (List Token × LexState)) :=
  match s.mode, s.rest with
  | .string, _ => some (stringStep s)
  | .code, [] => none
  | .code, c :: cs => some (codeStep s c cs)

/-- A text is cut in two at the end of a mark, and nothing of it is lost. -/
theorem throughFirst_append {mark cs text rest : List Char} (h : throughFirst mark cs = some (text, rest)) :
    text ++ rest = cs := by
  induction cs generalizing text with
  | nil =>
    unfold throughFirst at h
    split at h
    · next hp =>
      simp only [Option.some.injEq, Prod.mk.injEq] at h
      obtain ⟨rfl, rfl⟩ := h
      simpa using hp
    · simp at h
  | cons c cs ih =>
    unfold throughFirst at h
    split at h
    · next hp =>
      simp only [Option.some.injEq, Prod.mk.injEq] at h
      obtain ⟨rfl, rfl⟩ := h
      obtain ⟨t, ht⟩ := List.isPrefixOf_iff_prefix.1 hp
      rw [← ht]
      simp
    · obtain ⟨⟨a, b⟩, hr, he⟩ := Option.map_eq_some_iff.1 h
      simp only [Prod.mk.injEq] at he
      obtain ⟨rfl, rfl⟩ := he
      simp [ih hr]

/-- A number and what follows it are the whole text. -/
theorem splitNumber_append (cs : List Char) : (splitNumber cs).1 ++ (splitNumber cs).2 = cs := by
  fun_induction splitNumber cs <;> simp_all

/-- The text of a string and what follows it are the whole text. -/
theorem splitString_append {cs text rest : List Char} (h : splitString cs = some (text, rest)) :
    text ++ rest = cs := by
  fun_induction splitString cs generalizing text <;> simp_all <;> grind

/-- The text of a string ends before its closing quote or before a hole. -/
theorem splitString_rest_ne_nil {cs text rest : List Char} (h : splitString cs = some (text, rest)) :
    rest ≠ [] := by
  fun_induction splitString cs generalizing text <;> simp_all <;> grind

/-- Passing over characters leaves no more of them. -/
theorem length_dropWhile_le (p : Char → Bool) (cs : List Char) : (cs.dropWhile p).length ≤ cs.length :=
  (List.dropWhile_sublist p).length_le

/-- A step in code takes at least one character. -/
theorem codeStep_length_lt {s after : LexState} {c : Char} {cs : List Char} {ts : List Token}
    (h : codeStep s c cs = .ok (ts, after)) : after.rest.length < cs.length + 1 := by
  have hd := length_dropWhile_le (· ≠ '\n') cs
  have hn := length_dropWhile_le isNamePart cs
  unfold codeStep at h
  repeat' split at h
  all_goals
    simp only [LexState.emit, LexState.skip, LexState.fail, Except.ok.injEq, Prod.mk.injEq, reduceCtorEq] at h
  all_goals obtain ⟨-, rfl⟩ := h
  all_goals try (simp only [List.length_drop]; omega)
  · have hb := congrArg List.length (throughFirst_append ‹_›)
    simp only [List.length_append, List.length_tail] at hb ⊢
    omega
  · have hb := congrArg List.length (throughFirst_append ‹_›)
    simp only [List.length_append, List.length_drop] at hb ⊢
    omega
  · have hb := congrArg List.length (splitNumber_append cs)
    simp_all only [List.length_append]
    omega

/-- A step in a string takes at least one character. -/
theorem stringStep_length_lt {s after : LexState} {ts : List Token}
    (h : stringStep s = .ok (ts, after)) : after.rest.length < s.rest.length := by
  unfold stringStep at h
  split at h
  · simp [LexState.fail] at h
  · next text rest hs =>
    have hb := congrArg List.length (splitString_append hs)
    have hr := List.length_pos_iff.2 (splitString_rest_ne_nil hs)
    simp only [List.length_append] at hb
    simp only [LexState.emit, LexState.skip, Except.ok.injEq, Prod.mk.injEq] at h
    obtain ⟨-, rfl⟩ := h
    split <;>
    · simp only [List.length_drop]
      omega

/-- A step takes at least one character. -/
theorem LexState.length_step_lt {s after : LexState} {ts : List Token}
    (h : s.step = some (.ok (ts, after))) : after.rest.length < s.rest.length := by
  unfold LexState.step at h
  split at h
  · exact stringStep_length_lt (Option.some.inj h)
  · simp at h
  · next hr =>
    rw [hr]
    exact codeStep_length_lt (Option.some.inj h)

/-- The tokens from a state on. Nothing may stand open at the end. -/
def LexState.tokens (s : LexState) : Except ScanError (List Token) :=
  match h : s.step with
  | none =>
    match s.opened with
    | [] => .ok []
    | o :: _ => .error ⟨o.line, o.column, .unclosed o.bracket⟩
  | some (.error e) => .error e
  | some (.ok (ts, after)) =>
    have := LexState.length_step_lt h
    after.tokens.map (ts ++ ·)
termination_by s.rest.length

/-- The character that may mark a text as Unicode at its start. -/
def byteOrderMark : Char := '\uFEFF'

/-- The state before the first character. A byte-order mark at the start is passed over, and columns of
the first line are counted after it. -/
def LexState.initial (cs : List Char) : LexState :=
  match cs with
  | [] => ⟨.code, .origin, [], []⟩
  | c :: rest =>
    if c = byteOrderMark then ⟨.code, { Cursor.origin with offset := c.utf8Size }, [], rest⟩
    else ⟨.code, .origin, [], c :: rest⟩

/-- The tokens of a template. -/
def tokenize (source : String) : Except ScanError (List Token) :=
  (LexState.initial source.toList).tokens

end BicepMigration.Template
