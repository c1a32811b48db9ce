import BicepMigration.Text.Span

/-!
# Tokens of a template

A template is read as a flat list of tokens with byte spans. A string is cut into its text and its holes,
so that an identifier inside a hole is a token while a bracket inside the text is not. Newlines are tokens,
because they end statements and separate properties; comments and other white space are not.
-/

namespace BicepMigration.Template

open Text

/-- What a token is. -/
inductive TokenKind where
  /-- A name or keyword. -/
  | identifier
  /-- Digits, with points between digits. -/
  | number
  /-- The quote that opens a single-line string. -/
  | stringStart
  /-- Text between the quotes and holes of a single-line string. -/
  | stringText
  /-- The dollar sign and brace that open a hole. -/
  | holeStart
  /-- The brace that closes a hole. -/
  | holeEnd
  /-- The quote that closes a single-line string. -/
  | stringEnd
  /-- A whole string between triple quotes, which has no holes. -/
  | multilineString
  | braceOpen
  | braceClose
  | bracketOpen
  | bracketClose
  | parenOpen
  | parenClose
  | colon
  | comma
  | dot
  | question
  | atSign
  | assign
  /-- An operator, or any other character. -/
  | operator
  | newline
  deriving DecidableEq, Repr

namespace TokenKind

/-- The token opens a bracket or a hole. -/
def opens : TokenKind → Bool
  | braceOpen | bracketOpen | parenOpen | holeStart => true
  | _ => false

/-- The token closes a bracket or a hole. -/
def closes : TokenKind → Bool
  | braceClose | bracketClose | parenClose | holeEnd => true
  | _ => false

/-- Bracket depth after a token, from the depth before it. -/
def depthAfter (kind : TokenKind) (depth : Nat) : Nat :=
  if kind.opens then depth + 1 else if kind.closes then depth - 1 else depth

/-- The token separates the elements of an object or an array. -/
def separates : TokenKind → Bool
  | newline | comma => true
  | _ => false

/-- No token opens a bracket and closes one as well. -/
theorem not_closes_of_opens {kind : TokenKind} (h : kind.opens) : kind.closes = false := by
  cases kind <;> simp_all [opens, closes]

end TokenKind

/-- A token with its place. -/
structure Token where
  /-- What the token is. -/
  kind : TokenKind
  /-- The characters of the token. -/
  text : String
  /-- The bytes that the token covers. -/
  span : Span
  /-- Line of the first character, counted from one. -/
  line : Nat
  /-- Column of the first character in bytes, counted from one. -/
  column : Nat
  deriving DecidableEq, Repr

/-- The token made of the characters that start at a place. -/
def Token.ofChars (kind : TokenKind) (here : Cursor) (text : List Char) : Token :=
  ⟨kind, String.ofList text, ⟨here.offset, here.offset + byteLength text⟩, here.line, here.column⟩

/-- The token is an identifier spelled like the word. -/
def Token.isWord (token : Token) (word : String) : Bool :=
  token.kind = .identifier && token.text = word

/-- Tokens up to the first one of a class that stands outside brackets, and the tokens from there on. The
depth is the number of brackets open before the first token. -/
def breakOutside (stop : TokenKind → Bool) : Nat → List Token → List Token × List Token
  | _, [] => ([], [])
  | depth, t :: ts =>
    if depth = 0 && stop t.kind then ([], t :: ts)
    else
      let (inside, rest) := breakOutside stop (t.kind.depthAfter depth) ts
      (t :: inside, rest)

/-- Tokens are cut in two where the first part ends, and none is lost. -/
theorem breakOutside_append (stop : TokenKind → Bool) (depth : Nat) (ts : List Token) :
    (breakOutside stop depth ts).1 ++ (breakOutside stop depth ts).2 = ts := by
  induction ts generalizing depth with
  | nil => rfl
  | cons t ts ih =>
    unfold breakOutside
    split
    · rfl
    · simp [ih]

/-- Cutting tokens in two keeps their number. -/
theorem length_breakOutside (stop : TokenKind → Bool) (depth : Nat) (ts : List Token) :
    (breakOutside stop depth ts).1.length + (breakOutside stop depth ts).2.length = ts.length := by
  rw [← List.length_append, breakOutside_append]

/-- The second part starts with a token of the class. -/
theorem stop_of_breakOutside {stop : TokenKind → Bool} {depth : Nat} {ts us : List Token} {u : Token}
    (h : (breakOutside stop depth ts).2 = u :: us) : stop u.kind := by
  induction ts generalizing depth with
  | nil => simp [breakOutside] at h
  | cons t ts ih =>
    unfold breakOutside at h
    split at h
    · next hs =>
      simp only [List.cons.injEq] at h
      obtain ⟨rfl, -⟩ := h
      exact (Bool.and_eq_true_iff.1 hs).2
    · exact ih h

/-- Tokens up to the close of the bracket that stands open, and the tokens after that close. Nothing if it
is never closed. The depth is the number of further brackets open before the first token. -/
def breakAtClose : Nat → List Token → Option (List Token × Token × List Token)
  | _, [] => none
  | depth, t :: ts =>
    if depth = 0 && t.kind.closes then some ([], t, ts)
    else (breakAtClose (t.kind.depthAfter depth) ts).map fun (inside, close, rest) => (t :: inside, close, rest)

/-- The tokens in a bracket, its close, and those after it are all tokens. -/
theorem breakAtClose_append {depth : Nat} {ts inside rest : List Token} {close : Token}
    (h : breakAtClose depth ts = some (inside, close, rest)) : inside ++ close :: rest = ts := by
  induction ts generalizing depth inside with
  | nil => simp [breakAtClose] at h
  | cons t ts ih =>
    unfold breakAtClose at h
    split at h
    · simp only [Option.some.injEq, Prod.mk.injEq] at h
      obtain ⟨rfl, rfl, rfl⟩ := h
      rfl
    · obtain ⟨⟨a, b, c⟩, hr, he⟩ := Option.map_eq_some_iff.1 h
      simp only [Prod.mk.injEq] at he
      obtain ⟨rfl, rfl, rfl⟩ := he
      simp [ih hr]

end BicepMigration.Template
