/-!
# Glob patterns

A pattern over texts that are divided by slashes. A star stands for any characters of one part, a question
mark for one character, brackets for one of some characters or for none of them, and two stars that make up
a whole part for any number of parts. Letters of ASCII match without regard to case.
-/

namespace BicepMigration.Text.Glob

/-- What stands between brackets. -/
inductive Specifier where
  | single (c : Char)
  | range (low high : Char)
  deriving DecidableEq, Repr

/-- A piece of a pattern. -/
inductive Piece where
  | literal (c : Char)
  /-- One character. -/
  | anyChar
  /-- One of some characters. -/
  | within (specifiers : List Specifier)
  /-- One character that is none of some. -/
  | except (specifiers : List Specifier)
  /-- Any characters of one part. -/
  | sequence
  /-- Any number of parts. -/
  | recursive
  deriving DecidableEq, Repr

/-- Why a text is no pattern. -/
inductive Fault where
  /-- More than two stars in a row. -/
  | wildcards
  /-- Two stars do not make up a whole part. -/
  | recursiveWildcards
  /-- A bracket is not closed, or holds nothing. -/
  | range
  deriving DecidableEq, Repr

/-- A fault, and the number of characters before the place where it is reported. -/
structure Error where
  position : Nat
  fault : Fault
  deriving DecidableEq, Repr

/-- The wording of an error. -/
def Error.message (error : Error) : String :=
  "Pattern syntax error near position " ++ toString error.position ++ ": " ++
    match error.fault with
    | .wildcards => "wildcards are either regular \x60*\x60 or recursive \x60**\x60"
    | .recursiveWildcards => "recursive wildcards must form a single path component"
    | .range => "invalid range pattern"

/-- Reads what stands between brackets. -/
def specifiers : List Char → List Specifier
  | low :: '-' :: high :: rest => .range low high :: specifiers rest
  | c :: rest => .single c :: specifiers rest
  | [] => []

/-- The characters before the first closing bracket, and those after it. -/
def splitBracket : List Char → Option (List Char × List Char)
  | [] => none
  | c :: cs =>
    if c = ']' then some ([], cs)
    else (splitBracket cs).map fun (inside, rest) => (c :: inside, rest)

/-- Reads brackets from after the opening one: the piece, the number of characters, and what follows. The
first character inside is never the closing bracket. -/
def readBrackets (cs : List Char) : Option (Piece × Nat × List Char) :=
  match cs with
  | '!' :: c :: cs =>
    (splitBracket cs).map fun (inside, rest) => (.except (specifiers (c :: inside)), inside.length + 3, rest)
  | '!' :: [] => none
  | c :: cs =>
    (splitBracket cs).map fun (inside, rest) => (.within (specifiers (c :: inside)), inside.length + 2, rest)
  | [] => none

/-- A bracket takes at least the character that closes it. -/
theorem length_splitBracket_lt {cs inside rest : List Char} (h : splitBracket cs = some (inside, rest)) :
    rest.length < cs.length := by
  induction cs generalizing inside rest with
  | nil => simp [splitBracket] at h
  | cons c cs ih =>
    unfold splitBracket at h
    split at h
    · simp only [Option.some.injEq, Prod.mk.injEq] at h
      obtain ⟨-, rfl⟩ := h
      simp
    · obtain ⟨⟨a, b⟩, hb, he⟩ := Option.map_eq_some_iff.1 h
      simp only [Prod.mk.injEq] at he
      rw [← he.2]
      exact Nat.lt_succ_of_lt (ih hb)

/-- Reading a bracket takes characters. -/
theorem length_readBrackets_lt {cs rest : List Char} {piece : Piece} {count : Nat}
    (h : readBrackets cs = some (piece, count, rest)) : rest.length < cs.length := by
  unfold readBrackets at h
  split at h
  all_goals simp only [Option.map_eq_some_iff, Prod.mk.injEq, reduceCtorEq] at h
  all_goals
    obtain ⟨⟨_, _⟩, hb, -, -, rfl⟩ := h
    have := length_splitBracket_lt hb
    simp only [List.length_cons]
    omega

/-- Reads a pattern, given the number of characters before it and the last of them. -/
def readFrom (position : Nat) (previous : Option Char) (cs : List Char) : Except Error (List Piece) :=
  match cs with
  | [] => .ok []
  | '?' :: rest => (readFrom (position + 1) (some '?') rest).map (.anyChar :: ·)
  | '*' :: '*' :: '*' :: _ => .error ⟨position + 2, .wildcards⟩
  | '*' :: '*' :: rest =>
    if previous.all (· = '/') then
      match rest with
      | [] => .ok [.recursive]
      | '/' :: rest => (readFrom (position + 3) (some '/') rest).map (.recursive :: ·)
      | _ => .error ⟨position + 2, .recursiveWildcards⟩
    else .error ⟨position - 1, .recursiveWildcards⟩
  | '*' :: rest => (readFrom (position + 1) (some '*') rest).map (.sequence :: ·)
  | '[' :: inner =>
    match h : readBrackets inner with
    | none => .error ⟨position, .range⟩
    | some (piece, count, rest) =>
      have := length_readBrackets_lt h
      (readFrom (position + 1 + count) (some ']') rest).map (piece :: ·)
  | c :: rest => (readFrom (position + 1) (some c) rest).map (.literal c :: ·)
termination_by cs.length

/-- Reads a pattern. -/
def read (pattern : String) : Except Error (List Piece) :=
  readFrom 0 none pattern.toList

/-- The characters are equal, or the same letter of ASCII. -/
def sameLetter (c d : Char) : Bool := c.toLower = d.toLower

/-- A character is what a specifier says. -/
def Specifier.holds (specifier : Specifier) (c : Char) : Bool :=
  match specifier with
  | .single d => sameLetter c d
  | .range low high =>
    (low.isAlpha && high.isAlpha && c.toNat < 128 && low.toLower ≤ c.toLower && c.toLower ≤ high.toLower) ||
      (low ≤ c && c ≤ high)

/-- A piece matches a character. Nothing but a slash matches a slash. -/
def Piece.holds (piece : Piece) (c : Char) : Bool :=
  match piece with
  | .literal d => sameLetter c d
  | .anyChar => c ≠ '/'
  | .within specifiers => c ≠ '/' && specifiers.any (·.holds c)
  | .except specifiers => c ≠ '/' && !specifiers.any (·.holds c)
  | _ => false

/-- Some rest of the text holds, reached without passing a slash. -/
def anyInPart (holds : List Char → Bool) : List Char → Bool
  | [] => holds []
  | c :: cs => holds (c :: cs) || (c ≠ '/' && anyInPart holds cs)

/-- Some rest of the text right after a slash holds, or the end does. -/
def anyBelow (holds : List Char → Bool) : List Char → Bool
  | [] => holds []
  | c :: cs => (c = '/' && holds cs) || anyBelow holds cs

/-- A pattern matches the whole text. -/
def holds : List Piece → List Char → Bool
  | [], cs => cs.isEmpty
  | .sequence :: rest, cs => anyInPart (holds rest) cs
  | .recursive :: rest, cs => holds rest cs || anyBelow (holds rest) cs
  | piece :: rest, c :: cs => piece.holds c && holds rest cs
  | _ :: _, [] => false

end BicepMigration.Text.Glob
