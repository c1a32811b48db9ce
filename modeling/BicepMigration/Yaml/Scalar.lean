import BicepMigration.Text.Hexadecimal

/-!
# Scalars of YAML

The characters of a scalar are read one by one, with the place that has been reached and the white space
that is still pending. Line breaks fold: a single one becomes a space, and of more than one the first is
dropped. In quotes, and between the words of a plain scalar, white space around a break is dropped too. A
literal block keeps its breaks.
-/

namespace BicepMigration.Yaml

open Text

/-- A place in a text. -/
structure Place where
  /-- Characters before it. -/
  index : Nat
  /-- Line breaks before it. -/
  line : Nat
  /-- Characters since the last break. -/
  column : Nat
  deriving DecidableEq, Repr

namespace Place

/-- The place before the first character. -/
def origin : Place := ⟨0, 0, 0⟩

/-- The place so many characters on in the same line. -/
def step (p : Place) (count : Nat) : Place := ⟨p.index + count, p.line, p.column + count⟩

/-- The place after a break of so many characters. -/
def newLine (p : Place) (count : Nat) : Place := ⟨p.index + count, p.line + 1, 0⟩

end Place

/-- A character that breaks a line. -/
def isBreak (c : Char) : Bool :=
  c = '\n' || c = '\r' || c = '\u0085' || c = '\u2028' || c = '\u2029'

/-- A space or a tab. -/
def isSpace (c : Char) : Bool := c = ' ' || c = '\t'

/-- The text has ended, or a space, a tab or a break comes next. -/
def atGap (cs : List Char) : Bool := cs.head?.all fun c => isSpace c || isBreak c

/-- A break as it is kept in a text. -/
def breakText (c : Char) : List Char :=
  if c = '\u2028' || c = '\u2029' then [c] else ['\n']

/-- The mark of a document comes next. -/
def startsDocument (cs : List Char) : Bool :=
  (cs.take 3 = ['-', '-', '-'] || cs.take 3 = ['.', '.', '.']) && atGap (cs.drop 3)

/-- White space that has been read and may turn out to be part of a text. -/
inductive Gap where
  | none
  /-- Spaces and tabs. -/
  | spaces (text : List Char)
  /-- Breaks: the first one and the others. -/
  | breaks (first others : List Char)
  deriving DecidableEq, Repr

namespace Gap

/-- The gap with one more space or tab. -/
def addSpace (c : Char) : Gap → Gap
  | none => spaces [c]
  | spaces text => spaces (text ++ [c])
  | breaks first others => breaks first others

/-- The gap with one more break. -/
def addBreak (text : List Char) : Gap → Gap
  | breaks first others => breaks first (others ++ text)
  | _ => breaks text []

/-- The gap holds a break. -/
def isBroken : Gap → Bool
  | breaks _ _ => true
  | _ => false

/-- What the gap is inside a text. -/
def text : Gap → List Char
  | none => []
  | spaces text => text
  | breaks first others =>
    if first = ['\n'] then if others = [] then [' '] else others else first ++ others

end Gap

/-- Text that was read, what follows it, and the place there. -/
structure Taken where
  text : List Char
  rest : List Char
  place : Place

/-- The result with characters before the text. -/
def Taken.after (front : List Char) (t : Taken) : Taken := { t with text := front ++ t.text }

/-- Reads a text in single quotes from after the opening one. Two quotes stand for one. -/
def singleQuoted (p : Place) (gap : Gap) : List Char → Option Taken
  | [] => none
  | '\r' :: '\n' :: cs => singleQuoted (p.newLine 2) (gap.addBreak ['\n']) cs
  | '\'' :: '\'' :: cs => (singleQuoted (p.step 2) .none cs).map (·.after (gap.text ++ ['\'']))
  | c :: cs =>
    if isSpace c then singleQuoted (p.step 1) (gap.addSpace c) cs
    else if isBreak c then singleQuoted (p.newLine 1) (gap.addBreak (breakText c)) cs
    else if c = '\'' then some ⟨gap.text, cs, p.step 1⟩
    else if p.column = 0 && startsDocument (c :: cs) then none
    else (singleQuoted (p.step 1) .none cs).map (·.after (gap.text ++ [c]))

/-- The character that a backslash and a single character stand for. -/
def escape? (c : Char) : Option Char :=
  [('0', '\x00'), ('a', '\x07'), ('b', '\x08'), ('t', '\t'), ('\t', '\t'), ('n', '\n'), ('v', '\x0B'),
    ('f', '\x0C'), ('r', '\r'), ('e', '\x1B'), (' ', ' '), ('"', '"'), ('/', '/'), ('\\', '\\'),
    ('N', '\u0085'), ('_', '\u00A0'), ('L', '\u2028'), ('P', '\u2029')].lookup c

/-- Reads a text in double quotes from after the opening one. A backslash before a break takes the break and
the spaces after it away. -/
def doubleQuoted (p : Place) (gap : Gap) : List Char → Option Taken
  | [] => none
  | '\r' :: '\n' :: cs => doubleQuoted (p.newLine 2) (gap.addBreak ['\n']) cs
  | '\\' :: '\r' :: '\n' :: cs => (doubleQuoted (p.newLine 3) (.breaks [] []) cs).map (·.after gap.text)
  | '\\' :: 'x' :: a :: b :: cs => do
    let c ← charOfHex? [a, b]
    (doubleQuoted (p.step 4) .none cs).map (·.after (gap.text ++ [c]))
  | '\\' :: 'u' :: a :: b :: d :: e :: cs => do
    let c ← charOfHex? [a, b, d, e]
    (doubleQuoted (p.step 6) .none cs).map (·.after (gap.text ++ [c]))
  | '\\' :: 'U' :: a :: b :: d :: e :: f :: g :: h :: i :: cs => do
    let c ← charOfHex? [a, b, d, e, f, g, h, i]
    (doubleQuoted (p.step 10) .none cs).map (·.after (gap.text ++ [c]))
  | '\\' :: c :: cs =>
    if isBreak c then (doubleQuoted (p.newLine 2) (.breaks [] []) cs).map (·.after gap.text)
    else
      match escape? c with
      | none => none
      | some d => (doubleQuoted (p.step 2) .none cs).map (·.after (gap.text ++ [d]))
  | c :: cs =>
    if isSpace c then doubleQuoted (p.step 1) (gap.addSpace c) cs
    else if isBreak c then doubleQuoted (p.newLine 1) (gap.addBreak (breakText c)) cs
    else if c = '"' then some ⟨gap.text, cs, p.step 1⟩
    else if p.column = 0 && startsDocument (c :: cs) then none
    else (doubleQuoted (p.step 1) .none cs).map (·.after (gap.text ++ [c]))

/-- A bracket or a comma. -/
def isFlowMark (c : Char) : Bool :=
  c = ',' || c = '[' || c = ']' || c = '{' || c = '}'

/-- A plain scalar, and whether it is followed by a break. -/
structure TakenPlain extends Taken where
  broken : Bool

/-- A plain scalar ends before these characters, which stand right after a gap. -/
def endsAfterGap (flow : Bool) (indent : Nat) (p : Place) (cs : List Char) : Bool :=
  (!flow && p.column < indent) || (p.column = 0 && startsDocument cs) || cs.head? = some '#'

/-- A plain scalar ends before these characters. -/
def endsPlain (flow : Bool) : List Char → Bool
  | [] => true
  | c :: cs => (c = ':' && atGap cs) || (flow && isFlowMark c)

/-- A colon before a bracket, a comma or a question mark inside brackets. -/
def isStrayColon (flow : Bool) : List Char → Bool
  | ':' :: c :: _ => flow && (isFlowMark c || c = '?')
  | _ => false

/-- Reads a plain scalar whose lines are indented at least so far. -/
def plainScalar (flow : Bool) (indent : Nat) (p : Place) (gap : Gap) : List Char → Option TakenPlain
  | [] => some ⟨⟨[], [], p⟩, gap.isBroken⟩
  | '\r' :: '\n' :: cs => plainScalar flow indent (p.newLine 2) (gap.addBreak ['\n']) cs
  | c :: cs =>
    if isSpace c then
      if gap.isBroken && p.column < indent && c = '\t' then none
      else plainScalar flow indent (p.step 1) (gap.addSpace c) cs
    else if isBreak c then plainScalar flow indent (p.newLine 1) (gap.addBreak (breakText c)) cs
    else if gap ≠ .none && endsAfterGap flow indent p (c :: cs) then some ⟨⟨[], c :: cs, p⟩, gap.isBroken⟩
    else if isStrayColon flow (c :: cs) then none
    else if endsPlain flow (c :: cs) then some ⟨⟨[], c :: cs, p⟩, gap.isBroken⟩
    else
      (plainScalar flow indent (p.step 1) .none cs).map fun t =>
        { t with text := gap.text ++ c :: t.text }

/-- What becomes of the breaks at the end of a block scalar. -/
inductive Chomping where
  /-- None stays. -/
  | strip
  /-- The first one stays. -/
  | clip
  /-- All stay. -/
  | keep
  deriving DecidableEq, Repr

/-- The marks after the sign of a block scalar. -/
structure BlockHeader where
  chomping : Chomping
  /-- How much further the lines are indented than the block around them; absent if the first line tells. -/
  increment : Option Nat

/-- What a sign means for the breaks at the end. -/
def chompingOf? (c : Char) : Option Chomping :=
  if c = '+' then some .keep else if c = '-' then some .strip else none

/-- A digit other than zero. -/
def incrementOf? (c : Char) : Option Nat :=
  if c.isDigit && c ≠ '0' then some (c.toNat - '0'.toNat) else none

/-- Reads the marks after the sign of a block scalar: a digit and a sign in either order, or one of them, or
none. Gives the number of characters taken. -/
def blockHeader (cs : List Char) : BlockHeader × Nat :=
  match cs with
  | [] => (⟨.clip, none⟩, 0)
  | [a] =>
    match chompingOf? a, incrementOf? a with
    | some chomping, _ => (⟨chomping, none⟩, 1)
    | none, some n => (⟨.clip, some n⟩, 1)
    | none, none => (⟨.clip, none⟩, 0)
  | a :: b :: _ =>
    match chompingOf? a, incrementOf? a with
    | some chomping, _ =>
      match incrementOf? b with
      | some n => (⟨chomping, some n⟩, 2)
      | none => (⟨chomping, none⟩, 1)
    | none, some n =>
      match chompingOf? b with
      | some chomping => (⟨chomping, some n⟩, 2)
      | none => (⟨.clip, some n⟩, 1)
    | none, none => (⟨.clip, none⟩, 0)

/-- Where the reader of a block scalar stands. -/
structure BlockState where
  /-- The indentation of the lines; zero until it is known. -/
  indent : Nat
  /-- The least indentation that the first line may show. -/
  least : Nat
  /-- The widest indentation of the lines seen so far, as long as it is not known. -/
  widest : Nat
  /-- The characters of a line come next, and not its indentation. -/
  inLine : Bool
  /-- The break at the end of the last line. -/
  lastBreak : List Char
  /-- Breaks of empty lines after that. -/
  emptyLines : List Char
  /-- The last line starts with a space. -/
  leadingSpace : Bool
  place : Place

namespace BlockState

/-- Indentation is still to be taken. -/
def inIndent (s : BlockState) : Bool := s.indent = 0 || s.place.column < s.indent

/-- The state after a line break. -/
def breakLine (s : BlockState) (text : List Char) (count : Nat) : BlockState :=
  if s.inLine then
    { s with inLine := false, lastBreak := text, emptyLines := [], place := s.place.newLine count }
  else
    { s with
      emptyLines := s.emptyLines ++ text
      widest := max s.widest s.place.column
      place := s.place.newLine count }

/-- The indentation of the lines, where the first character after it is reached. -/
def settle (s : BlockState) : BlockState :=
  if s.indent = 0 then { s with indent := max (max s.widest s.place.column) s.least } else s

/-- What stands between the last line and the next one, which starts with a character. -/
def joint (literal : Bool) (s : BlockState) (c : Char) : List Char :=
  if !literal && s.lastBreak = ['\n'] && !s.leadingSpace && !isSpace c then
    if s.emptyLines = [] then [' '] else s.emptyLines
  else s.lastBreak ++ s.emptyLines

/-- The breaks that stay at the end. -/
def ending (chomping : Chomping) (s : BlockState) : List Char :=
  match chomping with
  | .strip => []
  | .clip => s.lastBreak
  | .keep => s.lastBreak ++ s.emptyLines

end BlockState

/-- Reads the lines of a block scalar. -/
def blockScalar (literal : Bool) (chomping : Chomping) (s : BlockState) : List Char → Option Taken
  | [] => some ⟨s.ending chomping, [], s.place⟩
  | '\r' :: '\n' :: cs => blockScalar literal chomping (s.breakLine ['\n'] 2) cs
  | c :: cs =>
    if isBreak c then blockScalar literal chomping (s.breakLine (breakText c) 1) cs
    else if s.inLine then
      (blockScalar literal chomping { s with place := s.place.step 1 } cs).map (·.after [c])
    else if s.inIndent && c = ' ' then blockScalar literal chomping { s with place := s.place.step 1 } cs
    else if s.inIndent && c = '\t' then none
    else
      let s := s.settle
      if s.place.column = s.indent then
        let started : BlockState :=
          { s with
            inLine := true, lastBreak := [], emptyLines := [], leadingSpace := isSpace c
            place := s.place.step 1 }
        (blockScalar literal chomping started cs).map (·.after (s.joint literal c ++ [c]))
      else some ⟨s.ending chomping, c :: cs, s.place⟩

end BicepMigration.Yaml
