import BicepMigration.Text.Hexadecimal

/-!
# Texts of TOML

Strings in double quotes have escapes, strings in single quotes have none. Three quotes open a string of
several lines; up to two quotes may stand right before the three that close it. A line break inside a string
is read as a single newline. A key is one name, bare or in quotes, or several joined by points.
-/

namespace BicepMigration.Toml

open BicepMigration.Text

/-- A character that may stand in a line: a tab, or any one that is no control. -/
def isLineChar (c : Char) : Bool := c = '\t' || (0x20 ≤ c.toNat && c.toNat ≠ 0x7F)

/-- A space or a tab. -/
def isSpace (c : Char) : Bool := c = ' ' || c = '\t'

/-- The characters after spaces and tabs. -/
def skipSpace (cs : List Char) : List Char := cs.dropWhile isSpace

/-- The characters after a line break, if one comes first. -/
def afterBreak? : List Char → Option (List Char)
  | '\n' :: cs => some cs
  | '\r' :: '\n' :: cs => some cs
  | _ => none

/-- The characters after a comment, if one comes first. -/
def skipComment : List Char → List Char
  | '#' :: cs => cs.dropWhile isLineChar
  | cs => cs

/-- The characters after the rest of a line, which holds spaces and a comment only. -/
def afterLine? (cs : List Char) : Option (List Char) :=
  match skipComment (skipSpace cs) with
  | [] => some []
  | cs => afterBreak? cs

/-- The character that a backslash and a letter stand for. -/
def escape? (c : Char) : Option Char :=
  [('b', '\x08'), ('t', '\t'), ('n', '\n'), ('f', '\x0C'), ('r', '\r'), ('"', '"'), ('\\', '\\')].lookup c

/-- Text that was read, and what follows it. -/
abbrev Taken := List Char × List Char

/-- The result with a character before the text. -/
def Taken.after (c : Char) (t : Taken) : Taken := (c :: t.1, t.2)

/-- Reads a string in double quotes from after the opening one. -/
def basicString : List Char → Option Taken
  | [] => none
  | '"' :: cs => some ([], cs)
  | '\\' :: 'u' :: a :: b :: d :: e :: cs => do
    let c ← charOfHex? [a, b, d, e]
    (basicString cs).map (Taken.after c)
  | '\\' :: 'U' :: a :: b :: d :: e :: f :: g :: h :: i :: cs => do
    let c ← charOfHex? [a, b, d, e, f, g, h, i]
    (basicString cs).map (Taken.after c)
  | '\\' :: e :: cs => do
    let c ← escape? e
    (basicString cs).map (Taken.after c)
  | c :: cs => if c ≠ '\\' && isLineChar c then (basicString cs).map (Taken.after c) else none

/-- Reads a string in single quotes from after the opening one. -/
def literalString : List Char → Option Taken
  | [] => none
  | '\'' :: cs => some ([], cs)
  | c :: cs => if isLineChar c then (literalString cs).map (Taken.after c) else none

/-- Only spaces stand before the next line break. -/
def endsLine (cs : List Char) : Bool := (afterBreak? (skipSpace cs)).isSome

/-- Reads a string of several lines in double quotes from after the line break that may follow the opening
ones. A backslash at the end of a line takes away all white space up to the next character; the first argument
tells that this is being done. -/
def basicLines (trimming : Bool) : List Char → Option Taken
  | [] => none
  | '"' :: '"' :: '"' :: '"' :: '"' :: cs => some (['"', '"'], cs)
  | '"' :: '"' :: '"' :: '"' :: cs => some (['"'], cs)
  | '"' :: '"' :: '"' :: cs => some ([], cs)
  | '\r' :: '\n' :: cs => if trimming then basicLines true cs else (basicLines false cs).map (Taken.after '\n')
  | '\\' :: 'u' :: a :: b :: d :: e :: cs => do
    let c ← charOfHex? [a, b, d, e]
    (basicLines false cs).map (Taken.after c)
  | '\\' :: 'U' :: a :: b :: d :: e :: f :: g :: h :: i :: cs => do
    let c ← charOfHex? [a, b, d, e, f, g, h, i]
    (basicLines false cs).map (Taken.after c)
  | '\\' :: e :: cs =>
    if endsLine (e :: cs) then basicLines true (e :: cs)
    else do
      let c ← escape? e
      (basicLines false cs).map (Taken.after c)
  | c :: cs =>
    if trimming && (isSpace c || c = '\n') then basicLines true cs
    else if c ≠ '\\' && (isLineChar c || c = '\n') then (basicLines false cs).map (Taken.after c)
    else none

/-- Reads a string of several lines in single quotes from after the line break that may follow the opening
ones. -/
def literalLines : List Char → Option Taken
  | [] => none
  | '\'' :: '\'' :: '\'' :: '\'' :: '\'' :: cs => some (['\'', '\''], cs)
  | '\'' :: '\'' :: '\'' :: '\'' :: cs => some (['\''], cs)
  | '\'' :: '\'' :: '\'' :: cs => some ([], cs)
  | '\r' :: '\n' :: cs => (literalLines cs).map (Taken.after '\n')
  | c :: cs => if isLineChar c || c = '\n' then (literalLines cs).map (Taken.after c) else none

/-- The characters after a line break, or the same ones if none comes first. -/
def skipBreak (cs : List Char) : List Char := (afterBreak? cs).getD cs

/-- Reads a string of any form. -/
def readString : List Char → Option Taken
  | '"' :: '"' :: '"' :: cs => basicLines false (skipBreak cs)
  | '"' :: cs => basicString cs
  | '\'' :: '\'' :: '\'' :: cs => literalLines (skipBreak cs)
  | '\'' :: cs => literalString cs
  | _ => none

/-- A character of a bare key. -/
def isBareKeyChar (c : Char) : Bool := c.isAlphanum || c = '_' || c = '-'

/-- Reads a key of one name. -/
def simpleKey : List Char → Option Taken
  | '"' :: cs => basicString cs
  | '\'' :: cs => literalString cs
  | cs =>
    let name := cs.takeWhile isBareKeyChar
    if name.isEmpty then none else some (name, cs.dropWhile isBareKeyChar)

/-- Names may be joined, and brackets may stand inside one another, up to one less than this often. -/
def nestingLimit : Nat := 80

/-- Reads a key of at most so many names, with spaces around each of them. -/
def dottedKey : Nat → List Char → Option (List String × List Char)
  | 0, _ => none
  | names + 1, cs => do
    let (name, cs) ← simpleKey (skipSpace cs)
    match skipSpace cs with
    | '.' :: cs =>
      let (others, cs) ← dottedKey names cs
      some (String.ofList name :: others, cs)
    | cs => some ([String.ofList name], cs)

/-- Reads a key. -/
def readKey (cs : List Char) : Option (List String × List Char) := dottedKey (nestingLimit - 1) cs

end BicepMigration.Toml
