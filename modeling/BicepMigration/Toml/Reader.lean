import BicepMigration.Toml.Moment
import BicepMigration.Toml.Table
import BicepMigration.Toml.Text

/-!
# Reading TOML

A document is a list of lines: entries, headers, or nothing but a comment. Values in brackets may go over
several lines where the brackets are square.
-/

namespace BicepMigration.Toml

open BicepMigration.Number

/-- A digit in base ten, eight or two, or sixteen. -/
def isDigitOf (base : Nat) (c : Char) : Bool := (Text.hexDigit? c).any (· < base)

/-- Digits with single underscores between them, and what follows. The underscores are left out. -/
def digitRun (base : Nat) : List Char → List Char × List Char
  | [] => ([], [])
  | [c] => if isDigitOf base c then ([c], []) else ([], [c])
  | c :: d :: cs =>
    if isDigitOf base c then
      let (digits, rest) := digitRun base (d :: cs)
      (c :: digits, rest)
    else ([], c :: d :: cs)

/-- Digits with single underscores between them, at least one digit, and what follows. -/
def digits (base : Nat) : Nat → List Char → Option (List Char × List Char)
  | 0, _ => none
  | steps + 1, cs =>
    match digitRun base cs with
    | ([], _) => none
    | (run, '_' :: rest) => (digits base steps rest).map fun (others, rest) => (run ++ others, rest)
    | (run, rest) => some (run, rest)

/-- The sign of a number, if it has one, and what follows. -/
def sign : List Char → List Char × List Char
  | '+' :: cs => (['+'], cs)
  | '-' :: cs => (['-'], cs)
  | cs => ([], cs)

/-- A decimal integer with its sign, without a needless zero, and what follows. -/
def decimal? (cs : List Char) : Option (List Char × List Char) :=
  let (sign, cs) := sign cs
  match cs with
  | '0' :: rest => some (sign ++ ['0'], rest)
  | cs => (digits 10 (cs.length + 1) cs).map fun (run, rest) => (sign ++ run, rest)

/-- The digits after a point, with the point, and what follows. -/
def point? : List Char → Option (List Char × List Char)
  | '.' :: cs => (digits 10 (cs.length + 1) cs).map fun (run, rest) => ('.' :: run, rest)
  | _ => none

/-- An exponent, and what follows. -/
def exponent? : List Char → Option (List Char × List Char)
  | c :: cs =>
    if c = 'e' || c = 'E' then
      let (sign, cs) := sign cs
      (digits 10 (cs.length + 1) cs).map fun (run, rest) => ('e' :: sign ++ run, rest)
    else none
  | [] => none

/-- The text of a number with a point or an exponent, and what follows. -/
def floatText? (cs : List Char) : Option (List Char × List Char) := do
  let (whole, cs) ← decimal? cs
  match point? cs with
  | none =>
    let (exponent, cs) ← exponent? cs
    some (whole ++ exponent, cs)
  | some (fraction, cs) =>
    match exponent? cs with
    | none => some (whole ++ fraction, cs)
    | some (exponent, cs) => some (whole ++ fraction ++ exponent, cs)

/-- A number with a point or an exponent. Beyond the greatest numbers only negative ones are read. -/
def float? (cs : List Char) : Option (Value × List Char) := do
  let (text, rest) ← floatText? cs
  match readBinary64? text with
  | some x => some (.float x, rest)
  | none => if text.head? = some '-' then some (.beyond, rest) else none

/-- An infinite number or none, with a sign or without. -/
def special? (cs : List Char) : Option (Value × List Char) :=
  match (sign cs).2 with
  | 'i' :: 'n' :: 'f' :: rest => some (.beyond, rest)
  | 'n' :: 'a' :: 'n' :: rest => some (.beyond, rest)
  | _ => none

/-- An integer that fits 64 bits with a sign. -/
def fitting? (n : Int) : Option Value := if -(Nat.pow 2 63 : Int) ≤ n && n < (Nat.pow 2 63 : Int) then some (.integer n) else none

/-- An integer in base sixteen, eight or two, from after its mark. -/
def basedInteger? (base : Nat) (cs : List Char) : Option (Value × List Char) := do
  let (run, rest) ← digits base (cs.length + 1) cs
  let value ← fitting? (run.foldl (fun n c => base * n + (Text.hexDigit? c).getD 0) 0)
  some (value, rest)

/-- An integer. -/
def integer? (cs : List Char) : Option (Value × List Char) :=
  match cs with
  | '0' :: 'x' :: cs => basedInteger? 16 cs
  | '0' :: 'o' :: cs => basedInteger? 8 cs
  | '0' :: 'b' :: cs => basedInteger? 2 cs
  | cs => do
    let (text, rest) ← decimal? cs
    let (negative, run) := splitSign text
    let size : Int := digitsValue 0 run
    let value ← fitting? (if negative then -size else size)
    some (value, rest)

/-- A moment or a number. -/
def number? (cs : List Char) : Option (Value × List Char) :=
  match moment? cs with
  | some (text, rest) => some (.moment text, rest)
  | none => float? cs <|> special? cs <|> integer? cs

/-- A value that needs no brackets. -/
def scalar? (cs : List Char) : Option (Value × List Char) :=
  match cs with
  | 't' :: 'r' :: 'u' :: 'e' :: rest => some (.bool true, rest)
  | 'f' :: 'a' :: 'l' :: 's' :: 'e' :: rest => some (.bool false, rest)
  | '"' :: _ => (readString cs).map fun (text, rest) => (.string (String.ofList text), rest)
  | '\'' :: _ => (readString cs).map fun (text, rest) => (.string (String.ofList text), rest)
  | cs => number? cs

/-- The characters after spaces, line breaks and comments. A line that goes on with anything else than a
break ends the search. The argument bounds the number of lines. -/
def skipLines : Nat → List Char → List Char
  | 0, cs => cs
  | lines + 1, cs =>
    let cs := skipComment (skipSpace cs)
    match afterBreak? cs with
    | some rest => skipLines lines rest
    | none => cs

/-- The characters after spaces, line breaks and comments. -/
def skipBlank (cs : List Char) : List Char := skipLines cs.length cs

mutual

/-- Reads a value. The first argument bounds the steps, the second one the brackets inside one another. -/
def readValue : Nat → Nat → List Char → Option (Value × List Char)
  | 0, _, _ => none
  | steps + 1, depth, cs =>
    match cs with
    | '[' :: cs =>
      match depth with
      | 0 => none
      | depth + 1 => (readItems steps depth cs).map fun (items, rest) => (.array items, rest)
    | '{' :: cs =>
      match depth with
      | 0 => none
      | depth + 1 =>
        match skipSpace cs with
        | '}' :: rest => some (.table [], rest)
        | cs => (readEntries steps depth [] cs).map fun (entries, rest) => (.table (Entries.valuesOf entries), rest)
    | cs => scalar? cs

/-- Reads the elements of an array and its closing bracket. -/
def readItems : Nat → Nat → List Char → Option (List Value × List Char)
  | 0, _, _ => none
  | steps + 1, depth, cs =>
    match skipBlank cs with
    | ']' :: rest => some ([], rest)
    | cs => do
      let (item, cs) ← readValue steps depth cs
      match skipBlank cs with
      | ',' :: cs =>
        let (items, rest) ← readItems steps depth cs
        some (item :: items, rest)
      | ']' :: rest => some ([item], rest)
      | _ => none

/-- Reads the entries of a table in braces and its closing brace. -/
def readEntries : Nat → Nat → Entries → List Char → Option (Entries × List Char)
  | 0, _, _, _ => none
  | steps + 1, depth, entries, cs => do
    let (key, cs) ← readKey cs
    match cs with
    | '=' :: cs =>
      let (value, cs) ← readValue steps depth (skipSpace cs)
      let entries ← entries.define key value
      match skipSpace cs with
      | ',' :: cs => readEntries steps depth entries cs
      | '}' :: rest => some (entries, rest)
      | _ => none
    | _ => none

end

/-- Reads an entry: a key, an equals sign and a value. -/
def readEntry (cs : List Char) : Option (List String × Value × List Char) := do
  let (key, cs) ← readKey cs
  match cs with
  | '=' :: cs =>
    let (value, rest) ← readValue (2 * cs.length + 2) (nestingLimit - 1) (skipSpace cs)
    some (key, value, rest)
  | _ => none

/-- Reads a line into a document that is being built, and gives what follows it. -/
def readLine (b : Building) (cs : List Char) : Option (Building × List Char) :=
  match cs with
  | '[' :: '[' :: cs => do
    let (key, cs) ← readKey cs
    match cs with
    | ']' :: ']' :: cs => some (← b.elementHeader key, ← afterLine? cs)
    | _ => none
  | '[' :: cs => do
    let (key, cs) ← readKey cs
    match cs with
    | ']' :: cs => some (← b.header key, ← afterLine? cs)
    | _ => none
  | cs => do
    let (key, value, cs) ← readEntry cs
    some (← b.define key value, ← afterLine? cs)

/-- Reads lines up to the end. Every line takes a character, so their number bounds the steps. -/
def readLines : Nat → Building → List Char → Option Building
  | 0, _, _ => none
  | steps + 1, b, cs =>
    match skipComment (skipSpace cs) with
    | [] => some b
    | c :: rest =>
      match afterBreak? (c :: rest) with
      | some cs => readLines steps b cs
      | none => do
        let (b, cs) ← readLine b (skipSpace cs)
        readLines steps b cs

/-- Reads a document. A byte-order mark at the start is passed over. -/
def read? (text : String) : Option Value := do
  let cs := match text.toList with
    | '\uFEFF' :: cs => cs
    | cs => cs
  let b ← readLines (cs.length + 1) .start cs
  let root ← b.complete
  some (.table (Entries.valuesOf root))

end BicepMigration.Toml
