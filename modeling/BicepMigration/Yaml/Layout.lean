import BicepMigration.Yaml.Scalar
import BicepMigration.Yaml.Token

/-!
# Reading the layout of YAML

Tokens are read in order, with the columns of the blocks that are open. A key shows only by the colon after
it, so every place where a key may start is kept until the colon or the end of the line; the token of the key,
and of the block that it may open, is then put in at that place. Inside brackets columns do not matter.
-/

namespace BicepMigration.Yaml

/-- A place where a key may have started. -/
structure KeyStart where
  /-- The block allows nothing but a key here. -/
  required : Bool
  /-- The number of tokens before it. -/
  position : Nat
  place : Place

/-- A key ends in the line in which it starts, and is not long. -/
def KeyStart.isStale (key : KeyStart) (p : Place) : Bool :=
  key.place.line < p.line || key.place.index + 1024 < p.index

/-- Where the reader stands. -/
structure Layout where
  rest : List Char
  place : Place
  /-- Columns of the open blocks, the innermost first. -/
  columns : List Nat
  /-- Starts of keys, for the innermost brackets first and for the blocks last. -/
  keys : List (Option KeyStart)
  /-- A key may start at the next token. -/
  keyAllowed : Bool
  /-- Number of tokens read. -/
  count : Nat
  /-- The tokens read, the last one first. -/
  tokens : List Token

namespace Layout

/-- The state before the first token. -/
def initial (cs : List Char) : Layout :=
  { rest := cs, place := .origin, columns := [], keys := [none], keyAllowed := true, count := 0, tokens := [] }

/-- The next token stands in brackets. -/
def inFlow (s : Layout) : Bool := 1 < s.keys.length

/-- The state after one more token. -/
def emit (s : Layout) (t : Token) : Layout := { s with count := s.count + 1, tokens := t :: s.tokens }

/-- The state with a token put in after so many others. -/
def insert (s : Layout) (position : Nat) (t : Token) : Layout :=
  { s with
    count := s.count + 1
    tokens := s.tokens.take (s.count - position) ++ t :: s.tokens.drop (s.count - position) }

/-- The state after taking so many characters of a line. -/
def advance (s : Layout) (count : Nat) : Layout :=
  { s with rest := s.rest.drop count, place := s.place.step count }

/-- White space and comments are passed over, and a byte-order mark at the start of a line, which takes a
column. A break allows a key again, unless it stands in brackets. A tab may not stand where a key is allowed.
The second argument tells whether the characters belong to a comment. -/
def skipFrom (flow comment keyAllowed : Bool) (p : Place) : List Char → Bool × List Char × Place
  | [] => (keyAllowed, [], p)
  | '\r' :: '\n' :: cs => skipFrom flow false (keyAllowed || !flow) (p.newLine 2) cs
  | c :: cs =>
    if isBreak c then skipFrom flow false (keyAllowed || !flow) (p.newLine 1) cs
    else if comment then skipFrom flow true keyAllowed (p.step 1) cs
    else if c = ' ' || (c = '\t' && (flow || !keyAllowed)) || (c = '\uFEFF' && p.column = 0) then
      skipFrom flow false keyAllowed (p.step 1) cs
    else if c = '#' then skipFrom flow true keyAllowed (p.step 1) cs
    else (keyAllowed, c :: cs, p)

/-- The state at the next token. -/
def skip (s : Layout) : Layout :=
  let (keyAllowed, rest, place) := skipFrom s.inFlow false s.keyAllowed s.place s.rest
  { s with keyAllowed := keyAllowed, rest := rest, place := place }

/-- The start of a key unless it is too far back. A required one must not be. -/
def freshKey? (p : Place) : Option KeyStart → Option (Option KeyStart)
  | none => some none
  | some key => if key.isStale p then if key.required then none else some none else some (some key)

/-- The state without the starts of keys that are too far back. -/
def dropStale (s : Layout) : Option Layout :=
  (s.keys.mapM (freshKey? s.place)).map fun keys => { s with keys := keys }

/-- The state without the innermost start of a key, which must not be required. -/
def forgetKey (s : Layout) : Option Layout :=
  match s.keys with
  | some key :: outer => if key.required then none else some { s with keys := none :: outer }
  | _ => some s

/-- A key may start here, if one is allowed. -/
def rememberKey (s : Layout) : Option Layout :=
  if s.keyAllowed then do
    let s ← s.forgetKey
    let key : KeyStart :=
      { required := !s.inFlow && s.columns.head? = some s.place.column, position := s.count, place := s.place }
    some { s with keys := some key :: s.keys.tail }
  else some s

/-- Ends blocks that are indented further than a column. -/
def closeBlocks (isOpen : Nat → Bool) : List Nat → Layout → Layout
  | [], s => { s with columns := [] }
  | column :: outer, s =>
    if isOpen column then { s with columns := column :: outer } else closeBlocks isOpen outer (s.emit .blockEnd)

/-- Ends the blocks that are indented further than the next token. -/
def closeDeeper (s : Layout) : Layout :=
  if s.inFlow then s else closeBlocks (· ≤ s.place.column) s.columns s

/-- Ends all blocks. -/
def closeAll (s : Layout) : Layout :=
  if s.inFlow then s else closeBlocks (fun _ => false) s.columns s

/-- Opens a block at a column, unless one that is indented as far is open. -/
def openBlock (s : Layout) (column position : Nat) (t : Token) : Layout :=
  if s.inFlow || s.columns.head?.any (column ≤ ·) then s
  else { s with columns := column :: s.columns }.insert position t

/-- The innermost brackets are opened or closed. -/
def enterFlow (s : Layout) : Layout := { s with keys := none :: s.keys, keyAllowed := true }

/-- The innermost brackets are closed, if any are open. -/
def leaveFlow (s : Layout) : Layout :=
  { s with keys := if s.inFlow then s.keys.tail else s.keys, keyAllowed := false }

/-- An opening bracket. -/
def openFlow (s : Layout) (t : Token) : Option Layout :=
  s.rememberKey.map fun s => (s.enterFlow.advance 1).emit t

/-- A closing bracket. -/
def closeFlow (s : Layout) (t : Token) : Option Layout :=
  s.forgetKey.map fun s => (s.leaveFlow.advance 1).emit t

/-- The comma in brackets. -/
def flowEntry (s : Layout) : Option Layout :=
  s.forgetKey.map fun s => ({ s with keyAllowed := true }.advance 1).emit .flowEntry

/-- The hyphen before an element. -/
def blockEntry (s : Layout) : Option Layout :=
  if !s.inFlow && !s.keyAllowed then none
  else
    (s.openBlock s.place.column s.count .blockSequenceStart).forgetKey.map fun s =>
      ({ s with keyAllowed := true }.advance 1).emit .blockEntry

/-- The question mark before a key. -/
def explicitKey (s : Layout) : Option Layout :=
  if !s.inFlow && !s.keyAllowed then none
  else
    (s.openBlock s.place.column s.count .blockMappingStart).forgetKey.map fun s =>
      ({ s with keyAllowed := !s.inFlow }.advance 1).emit .key

/-- The colon before a value. -/
def mappingValue (s : Layout) : Option Layout :=
  match s.keys with
  | some key :: outer =>
    let s := s.insert key.position .key
    let s := { s with keys := none :: outer, keyAllowed := false }.openBlock key.place.column key.position
      .blockMappingStart
    some ((s.advance 1).emit .value)
  | _ =>
    if !s.inFlow && !s.keyAllowed then none
    else
      let s := s.openBlock s.place.column s.count .blockMappingStart
      some (({ s with keyAllowed := !s.inFlow }.advance 1).emit .value)

/-- A character of a name: a letter or digit of ASCII, a hyphen or an underscore. -/
def isNameChar (c : Char) : Bool := c.isAlphanum || c = '-' || c = '_'

/-- The name at the start. -/
def takeName (cs : List Char) : List Char := cs.takeWhile isNameChar

/-- The name of an anchor or an alias. -/
def named (s : Layout) (t : String → Token) : Option Layout :=
  s.rememberKey.bind fun s =>
    let name := takeName (s.rest.drop 1)
    let after := s.rest.drop (1 + name.length)
    if name.isEmpty || !(atGap after || after.head?.any fun c => "?:,]\x7d%@\x60".toList.contains c) then none
    else some (({ s with keyAllowed := false }.advance (1 + name.length)).emit (t (String.ofList name)))

/-- A character of a tag's suffix. Brackets and commas may stand only where they are allowed. -/
def isTagChar (brackets : Bool) (c : Char) : Bool :=
  isNameChar c || ";/?:@&=+$.%!~*'()".toList.contains c || (brackets && ",[]".toList.contains c)

/-- The number of further bytes that belong to a byte at the start of a character. -/
def furtherBytes? (byte : Nat) : Option Nat :=
  if byte < 0x80 then some 0
  else if 0xC0 ≤ byte && byte < 0xE0 then some 1
  else if 0xE0 ≤ byte && byte < 0xF0 then some 2
  else if 0xF0 ≤ byte && byte < 0xF8 then some 3
  else none

/-- The value of bytes that belong to one character. -/
def bytesValue (first : Nat) (others : List Nat) : Nat :=
  let width := others.length
  let start := if width = 0 then first else first % Nat.pow 2 (6 - width)
  others.foldl (fun n b => n * 64 + b % 64) start

/-- The text of a suffix, in which a percent sign stands before the two digits of a byte. The first argument
holds the bytes of a character that are read already, the last one first, and the number of further ones. -/
def unescapeTag (pending : Option (List Nat × Nat)) : List Char → Option (List Char)
  | [] => if pending.isNone then some [] else none
  | '%' :: a :: b :: cs => do
    let byte ← Text.hexValue? [a, b]
    let (bytes, further) ←
      match pending with
      | none => (furtherBytes? byte).map ([byte], ·)
      | some (bytes, further) => if byte / 64 = 2 then some (byte :: bytes, further - 1) else none
    if further = 0 then
      match bytes.reverse with
      | first :: others => do
        let c ← Text.charOfCode? (bytesValue first others)
        (unescapeTag none cs).map (c :: ·)
      | [] => none
    else unescapeTag (some (bytes, further)) cs
  | c :: cs => if pending.isSome || c = '%' then none else (unescapeTag none cs).map (c :: ·)

/-- A tag without its marks: the handle, the suffix, and what follows. -/
def splitTag (cs : List Char) : Option (String × String × List Char) :=
  match cs with
  | '!' :: '<' :: cs =>
    let suffix := cs.takeWhile (isTagChar true)
    match suffix, cs.dropWhile (isTagChar true) with
    | _ :: _, '>' :: rest => (unescapeTag none suffix).map fun text => ("", String.ofList text, rest)
    | _, _ => none
  | '!' :: cs =>
    let name := takeName cs
    match cs.drop name.length with
    | '!' :: after =>
      let suffix := after.takeWhile (isTagChar false)
      if suffix.isEmpty then none
      else
        (unescapeTag none suffix).map fun text =>
          (String.ofList ('!' :: name ++ ['!']), String.ofList text, after.dropWhile (isTagChar false))
    | after =>
      (unescapeTag none (after.takeWhile (isTagChar false))).map fun text =>
        let suffix := name ++ text
        let rest := after.dropWhile (isTagChar false)
        if suffix.isEmpty then ("", "!", rest) else ("!", String.ofList suffix, rest)
  | _ => none

/-- A tag. -/
def tag (s : Layout) : Option Layout := do
  let s ← s.rememberKey
  let (handle, suffix, rest) ← splitTag s.rest
  if !(atGap rest || (s.inFlow && rest.head? = some ',')) then none
  else
    let place := s.place.step (s.rest.length - rest.length)
    some ({ s with keyAllowed := false, rest := rest, place := place }.emit (.tag handle suffix))

/-- The state after a text that was taken. -/
def take (s : Layout) (taken : Taken) (plain : Bool) : Layout :=
  { s with rest := taken.rest, place := taken.place }.emit (.scalar (String.ofList taken.text) plain)

/-- A text in quotes. -/
def quoted (s : Layout) (read : Place → Gap → List Char → Option Taken) : Option Layout := do
  let s ← s.rememberKey
  let taken ← read (s.place.step 1) .none (s.rest.drop 1)
  some ({ s with keyAllowed := false }.take taken false)

/-- The column that a plain scalar's lines have to reach, and a block scalar's at least. -/
def innerColumn (s : Layout) : Nat :=
  match s.columns with
  | [] => 0
  | column :: _ => column + 1

/-- A plain scalar. -/
def plain (s : Layout) : Option Layout := do
  let s ← s.rememberKey
  let taken ← plainScalar s.inFlow s.innerColumn s.place .none s.rest
  some ({ s with keyAllowed := taken.broken }.take taken.toTaken true)

/-- The characters after spaces and a comment, from the break on, if there is nothing else in the line. -/
def toLineEnd? (cs : List Char) : Option (List Char) :=
  let cs := cs.dropWhile isSpace
  let cs := if cs.head? = some '#' then cs.dropWhile (!isBreak ·) else cs
  if cs.head?.all isBreak then some cs else none

/-- The characters and the place after a break, if one comes first. -/
def passBreak (p : Place) : List Char → List Char × Place
  | '\r' :: '\n' :: cs => (cs, p.newLine 2)
  | c :: cs => if isBreak c then (cs, p.newLine 1) else (c :: cs, p)
  | [] => ([], p)

/-- A scalar on lines of its own. -/
def block (s : Layout) (literal : Bool) : Option Layout := do
  let s ← s.forgetKey
  let (header, count) := blockHeader (s.rest.drop 1)
  let after := s.rest.drop (1 + count)
  let lineEnd ← toLineEnd? after
  let (rest, place) := passBreak (s.place.step (s.rest.length - lineEnd.length)) lineEnd
  let least := max 1 s.innerColumn
  let indent :=
    match header.increment, s.columns with
    | none, _ => 0
    | some n, [] => n
    | some n, column :: _ => column + n
  let start : BlockState :=
    { indent := indent, least := least, widest := 0, inLine := false, lastBreak := [], emptyLines := []
      leadingSpace := false, place := place }
  let taken ← blockScalar literal header.chomping start rest
  some ({ s with keyAllowed := true }.take taken false)

/-- The mark of a document. -/
def documentMark (s : Layout) (t : Token) : Option Layout :=
  s.closeAll.forgetKey.map fun s => ({ s with keyAllowed := false }.advance 3).emit t

/-- A number of at most nine digits, and what follows. -/
def versionNumber? (cs : List Char) : Option (Nat × List Char) :=
  let digits := cs.takeWhile Char.isDigit
  if digits.isEmpty || 9 < digits.length then none
  else some (digits.foldl (fun n c => 10 * n + (c.toNat - '0'.toNat)) 0, cs.dropWhile Char.isDigit)

/-- The version of the language, and what follows. -/
def versionDirective? (cs : List Char) : Option (Directive × List Char) := do
  let (major, cs) ← versionNumber? (cs.dropWhile isSpace)
  match cs with
  | '.' :: cs =>
    let (minor, cs) ← versionNumber? cs
    some (.version major minor, cs)
  | _ => none

/-- The handle of a tag directive, and what follows: an exclamation mark, or a name between two. -/
def tagHandle? (cs : List Char) : Option (List Char × List Char) :=
  match cs with
  | '!' :: cs =>
    let name := takeName cs
    match cs.drop name.length with
    | '!' :: rest => some ('!' :: name ++ ['!'], rest)
    | rest => if name.isEmpty then some (['!'], rest) else none
  | _ => none

/-- A handle and the text it stands for, and what follows. -/
def tagDirective? (cs : List Char) : Option (Directive × List Char) := do
  let (handle, cs) ← tagHandle? (cs.dropWhile isSpace)
  if !cs.head?.any isSpace then none
  else
    let cs := cs.dropWhile isSpace
    let text := cs.takeWhile (isTagChar true)
    let rest := cs.dropWhile (isTagChar true)
    if text.isEmpty || !atGap rest then none
    else (unescapeTag none text).map fun text => (.tag (String.ofList handle) (String.ofList text), rest)

/-- A directive. -/
def directive (s : Layout) : Option Layout := do
  let s ← s.closeAll.forgetKey
  let name := takeName (s.rest.drop 1)
  let after := s.rest.drop (1 + name.length)
  if name.isEmpty || !atGap after then none
  else
    let (d, after) ←
      if name = ['Y', 'A', 'M', 'L'] then versionDirective? after
      else if name = ['T', 'A', 'G'] then tagDirective? after
      else none
    let lineEnd ← toLineEnd? after
    let (rest, place) := passBreak (s.place.step (s.rest.length - lineEnd.length)) lineEnd
    some ({ s with keyAllowed := false, rest := rest, place := place }.emit (.directive d))

/-- A character that never starts a plain scalar. -/
def isIndicator (c : Char) : Bool := "-?:,[]\x7b\x7d#&*!|>'\"%@\x60".toList.contains c

/-- A plain scalar starts here. -/
def startsPlain (flow : Bool) (c : Char) (cs : List Char) : Bool :=
  !(isSpace c || isIndicator c) || (c = '-' && !cs.head?.any isSpace) || (!flow && (c = '?' || c = ':') && !atGap cs)

/-- Reads the token that starts with a character. -/
def read (s : Layout) (c : Char) (cs : List Char) : Option Layout :=
  if s.place.column = 0 && c = '%' then s.directive
  else if s.place.column = 0 && startsDocument (c :: cs) then
    s.documentMark (if c = '-' then .documentStart else .documentEnd)
  else if c = '[' then s.openFlow .flowSequenceStart
  else if c = '{' then s.openFlow .flowMappingStart
  else if c = ']' then s.closeFlow .flowSequenceEnd
  else if c = '}' then s.closeFlow .flowMappingEnd
  else if c = ',' then s.flowEntry
  else if c = '-' && atGap cs then s.blockEntry
  else if c = '?' && (s.inFlow || atGap cs) then s.explicitKey
  else if c = ':' && (s.inFlow || atGap cs) then s.mappingValue
  else if c = '*' then s.named .alias
  else if c = '&' then s.named .anchor
  else if c = '!' then s.tag
  else if c = '|' && !s.inFlow then s.block true
  else if c = '>' && !s.inFlow then s.block false
  else if c = '\'' then s.quoted singleQuoted
  else if c = '"' then s.quoted doubleQuoted
  else if startsPlain s.inFlow c cs then s.plain
  else none

/-- The tokens at the end of the text: what is left open is closed. -/
def finish (s : Layout) : Option (List Token) :=
  s.closeAll.forgetKey.map (·.tokens.reverse)

/-- Reads tokens up to the end. Every token takes a character, so their number bounds the steps. -/
def readAll : Nat → Layout → Option (List Token)
  | 0, _ => none
  | steps + 1, s => do
    let s ← s.skip.dropStale
    let s := s.closeDeeper
    match s.rest with
    | [] => s.finish
    | c :: cs => (s.read c cs).bind (readAll steps)

end Layout

/-- A character that may stand in a text. -/
def isAllowed (c : Char) : Bool :=
  let n := c.toNat
  n = 0x09 || n = 0x0A || n = 0x0D || (0x20 ≤ n && n ≤ 0x7E) || n = 0x85 || (0xA0 ≤ n && n ≤ 0xFFFD) || 0x10000 ≤ n

/-- The tokens of a text. -/
def tokens? (text : String) : Option (List Token) :=
  let cs := text.toList
  if cs.all isAllowed then Layout.readAll (cs.length + 1) (.initial cs) else none

end BicepMigration.Yaml
