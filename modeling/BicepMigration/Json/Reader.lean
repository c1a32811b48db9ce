import BicepMigration.Json.Basic
import BicepMigration.Text.Hexadecimal

/-!
# Reading JSON text

Text is first read into a tree that keeps every entry of an object, repeated keys included, and the digits
of every number. Numbers and strings get their values in a second step, so a number out of range and a lone
surrogate are faults only where the value is used. An integer that fits 64 bits, signed or unsigned, stays
an integer. Any other number is built in binary64: its leading digits, as many as fit 64 unsigned bits, are
multiplied or divided by a power of ten. Every step is rounded, so the result need not be the nearest
number.
-/

namespace BicepMigration.Json

open Number

/-- The parts of a number as written. -/
structure NumberText where
  /-- A minus sign stands before the digits. -/
  negative : Bool
  /-- Digits before the point. -/
  whole : List Char
  /-- Digits after the point, if there is a point. -/
  fraction : Option (List Char)
  /-- The exponent, if there is one: whether it has a minus sign, and its digits. -/
  exponent : Option (Bool × List Char)

/-- A part of a string as written. -/
inductive StringPart where
  /-- A character, or a short escape of one. -/
  | char (c : Char)
  /-- Four hexadecimal digits. -/
  | unit (code : Nat)

/-- A JSON text, as read. -/
inductive Tree where
  | null
  | bool (value : Bool)
  | number (text : NumberText)
  | string (parts : List StringPart)
  | array (items : List Tree)
  | object (entries : List (List StringPart × Tree))

/-- The characters from the first one that is no white space. -/
def skipSpace (cs : List Char) : List Char :=
  cs.dropWhile fun c => c = ' ' || c = '\t' || c = '\n' || c = '\r'

/-- The character that a short escape stands for. -/
def shortEscape? (c : Char) : Option Char :=
  if c = '"' || c = '\\' || c = '/' then some c
  else if c = 'b' then some '\x08'
  else if c = 'f' then some '\x0C'
  else if c = 'n' then some '\n'
  else if c = 'r' then some '\r'
  else if c = 't' then some '\t'
  else none

/-- Reads a string from after its opening quote to its closing quote. -/
def readString : List Char → Option (List StringPart × List Char)
  | [] => none
  | '"' :: cs => some ([], cs)
  | '\\' :: 'u' :: a :: b :: c :: d :: cs =>
    match Text.hexValue? [a, b, c, d] with
    | none => none
    | some code => (readString cs).map fun (parts, rest) => (.unit code :: parts, rest)
  | '\\' :: e :: cs =>
    match shortEscape? e with
    | none => none
    | some c => (readString cs).map fun (parts, rest) => (.char c :: parts, rest)
  | c :: cs =>
    if c = '\\' || c.toNat < 0x20 then none
    else (readString cs).map fun (parts, rest) => (.char c :: parts, rest)

/-- The characters of a string. A high surrogate needs a low one right after it, and a low one a high one
right before it. -/
def stringValue? : List StringPart → Option (List Char)
  | [] => some []
  | .char c :: rest => (stringValue? rest).map (c :: ·)
  | .unit high :: .unit low :: rest =>
    if 0xD800 ≤ high && high ≤ 0xDBFF then
      if 0xDC00 ≤ low && low ≤ 0xDFFF then
        (stringValue? rest).map (Char.ofNat (0x10000 + (high - 0xD800) * 0x400 + (low - 0xDC00)) :: ·)
      else none
    else if 0xDC00 ≤ high && high ≤ 0xDFFF then none
    else (stringValue? (.unit low :: rest)).map (Char.ofNat high :: ·)
  | .unit code :: rest =>
    if 0xD800 ≤ code && code ≤ 0xDFFF then none
    else (stringValue? rest).map (Char.ofNat code :: ·)

/-- The text of a string. -/
def stringText? (parts : List StringPart) : Option String :=
  (stringValue? parts).map String.ofList

/-- Splits off the digits at the start. -/
def splitDigits (cs : List Char) : List Char × List Char :=
  (cs.takeWhile Char.isDigit, cs.dropWhile Char.isDigit)

/-- Reads the point and the digits after it, if there is a point. -/
def readFraction : List Char → Option (Option (List Char) × List Char)
  | '.' :: cs =>
    let (digits, rest) := splitDigits cs
    if digits.isEmpty then none else some (some digits, rest)
  | cs => some (none, cs)

/-- Reads an exponent, if there is one. -/
def readExponent : List Char → Option (Option (Bool × List Char) × List Char)
  | [] => some (none, [])
  | c :: cs =>
    if c = 'e' || c = 'E' then
      let (negative, cs) := splitSign cs
      let (digits, rest) := splitDigits cs
      if digits.isEmpty then none else some (some (negative, digits), rest)
    else some (none, c :: cs)

/-- Reads a number: digits without a needless zero, a fraction or none, an exponent or none. -/
def readNumber (cs : List Char) : Option (NumberText × List Char) := do
  let (negative, cs) := match cs with
    | '-' :: rest => (true, rest)
    | _ => (false, cs)
  let (whole, cs) := splitDigits cs
  if whole.isEmpty || (whole.head? = some '0' && whole.length ≠ 1) then none
  else
    let (fraction, cs) ← readFraction cs
    let (exponent, cs) ← readExponent cs
    some (⟨negative, whole, fraction, exponent⟩, cs)

mutual

/-- Reads a value. The first argument bounds the number of nested and consecutive values. -/
def readValue : Nat → List Char → Option (Tree × List Char)
  | 0, _ => none
  | fuel + 1, cs =>
    match skipSpace cs with
    | '"' :: cs => (readString cs).map fun (parts, rest) => (.string parts, rest)
    | '[' :: cs =>
      match skipSpace cs with
      | ']' :: rest => some (.array [], rest)
      | cs => (readItems fuel cs).map fun (items, rest) => (.array items, rest)
    | '{' :: cs =>
      match skipSpace cs with
      | '}' :: rest => some (.object [], rest)
      | cs => (readEntries fuel cs).map fun (entries, rest) => (.object entries, rest)
    | 'n' :: 'u' :: 'l' :: 'l' :: rest => some (.null, rest)
    | 't' :: 'r' :: 'u' :: 'e' :: rest => some (.bool true, rest)
    | 'f' :: 'a' :: 'l' :: 's' :: 'e' :: rest => some (.bool false, rest)
    | cs => (readNumber cs).map fun (text, rest) => (.number text, rest)

/-- Reads the elements of an array and its closing bracket. -/
def readItems : Nat → List Char → Option (List Tree × List Char)
  | 0, _ => none
  | fuel + 1, cs =>
    match readValue fuel cs with
    | none => none
    | some (item, cs) =>
      match skipSpace cs with
      | ']' :: rest => some ([item], rest)
      | ',' :: cs => (readItems fuel cs).map fun (items, rest) => (item :: items, rest)
      | _ => none

/-- Reads the entries of an object and its closing brace. -/
def readEntries : Nat → List Char → Option (List (List StringPart × Tree) × List Char)
  | 0, _ => none
  | fuel + 1, cs =>
    match skipSpace cs with
    | '"' :: cs =>
      match readString cs with
      | none => none
      | some (key, cs) =>
        match skipSpace cs with
        | ':' :: cs =>
          match readValue fuel cs with
          | none => none
          | some (value, cs) =>
            match skipSpace cs with
            | '}' :: rest => some ([(key, value)], rest)
            | ',' :: cs => (readEntries fuel cs).map fun (entries, rest) => ((key, value) :: entries, rest)
            | _ => none
        | _ => none
    | _ => none

end

/-- Reads a whole text, which must be one value. -/
def Tree.read? (text : String) : Option Tree :=
  let cs := text.toList
  match readValue (2 * cs.length + 2) cs with
  | some (tree, rest) => if (skipSpace rest).isEmpty then some tree else none
  | none => none

/-- Takes decimal digits into a number below `2 ^ 64` for as long as it stays below. Gives the number and how
many digits were taken. -/
def takeSignificand (significand : Nat) : List Char → Nat × Nat
  | [] => (significand, 0)
  | c :: cs =>
    let next := 10 * significand + (c.toNat - '0'.toNat)
    if next < Nat.pow 2 64 then
      let (n, count) := takeSignificand next cs
      (n, count + 1)
    else (significand, 0)

/-- A positive power of ten as it is in binary64. -/
def powerOfTen (n : Nat) : Binary64 :=
  (Binary64.ofDecimal false 1 n).getD (Binary64.zero false)

/-- The quotient by a positive power of ten. -/
def divideByPower (x : Binary64) (power : Nat) : Option Binary64 :=
  let ten := powerOfTen power
  x.scale ten.denominator ten.numerator

/-- The greatest power of ten that one step multiplies or divides by. -/
def greatestPower : Nat := 308

/-- Divides so many times by the greatest power of ten, and stops at zero. -/
def divideRepeatedly : Nat → Binary64 → Option Binary64
  | 0, x => some x
  | n + 1, x => if x.isZero then some x else (divideByPower x greatestPower).bind (divideRepeatedly n)

/-- A significand times a power of ten, in binary64 arithmetic. -/
def scaled? (negative : Bool) (significand : Nat) (exponent : Int) : Option Binary64 :=
  match Binary64.ofRatio negative significand 1 with
  | none => none
  | some x =>
    if exponent < 0 then
      let steps := (exponent.natAbs - 1) / greatestPower
      (divideRepeatedly steps x).bind (divideByPower · (exponent.natAbs - steps * greatestPower))
    else if exponent ≤ greatestPower then
      let ten := powerOfTen exponent.toNat
      x.scale ten.numerator ten.denominator
    else if x.isZero then some x
    else none

/-- The value of a number that is written with a point, with an exponent, or with too many digits. An
exponent that does not fit 32 bits makes the number zero or puts it out of range. -/
def NumberText.float? (text : NumberText) : Option Binary64 :=
  let (significand, taken) := takeSignificand 0 text.whole
  let fraction := text.fraction.getD []
  let (significand, takenFraction) := takeSignificand significand fraction
  let exponent : Int := (text.whole.length - taken : Nat) - (takenFraction : Int)
  match text.exponent with
  | none => scaled? text.negative significand exponent
  | some (down, digits) =>
    let size := digitsValue 0 digits
    if Nat.pow 2 31 ≤ size then
      if significand ≠ 0 && !down then none else some (.zero text.negative)
    else scaled? text.negative significand (if down then exponent - size else exponent + size)

/-- The value of a number. -/
def NumberText.value? (text : NumberText) : Option JsonNumber :=
  let (n, taken) := takeSignificand 0 text.whole
  if text.fraction.isNone && text.exponent.isNone && taken = text.whole.length then
    if !text.negative then some (.integer n)
    else if n = 0 || Nat.pow 2 63 < n then (Binary64.ofRatio true n 1).map .float
    else some (.integer (-n))
  else text.float?.map .float

mutual

/-- The value of a tree, with the entries of objects as written. A value may open fewer brackets inside one
another than the room says. -/
def Tree.value? (room : Nat) : Tree → Option Json
  | .null => some .null
  | .bool value => some (.bool value)
  | .number text => text.value?.map .number
  | .string parts => (stringText? parts).map .string
  | .array items => if room < 2 then none else (valuesOf? (room - 1) items).map .array
  | .object entries => if room < 2 then none else (entriesOf? (room - 1) entries).map .object

/-- The values of elements. -/
def valuesOf? (room : Nat) : List Tree → Option (List Json)
  | [] => some []
  | item :: rest => do
    let value ← item.value? room
    let values ← valuesOf? room rest
    some (value :: values)

/-- The values of entries. -/
def entriesOf? (room : Nat) : List (List StringPart × Tree) → Option (List (String × Json))
  | [] => some []
  | (key, item) :: rest => do
    let key ← stringText? key
    let value ← item.value? room
    let values ← entriesOf? room rest
    some ((key, value) :: values)

end

/-- Brackets may stand inside one another up to one less than this deep. -/
def roomAtStart : Nat := 128

/-- The value of a JSON text, with the entries of objects as written. -/
def parse? (text : String) : Option Json :=
  (Tree.read? text).bind (Tree.value? roomAtStart)

end BicepMigration.Json
