import BicepMigration.Number.Decimal

/-!
# Dates and times of TOML

A moment is a date, a time of day, or both, and with both possibly the distance from universal time. Its text
is written in one way: a capital letter between date and time, and no needless digits of a second.
-/

namespace BicepMigration.Toml

/-- A date. -/
structure Date where
  year : Nat
  month : Nat
  day : Nat
  deriving DecidableEq, Repr

/-- A time of day. -/
structure Time where
  hour : Nat
  minute : Nat
  second : Nat
  /-- The first nine digits after the second, without zeros at their end. -/
  fraction : List Char
  deriving DecidableEq, Repr

/-- The distance from universal time. -/
inductive TimeOffset where
  | zulu
  | minutes (count : Int)
  deriving DecidableEq, Repr

/-- A number of so many digits, and what follows. -/
def digits? (width : Nat) (cs : List Char) : Option (Nat × List Char) :=
  let digits := cs.take width
  if digits.length = width && digits.all Char.isDigit then some (Number.digitsValue 0 digits, cs.drop width) else none

/-- The characters after a mark. -/
def afterMark? (mark : Char) : List Char → Option (List Char)
  | c :: cs => if c = mark then some cs else none
  | [] => none

/-- The number of days of a month. -/
def daysIn (year month : Nat) : Nat :=
  if month = 2 then if year % 4 = 0 && (year % 100 ≠ 0 || year % 400 = 0) then 29 else 28
  else if [4, 6, 9, 11].contains month then 30
  else 31

/-- Reads a date, which must be one of the calendar. -/
def date? (cs : List Char) : Option (Date × List Char) := do
  let (year, cs) ← digits? 4 cs
  let (month, cs) ← digits? 2 (← afterMark? '-' cs)
  let (day, cs) ← digits? 2 (← afterMark? '-' cs)
  if 1 ≤ month && month ≤ 12 && 1 ≤ day && day ≤ daysIn year month then some (⟨year, month, day⟩, cs) else none

/-- Digits without zeros at their end. -/
def trimZeros (digits : List Char) : List Char := (digits.reverse.dropWhile (· = '0')).reverse

/-- Reads the digits after a second, if there are any. -/
def fraction? (cs : List Char) : Option (List Char × List Char) :=
  match cs with
  | '.' :: rest =>
    let digits := rest.takeWhile Char.isDigit
    if digits.isEmpty then none else some (trimZeros (digits.take 9), rest.dropWhile Char.isDigit)
  | cs => some ([], cs)

/-- Reads an hour and a minute. -/
def hourMinute? (cs : List Char) : Option (Nat × Nat × List Char) := do
  let (hour, cs) ← digits? 2 cs
  let (minute, cs) ← digits? 2 (← afterMark? ':' cs)
  if hour ≤ 23 && minute ≤ 59 then some (hour, minute, cs) else none

/-- Reads a time of day. A minute may have a leap second. -/
def time? (cs : List Char) : Option (Time × List Char) := do
  let (hour, minute, cs) ← hourMinute? cs
  let (second, cs) ← digits? 2 (← afterMark? ':' cs)
  let (fraction, cs) ← fraction? cs
  if second ≤ 60 then some (⟨hour, minute, second, fraction⟩, cs) else none

/-- Reads an offset, if there is one. -/
def offset? (cs : List Char) : Option (Option TimeOffset × List Char) :=
  match cs with
  | [] => some (none, [])
  | c :: rest =>
    if c = 'Z' || c = 'z' then some (some .zulu, rest)
    else if c = '+' || c = '-' then do
      let (hour, minute, rest) ← hourMinute? rest
      let count : Int := 60 * hour + minute
      some (some (.minutes (if c = '-' then -count else count)), rest)
    else some (none, c :: rest)

/-- A number with zeros before it up to a width. -/
def padded (width n : Nat) : String :=
  let digits := Nat.toDigits 10 n
  String.ofList (List.replicate (width - digits.length) '0' ++ digits)

/-- The text of a date. -/
def Date.text (d : Date) : String := padded 4 d.year ++ "-" ++ padded 2 d.month ++ "-" ++ padded 2 d.day

/-- The text of a time. -/
def Time.text (t : Time) : String :=
  padded 2 t.hour ++ ":" ++ padded 2 t.minute ++ ":" ++ padded 2 t.second ++
    if t.fraction.isEmpty then "" else "." ++ String.ofList t.fraction

/-- The text of an offset. -/
def TimeOffset.text : TimeOffset → String
  | zulu => "Z"
  | minutes count =>
    (if count < 0 then "-" else "+") ++ padded 2 (count.natAbs / 60) ++ ":" ++ padded 2 (count.natAbs % 60)

/-- Reads a time after a date: a letter or a space, a time, and an offset or none. -/
def timeAfterDate? (cs : List Char) : Option (String × List Char) :=
  match cs with
  | c :: cs =>
    if c = 'T' || c = 't' || c = ' ' then do
      let (time, cs) ← time? cs
      let (offset, cs) ← offset? cs
      some ("T" ++ time.text ++ (offset.map TimeOffset.text).getD "", cs)
    else none
  | [] => none

/-- Reads a moment, and gives its text. -/
def moment? (cs : List Char) : Option (String × List Char) :=
  match date? cs with
  | some (date, rest) =>
    match timeAfterDate? rest with
    | some (time, rest) => some (date.text ++ time, rest)
    | none => some (date.text, rest)
  | none => (time? cs).map fun (time, rest) => (time.text, rest)

end BicepMigration.Toml
