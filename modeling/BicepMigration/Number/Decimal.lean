import BicepMigration.Number.Binary64

/-!
# Decimal text of numbers

Reads a decimal numeral, and writes a binary64 number with the fewest digits that read back as the same
number. The search for those digits tries one digit, two, and so on: on each grid of decimals only the two
neighbours of the value can be nearest, so only they are tried.
-/

namespace BicepMigration.Number

/-- A decimal numeral: `± digits · 10 ^ exponent`. -/
structure Decimal where
  negative : Bool
  digits : Nat
  exponent : Int
  deriving DecidableEq, Repr

/-- The number that decimal digits denote, after the number denoted by the digits before them. -/
def digitsValue (before : Nat) (cs : List Char) : Nat :=
  cs.foldl (fun n c => 10 * n + (c.toNat - '0'.toNat)) before

/-- Reads a sign, if there is one. -/
def splitSign : List Char → Bool × List Char
  | '-' :: cs => (true, cs)
  | '+' :: cs => (false, cs)
  | cs => (false, cs)

/-- Reads an exponent, if there is one: `e` or `E`, a sign or none, and at least one digit. -/
def splitExponent : List Char → Option Int
  | [] => some 0
  | c :: cs =>
    if c = 'e' || c = 'E' then
      let (negative, digits) := splitSign cs
      if digits.isEmpty || !digits.all Char.isDigit then none
      else some (if negative then -(digitsValue 0 digits : Int) else digitsValue 0 digits)
    else none

/-- Reads a numeral: a sign or none, digits with at most one point, at least one digit, an exponent or
none. -/
def Decimal.read? (cs : List Char) : Option Decimal :=
  let (negative, cs) := splitSign cs
  let whole := cs.takeWhile Char.isDigit
  let (fraction, cs) := match cs.dropWhile Char.isDigit with
    | '.' :: rest => (rest.takeWhile Char.isDigit, rest.dropWhile Char.isDigit)
    | rest => ([], rest)
  if whole.isEmpty && fraction.isEmpty then none
  else (splitExponent cs).map fun exponent =>
    ⟨negative, digitsValue (digitsValue 0 whole) fraction, exponent - fraction.length⟩

/-- The binary64 number nearest to a numeral. -/
def Decimal.toBinary64 (d : Decimal) : Option Binary64 :=
  Binary64.ofDecimal d.negative d.digits d.exponent

/-- The binary64 number that a numeral denotes, if the text is one and the number is finite. -/
def readBinary64? (cs : List Char) : Option Binary64 :=
  (Decimal.read? cs).bind Decimal.toBinary64

/-- The exponent of the leading decimal digit of a positive quotient. -/
def leadingExponent (num den : Nat) : Int :=
  if den ≤ num then Binary64.digitCount (num / den) - 1
  else
    let count := Binary64.digitCount (den / num)
    if den ≤ num * Nat.pow 10 (count - 1) then -((count - 1 : Nat) : Int) else -(count : Int)

/-- The nearest of the decimals `d · 10 ^ power` to `num / den` among those strictly between the bounds, or
on a bound if the bounds belong. All four quotients have the denominator `den`. Of two equally near the
even one is taken. -/
def nearestOnGrid (low num high den : Nat) (closed : Bool) (power : Int) : Option Nat :=
  let up := Nat.pow 10 power.toNat
  let down := Nat.pow 10 (-power).toNat
  let floor := num * down / (den * up)
  let inside (d : Nat) : Bool :=
    let x := d * up * den
    if closed then low * down ≤ x && x ≤ high * down else low * down < x && x < high * down
  let below := num * down - floor * up * den
  let above := (floor + 1) * up * den - num * down
  match inside floor, inside (floor + 1) with
  | true, true => some (if below < above || (below = above && floor % 2 = 0) then floor else floor + 1)
  | true, false => some floor
  | false, true => some (floor + 1)
  | false, false => none

/-- The fewest digits, and the power of ten that scales them, that read back as the number. For a zero no
digits are needed. -/
def Binary64.shortest (x : Binary64) : Nat × Int :=
  if x.mantissa = 0 then (0, 0)
  else
    let num := 4 * x.numerator
    let den := 4 * x.denominator
    let unit := Nat.pow 2 x.exponent.toNat
    let low := num - (if x.mantissa = Nat.pow 2 52 && -1074 < x.exponent then unit else 2 * unit)
    let high := num + 2 * unit
    let lead := leadingExponent num den
    let found := (List.range 17).findSome? fun (n : Nat) =>
      let power : Int := lead - n
      (nearestOnGrid low num high den (x.mantissa % 2 = 0) power).map (·, power)
    found.getD (0, 0)

/-- Digits without the zeros at their end, and the power of ten that makes up for them. -/
def dropTrailingZeros : List Char → Int → List Char × Int
  | [], power => ([], power)
  | c :: cs, power =>
    match dropTrailingZeros cs power with
    | ([], p) => if c = '0' then ([], p + 1) else ([c], p)
    | (rest, p) => (c :: rest, p)

/-- The text of a binary64 number. The fewest digits that read back are written positionally, with a point
and at least one digit on both sides of it, if the leading digit stands for a power of ten from `-5` to
`15`; otherwise with one digit before the point and a signed exponent. -/
def Binary64.text (x : Binary64) : String :=
  let sign := if x.negative then "-" else ""
  let (digits, power) := x.shortest
  let (cs, power) := dropTrailingZeros (Nat.toDigits 10 digits) power
  let body : List Char :=
    match cs with
    | [] => ['0', '.', '0']
    | first :: others =>
      let lead := power + others.length
      if 0 ≤ lead && lead ≤ 15 then
        let whole := cs.take (lead.toNat + 1)
        let fraction := cs.drop (lead.toNat + 1)
        whole ++ List.replicate (lead.toNat + 1 - whole.length) '0' ++ '.' ::
          (if fraction.isEmpty then ['0'] else fraction)
      else if -5 ≤ lead && lead < 0 then '0' :: '.' :: List.replicate ((-lead).toNat - 1) '0' ++ cs
      else
        first :: (if others.isEmpty then [] else '.' :: others) ++
          'e' :: (if lead < 0 then '-' else '+') :: Nat.toDigits 10 lead.natAbs
  sign ++ String.ofList body

end BicepMigration.Number
