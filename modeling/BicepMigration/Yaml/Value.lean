import BicepMigration.Json.Basic
import BicepMigration.Text.Hexadecimal
import BicepMigration.Yaml.Expansion

/-!
# Values of YAML

What a scalar stands for is told by its tag, or else by its text if it is plain: null, a truth value, an
integer, a number, or a text. Digits after a needless zero make a text. An infinite number and one that is
none have no JSON form and become null.
-/

namespace BicepMigration.Yaml

/-- The text stands for null. -/
def isNull (text : String) : Bool := ["null", "Null", "NULL", "~"].contains text

/-- The truth value that a text stands for. -/
def bool? (text : String) : Option Bool :=
  if ["true", "True", "TRUE"].contains text then some true
  else if ["false", "False", "FALSE"].contains text then some false
  else none

/-- The value of digits in base sixteen, eight or two. -/
def basedValue? (base : Nat) (digits : List Char) : Option Nat :=
  if digits.isEmpty then none
  else
    digits.foldlM (fun n c => (Text.hexDigit? c).bind fun d => if d < base then some (base * n + d) else none) 0

/-- The base that is told by the two characters before digits. -/
def baseOf? : List Char → Option (Nat × List Char)
  | '0' :: 'x' :: digits => some (16, digits)
  | '0' :: 'o' :: digits => some (8, digits)
  | '0' :: 'b' :: digits => some (2, digits)
  | _ => none

/-- Digits after a zero, with a sign or none. -/
def hasNeedlessZero (cs : List Char) : Bool :=
  match (Number.splitSign cs).2 with
  | '0' :: c :: rest => (c :: rest).all Char.isDigit
  | _ => false

/-- The integer that a text stands for: a sign or none, and decimal digits, or digits after the mark of a
base. -/
def integer? (cs : List Char) : Option Int :=
  let (negative, digits) := Number.splitSign cs
  let size :=
    match baseOf? digits with
    | some (base, digits) => basedValue? base digits
    | none =>
      if digits.isEmpty || !digits.all Char.isDigit || hasNeedlessZero cs then none
      else some (Number.digitsValue 0 digits)
  size.map fun n => if negative then -(n : Int) else n

/-- The number is infinite or none. -/
def isBeyondNumbers (text : String) : Bool :=
  [".inf", ".Inf", ".INF", "+.inf", "+.Inf", "+.INF", "-.inf", "-.Inf", "-.INF", ".nan", ".NaN", ".NAN"].contains
    text

/-- The number that a text stands for, or null for one that has no JSON form. -/
def float? (text : String) : Option Json :=
  if isBeyondNumbers text then some .null
  else
    match text.toList with
    | '+' :: '-' :: _ => none
    | '+' :: '+' :: _ => none
    | '+' :: cs => (Number.readBinary64? cs).map fun x => .number (.float x)
    | cs => (Number.readBinary64? cs).map fun x => .number (.float x)

/-- An integer as a value: it must fit 64 bits, signed or unsigned. -/
def ofInteger? (n : Int) : Option Json :=
  if -(Nat.pow 2 63 : Int) ≤ n && n < (Nat.pow 2 64 : Int) then some (.number (.integer n)) else none

/-- The integer fits 128 bits, signed or unsigned. Greater ones are read as numbers. -/
def isInteger (n : Int) : Bool := -(Nat.pow 2 127 : Int) ≤ n && n < (Nat.pow 2 128 : Int)

/-- The value of a plain scalar without a tag. -/
def plainValue? (text : String) : Option Json :=
  if text = "" || isNull text then some .null
  else
    match bool? text with
    | some b => some (.bool b)
    | none =>
      match (integer? text.toList).filter isInteger with
      | some n => ofInteger? n
      | none => some ((if hasNeedlessZero text.toList then none else float? text).getD (.string text))

/-- The tag of a kind of value. -/
def coreTag (name : String) : String := "tag:yaml.org,2002:" ++ name

/-- The value of a scalar. -/
def scalarValue? (text : String) (plain : Bool) (tag : Option String) : Option Json :=
  match tag with
  | none => if plain then plainValue? text else some (.string text)
  | some tag =>
    if tag.toList.head? = some '!' then none
    else if tag = coreTag "bool" then (bool? text).map .bool
    else if tag = coreTag "int" then (integer? text.toList).bind ofInteger?
    else if tag = coreTag "float" then float? text
    else if tag = coreTag "null" then if isNull text then some .null else none
    else some (.string text)

/-- The tag belongs to an application. -/
def isForeign (tag : Option String) : Bool := tag.any fun text => text.toList.head? = some '!'

mutual

/-- The value of a tree. The keys of a mapping are texts. -/
def Tree.value? : Tree → Option Json
  | .scalar text plain tag => scalarValue? text plain tag
  | .sequence tag items => if isForeign tag then none else (valuesOf? items).map .array
  | .mapping tag entries => if isForeign tag then none else (entriesOf? entries).map .object

/-- The values of elements. -/
def valuesOf? : List Tree → Option (List Json)
  | [] => some []
  | item :: rest => do
    let value ← item.value?
    let values ← valuesOf? rest
    some (value :: values)

/-- The values of entries. -/
def entriesOf? : List (Tree × Tree) → Option (List (String × Json))
  | [] => some []
  | (.scalar key _ _, item) :: rest => do
    let value ← item.value?
    let values ← entriesOf? rest
    some ((key, value) :: values)
  | _ => none

end

end BicepMigration.Yaml
