import BicepMigration.Catalog.Calendar
import BicepMigration.Number.Decimal
import BicepMigration.Text.Span

/-!
# API versions

An API version is a date, and possibly a preview of what is released on that date. A preview comes before
the release. The days of a month are not counted: every month may have 31.
-/

namespace BicepMigration.Catalog

open Text

/-- Whether a version is released. -/
inductive Stage where
  | preview
  /-- Generally available. -/
  | released
  deriving DecidableEq, Repr

/-- An API version. -/
structure ApiVersion where
  year : Nat
  month : Nat
  day : Nat
  stage : Stage
  year_le : year ≤ 9999
  month_mem : 1 ≤ month ∧ month ≤ 12
  day_mem : 1 ≤ day ∧ day ≤ 31
  deriving DecidableEq, Repr

namespace ApiVersion

/-- The place of a version in the order of versions. -/
def rank (v : ApiVersion) : Nat :=
  ((v.year * 13 + v.month) * 32 + v.day) * 2 + (if v.stage = .preview then 0 else 1)

instance : LE ApiVersion := ⟨fun a b => a.rank ≤ b.rank⟩

instance (a b : ApiVersion) : Decidable (a ≤ b) := inferInstanceAs (Decidable (a.rank ≤ b.rank))

/-- Reads a number of so many bytes: digits, with a plus sign before them or not. -/
def readField (size : Nat) (cs : List Char) : Option Nat :=
  let digits := match cs with
    | '+' :: rest => rest
    | _ => cs
  if byteLength cs = size && !digits.isEmpty && digits.all Char.isDigit then some (Number.digitsValue 0 digits)
  else none

/-- The characters before the first hyphen, and those after it, if there is one. -/
def splitHyphen : List Char → List Char × Option (List Char)
  | [] => ([], none)
  | c :: cs =>
    if c = '-' then ([], some cs)
    else
      let (before, after) := splitHyphen cs
      (c :: before, after)

/-- The stage that is told by what follows the date. Any suffix that is not empty means a preview. -/
def readStage : Option (List Char) → Option Stage
  | none => some .released
  | some [] => none
  | some _ => some .preview

/-- Reads a version: year, month and day, separated by hyphens, and a suffix after another hyphen or none. -/
def read? (text : String) : Option ApiVersion := do
  let (year, rest) := splitHyphen text.toList
  let (month, rest) := splitHyphen (← rest)
  let (day, suffix) := splitHyphen (← rest)
  let year ← readField 4 year
  let month ← readField 2 month
  let day ← readField 2 day
  let stage ← readStage suffix
  if h : year ≤ 9999 ∧ (1 ≤ month ∧ month ≤ 12) ∧ (1 ≤ day ∧ day ≤ 31) then
    some ⟨year, month, day, stage, h.1, h.2.1, h.2.2⟩
  else none

/-- Digits of a number, with zeros before them up to a width. -/
def padded (width n : Nat) : List Char :=
  let digits := Nat.toDigits 10 n
  List.replicate (width - digits.length) '0' ++ digits

/-- The text of a version. The suffix of a preview is not kept. -/
def text (v : ApiVersion) : String :=
  String.ofList (padded 4 v.year ++ '-' :: padded 2 v.month ++ '-' :: padded 2 v.day ++
    match v.stage with
    | .released => []
    | .preview => "-preview".toList)

/-- Days from 1970-01-01. -/
def dayNumber (v : ApiVersion) : Int := Calendar.dayNumber v.year v.month v.day

end ApiVersion

end BicepMigration.Catalog
