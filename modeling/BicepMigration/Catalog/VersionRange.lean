import BicepMigration.Catalog.ApiVersion
import BicepMigration.Text.Blank

/-!
# Ranges of API versions

A mapping applies to all versions, to some versions one by one, or to the versions between two bounds, each
of which may be missing. A range is written as words: bounds, or exact versions, but not both. Of several
lower bounds the last one counts, and so for upper bounds. The more specific of two ranges is the one with
the smaller specificity.
-/

namespace BicepMigration.Catalog

open Text

/-- A set of API versions. -/
inductive VersionRange where
  /-- All versions. -/
  | any
  /-- The versions in a list. -/
  | exact (versions : List ApiVersion)
  /-- The versions from a least to a greatest one. -/
  | bounded (least greatest : Option ApiVersion)
  deriving DecidableEq, Repr

/-- Why a text is no range. -/
inductive RangeFault where
  /-- A word, or what follows a bound's sign, is no version. -/
  | notVersion (text : String)
  /-- A bound excludes its version. -/
  | strictBound (word : String)
  /-- Bounds stand beside exact versions. -/
  | mixed (spec : String)
  /-- The least version is after the greatest. -/
  | empty (spec : String)
  deriving DecidableEq, Repr

/-- The wording of a fault. -/
def RangeFault.message : RangeFault → String
  | notVersion text => "invalid API version '" ++ text ++ "' (expected YYYY-MM-DD[-preview])"
  | strictBound word => "unsupported range operator in '" ++ word ++ "' (use >= or <=)"
  | mixed spec => "'" ++ spec ++ "' mixes exact versions with bounds"
  | empty spec => "empty range '" ++ spec ++ "'"

/-- Reads a version, or tells that the text is none. -/
def readVersion (text : String) : Except RangeFault ApiVersion :=
  match ApiVersion.read? text with
  | some v => .ok v
  | none => .error (.notVersion text)

/-- What one word of a range says. -/
inductive Clause where
  | atLeast (version : ApiVersion)
  | atMost (version : ApiVersion)
  | exactly (version : ApiVersion)
  deriving DecidableEq, Repr

namespace Clause

/-- Reads a word of a range. -/
def read (word : List Char) : Except RangeFault Clause :=
  match word with
  | '>' :: '=' :: rest => (readVersion (String.ofList rest)).map atLeast
  | '<' :: '=' :: rest => (readVersion (String.ofList rest)).map atMost
  | '>' :: _ => .error (.strictBound (String.ofList word))
  | '<' :: _ => .error (.strictBound (String.ofList word))
  | _ => (readVersion (String.ofList word)).map exactly

/-- The version of a lower bound. -/
def least? : Clause → Option ApiVersion
  | atLeast v => some v
  | _ => none

/-- The version of an upper bound. -/
def greatest? : Clause → Option ApiVersion
  | atMost v => some v
  | _ => none

/-- The version of an exact clause. -/
def single? : Clause → Option ApiVersion
  | exactly v => some v
  | _ => none

end Clause

namespace VersionRange

/-- Reads a range. Nothing, or a star, stands for all versions. -/
def read (spec : String) : Except RangeFault VersionRange :=
  let spec := trim spec
  if spec = "" || spec = "*" then .ok any
  else
    match (wordsOf spec.toList).mapM Clause.read with
    | .error fault => .error fault
    | .ok clauses =>
      let least := (clauses.filterMap Clause.least?).getLast?
      let greatest := (clauses.filterMap Clause.greatest?).getLast?
      match clauses.filterMap Clause.single? with
      | [] =>
        match least, greatest with
        | some a, some b => if a ≤ b then .ok (bounded least greatest) else .error (.empty spec)
        | _, _ => .ok (bounded least greatest)
      | versions =>
        if least.isSome || greatest.isSome then .error (.mixed spec) else .ok (exact versions)

/-- Reads a list: no text stands for all versions, one for the range that it is, more for exact versions. -/
def readList : List String → Except RangeFault VersionRange
  | [] => .ok any
  | [one] => read one
  | many => (many.mapM fun text => readVersion (trim text)).map exact

/-- The version belongs to the range. -/
def contains (range : VersionRange) (v : ApiVersion) : Bool :=
  match range with
  | any => true
  | exact versions => versions.contains v
  | bounded least greatest => least.all (fun a => decide (a ≤ v)) && greatest.all (fun b => decide (v ≤ b))

/-- How specific a range is: smaller is more specific. Exact versions come first, the fewer the better; then
ranges with both bounds, the narrower the better; then those with one bound; then all versions. -/
def specificity : VersionRange → Nat × Int
  | exact versions => (0, versions.length)
  | bounded (some a) (some b) => (1, b.dayNumber - a.dayNumber)
  | bounded _ _ => (2, 0)
  | any => (3, 0)

/-- The text of a range. -/
def text : VersionRange → String
  | any => "*"
  | exact versions => ", ".intercalate (versions.map ApiVersion.text)
  | bounded least greatest =>
    " ".intercalate ((least.map (">=" ++ ·.text)).toList ++ (greatest.map ("<=" ++ ·.text)).toList)

end VersionRange

end BicepMigration.Catalog
