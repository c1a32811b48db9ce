import BicepMigration.Number.Decimal

/-!
# JSON values

A JSON value with its objects as lists of entries, in the order in which they are written. A value in
sorted form has the keys of every object in the order of their bytes and each key once.
-/

namespace BicepMigration

/-- A JSON number: an integer that fits 64 bits, signed or unsigned, or a binary64 number. -/
inductive JsonNumber where
  | integer (value : Int)
  | float (value : Number.Binary64)
  deriving DecidableEq, Repr

/-- A JSON value. -/
inductive Json where
  | null
  | bool (value : Bool)
  | number (value : JsonNumber)
  | string (value : String)
  | array (items : List Json)
  | object (entries : List (String × Json))
  deriving Repr, Inhabited

namespace Json

/-- A whole number as a value. -/
def ofNat (n : Nat) : Json := .number (.integer n)

/-- A text or nothing as a value. -/
def ofString? : Option String → Json
  | none => .null
  | some text => .string text

/-- The first entry with a key. -/
def entry? {α : Type} (entries : List (String × α)) (key : String) : Option α :=
  entries.lookup key

/-- Puts an entry into a table sorted by key. An entry with the same key is replaced. -/
def insertSorted {α : Type} (key : String) (value : α) : List (String × α) → List (String × α)
  | [] => [(key, value)]
  | (k, v) :: rest =>
    if key = k then (key, value) :: rest
    else if key < k then (key, value) :: (k, v) :: rest
    else (k, v) :: insertSorted key value rest

/-- Puts an entry into a table in order of first appearance. An entry with the same key keeps its place and
gets the new value. -/
def insertOrdered {α : Type} (key : String) (value : α) : List (String × α) → List (String × α)
  | [] => [(key, value)]
  | (k, v) :: rest => if key = k then (k, value) :: rest else (k, v) :: insertOrdered key value rest

/-- A table of entries in order of first appearance, each with the last value of its key. -/
def orderedTable {α : Type} (entries : List (String × α)) : List (String × α) :=
  entries.foldl (fun table (k, v) => insertOrdered k v table) []

mutual

/-- The value in sorted form. Of entries with equal keys the last one stays. -/
def sorted : Json → Json
  | .array items => .array (sortedItems items)
  | .object entries => .object (sortedEntries entries [])
  | value => value

/-- Elements in sorted form. -/
def sortedItems : List Json → List Json
  | [] => []
  | item :: rest => sorted item :: sortedItems rest

/-- A sorted table with further entries put in, in their order. -/
def sortedEntries : List (String × Json) → List (String × Json) → List (String × Json)
  | [], table => table
  | (key, value) :: rest, table => sortedEntries rest (insertSorted key (sorted value) table)

end

end Json

end BicepMigration
