import BicepMigration.Catalog.Mapping
import BicepMigration.Template.Value

/-!
# Splitting a body by a mapping

The properties of a resource body go three ways. A few belong to the module call itself. A property whose
path is an input path becomes that input. Every other one is kept where it stands; an object that holds
input paths further down is split in turn, and is kept only with what remains in it.
-/

namespace BicepMigration.Migration

open Catalog Template

/-- Keys of a body that belong to the module call and not to its inputs. -/
def hoistedKeys : List String := ["dependsOn", "scope"]

/-- A property that becomes an input of the module. -/
structure Translation where
  /-- The path of the property in the body. -/
  path : String
  /-- The name of the input. -/
  input : String
  value : Value
  deriving Repr

/-- A property that no input of the module stands for. -/
structure Unmapped where
  /-- The path of the property in the body. -/
  path : String
  /-- Line of the key. -/
  line : Nat
  deriving DecidableEq, Repr

/-- Where properties go, in their order. -/
structure Division where
  translated : List Translation
  /-- Properties that stay as they are, in the objects that hold them. -/
  residual : List (Property Value)
  unmapped : List Unmapped
  deriving Repr

namespace Division

/-- No properties. -/
def empty : Division := ⟨[], [], []⟩

/-- One division after another. -/
def append (a b : Division) : Division :=
  ⟨a.translated ++ b.translated, a.residual ++ b.residual, a.unmapped ++ b.unmapped⟩

/-- A property that becomes an input. -/
def translate (path input : String) (value : Value) : Division := ⟨[⟨path, input, value⟩], [], []⟩

/-- A property that stays as it is. -/
def keep (path : String) (p : Property Value) : Division := ⟨[], [p], [⟨path, p.line⟩]⟩

/-- The division of an object as one of the property that holds it. An object that nothing remains in is
left out. -/
def enclose (key : String) (quoted : Bool) (line : Nat) (inner : Division) : Division :=
  { inner with
    residual := if inner.residual.isEmpty then [] else [⟨key, quoted, .object inner.residual, line⟩] }

end Division

/-- Divides properties that stand under a path. -/
def divide (mapping : Mapping) (parent : String) : List (Property Value) → Division
  | [] => .empty
  | ⟨key, quoted, value, line⟩ :: rest =>
    let path := childPath parent key
    let first : Division :=
      match Json.entry? mapping.inputs path, value with
      | some input, value => .translate path input value
      | none, .object entries =>
        if mapping.hasInputsUnder path then .enclose key quoted line (divide mapping path entries)
        else .keep path ⟨key, quoted, .object entries, line⟩
      | none, value => .keep path ⟨key, quoted, value, line⟩
    first.append (divide mapping parent rest)

/-- A body split by a mapping. -/
structure Partition extends Division where
  /-- Properties that belong to the module call. -/
  hoisted : List (Property Value)
  deriving Repr

/-- Splits a body by a mapping. -/
def partition (mapping : Mapping) (body : ObjectLiteral) : Partition :=
  { toDivision := divide mapping "" (body.filter fun p => !hoistedKeys.contains p.key)
    hoisted := body.filter fun p => hoistedKeys.contains p.key }

/-- The first property with a key that belongs to the module call. -/
def Partition.hoisted? (p : Partition) (key : String) : Option (Property Value) :=
  p.hoisted.find? (·.key = key)

end BicepMigration.Migration
