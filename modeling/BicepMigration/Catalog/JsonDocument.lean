import BicepMigration.Catalog.View
import BicepMigration.Json.Reader

/-!
# Documents in JSON

A record is an object, or an array of its fields in their order, of which the last ones may be left out. What
stands under unknown names only has to be well formed.
-/

namespace BicepMigration.Catalog

open BicepMigration.Json

/-- A tree with the room for brackets inside it. -/
structure RoomyTree where
  room : Nat
  tree : Tree

namespace RoomyTree

/-- The elements of an array. -/
def items? (t : RoomyTree) : Option (List RoomyTree) :=
  match t.tree with
  | .array items => if t.room < 2 then none else some (items.map (⟨t.room - 1, ·⟩))
  | _ => none

/-- The entries of an object. -/
def table? (t : RoomyTree) : Option (List (String × RoomyTree)) :=
  match t.tree with
  | .object entries =>
    if t.room < 2 then none
    else entries.mapM fun (key, item) => (stringText? key).map (·, ⟨t.room - 1, item⟩)
  | _ => none

/-- The fields of a record. -/
def record? (names : List String) (t : RoomyTree) : Option (List (String × RoomyTree)) :=
  match t.table?, t.items? with
  | some entries, _ => knownFields names entries
  | none, some items => if items.length ≤ names.length then some (names.zip items) else none
  | none, none => none

/-- A string. -/
def text? (t : RoomyTree) : Option String :=
  match t.tree with
  | .string parts => stringText? parts
  | _ => none

/-- A string, or null for none. -/
def optionalText? (t : RoomyTree) : Option (Option String) :=
  match t.tree with
  | .null => some none
  | _ => t.text?.map some

/-- A string, or an array of strings. -/
def versions? (t : RoomyTree) : Option VersionSpec :=
  match t.text?, t.items? with
  | some text, _ => some (.one text)
  | none, some items => (items.mapM text?).map .many
  | none, none => none

end RoomyTree

/-- JSON as a format of documents. -/
def jsonView : View RoomyTree where
  text? := RoomyTree.text?
  optionalText? := RoomyTree.optionalText?
  versions? := RoomyTree.versions?
  record? := RoomyTree.record?
  items? := RoomyTree.items?
  table? := RoomyTree.table?
  json? t := t.tree.value? t.room

/-- Reads a document from JSON text. -/
def documentOfJson? (text : String) : Option Document :=
  (Tree.read? text).bind fun tree => jsonView.document? ⟨roomAtStart, tree⟩

end BicepMigration.Catalog
