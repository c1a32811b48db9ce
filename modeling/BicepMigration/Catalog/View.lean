import BicepMigration.Catalog.Mapping

/-!
# Reading documents

A catalog document can be written in several data formats. A view tells how the values of one of them are
read as texts, lists, tables and records; the rest is the same for all formats. Fields with unknown names are
passed over, and a known field may be given once only. In a table a later entry takes the place of an
earlier one with the same key.
-/

namespace BicepMigration.Catalog

/-- How the values of a data format are read. Each part gives nothing for a value of another kind. -/
structure View (α : Type) where
  /-- A text. -/
  text? : α → Option String
  /-- A text that may be missing. -/
  optionalText? : α → Option (Option String)
  /-- One text, or a list of texts. -/
  versions? : α → Option VersionSpec
  /-- The known fields of a record, given the known names in their order. -/
  record? : List String → α → Option (List (String × α))
  /-- The elements of a list. -/
  items? : α → Option (List α)
  /-- The entries of a table as they are written. -/
  table? : α → Option (List (String × α))
  /-- Any value. -/
  json? : α → Option Json

/-- The fields with known names among entries, each of which is given at most once. -/
def knownFields {α : Type} (names : List String) (entries : List (String × α)) : Option (List (String × α)) :=
  let known := entries.filter fun (key, _) => names.contains key
  if (known.map (·.1)).Nodup then some known else none

namespace View

variable {α : Type} (view : View α)

/-- A field that may be left out. -/
def field? {β : Type} (fields : List (String × α)) (name : String) (otherwise : β) (read : α → Option β) :
    Option β :=
  match fields.lookup name with
  | none => some otherwise
  | some value => read value

/-- A table whose values are read one by one. -/
def tableOf? {β : Type} (read : α → Option β) (value : α) : Option (List (String × β)) := do
  let entries ← view.table? value
  let values ← entries.mapM fun (key, item) => (read item).map (key, ·)
  some (Json.orderedTable values)

/-- The fields of a mapping. -/
def mappingFields : List String :=
  ["resourceType", "versions", "module", "description", "inputs", "outputs", "defaults"]

/-- Reads a mapping. -/
def mapping? (value : α) : Option Mapping := do
  let fields ← view.record? mappingFields value
  let resourceType ← (← fields.lookup "resourceType") |> view.text?
  let versions ← field? fields "versions" .all view.versions?
  let module ← (← fields.lookup "module") |> view.text?
  let description ← field? fields "description" none view.optionalText?
  let inputs ← field? fields "inputs" [] (view.tableOf? view.text?)
  let outputs ← field? fields "outputs" [] (view.tableOf? view.text?)
  let defaults ← field? fields "defaults" [] (view.tableOf? fun item => (view.json? item).map Json.sorted)
  some ⟨resourceType, versions, module, description, inputs, outputs, defaults⟩

/-- The fields of a document. -/
def documentFields : List String := ["version", "modules"]

/-- Reads a document. -/
def document? (value : α) : Option Document := do
  let fields ← view.record? documentFields value
  let version ← field? fields "version" defaultSchemaVersion view.text?
  let modules ← field? fields "modules" [] fun item => do
    let items ← view.items? item
    items.mapM view.mapping?
  some ⟨version, modules⟩

end View

end BicepMigration.Catalog
