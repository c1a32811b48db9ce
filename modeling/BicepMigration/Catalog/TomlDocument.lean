import BicepMigration.Catalog.View
import BicepMigration.Toml.Reader

/-!
# Documents in TOML

A record is a table, or an array of its fields in their order, of which the last ones may be left out. A date
or a time among the defaults becomes an object with its text, and a number that has no JSON form becomes null.
-/

namespace BicepMigration.Catalog

open BicepMigration.Toml

namespace TomlValue

/-- A string. -/
def text? : Toml.Value → Option String
  | .string text => some text
  | _ => none

/-- The elements of an array. -/
def items? : Toml.Value → Option (List Toml.Value)
  | .array items => some items
  | _ => none

/-- The entries of a table. -/
def table? : Toml.Value → Option (List (String × Toml.Value))
  | .table entries => some entries
  | _ => none

/-- The fields of a record. -/
def record? (names : List String) : Toml.Value → Option (List (String × Toml.Value))
  | .table entries => knownFields names entries
  | .array items => some (names.zip items)
  | _ => none

/-- A string, or an array of strings. -/
def versions? : Toml.Value → Option VersionSpec
  | .string text => some (.one text)
  | .array items => (items.mapM text?).map .many
  | _ => none

/-- The key of the text of a date or a time. -/
def momentKey : String := "$__toml_private_datetime"

mutual

/-- A value as JSON. -/
def json : Toml.Value → Json
  | .string text => .string text
  | .integer n => .number (.integer n)
  | .float x => .number (.float x)
  | .beyond => .null
  | .bool b => .bool b
  | .moment text => .object [(momentKey, .string text)]
  | .array items => .array (jsonItems items)
  | .table entries => .object (jsonEntries entries)

/-- Elements as JSON. -/
def jsonItems : List Toml.Value → List Json
  | [] => []
  | item :: rest => json item :: jsonItems rest

/-- Entries as JSON. -/
def jsonEntries : List (String × Toml.Value) → List (String × Json)
  | [] => []
  | (key, value) :: rest => (key, json value) :: jsonEntries rest

end

end TomlValue

/-- TOML as a format of documents. -/
def tomlView : View Toml.Value where
  text? := TomlValue.text?
  optionalText? value := (TomlValue.text? value).map some
  versions? := TomlValue.versions?
  record? := TomlValue.record?
  items? := TomlValue.items?
  table? := TomlValue.table?
  json? value := some (TomlValue.json value)

/-- Reads a document from TOML text. -/
def documentOfToml? (text : String) : Option Document :=
  (Toml.read? text).bind tomlView.document?

end BicepMigration.Catalog
