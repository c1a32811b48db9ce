import BicepMigration.Catalog.JsonDocument
import BicepMigration.Catalog.TomlDocument
import BicepMigration.Catalog.YamlDocument
import BicepMigration.Catalog.Lookup
import BicepMigration.Files.Path

/-!
# Formats of catalogs

A catalog is read from a text in one of three data formats. The format of a file is told by the extension of
its name, without regard to case.
-/

namespace BicepMigration.Catalog

/-- A data format. -/
inductive DataFormat where
  | yaml
  | json
  | toml
  deriving DecidableEq, Repr

/-- Why there is no catalog. -/
inductive CatalogError where
  /-- The file cannot be read. -/
  | unreadable (path reason : String)
  /-- The text is no document in the format. -/
  | malformed (format : DataFormat)
  /-- No format has the extension. -/
  | unknownFormat (extension : String)
  /-- An entry is not well formed. -/
  | invalidEntry (entry : InvalidEntry)
  deriving DecidableEq, Repr

/-- The format in capital letters. -/
def DataFormat.label : DataFormat → String
  | yaml => "YAML"
  | json => "JSON"
  | toml => "TOML"

/-- The wording for an entry that is not well formed. -/
def InvalidEntry.message (entry : InvalidEntry) : String :=
  "catalog entry " ++ toString entry.index ++ " (" ++ entry.resourceType ++ "): " ++ entry.fault.message

/-- The wording of an error. -/
def CatalogError.message : CatalogError → String
  | unreadable path reason => "cannot read catalog " ++ path ++ ": " ++ reason
  | malformed format => "catalog " ++ format.label ++ " parse error:"
  | unknownFormat extension =>
    "unsupported catalog format '" ++ extension ++ "' (expected .yaml, .yml, .json or .toml)"
  | invalidEntry entry => entry.message

/-- The format of a file, or the extension that no format has. -/
def DataFormat.ofPath (path : String) : Except String DataFormat :=
  let extension := smallLetters ((Files.extension? path).getD "")
  if extension = "yaml" || extension = "yml" then .ok yaml
  else if extension = "json" then .ok json
  else if extension = "toml" then .ok toml
  else .error extension

/-- Reads a document. -/
def readDocument? (format : DataFormat) (text : String) : Option Document :=
  match format with
  | .json => documentOfJson? text
  | .yaml => documentOfYaml? text
  | .toml => documentOfToml? text

/-- Reads a catalog. -/
def readCatalog (format : DataFormat) (text : String) : Except CatalogError ModuleCatalog :=
  match readDocument? format text with
  | none => .error (.malformed format)
  | some document =>
    match ModuleCatalog.ofDocument document with
    | .error entry => .error (.invalidEntry entry)
    | .ok catalog => .ok catalog

end BicepMigration.Catalog
