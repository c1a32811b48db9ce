import BicepMigration.Json.Basic

/-!
# Schema of catalogs

A schema of the documents that catalogs are read from, for tools that check documents.
-/

namespace BicepMigration.Catalog.Schema

/-- A table from texts to texts. -/
def textTable (description : String) : Json :=
  .object [("description", .string description), ("default", .object []), ("type", .string "object"),
    ("additionalProperties", .object [("type", .string "string")])]

/-- A text. -/
def text (description : String) : Json :=
  .object [("description", .string description), ("type", .string "string")]

/-- A reference to a definition. -/
def definition (name : String) : Json :=
  .object [("$ref", .string ("#/definitions/" ++ name))]

/-- The schema of a mapping. -/
def mapping : Json :=
  .object
    [("description", .string "How one resource type (and version range) maps onto a module."),
      ("type", .string "object"),
      ("required", .array [.string "module", .string "resourceType"]),
      ("properties", .object
        [("defaults", .object
            [("description", .string "Module input path → documented default value"), ("default", .object []),
              ("type", .string "object"), ("additionalProperties", .bool true)]),
          ("description", .object [("type", .array [.string "string", .string "null"])]),
          ("inputs", textTable "Resource property path → module input name"),
          ("module", text "Module locator (\x60br:avm/storage:latest\x60)"),
          ("outputs", textTable "Resource property path → module output name"),
          ("resourceType", text "Resource type or glob pattern (\x60Microsoft.Storage/storageAccounts\x60)"),
          ("versions", .object
            [("description",
                .string "\x60*\x60, an exact API version, a list of versions, or \x60>=A <=B\x60"),
              ("default", .string "*"), ("allOf", .array [definition "VersionSpec"])])])]

/-- The schema of versions. -/
def versions : Json :=
  .object
    [("description", .string "Version selector as written in the catalog."),
      ("anyOf", .array
        [.object [("type", .string "string")],
          .object [("type", .string "array"), ("items", .object [("type", .string "string")])]])]

/-- The schema of a document. -/
def document : Json :=
  .object
    [("$schema", .string "http://json-schema.org/draft-07/schema#"), ("title", .string "CatalogDocument"),
      ("description", .string "A catalog file."), ("type", .string "object"),
      ("properties", .object
        [("modules", .object
            [("description", .string "Mappings in declaration order"), ("default", .array []),
              ("type", .string "array"), ("items", definition "ModuleMapping")]),
          ("version", .object
            [("description", .string "Schema version"), ("default", .string "1.0"),
              ("type", .string "string")])]),
      ("definitions", .object [("ModuleMapping", mapping), ("VersionSpec", versions)])]

end BicepMigration.Catalog.Schema
