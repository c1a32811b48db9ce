import BicepMigration.Catalog.VersionRange
import BicepMigration.Json.Printer
import BicepMigration.Text.Glob

/-!
# Mappings of resource types to modules

A mapping says for resources of some type and version which module replaces them, which properties become
inputs of the module, which accesses become outputs, and which inputs the module sets by itself. Property
paths and input paths are identifiers joined by points. A document lists mappings; the checks that a mapping
has to pass are made when a catalog is built from it.
-/

namespace BicepMigration.Catalog

open Text

/-- Versions as a document gives them: one text, or a list. -/
inductive VersionSpec where
  | one (text : String)
  | many (texts : List String)
  deriving DecidableEq, Repr

/-- The range that the versions make. -/
def VersionSpec.range : VersionSpec → Except RangeFault VersionRange
  | one text => VersionRange.read text
  | many texts => VersionRange.readList texts

/-- How resources of a type map to a module. -/
structure Mapping where
  /-- A resource type, or a pattern over resource types. -/
  resourceType : String
  /-- The versions that the mapping applies to. -/
  versions : VersionSpec
  /-- Where the module is found. -/
  module : String
  /-- What the mapping is for. -/
  description : Option String
  /-- Inputs of the module by property path. -/
  inputs : List (String × String)
  /-- Outputs of the module by property path. -/
  outputs : List (String × String)
  /-- Default values by input path. -/
  defaults : List (String × Json)
  deriving Repr

/-- A list of mappings, with the version of the schema it follows. -/
structure Document where
  version : String
  modules : List Mapping
  deriving Repr

/-- The schema version of a document that names none. -/
def defaultSchemaVersion : String := "1.0"

/-- The versions of a mapping that names none. -/
def VersionSpec.all : VersionSpec := .one "*"

/-- The path of a property inside another, which may be the root. -/
def childPath (parent key : String) : String :=
  if parent = "" then key else parent ++ "." ++ key

/-- Some key of a table is a path strictly below a path. -/
def hasPathBelow {α : Type} (table : List (String × α)) (path : String) : Bool :=
  table.any fun (key, _) => (path ++ ".").toList.isPrefixOf key.toList

/-- Some input path lies strictly below a path. -/
def Mapping.hasInputsUnder (mapping : Mapping) (path : String) : Bool :=
  hasPathBelow mapping.inputs path

/-- A character that can start an identifier. -/
def startsIdentifier (c : Char) : Bool := c = '_' || c.isAlpha

/-- A character that can continue an identifier. -/
def continuesIdentifier (c : Char) : Bool := c = '_' || c.isAlphanum

/-- Letters, digits and underscores, no digit first. -/
def isIdentifierChars : List Char → Bool
  | [] => false
  | c :: cs => startsIdentifier c && cs.all continuesIdentifier

/-- The text is an identifier. -/
def isIdentifier (text : String) : Bool := isIdentifierChars text.toList

/-- The parts of a text between points. There is at least one. -/
def pathParts : List Char → List (List Char)
  | [] => [[]]
  | c :: cs =>
    if c = '.' then [] :: pathParts cs
    else
      match pathParts cs with
      | [] => [[c]]
      | part :: parts => (c :: part) :: parts

/-- The text is identifiers joined by points. -/
def isPropertyPath (text : String) : Bool := (pathParts text.toList).all isIdentifierChars

/-- What is wrong with an entry of a document. -/
inductive EntryFault where
  | emptyType
  | emptyModule
  | quoteInModule (module : String)
  | inputPath (path : String)
  | inputName (name : String)
  | outputPath (path : String)
  | outputName (name : String)
  | defaultPath (path : String)
  | pattern (pattern : String) (error : Glob.Error)
  | versions (fault : RangeFault)
  deriving DecidableEq, Repr

/-- The wording of a fault. -/
def EntryFault.message : EntryFault → String
  | emptyType => "resourceType is empty"
  | emptyModule => "module locator is empty"
  | quoteInModule module => "module locator '" ++ module ++ "' contains a quote"
  | inputPath path => "input path '" ++ path ++ "' is not a property path"
  | inputName name => "input name '" ++ name ++ "' is not an identifier"
  | outputPath path => "output path '" ++ path ++ "' is not a property path"
  | outputName name => "output name '" ++ name ++ "' is not an identifier"
  | defaultPath path => "default path '" ++ path ++ "' is not a property path"
  | pattern text error => "invalid type pattern '" ++ text ++ "': " ++ error.message
  | versions fault => fault.message

/-- The first fault of an entry in a table from property paths to names. -/
def tableFault (path name : String → EntryFault) : List (String × String) → Option EntryFault
  | [] => none
  | (key, value) :: rest =>
    if !isPropertyPath key then some (path key)
    else if !isIdentifier value then some (name value)
    else tableFault path name rest

/-- The first fault of a mapping, its pattern and its range apart. -/
def Mapping.fault? (mapping : Mapping) : Option EntryFault :=
  if isBlankText mapping.resourceType then some .emptyType
  else if isBlankText mapping.module then some .emptyModule
  else if mapping.module.toList.contains '\'' then some (.quoteInModule mapping.module)
  else
    tableFault .inputPath .inputName mapping.inputs <|>
    tableFault .outputPath .outputName mapping.outputs <|>
    (mapping.defaults.find? fun (key, _) => !isPropertyPath key).map fun (key, _) => .defaultPath key

/-- Versions as JSON. -/
def VersionSpec.toJson : VersionSpec → Json
  | one text => .string text
  | many texts => .array (texts.map .string)

/-- A mapping as JSON. -/
def Mapping.toJson (mapping : Mapping) : Json :=
  .object ([("resourceType", .string mapping.resourceType), ("versions", mapping.versions.toJson),
      ("module", .string mapping.module)] ++
    (mapping.description.map fun text => ("description", Json.string text)).toList ++
    [("inputs", .object (mapping.inputs.map fun (path, name) => (path, .string name))),
      ("outputs", .object (mapping.outputs.map fun (path, name) => (path, .string name))),
      ("defaults", .object mapping.defaults)])

/-- A document as JSON. -/
def Document.toJson (document : Document) : Json :=
  .object [("version", .string document.version), ("modules", .array (document.modules.map Mapping.toJson))]

end BicepMigration.Catalog
