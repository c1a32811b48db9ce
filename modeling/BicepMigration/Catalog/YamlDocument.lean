import BicepMigration.Catalog.View
import BicepMigration.Yaml.Value

/-!
# Documents in YAML

A record is a mapping. A text may be any scalar, whatever it stands for elsewhere. Where a list, a table or a
record is left out, it is empty.
-/

namespace BicepMigration.Catalog

open BicepMigration.Yaml

namespace YamlTree

/-- The node is left out. -/
def isMissing : Yaml.Tree → Bool
  | .scalar text plain _ => text = "" && plain
  | _ => false

/-- The elements of a sequence. -/
def items? (t : Yaml.Tree) : Option (List Yaml.Tree) :=
  match t with
  | .sequence _ items => some items
  | _ => if isMissing t then some [] else none

/-- The entries of a mapping whose keys are texts. -/
def table? (t : Yaml.Tree) : Option (List (String × Yaml.Tree)) :=
  match t with
  | .mapping _ entries =>
    entries.mapM fun (key, value) =>
      match key with
      | .scalar text _ _ => some (text, value)
      | _ => none
  | _ => if isMissing t then some [] else none

/-- The text of a scalar. -/
def text? : Yaml.Tree → Option String
  | .scalar text _ _ => some text
  | _ => none

/-- The text of a scalar, or none for null. -/
def optionalText? : Yaml.Tree → Option (Option String)
  | .scalar text true none => some (if text = "" || isNull text then none else some text)
  | .scalar text true (some tag) =>
    if tag = coreTag "null" then if isNull text then some none else none else some (some text)
  | .scalar text false _ => some (some text)
  | _ => none

/-- A text, or a sequence of texts. -/
def versions? (t : Yaml.Tree) : Option VersionSpec := do
  match ← t.value? with
  | .string text => some (.one text)
  | .array items =>
    let texts ← items.mapM fun
      | .string text => some text
      | _ => none
    some (.many texts)
  | _ => none

end YamlTree

/-- YAML as a format of documents. -/
def yamlView : View Yaml.Tree where
  text? := YamlTree.text?
  optionalText? := YamlTree.optionalText?
  versions? := YamlTree.versions?
  record? names t := (YamlTree.table? t).bind (knownFields names)
  items? := YamlTree.items?
  table? := YamlTree.table?
  json? := Yaml.Tree.value?

/-- The parts of a document that are used. -/
def yamlUse (anchored : List (Nat × Yaml.Node)) : Expander.Use :=
  let whole := Expander.whole anchored
  let mapping := Expander.record anchored (View.mappingFields.map (·, whole))
  let uses : List Expander.Use := [whole, Expander.list anchored mapping]
  Expander.record anchored (View.documentFields.zip uses)

/-- Reads a document from YAML text. -/
def documentOfYaml? (text : String) : Option Document := do
  let document ← Yaml.Document.read? text
  let tree ← document.expand? yamlUse
  yamlView.document? tree

end BicepMigration.Catalog
