import BicepMigration.Json.Basic

/-!
# Options of a resolution

The name of the template and the environment it is resolved for. Both are labels: no text depends on them but
the name in the result. Options are read from an object, or from an array of the fields in their order.
-/

namespace BicepMigration.Migration

/-- Labels of a resolution. -/
structure Options where
  templateName : String
  environment : String
  deriving DecidableEq, Repr

namespace Options

/-- The environment where none is named. -/
def defaultEnvironment : String := "default"

/-- The options where none are given. -/
def default : Options := ⟨"main.bicep", defaultEnvironment⟩

/-- The fields of a record, given their names in order. -/
def fields? (names : List String) : Json → Option (List (String × Json))
  | .object entries => some entries.reverse
  | .array items => if items.length ≤ names.length then some (names.zip items) else none
  | _ => none

/-- Reads a string. -/
def text? : Json → Option String
  | .string text => some text
  | _ => none

/-- Reads the context, which may name an environment. -/
def environment? (context : Json) : Option String := do
  let fields ← fields? ["environment"] context
  match fields.lookup "environment" with
  | none => some defaultEnvironment
  | some value => text? value

/-- Reads options. The name of the template is required. -/
def ofJson? (value : Json) : Option Options := do
  let fields ← fields? ["templateName", "optimizationContext"] value
  let templateName ← (← fields.lookup "templateName") |> text?
  match fields.lookup "optimizationContext" with
  | none => some ⟨templateName, defaultEnvironment⟩
  | some context => (environment? context).map (⟨templateName, ·⟩)

end Options

end BicepMigration.Migration
