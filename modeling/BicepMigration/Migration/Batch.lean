import BicepMigration.Migration.Resolution

/-!
# Batches

Many templates are resolved against one catalog. Each has its own outcome, and the outcomes come in the order
of the templates.
-/

namespace BicepMigration.Migration

open Catalog Template

/-- A template with its name. -/
structure BatchItem where
  name : String
  source : String
  deriving Repr

/-- What became of a template. -/
structure BatchOutcome where
  name : String
  result : Except ScanError Resolution

/-- Resolves templates. -/
def resolveBatch (catalog : ModuleCatalog) (items : List BatchItem) : List BatchOutcome :=
  items.map fun item => ⟨item.name, resolve catalog item.name item.source⟩

/-- The template has no result, or a result with errors; where warnings are denied, with warnings. -/
def BatchOutcome.fails (denyWarnings : Bool) (outcome : BatchOutcome) : Bool :=
  match outcome.result with
  | .error _ => true
  | .ok r => 0 < r.errors || (denyWarnings && 0 < r.warnings)

end BicepMigration.Migration
