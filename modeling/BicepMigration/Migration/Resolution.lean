import BicepMigration.Migration.Elision
import BicepMigration.Migration.Validation

/-!
# Resolution

A template goes through all stages: it is scanned, planned, transformed and optimized, and both texts are
checked against the plan. Only a template that cannot be scanned has no result. The summary counts what the
check of the last text found.
-/

namespace BicepMigration.Migration

open Catalog Template

/-- The transformed text and how it came about. -/
structure Transformation extends Artifact where
  plan : List PlanEntry
  rewrites : List OutputRewrite
  deriving Repr

/-- The result for a template. -/
structure Resolution where
  templateName : String
  /-- The transformed text, with the diagnostics of planning and transforming. -/
  transformation : Transformation
  /-- Planning, and the check of the transformed text. -/
  transformReport : Report
  /-- The optimized text. -/
  output : String
  /-- Planning, the check of the optimized text, and optimizing. -/
  outputReport : Report
  deriving Repr

namespace Resolution

/-- Number of resources that became module calls. -/
def transformed (r : Resolution) : Nat := r.transformation.plan.length

/-- Number of errors in the optimized text. -/
def errors (r : Resolution) : Nat := r.outputReport.errors

/-- Number of warnings about the optimized text. -/
def warnings (r : Resolution) : Nat := r.outputReport.warnings

/-- The fingerprint of the optimized text. -/
def outputHash (r : Resolution) : String := Fingerprint.ofText r.output

end Resolution

/-- The result for a scanned template. -/
def resolveScanned (catalog : ModuleCatalog) (name : String) (template : ScannedTemplate) : Resolution :=
  let analysis := analyze catalog template
  let transformed := transform catalog template analysis
  let optimized := optimize catalog analysis.plan transformed.text
  { templateName := name
    transformation :=
      { text := transformed.text
        diagnostics := analysis.diagnostics ++ transformed.diagnostics
        plan := analysis.plan
        rewrites := analysis.rewrites }
    transformReport := ⟨analysis.diagnostics ++ (validate analysis.plan transformed.text).diagnostics⟩
    output := optimized.text
    outputReport :=
      ⟨analysis.diagnostics ++ (validate analysis.plan optimized.text).diagnostics ++ optimized.diagnostics⟩ }

/-- The result for a template. -/
def resolve (catalog : ModuleCatalog) (name source : String) : Except ScanError Resolution :=
  (scan source).map (resolveScanned catalog name)

end BicepMigration.Migration
