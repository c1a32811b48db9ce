import BicepMigration.Migration.Batch
import BicepMigration.Migration.ResolutionJson
import BicepMigration.Migration.Plan
import BicepMigration.Json.Printer

/-!
# What commands print

The lines and the JSON values that commands print for their results.
-/

namespace BicepMigration.CommandLine

open Catalog Migration Template

/-- A text after spaces, at least as wide as given. -/
def padLeft (width : Nat) (text : String) : String :=
  String.ofList (List.replicate (width - text.length) ' ') ++ text

/-- A text before spaces, at least as wide as given. -/
def padRight (width : Nat) (text : String) : String :=
  text ++ String.ofList (List.replicate (width - text.length) ' ')

/-- The line for a statement, with the plan entry that replaces it. -/
def statementLine (s : Statement) (planned : Option PlanEntry) : String :=
  let mark := if planned.isSome then "~" else " "
  let target :=
    match s.target with
    | none => ""
    | some target => "  " ++ target
  let replacement :=
    match planned with
    | none => ""
    | some entry => "  -> " ++ entry.module ++ " (" ++ entry.newSymbol ++ ")"
  "  " ++ mark ++ " " ++ padLeft 4 (toString s.line) ++ "  " ++ padRight 8 s.kind.name ++ " " ++
    s.symbol.getD "-" ++ target ++ replacement

/-- The lines for a scanned template and its analysis. -/
def checkLines (file : String) (template : ScannedTemplate) (analysis : Analysis) : List String :=
  let head :=
    file ++ ": " ++ toString template.statements.length ++ " statement(s), " ++ toString analysis.plan.length ++
      " to transform"
  let statements := template.statements.zipIdx.map fun (s, index) =>
    statementLine s (analysis.plan.find? (·.statementIndex = index))
  head :: (statements ++ analysis.diagnostics.map fun d => "  " ++ d.text)

/-- The JSON value for a resource type and what was found for it. -/
def lookupValue (resourceType : String) (version : Option String) : Option Mapping → Json
  | some mapping => .object [("status", .string "ok"), ("match", mapping.toJson)]
  | none =>
    .object [("status", .string "not-found"), ("resourceType", .string resourceType),
      ("version", .ofString? version)]

/-- The line for an entry of a catalog. -/
def entryLine (entry : Entry) : String :=
  let mapping := entry.mapping
  "  " ++ mapping.resourceType ++ " [" ++ entry.range.text ++ "] -> " ++ mapping.module ++ " (" ++
    toString mapping.inputs.length ++ " inputs, " ++ toString mapping.outputs.length ++ " outputs, " ++
    toString mapping.defaults.length ++ " defaults)"

/-- The lines for a catalog. -/
def catalogLines (catalog : ModuleCatalog) : List String :=
  (toString catalog.size ++ " module mapping(s), " ++ catalog.fingerprint) :: catalog.entries.map entryLine

/-- The lines to be reported about a result: the findings in the output, then the references that could not be
repaired. -/
def findingLines (name : String) (r : Resolution) : List String :=
  let unrepaired := r.transformation.diagnostics.filter fun d => d.code = .referenceResolution
  (r.outputReport.diagnostics ++ unrepaired).map fun d => name ++ ": " ++ d.text

/-- The line for a result that was written to a file. -/
def writtenLine (name : String) (r : Resolution) (target : String) : String :=
  name ++ ": " ++ toString r.transformed ++ " transformed, " ++ toString r.errors ++ " error(s), " ++
    toString r.warnings ++ " warning(s) -> " ++ target

/-- The JSON value for what became of a template. -/
def outcomeValue (outcome : BatchOutcome) : Json :=
  match outcome.result with
  | .ok r => r.toJson
  | .error e => .object [("templateName", .string outcome.name), ("error", .string e.message)]

/-- JSON values are printed with sorted keys. -/
def valueText (value : Json) : String := value.sorted.pretty

end BicepMigration.CommandLine
