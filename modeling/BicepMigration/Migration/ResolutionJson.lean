import BicepMigration.Migration.Resolution

/-!
# Results as JSON

The shape in which a result is handed on: an object for each structure, with lists for tables.
-/

namespace BicepMigration.Migration

/-- A list of texts as JSON. -/
def ofTexts (texts : List String) : Json := .array (texts.map .string)

/-- A place as JSON, without the symbol if there is none. -/
def Location.toJson (l : Location) : Json :=
  .object ([("line", .ofNat l.line), ("column", .ofNat l.column)] ++
    (l.symbol.map fun symbol => ("symbol", Json.string symbol)).toList)

/-- A diagnostic as JSON. -/
def Diagnostic.toJson (d : Diagnostic) : Json :=
  .object [("severity", .string d.severity.name), ("code", .string d.code.name),
    ("message", .string d.message), ("location", d.location.toJson)]

/-- Diagnostics as JSON. -/
def ofDiagnostics (ds : List Diagnostic) : Json := .array (ds.map Diagnostic.toJson)

/-- A report as JSON, with its counts. -/
def Report.toJson (report : Report) : Json :=
  .object [("errors", .ofNat report.errors), ("warnings", .ofNat report.warnings),
    ("infos", .ofNat report.infos), ("diagnostics", ofDiagnostics report.diagnostics)]

/-- A plan entry as JSON. -/
def PlanEntry.toJson (entry : PlanEntry) : Json :=
  .object [("symbol", .string entry.symbol), ("newSymbol", .string entry.newSymbol),
    ("resourceType", .string entry.resourceType), ("apiVersion", .string entry.apiVersion),
    ("module", .string entry.module), ("mappingIndex", .ofNat entry.mappingIndex),
    ("statementIndex", .ofNat entry.statementIndex),
    ("translated", .array (entry.translated.map fun (path, input) => ofTexts [path, input])),
    ("unmapped", ofTexts entry.unmapped)]

/-- A rewrite as JSON. -/
def OutputRewrite.toJson (r : OutputRewrite) : Json :=
  .object [("oldSymbol", .string r.oldSymbol), ("path", .string r.path), ("newSymbol", .string r.newSymbol),
    ("output", .string r.output)]

/-- The transformed text and how it came about, as JSON. -/
def Transformation.toJson (t : Transformation) : Json :=
  .object [("bicepCode", .string t.text), ("plan", .array (t.plan.map PlanEntry.toJson)),
    ("rewrites", .array (t.rewrites.map OutputRewrite.toJson)), ("diagnostics", ofDiagnostics t.diagnostics)]

namespace Resolution

/-- The counts of a result as JSON. -/
def summary (r : Resolution) : Json :=
  .object [("transformed", .ofNat r.transformed), ("errors", .ofNat r.errors), ("warnings", .ofNat r.warnings)]

/-- A result as JSON. -/
def toJson (r : Resolution) : Json :=
  .object [("templateName", .string r.templateName), ("transformation", r.transformation.toJson),
    ("transformValidation", r.transformReport.toJson), ("outputBicepCode", .string r.output),
    ("outputValidation", r.outputReport.toJson), ("summary", r.summary), ("outputHash", .string r.outputHash)]

end Resolution

end BicepMigration.Migration
