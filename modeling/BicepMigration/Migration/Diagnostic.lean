/-!
# Diagnostics

A diagnostic tells a place in a template, what it is about and how severe it is. A report is a list of
diagnostics; the counts that it shows are counts of that list. A report is valid if it holds no error.
Main statement: a report of two lists of diagnostics counts what both count.
-/

namespace BicepMigration.Migration

/-- How severe a diagnostic is. -/
inductive Severity where
  | error
  | warning
  | info
  deriving DecidableEq, Repr

/-- The severity as a word. -/
def Severity.name : Severity → String
  | error => "error"
  | warning => "warning"
  | info => "info"

/-- The severity as a diagnostic line starts with it. -/
def Severity.label : Severity → String
  | error => "ERROR"
  | warning => "WARNING"
  | info => "INFO"

/-- What a diagnostic is about. -/
inductive DiagnosticCode where
  | unsupportedProperty
  | unsupportedConstruct
  | referenceResolution
  | danglingReference
  | residualDeclaration
  | missingModuleBlock
  | unbalancedBlock
  | unscannableArtifact
  | optimizationSkipped
  deriving DecidableEq, Repr

namespace DiagnosticCode

/-- All codes. -/
def all : List DiagnosticCode :=
  [unsupportedProperty, unsupportedConstruct, referenceResolution, danglingReference, residualDeclaration,
    missingModuleBlock, unbalancedBlock, unscannableArtifact, optimizationSkipped]

/-- The code as words joined by hyphens. -/
def name : DiagnosticCode → String
  | unsupportedProperty => "unsupported-property"
  | unsupportedConstruct => "unsupported-construct"
  | referenceResolution => "reference-resolution"
  | danglingReference => "dangling-reference"
  | residualDeclaration => "residual-declaration"
  | missingModuleBlock => "missing-module-block"
  | unbalancedBlock => "unbalanced-block"
  | unscannableArtifact => "unscannable-artifact"
  | optimizationSkipped => "optimization-skipped"

end DiagnosticCode

/-- A place in a template. -/
structure Location where
  /-- Line, counted from one; zero where there is no line to tell. -/
  line : Nat
  /-- Column in bytes, counted from one; zero where there is no column to tell. -/
  column : Nat
  /-- The declaration that the place belongs to. -/
  symbol : Option String
  deriving DecidableEq, Repr

/-- The text of a place. -/
def Location.text (l : Location) : String :=
  toString l.line ++ ":" ++ toString l.column ++
    match l.symbol with
    | none => ""
    | some symbol => " (" ++ symbol ++ ")"

/-- A finding about a template. -/
structure Diagnostic where
  severity : Severity
  code : DiagnosticCode
  message : String
  location : Location
  deriving DecidableEq, Repr

/-- The diagnostic as a line. -/
def Diagnostic.text (d : Diagnostic) : String :=
  d.severity.label ++ " [" ++ d.code.name ++ "] " ++ d.location.text ++ ": " ++ d.message

/-- Diagnostics in the order in which they were found. -/
structure Report where
  diagnostics : List Diagnostic
  deriving DecidableEq, Repr

namespace Report

/-- The report without diagnostics. -/
def empty : Report := ⟨[]⟩

/-- The report with one more diagnostic. -/
def push (report : Report) (d : Diagnostic) : Report := ⟨report.diagnostics ++ [d]⟩

/-- Number of diagnostics of a severity. -/
def count (report : Report) (severity : Severity) : Nat :=
  report.diagnostics.countP (·.severity = severity)

/-- Number of errors. -/
def errors (report : Report) : Nat := report.count .error

/-- Number of warnings. -/
def warnings (report : Report) : Nat := report.count .warning

/-- Number of infos. -/
def infos (report : Report) : Nat := report.count .info

/-- The report holds no error. -/
def isValid (report : Report) : Bool := report.errors = 0

/-- The diagnostics with a code. -/
def withCode (report : Report) (code : DiagnosticCode) : List Diagnostic :=
  report.diagnostics.filter (·.code = code)

/-- A report that is put together from two counts what both count. -/
theorem count_append (a b : List Diagnostic) (severity : Severity) :
    (Report.mk (a ++ b)).count severity = (Report.mk a).count severity + (Report.mk b).count severity := by
  simp [count]

end Report

end BicepMigration.Migration
