import BicepMigration.Catalog.Lookup
import BicepMigration.Migration.Diagnostic
import BicepMigration.Migration.ModuleSymbol
import BicepMigration.Migration.Partition
import BicepMigration.Template.Scanned
import BicepMigration.Template.SymbolUse

/-!
# The plan

A plan says which resources of a template become module calls. A resource does if the catalog has a mapping
for its type and version, it is declared here and not elsewhere, it is no loop, and its body is an object.
Each module gets a symbol that nothing in the template declares. The uses of planned symbols outside their
own declarations are the references that have to be repaired.
-/

namespace BicepMigration.Migration

open Catalog Template

/-- A resource that becomes a module call. -/
structure PlanEntry where
  /-- The symbol of the resource. -/
  symbol : String
  /-- The symbol of the module. -/
  newSymbol : String
  resourceType : String
  apiVersion : String
  /-- Where the module is found. -/
  module : String
  /-- The place of the mapping in the catalog. -/
  mappingIndex : Nat
  /-- The place of the resource among the statements. -/
  statementIndex : Nat
  /-- Property paths with the inputs they become. -/
  translated : List (String × String)
  /-- Property paths that no input stands for. -/
  unmapped : List String
  deriving DecidableEq, Repr

/-- An access to a resource that becomes an access to an output of its module. -/
structure OutputRewrite where
  oldSymbol : String
  /-- The path that is accessed. -/
  path : String
  newSymbol : String
  output : String
  deriving DecidableEq, Repr

/-- An access to an output of a module. -/
def outputAccess (newSymbol output : String) : String := newSymbol ++ ".outputs." ++ output

/-- What is written in place of the access. -/
def OutputRewrite.replacement (r : OutputRewrite) : String := outputAccess r.newSymbol r.output

/-- What a plan and its template say. -/
structure Analysis where
  plan : List PlanEntry
  rewrites : List OutputRewrite
  /-- Uses of planned symbols outside their own declarations. -/
  references : List SymbolUse
  diagnostics : List Diagnostic
  deriving Repr

/-- The first plan entry for a symbol. -/
def Analysis.entry? (analysis : Analysis) (symbol : String) : Option PlanEntry :=
  analysis.plan.find? (·.symbol = symbol)

/-- What the catalog makes of a statement. -/
inductive Verdict where
  /-- The statement does not matter. -/
  | untouched
  /-- A resource of a mapped type that cannot become a module call. -/
  | passedThrough (warning : Diagnostic)
  /-- A resource that becomes a module call. -/
  | replaced (symbol type version : String) (body : ObjectLiteral) (index : Nat) (mapping : Mapping)

/-- The warning for a resource that is a loop. -/
def loopWarning (symbol type : String) (line : Nat) : Diagnostic :=
  ⟨.warning, .unsupportedConstruct,
    "'" ++ symbol ++ "' is declared in a [for] loop; " ++ type ++ " is passed through unchanged",
    ⟨line, 1, some symbol⟩⟩

/-- The warning for a resource whose body is not an object. -/
def bodyWarning (symbol : String) (line : Nat) : Diagnostic :=
  ⟨.warning, .unsupportedConstruct, "body of '" ++ symbol ++ "' is not an object literal; passed through",
    ⟨line, 1, some symbol⟩⟩

/-- The warning for a property that no input stands for. -/
def unmappedWarning (symbol module : String) (u : Unmapped) : Diagnostic :=
  ⟨.warning, .unsupportedProperty,
    "property '" ++ u.path ++ "' has no input on " ++ module ++ "; retained verbatim",
    ⟨u.line, 1, some symbol⟩⟩

/-- Symbol, type and version of a statement that declares a resource. -/
def resourceHead? (s : Statement) : Option (String × String × String) :=
  if s.kind = .resource then
    match s.symbol, s.typeAndVersion with
    | some symbol, some (type, version) => some (symbol, type, version)
    | _, _ => none
  else none

/-- What a catalog makes of a statement. -/
def judge (catalog : ModuleCatalog) (s : Statement) : Verdict :=
  match resourceHead? s with
  | none => .untouched
  | some (symbol, type, version) =>
    match catalog.findIndex? type version with
    | none => .untouched
    | some index =>
      if s.existing then .untouched
      else if s.looped then .passedThrough (loopWarning symbol type s.line)
      else
        match s.body, catalog.mapping? index with
        | some body, some mapping => .replaced symbol type version body index mapping
        | _, _ => .passedThrough (bodyWarning symbol s.line)

/-- Plans statements, given the symbols that are taken and the number of statements before these. References
are left out. -/
def planFrom (catalog : ModuleCatalog) (taken : List String) (index : Nat) : List Statement → Analysis
  | [] => ⟨[], [], [], []⟩
  | s :: rest =>
    match judge catalog s with
    | .untouched => planFrom catalog taken (index + 1) rest
    | .passedThrough warning =>
      let others := planFrom catalog taken (index + 1) rest
      { others with diagnostics := warning :: others.diagnostics }
    | .replaced symbol type version body mappingIndex mapping =>
      let newSymbol := deriveSymbol symbol taken
      let parts := partition mapping body
      let others := planFrom catalog (newSymbol :: taken) (index + 1) rest
      { others with
        plan :=
          { symbol := symbol
            newSymbol := newSymbol
            resourceType := type
            apiVersion := version
            module := mapping.module
            mappingIndex := mappingIndex
            statementIndex := index
            translated := parts.translated.map fun t => (t.path, t.input)
            unmapped := parts.unmapped.map (·.path) } :: others.plan
        rewrites := mapping.outputs.map (fun (path, output) => ⟨symbol, path, newSymbol, output⟩) ++ others.rewrites
        diagnostics := parts.unmapped.map (unmappedWarning symbol mapping.module) ++ others.diagnostics }

/-- A use stands in the declaration that a plan entry replaces. -/
def PlanEntry.declares (entry : PlanEntry) (statements : List Statement) (use : SymbolUse) : Bool :=
  entry.symbol = use.symbol && (statements[entry.statementIndex]?.any fun s => s.span.contains use.span.start)

/-- Plans a template. -/
def analyze (catalog : ModuleCatalog) (template : ScannedTemplate) : Analysis :=
  let planned := planFrom catalog (template.statements.filterMap (·.symbol)) 0 template.statements
  { planned with
    references := (findUses (planned.plan.map (·.symbol)) template.tokens).filter fun use =>
      !planned.plan.any fun entry => entry.declares template.statements use }

end BicepMigration.Migration
