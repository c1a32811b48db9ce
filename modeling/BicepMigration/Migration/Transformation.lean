import BicepMigration.Migration.Reference
import BicepMigration.Template.Rendering

/-!
# Transformation

Every planned resource is written as a module call in its place, and every reference to one that can be
repaired is repaired, inside the module calls too. All other text is copied. The body of a module call is the
name of the deployment, the scope of the resource, the inputs, and what the resource depends on.
-/

namespace BicepMigration.Migration

open Catalog Template

/-- Starts of the decorators that a module call takes over from the resource. -/
def carriedDecorators : List String := ["@description(", "@sys.description("]

/-- The decorator is one that a module call takes over. -/
def isCarried (decorator : Fragment) : Bool :=
  carriedDecorators.any fun start => start.toList.isPrefixOf decorator.raw.toList

/-- A text with diagnostics about how it was made. -/
structure Artifact where
  text : String
  diagnostics : List Diagnostic
  deriving Repr

/-- The inputs of the module: translated properties first, then the ones that stay as they are. -/
def moduleParams (parts : Partition) : ObjectLiteral :=
  parts.translated.map (fun t => .plain t.input t.value) ++ parts.residual

/-- The body of the module call. -/
def moduleBody (newSymbol : String) (parts : Partition) : ObjectLiteral :=
  .plain "name" (.string ⟨quote newSymbol, none⟩) :: (parts.hoisted? "scope").toList ++
    .plain "params" (.object (moduleParams parts)) :: (parts.hoisted? "dependsOn").toList

/-- The module call for a resource. The edits are those of the references. -/
def moduleCall (edited : EditedText) (entry : PlanEntry) (mapping : Mapping) (s : Statement) (body : ObjectLiteral) :
    ModuleCall :=
  { decorators := (s.decorators.filter isCarried).map edited.fragment
    symbol := entry.newSymbol
    locator := mapping.module
    condition := s.condition.map edited.fragment
    body := moduleBody entry.newSymbol (partition mapping body) }

/-- The edit that repairs a reference, or the error that tells why there is none. -/
def repairEdit? (catalog : ModuleCatalog) (analysis : Analysis) (use : SymbolUse) :
    Option (Except Diagnostic Edit) := do
  let entry ← analysis.entry? use.symbol
  let mapping ← catalog.mapping? entry.mappingIndex
  match repair? mapping.outputs entry.newSymbol use with
  | some replacement => some (.ok ⟨use.span, replacement⟩)
  | none => some (.error (unresolvedError entry use))

/-- The edit, if there is one. -/
def edit? : Except Diagnostic Edit → Option Edit
  | .ok edit => some edit
  | .error _ => none

/-- The error, if there is one. -/
def error? : Except Diagnostic Edit → Option Diagnostic
  | .ok _ => none
  | .error d => some d

/-- The edit that puts a module call in place of a resource. -/
def replacementEdit? (catalog : ModuleCatalog) (template : ScannedTemplate) (edited : EditedText) (entry : PlanEntry) :
    Option Edit := do
  let s ← template.statements[entry.statementIndex]?
  let body ← s.body
  let mapping ← catalog.mapping? entry.mappingIndex
  some ⟨s.span, (moduleCall edited entry mapping s body).render edited⟩

/-- Writes a template as its plan says. -/
def transform (catalog : ModuleCatalog) (template : ScannedTemplate) (analysis : Analysis) : Artifact :=
  let repairs := analysis.references.filterMap (repairEdit? catalog analysis)
  let referenceEdits := repairs.filterMap edit?
  let edited := EditedText.ofEdits template.source referenceEdits
  let replacements := analysis.plan.filterMap (replacementEdit? catalog template edited)
  ⟨(EditedText.ofEdits template.source (referenceEdits ++ replacements)).apply, repairs.filterMap error?⟩

end BicepMigration.Migration
