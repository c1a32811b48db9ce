import BicepMigration.Migration.Plan
import BicepMigration.Text.Shown
import BicepMigration.Text.WordCharacter

/-!
# Validation

An artifact is checked against the plan that it was made by: it can still be scanned, no planned resource is
declared in it, every planned module call is there with its locator and a closed body, and no replaced
resource is used. A resource that is still declared may be used.
-/

namespace BicepMigration.Migration

open Template Text

/-- The characters after a text that comes first. -/
def afterText (text : String) (cs : List Char) : Option (List Char) :=
  let expected := text.toList
  if expected.isPrefixOf cs then some (cs.drop expected.length) else none

/-- The characters after white space, at least one character of it, and what comes next. As much white space
as possible is taken. -/
def afterSpace (next : List Char → Option (List Char)) : List Char → Option (List Char)
  | [] => none
  | c :: cs => if isBlank c then afterSpace next cs <|> next cs else none

/-- The characters after the declaration of a planned resource that comes first. -/
def afterDeclaration (entry : PlanEntry) (cs : List Char) : Option (List Char) := do
  let target := "'" ++ entry.resourceType ++ "@" ++ entry.apiVersion ++ "'"
  let rest ← afterText "resource" cs
  afterSpace (fun rest => afterText entry.symbol rest >>= afterSpace (afterText target)) rest

/-- The offset of the first declaration of a planned resource that starts where the test holds. Declarations
do not overlap, and each starts where a word begins. The characters come with the offset of the first one, the
one before it, and the number of characters that belong to a declaration already seen. -/
def declarationFrom (startsToken : Nat → Bool) (entry : PlanEntry) (offset : Nat) (previous : Option Char)
    (seen : Nat) : List Char → Option Nat
  | [] => none
  | c :: cs =>
    let continueWith := fun seen => declarationFrom startsToken entry (offset + c.utf8Size) (some c) seen cs
    if seen ≠ 0 then continueWith (seen - 1)
    else
      match afterDeclaration entry (c :: cs) with
      | none => continueWith 0
      | some rest =>
        if !isWordBoundary previous (some c) then continueWith 0
        else if startsToken offset then some offset
        else continueWith (cs.length - rest.length)

/-- The offset of the first declaration of a planned resource that starts with an identifier. -/
def declaration? (template : ScannedTemplate) (entry : PlanEntry) : Option Nat :=
  let starts := (template.tokens.filter (·.kind = .identifier)).map (·.span.start)
  declarationFrom starts.contains entry 0 none 0 template.source.toList

/-- The error for a planned resource that is still declared at an offset. -/
def residualError (template : ScannedTemplate) (entry : PlanEntry) (offset : Nat) : Diagnostic :=
  let (line, column) := lineColumn template.source offset
  ⟨.error, .residualDeclaration,
    "resource '" ++ entry.symbol ++ "' (" ++ entry.resourceType ++ ") is still declared after transformation",
    ⟨line, column, some entry.symbol⟩⟩

/-- The planned resources that are still declared, with the offsets of their declarations. -/
def residuals (template : ScannedTemplate) (plan : List PlanEntry) : List (PlanEntry × Nat) :=
  plan.filterMap fun entry => (declaration? template entry).map (entry, ·)

/-- The text of a statement ends with a closing brace, white space apart. -/
def endsWithBrace (template : ScannedTemplate) (s : Statement) : Bool :=
  (trimEnd (slice template.source s.span).toList).getLast? = some '}'

/-- What is wrong with the module call of a plan entry. -/
def moduleFault? (template : ScannedTemplate) (entry : PlanEntry) : Option Diagnostic :=
  match template.find? .module entry.newSymbol with
  | none =>
    some ⟨.error, .missingModuleBlock,
      "module '" ++ entry.newSymbol ++ "' replacing '" ++ entry.symbol ++ "' is missing",
      ⟨0, 0, some entry.newSymbol⟩⟩
  | some s =>
    let location : Location := ⟨s.line, 1, some entry.newSymbol⟩
    if s.target ≠ some entry.module then
      some ⟨.error, .missingModuleBlock,
        "module '" ++ entry.newSymbol ++ "' points at " ++ shown (s.target.getD "") ++ ", expected '" ++
          entry.module ++ "'", location⟩
    else if s.body.isNone || !endsWithBrace template s then
      some ⟨.error, .unbalancedBlock, "module '" ++ entry.newSymbol ++ "' body is not a closed object", location⟩
    else none

/-- The error for a use of a replaced resource. -/
def danglingError (use : SymbolUse) : Diagnostic :=
  ⟨.error, .danglingReference, "'" ++ use.dotted ++ "' refers to a replaced resource",
    ⟨use.line, use.column, some use.symbol⟩⟩

/-- The error for an artifact that cannot be scanned. -/
def unscannableError (error : ScanError) : Diagnostic :=
  ⟨.error, .unscannableArtifact, "artifact no longer scans: " ++ error.fault.message,
    ⟨error.line, error.column, none⟩⟩

/-- Checks a scanned artifact. -/
def validateScanned (plan : List PlanEntry) (template : ScannedTemplate) : Report :=
  let remaining := residuals template plan
  let replaced := (plan.map (·.symbol)).filter fun symbol => !remaining.any (·.1.symbol = symbol)
  ⟨remaining.map (fun (entry, offset) => residualError template entry offset) ++
    plan.filterMap (moduleFault? template) ++ (findUses replaced template.tokens).map danglingError⟩

/-- Checks an artifact against the plan that it was made by. -/
def validate (plan : List PlanEntry) (text : String) : Report :=
  match scan text with
  | .error error => ⟨[unscannableError error]⟩
  | .ok template => validateScanned plan template

end BicepMigration.Migration
