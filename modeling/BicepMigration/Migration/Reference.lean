import BicepMigration.Migration.Plan

/-!
# Repair of references

A use of a replaced resource becomes an access to an output of its module: the output for the longest prefix
of the accessed members, followed by the members after that prefix. A use without members has a module to
stand for it only where it orders deployments.
-/

namespace BicepMigration.Migration

open Template

/-- The output for the longest of the first so many prefixes of members, and the members after it. The empty
prefix is not tried. -/
def longestOutput? (outputs : List (String × String)) (members : List String) : Nat → Option (String × List String)
  | 0 => none
  | n + 1 =>
    match Json.entry? outputs (".".intercalate (members.take (n + 1))) with
    | some output => some (output, members.drop (n + 1))
    | none => longestOutput? outputs members n

/-- What is written in place of a use, if there is anything. -/
def repair? (outputs : List (String × String)) (newSymbol : String) (use : SymbolUse) : Option String :=
  if use.path.isEmpty then if use.dependsOn then some newSymbol else none
  else
    (longestOutput? outputs use.path use.path.length).map fun (output, rest) =>
      ".".intercalate (outputAccess newSymbol output :: rest)

/-- The error for a use that nothing can be written in place of. -/
def unresolvedError (entry : PlanEntry) (use : SymbolUse) : Diagnostic :=
  let message :=
    if use.path.isEmpty then
      "bare reference to '" ++ use.symbol ++ "' cannot be mapped onto module '" ++ entry.newSymbol ++ "'"
    else "'" ++ use.dotted ++ "' has no matching output on " ++ entry.module
  ⟨.error, .referenceResolution, message, ⟨use.line, use.column, some use.symbol⟩⟩

end BicepMigration.Migration
