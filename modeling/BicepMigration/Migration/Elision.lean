import BicepMigration.Migration.Transformation

/-!
# Elision of defaults

An input that a module sets by itself to the same value need not be written. Inputs that are equal to their
defaults are removed, and so are objects that nothing remains in. Only literals can be compared: an input
with a default and another value is kept with a notice. A module call with nothing to remove is copied.
-/

namespace BicepMigration.Migration

open Catalog Template

/-- What remains of inputs, what was removed, and the notices. -/
structure Pruning where
  kept : ObjectLiteral
  /-- Paths of the inputs that were removed. -/
  removed : List String
  diagnostics : List Diagnostic
  deriving Repr

namespace Pruning

/-- Nothing kept and nothing removed. -/
def empty : Pruning := ⟨[], [], []⟩

/-- One pruning after another. -/
def append (a b : Pruning) : Pruning :=
  ⟨a.kept ++ b.kept, a.removed ++ b.removed, a.diagnostics ++ b.diagnostics⟩

/-- An input that stays. -/
def keep (p : Property Value) : Pruning := ⟨[p], [], []⟩

/-- An object that was pruned inside. It is left out if that emptied it. -/
def enclose (key : String) (quoted : Bool) (line : Nat) (inner : Pruning) : Pruning :=
  { inner with
    kept :=
      if inner.kept.isEmpty && !inner.removed.isEmpty then []
      else [⟨key, quoted, .object inner.kept, line⟩] }

end Pruning

/-- The notice for an input whose value cannot be compared with its default. -/
def skippedNotice (module path : String) (line : Nat) : Diagnostic :=
  ⟨.info, .optimizationSkipped, "'" ++ path ++ "' has a default but its value is an expression; kept",
    ⟨line, 1, some module⟩⟩

/-- Prunes an input with a default. -/
def pruneAgainst (module path : String) (default : Json) (p : Property Value) : Pruning :=
  match p.value.literalEq default with
  | some true => ⟨[], [path], []⟩
  | some false => .keep p
  | none => ⟨[p], [], [skippedNotice module path p.line]⟩

/-- Prunes inputs that stand under a path. -/
def prune (defaults : List (String × Json)) (module parent : String) : List (Property Value) → Pruning
  | [] => .empty
  | ⟨key, quoted, value, line⟩ :: rest =>
    let path := childPath parent key
    let first : Pruning :=
      match Json.entry? defaults path, value with
      | some default, value => pruneAgainst module path default ⟨key, quoted, value, line⟩
      | none, .object entries =>
        if hasPathBelow defaults path then .enclose key quoted line (prune defaults module path entries)
        else .keep ⟨key, quoted, .object entries, line⟩
      | none, value => .keep ⟨key, quoted, value, line⟩
    first.append (prune defaults module parent rest)

/-- Puts a value in place of the first one with a key. -/
def replaceFirst (key : String) (value : Value) : ObjectLiteral → ObjectLiteral
  | [] => []
  | p :: rest => if p.key = key then { p with value := value } :: rest else p :: replaceFirst key value rest

/-- The body of a module call with its inputs, if they are an object. -/
def paramsOf? (s : Statement) : Option (ObjectLiteral × ObjectLiteral) := do
  let body ← s.body
  match ObjectLiteral.get? body "params" with
  | some (.object params) => some (body, params)
  | _ => none

/-- A module call with another body. Its decorators and its condition stay as they are written. -/
def rewrittenCall (entry : PlanEntry) (s : Statement) (body : ObjectLiteral) : ModuleCall :=
  { decorators := s.decorators.map (·.raw)
    symbol := entry.newSymbol
    locator := entry.module
    condition := s.condition.map (·.raw)
    body := body }

/-- What is done to the module call of a plan entry. -/
structure Elision where
  /-- The new text of the module call, if anything was removed. -/
  edit : Option Edit
  /-- Module symbols with the paths of the inputs that were removed. -/
  removed : List (String × String)
  diagnostics : List Diagnostic

/-- Removes defaults from the module call of a plan entry, if there is one with inputs. -/
def elide? (catalog : ModuleCatalog) (template : ScannedTemplate) (entry : PlanEntry) : Option Elision := do
  let mapping ← catalog.mapping? entry.mappingIndex
  if mapping.defaults.isEmpty then none
  let s ← template.find? .module entry.newSymbol
  let (body, params) ← paramsOf? s
  let pruned := prune mapping.defaults entry.newSymbol "" params
  let call := rewrittenCall entry s (replaceFirst "params" (.object pruned.kept) body)
  some
    { edit :=
        if pruned.removed.isEmpty then none else some ⟨s.span, call.render (.unedited template.source)⟩
      removed := pruned.removed.map (entry.newSymbol, ·)
      diagnostics := pruned.diagnostics }

/-- A text without defaults. -/
structure Optimized extends Artifact where
  /-- Module symbols with the paths of the inputs that were removed. -/
  removed : List (String × String)
  deriving Repr

/-- Removes defaults from the module calls of a plan. A text that cannot be scanned stays as it is. -/
def optimize (catalog : ModuleCatalog) (plan : List PlanEntry) (text : String) : Optimized :=
  match scan text with
  | .error _ => ⟨⟨text, []⟩, []⟩
  | .ok template =>
    let elisions := plan.filterMap (elide? catalog template)
    ⟨⟨(EditedText.ofEdits text (elisions.filterMap (·.edit))).apply, elisions.flatMap (·.diagnostics)⟩,
      elisions.flatMap (·.removed)⟩

end BicepMigration.Migration
