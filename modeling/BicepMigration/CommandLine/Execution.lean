import BicepMigration.Catalog.Bundled
import BicepMigration.Catalog.Format
import BicepMigration.Catalog.Schema
import BicepMigration.CommandLine.Command
import BicepMigration.CommandLine.Host
import BicepMigration.CommandLine.Wording

/-!
# Execution of commands

What each command reads, prints and writes. A command that fails does so with a message, and what it has
printed or written before stays.
-/

namespace BicepMigration.CommandLine

open Catalog Files Migration Template

/-- A run that may fail with a message. -/
abbrev Run (m : Type → Type) (α : Type) := ExceptT String m α

/-- The file that a template is written to in a directory. -/
def outputPath (directory file : String) : String :=
  joinName directory ((fileName? file).getD "main.bicep")

/-- The first template that would be written to the same file as one before it, after that one. -/
def outputClash? (directory : String) (earlier : List String) : List String → Option (String × String)
  | [] => none
  | file :: rest =>
    let target := components (outputPath directory file)
    match earlier.find? fun other => components (outputPath directory other) = target with
    | some other => some (other, file)
    | none => outputClash? directory (file :: earlier) rest

/-- The message for templates that would be written to one file. -/
def clashMessage (directory first second : String) : String :=
  first ++ " and " ++ second ++ " would both be written to " ++ outputPath directory second

section

variable {m : Type → Type} [Monad m] [Host m]

/-- Runs an action on files. A fault becomes a message. -/
def attempt {α : Type} (message : FileFault → String) (action : m (Except FileFault α)) : Run m α := do
  match ← ExceptT.lift action with
  | .ok value => pure value
  | .error fault => throw (message fault)

/-- Prints a text. -/
def printText (text : String) : Run m Unit := ExceptT.lift (Host.print text)

/-- Prints a line. -/
def printLine (line : String) : Run m Unit := printText (line ++ "\n")

/-- Prints a line to the stream for reports. -/
def reportLine (line : String) : Run m Unit := ExceptT.lift (Host.report (line ++ "\n"))

/-- Reads a template. -/
def readTemplate (file : String) : Run m String :=
  attempt (fun fault => "cannot read " ++ file ++ ": " ++ fault.message) (Host.readText file)

/-- Loads a catalog. -/
def loadCatalog (path : Option String) : Run m ModuleCatalog :=
  match path with
  | none => pure .bundled
  | some path =>
    match DataFormat.ofPath path with
    | .error extension => throw (CatalogError.unknownFormat extension).message
    | .ok format => do
      let text ← attempt (fun fault => (CatalogError.unreadable path fault.message).message) (Host.readText path)
      match readCatalog format text with
      | .error e => throw e.message
      | .ok catalog => pure catalog

/-- Refuses templates that would be written to one file. -/
def refuseClash (files : List String) : Option String → Run m Unit
  | none => pure ()
  | some directory =>
    match outputClash? directory [] files with
    | none => pure ()
    | some (first, second) => throw (clashMessage directory first second)

/-- Prints a result, or writes it to a file. -/
def emitResult (out : Option String) (file name : String) (r : Resolution) : Run m Unit :=
  match out with
  | none => printText r.output
  | some directory => do
    let target := outputPath directory file
    attempt (fun fault => "cannot write " ++ target ++ ": " ++ fault.message) (Host.writeText target r.output)
    printLine (writtenLine name r target)

/-- Reports and emits what became of a template. -/
def emitOutcome (out : Option String) (file : String) (outcome : BatchOutcome) : Run m Unit :=
  match outcome.result with
  | .error e => reportLine (outcome.name ++ ": " ++ e.message)
  | .ok r => do
    (findingLines outcome.name r).forM reportLine
    emitResult out file outcome.name r

/-- Resolves files. With JSON, nothing is written. -/
def runResolve (request : ResolveRequest) : Run m Unit := do
  refuseClash request.files request.out
  let catalog ← loadCatalog request.catalog
  let items ← request.files.mapM fun file => do
    let source ← readTemplate file
    pure (⟨file, source⟩ : BatchItem)
  let outcomes := resolveBatch catalog items
  match request.out with
  | none => pure ()
  | some directory =>
    attempt (fun fault => "cannot create " ++ directory ++ ": " ++ fault.message)
      (Host.createDirectories directory)
  if request.json then
    printLine (valueText (.array (outcomes.map outcomeValue)))
  else
    (outcomes.zip request.files).forM fun (outcome, file) => emitOutcome request.out file outcome
  let failed := outcomes.countP (BatchOutcome.fails request.denyWarnings)
  if 0 < failed then
    throw (toString failed ++ " of " ++ toString outcomes.length ++ " template(s) failed")

/-- Shows what would be replaced in a file. -/
def runCheck (file : String) (catalog : Option String) : Run m Unit := do
  let catalog ← loadCatalog catalog
  let source ← readTemplate file
  match scan source with
  | .error e => throw (file ++ ": " ++ e.message)
  | .ok template => (checkLines file template (analyze catalog template)).forM printLine

/-- Shows the mapping for a resource type. -/
def runLookup (resourceType : String) (version catalog : Option String) : Run m Unit := do
  let catalog ← loadCatalog catalog
  let found :=
    match version with
    | some version => catalog.find? resourceType version
    | none => catalog.findAnyVersion? resourceType
  printLine (valueText (lookupValue resourceType version found))

/-- Lists the mappings of a catalog. -/
def runList (catalog : Option String) : Run m Unit := do
  let catalog ← loadCatalog catalog
  (catalogLines catalog).forM printLine

/-- Runs a command. -/
def Command.run : Command → Run m Unit
  | resolve request => runResolve request
  | check file catalog => runCheck file catalog
  | lookup resourceType version catalog => runLookup resourceType version catalog
  | listCatalog catalog => runList catalog
  | printSchema => printLine Schema.document.pretty

end

end BicepMigration.CommandLine
