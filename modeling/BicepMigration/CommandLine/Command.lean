import BicepMigration.CommandLine.Arguments
import BicepMigration.Migration.Options

/-!
# Commands

The commands and how they are told from arguments. Commands are named by words, some of them in two steps;
every group of commands has the command `help`, which takes names of commands of the group.
-/

namespace BicepMigration.CommandLine

/-- What a resolution of files is to do. -/
structure ResolveRequest where
  /-- The templates. -/
  files : List String
  /-- The file of the catalog; without it, the bundled catalog. -/
  catalog : Option String
  /-- A label. -/
  environment : String
  /-- The directory for the resolved templates; without it, they are printed. -/
  out : Option String
  /-- Prints whole results, as JSON. -/
  json : Bool
  /-- Warnings make a template fail. -/
  denyWarnings : Bool
  /-- The seconds that a template may take. -/
  timeout : Option Nat
  deriving DecidableEq, Repr

/-- A command. -/
inductive Command where
  | resolve (request : ResolveRequest)
  /-- Shows what would be replaced. -/
  | check (file : String) (catalog : Option String)
  /-- Shows the mapping for a resource type. -/
  | lookup (resourceType : String) (version catalog : Option String)
  /-- Lists the mappings of a catalog. -/
  | listCatalog (catalog : Option String)
  /-- Prints the schema of catalogs. -/
  | printSchema
  deriving DecidableEq, Repr

/-- The names of commands, as a tree. -/
inductive CommandTree where
  | command (rules : ArgumentRules) (build : Given → Except UsageFault Command)
  | group (members : List (String × CommandTree))

/-! ## Rules -/

/-- The option that asks for help. -/
def helpRule : OptionRule := ⟨"help", some 'h', none⟩

/-- The option for the file of a catalog. -/
def catalogRule : OptionRule := ⟨"catalog", some 'c', some .path⟩

/-- The arguments of a resolution. -/
def resolveRules : ArgumentRules where
  options :=
    [catalogRule, ⟨"environment", some 'e', some .text⟩, ⟨"out", some 'o', some .path⟩, ⟨"json", none, none⟩,
      ⟨"deny-warnings", none, none⟩, ⟨"timeout", none, some .seconds⟩, helpRule]
  operand := some ⟨.path, true⟩

/-- The arguments of a check. -/
def checkRules : ArgumentRules := ⟨[catalogRule, helpRule], some ⟨.path, false⟩⟩

/-- The arguments of a lookup. -/
def lookupRules : ArgumentRules :=
  ⟨[⟨"version", none, some .text⟩, catalogRule, helpRule], some ⟨.text, false⟩⟩

/-- The arguments of a list of mappings. -/
def listRules : ArgumentRules := ⟨[catalogRule, helpRule], none⟩

/-- The arguments of the schema. -/
def schemaRules : ArgumentRules := ⟨[helpRule], none⟩

namespace Given

/-- The value of an option. -/
def value? (given : Given) (name : String) : Option String := given.values.lookup name

/-- The file of the catalog: the option, or else the variable of the environment. -/
def catalog? (envCatalog : Option String) (given : Given) : Except UsageFault (Option String) :=
  match given.value? "catalog", envCatalog with
  | some path, _ => .ok (some path)
  | none, none => .ok none
  | none, some path => do
    ValueKind.path.check path
    pure (some path)

/-- The only operand. -/
def operand (given : Given) : Except UsageFault String :=
  match given.operands with
  | [] => .error .missingOperand
  | text :: _ => .ok text

/-- The operands, of which there has to be one. -/
def operandList (given : Given) : Except UsageFault (List String) :=
  if given.operands = [] then .error .missingOperand else .ok given.operands

end Given

/-- The resolution of files. -/
def buildResolve (envCatalog : Option String) (given : Given) : Except UsageFault Command := do
  let catalog ← given.catalog? envCatalog
  let files ← given.operandList
  pure (.resolve
    { files := files
      catalog := catalog
      environment := (given.value? "environment").getD Migration.Options.defaultEnvironment
      out := given.value? "out"
      json := given.switches.contains "json"
      denyWarnings := given.switches.contains "deny-warnings"
      timeout := (given.value? "timeout").bind readSeconds? })

/-- The check of a file. -/
def buildCheck (envCatalog : Option String) (given : Given) : Except UsageFault Command := do
  let catalog ← given.catalog? envCatalog
  pure (.check (← given.operand) catalog)

/-- The lookup of a resource type. -/
def buildLookup (envCatalog : Option String) (given : Given) : Except UsageFault Command := do
  let catalog ← given.catalog? envCatalog
  pure (.lookup (← given.operand) (given.value? "version") catalog)

/-- The list of the mappings of a catalog. -/
def buildList (envCatalog : Option String) (given : Given) : Except UsageFault Command := do
  pure (.listCatalog (← given.catalog? envCatalog))

/-- The commands, given the variable of the environment that names a catalog. -/
def commands (envCatalog : Option String) : CommandTree :=
  .group
    [("resolve", .command resolveRules (buildResolve envCatalog)),
      ("check", .command checkRules (buildCheck envCatalog)),
      ("lookup", .command lookupRules (buildLookup envCatalog)),
      ("catalog", .group
        [("list", .command listRules (buildList envCatalog)),
          ("schema", .command schemaRules fun _ => .ok .printSchema)])]

namespace CommandTree

/-- Names lead to a command or a group. -/
def knows : CommandTree → List String → Bool
  | _, [] => true
  | command _ _, _ :: _ => false
  | group members, name :: rest =>
    if name = "help" then rest = []
    else
      match members.lookup name with
      | none => false
      | some member => knows member rest

/-- A name of a command of a group. -/
def isMember (members : List (String × CommandTree)) (name : String) : Bool :=
  name = "help" || (members.lookup name).isSome

/-- The fault of arguments whose first is no name of a command of a group. -/
def fault (members : List (String × CommandTree)) (first : String) (rest : List String) : UsageFault :=
  let rules : ArgumentRules := ⟨[helpRule], none⟩
  match first.toList with
  | ['-', '-'] =>
    match rest with
    | [] => .noCommand
    | name :: _ => if isMember members name then .unknownArgument else .unknownCommand
  | '-' :: _ :: _ =>
    match rules.takeAll .start [first] with
    | .error fault => fault
    | .ok _ => .noCommand
  | _ => .unknownCommand

/-- Reads a command. -/
def read : CommandTree → List String → Except UsageFault Command
  | command rules build, arguments => do build (← rules.read arguments)
  | group _, [] => .error .noCommand
  | group members, name :: rest =>
    if name = "help" then .error (if knows (group members) rest then .help else .unknownCommand)
    else
      match members.lookup name with
      | some member => read member rest
      | none => .error (fault members name rest)

end CommandTree

/-- Reads a command, given the variable of the environment that names a catalog. -/
def readCommand (envCatalog : Option String) (arguments : List String) : Except UsageFault Command :=
  (commands envCatalog).read arguments

end BicepMigration.CommandLine
