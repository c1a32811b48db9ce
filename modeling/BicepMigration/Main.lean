import BicepMigration.CommandLine.Execution

/-!
# The program

Runs a command on the files and the streams of the system. The message of a failed command goes to the stream
for reports.
-/

namespace BicepMigration

open CommandLine Files

/-- The fault behind an error of the system. -/
def faultOfError : IO.Error → FileFault
  | .noFileOrDirectory .. => .missing
  | .alreadyExists .. => .taken
  | .inappropriateType _ 20 _ => .notDirectory
  | .inappropriateType _ 21 _ => .directory
  | e => .other (toString e)

/-- Runs an action on files. -/
def guarded {α : Type} (action : IO α) : IO (Except FileFault α) := do
  try
    let value ← action
    pure (.ok value)
  catch e => pure (.error (faultOfError e))

/-- Reads a text. -/
def readTextFile (path : String) : IO (Except FileFault String) := do
  match ← guarded (IO.FS.readBinFile path) with
  | .error fault => pure (.error fault)
  | .ok bytes =>
    match String.fromUTF8? bytes with
    | none => pure (.error .notText)
    | some text => pure (.ok text)

/-- Accepts a fault if a directory stands at a path all the same. -/
def acceptDirectory (path : String) (fault : FileFault) : IO (Except FileFault Unit) := do
  match ← readTextFile path with
  | .error .directory => pure (.ok ())
  | _ => pure (.error fault)

/-- Makes the first directory; if what leads to it is missing, makes the others before. -/
def createAll : List String → IO (Except FileFault Unit)
  | [] => pure (.ok ())
  | path :: shorter => do
    match ← guarded (IO.FS.createDir path) with
    | .ok () => pure (.ok ())
    | .error .missing =>
      match ← createAll shorter with
      | .error fault => pure (.error fault)
      | .ok () =>
        match ← guarded (IO.FS.createDir path) with
        | .ok () => pure (.ok ())
        | .error fault => acceptDirectory path fault
    | .error fault => acceptDirectory path fault

/-- The path that parts are of. -/
def pathOfParts (parts : List String) : String :=
  if parts = [""] then "/" else "/".intercalate parts

instance : Host IO where
  readText := readTextFile
  createDirectories path := createAll (path :: (leadingParts path).map pathOfParts)
  writeText path text := guarded (IO.FS.writeFile path text)
  print := IO.print
  report := IO.eprint

/-- How commands are written. -/
def usage : String :=
  String.join
    ["Usage:\n",
      "  resolve FILE... [-c CATALOG] [-e NAME] [-o DIRECTORY] [--json] [--deny-warnings] [--timeout SECONDS]\n",
      "  check FILE [-c CATALOG]\n",
      "  lookup TYPE [--version VERSION] [-c CATALOG]\n",
      "  catalog list [-c CATALOG]\n",
      "  catalog schema\n"]

/-- Runs a command. -/
def execute (command : Command) : IO UInt32 := do
  match ← ExceptT.run (command.run (m := IO)) with
  | .ok () => pure 0
  | .error message =>
    IO.eprintln ("error: " ++ message)
    pure 1

/-- Runs the command of the arguments. -/
def runArguments (arguments : List String) : IO UInt32 := do
  match readCommand (← IO.getEnv "AVM_CATALOG") arguments with
  | .ok command => execute command
  | .error .help =>
    IO.print usage
    pure 0
  | .error fault =>
    IO.eprintln ("error: " ++ fault.message)
    IO.eprint usage
    pure 2

end BicepMigration

def main (arguments : List String) : IO UInt32 :=
  BicepMigration.runArguments arguments
