import BicepMigration.Files.FileTree

/-!
# Hosts

What commands need of the system they run on: files and two streams of text. A session is such a system as
plain data, in which a command is a function from states to states.
-/

namespace BicepMigration.CommandLine

open Files

/-- A system that commands run on. -/
class Host (m : Type → Type) where
  /-- Reads a text. -/
  readText : String → m (Except FileFault String)
  /-- Makes a directory and those that lead to it, as far as they are missing. -/
  createDirectories : String → m (Except FileFault Unit)
  /-- Writes a text to a file. -/
  writeText : String → String → m (Except FileFault Unit)
  /-- Prints a text. -/
  print : String → m Unit
  /-- Prints a text to the stream for reports. -/
  report : String → m Unit

/-- A system as plain data. -/
structure Session where
  tree : FileTree
  /-- What was printed. -/
  printed : String
  /-- What was printed to the stream for reports. -/
  reported : String
  deriving DecidableEq, Repr

namespace Session

/-- Writes a text to a file of the tree. -/
def write (session : Session) (path text : String) : Except FileFault Unit × Session :=
  match session.tree.write path text with
  | .error fault => (.error fault, session)
  | .ok tree => (.ok (), { session with tree := tree })

/-- Makes directories in the tree. -/
def createDirectories (session : Session) (path : String) : Except FileFault Unit × Session :=
  let made := session.tree.createDirectories path
  (made.1, { session with tree := made.2 })

end Session

instance : Host (StateM Session) where
  readText path := fun session => (session.tree.read path, session)
  createDirectories path := fun session => session.createDirectories path
  writeText path text := fun session => session.write path text
  print text := fun session => ((), { session with printed := session.printed ++ text })
  report text := fun session => ((), { session with reported := session.reported ++ text })

end BicepMigration.CommandLine
