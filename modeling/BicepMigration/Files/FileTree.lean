import BicepMigration.Files.FileFault
import BicepMigration.Files.Path

/-!
# Trees of files

A file tree with a working directory, as plain data. A place is the list of the names that lead to it from
the root. A path is walked part by part from the working directory, or from the root if it is absolute; each
part but the last has to lead to a directory, so that `missing/..` leads nowhere.
-/

namespace BicepMigration.Files

/-- The names that lead to a file or a directory from the root. -/
abbrev Place := List String

/-- What a file holds. -/
inductive Contents where
  | text (text : String)
  /-- Bytes that are no text. -/
  | bytes
  deriving DecidableEq, Repr

/-- What stands at a place. -/
inductive Node where
  | file (contents : Contents)
  | directory
  deriving DecidableEq, Repr

/-- Files and directories. -/
structure FileTree where
  /-- The working directory. -/
  location : Place
  /-- Directories that were made. Directories that lead to them, to the files or to the working directory are
  there as well. -/
  directories : List Place
  files : List (Place × Contents)
  deriving DecidableEq, Repr

/-- The part of a path that names a component. -/
def Component.part : Component → String
  | root => ""
  | here => "."
  | parent => ".."
  | name text => text

/-- The place that a part leads to from a directory. -/
def move (place : Place) (part : String) : Place :=
  if part = "" || part = "." then place
  else if part = ".." then place.dropLast
  else place ++ [part]

/-- The parts of a path between slashes. -/
def pathParts (path : String) : List String := (slashParts path.toList).map String.ofList

/-- The parts of a path without slashes at its end. -/
def partsBeforeSlashes (path : String) : List String :=
  ((pathParts path).reverse.dropWhile (· = "")).reverse

/-- The paths of the directories that a path goes through, the longest first, as parts. -/
def leadingParts (path : String) : List (List String) :=
  let parts := (components path).map Component.part
  (List.range (parts.length - 1)).reverse.map fun n => parts.take (n + 1)

namespace FileTree

/-- The place is a directory. -/
def isDirectory (tree : FileTree) (place : Place) : Bool :=
  (tree.location :: tree.directories ++ tree.files.map (·.1.dropLast)).any (place.isPrefixOf ·)

/-- What stands at a place. -/
def node? (tree : FileTree) (place : Place) : Option Node :=
  match tree.files.lookup place with
  | some contents => some (.file contents)
  | none => if tree.isDirectory place then some .directory else none

/-- Walks along parts. -/
def walk (tree : FileTree) (place : Place) : List String → Except FileFault Place
  | [] => .ok place
  | part :: parts =>
    match tree.node? place with
    | none => .error .missing
    | some (.file _) => .error .notDirectory
    | some .directory => walk tree (move place part) parts

/-- Where a path starts. -/
def origin (tree : FileTree) (path : String) : Place :=
  if path.toList.head? = some '/' then [] else tree.location

/-- The place that a path leads to. Something or nothing may stand there. -/
def locate (tree : FileTree) (path : String) : Except FileFault Place :=
  if path.toList.contains '\x00' then .error .nulCharacter
  else if path = "" then .error .missing
  else tree.walk (tree.origin path) (pathParts path)

/-- Reads a text. -/
def read (tree : FileTree) (path : String) : Except FileFault String := do
  match tree.node? (← tree.locate path) with
  | none => throw .missing
  | some .directory => throw .directory
  | some (.file .bytes) => throw .notText
  | some (.file (.text text)) => pure text

/-- Puts a file at a place. -/
def put (tree : FileTree) (place : Place) (contents : Contents) : FileTree :=
  { tree with files := (place, contents) :: tree.files.filter (·.1 ≠ place) }

/-- Writes a text to a file, which is made if nothing stands there. -/
def write (tree : FileTree) (path text : String) : Except FileFault FileTree := do
  let place ← tree.locate path
  match tree.node? place with
  | some .directory => throw .directory
  | _ => pure (tree.put place (.text text))

/-- Makes a directory at the end of parts. -/
def makeDirectory (tree : FileTree) (start : Place) (parts : List String) : Except FileFault FileTree := do
  let place ← tree.walk start parts
  match tree.node? place with
  | some _ => throw .taken
  | none => pure { tree with directories := place :: tree.directories }

/-- A directory stands at the end of parts. -/
def leadsToDirectory (tree : FileTree) (start : Place) (parts : List String) : Bool :=
  match tree.walk start parts with
  | .ok place => tree.node? place = some .directory
  | .error _ => false

/-- Accepts a fault if a directory stands at the end of parts all the same. -/
def acceptDirectory (tree : FileTree) (start : Place) (parts : List String) (fault : FileFault) :
    Except FileFault Unit :=
  if tree.leadsToDirectory start parts then .ok () else .error fault

/-- Makes the directory of the first parts; if what leads to it is missing, makes the directories of the
other parts before. Directories that were made before a fault stay. -/
def makeDirectories (tree : FileTree) (start : Place) : List (List String) → Except FileFault Unit × FileTree
  | [] => (.ok (), tree)
  | parts :: shorter =>
    match tree.makeDirectory start parts with
    | .ok made => (.ok (), made)
    | .error .missing =>
      match tree.makeDirectories start shorter with
      | (.error fault, tree) => (.error fault, tree)
      | (.ok (), tree) =>
        match tree.makeDirectory start parts with
        | .ok made => (.ok (), made)
        | .error fault => (tree.acceptDirectory start parts fault, tree)
    | .error fault => (tree.acceptDirectory start parts fault, tree)

/-- Makes a directory and those that lead to it, as far as they are missing. -/
def createDirectories (tree : FileTree) (path : String) : Except FileFault Unit × FileTree :=
  if path = "" then (.ok (), tree)
  else if path.toList.contains '\x00' then (.error .nulCharacter, tree)
  else tree.makeDirectories (tree.origin path) (partsBeforeSlashes path :: leadingParts path)

/-- What is put at a place is found there. -/
theorem node?_put_self (tree : FileTree) (place : Place) (contents : Contents) :
    (tree.put place contents).node? place = some (.file contents) := by
  simp [put, node?]

end FileTree

end BicepMigration.Files
