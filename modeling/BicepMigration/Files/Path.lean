/-!
# Paths

A path is a text of names divided by slashes. Its components say what it means: empty names and names that
are a single point mean nothing, except for a point that a relative path starts with.
-/

namespace BicepMigration.Files

/-- A part of a path. -/
inductive Component where
  /-- The start of an absolute path. -/
  | root
  /-- The directory itself. -/
  | here
  /-- The directory above. -/
  | parent
  | name (text : String)
  deriving DecidableEq, Repr

/-- The parts of a text between slashes. There is at least one. -/
def slashParts : List Char → List (List Char)
  | [] => [[]]
  | c :: cs =>
    if c = '/' then [] :: slashParts cs
    else
      match slashParts cs with
      | [] => [[c]]
      | part :: parts => (c :: part) :: parts

/-- What a part means inside a path. -/
def component? (part : List Char) : Option Component :=
  if part = [] || part = ['.'] then none
  else if part = ['.', '.'] then some .parent
  else some (.name (String.ofList part))

/-- The components of a path. -/
def components (path : String) : List Component :=
  let parts := slashParts path.toList
  let start : List Component :=
    if path.toList.head? = some '/' then [.root]
    else if parts.head? = some ['.'] then [.here]
    else []
  start ++ parts.filterMap component?

/-- The last component, if it is a name. -/
def fileName? (path : String) : Option String :=
  match (components path).getLast? with
  | some (.name text) => some text
  | _ => none

/-- The characters after the last point of a name. A point at the start does not count. -/
def extensionOf? (name : List Char) : Option (List Char) :=
  let before := name.reverse.dropWhile (· ≠ '.')
  if before.length ≤ 1 then none else some (name.reverse.takeWhile (· ≠ '.')).reverse

/-- The extension of the file name. -/
def extension? (path : String) : Option String :=
  (fileName? path).bind fun name => (extensionOf? name.toList).map String.ofList

/-- The path of a name in a directory. -/
def joinName (directory name : String) : String :=
  if directory = "" || directory.toList.getLast? = some '/' then directory ++ name
  else directory ++ "/" ++ name

end BicepMigration.Files
