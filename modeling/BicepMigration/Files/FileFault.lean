/-!
# File faults

Why a file cannot be read or written, or a directory cannot be made.
-/

namespace BicepMigration.Files

/-- What is wrong with a path or with what stands there. -/
inductive FileFault where
  /-- Nothing stands there. -/
  | missing
  /-- Something stands there already. -/
  | taken
  /-- The path goes through a file. -/
  | notDirectory
  /-- A directory stands where a file is wanted. -/
  | directory
  /-- The bytes are no text. -/
  | notText
  /-- The path holds a NUL character. -/
  | nulCharacter
  /-- Another fault, in the words of the system. -/
  | other (reason : String)
  deriving DecidableEq, Repr

/-- The wording of a fault. -/
def FileFault.message : FileFault → String
  | missing => "No such file or directory (os error 2)"
  | taken => "File exists (os error 17)"
  | notDirectory => "Not a directory (os error 20)"
  | directory => "Is a directory (os error 21)"
  | notText => "stream did not contain valid UTF-8"
  | nulCharacter => "file name contained an unexpected NUL byte"
  | other reason => reason

end BicepMigration.Files
