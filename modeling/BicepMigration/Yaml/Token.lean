/-!
# Tokens of YAML

Blocks have no brackets in the text, but they do among the tokens: a block starts where the indentation grows
and ends where it shrinks again. A key has a token before it, also where the text only shows the colon after
it.
-/

namespace BicepMigration.Yaml

/-- What stands after a percent sign at the start of a line. -/
inductive Directive where
  /-- The version of the language. -/
  | version (major minor : Nat)
  /-- The text that a tag handle stands for. -/
  | tag (handle text : String)
  deriving DecidableEq, Repr

/-- A token. -/
inductive Token where
  | directive (directive : Directive)
  | documentStart
  | documentEnd
  | blockSequenceStart
  | blockMappingStart
  | blockEnd
  | flowSequenceStart
  | flowSequenceEnd
  | flowMappingStart
  | flowMappingEnd
  /-- The hyphen before an element of a block. -/
  | blockEntry
  /-- The comma between elements in brackets. -/
  | flowEntry
  /-- A key comes next. -/
  | key
  /-- The value of a key comes next. -/
  | value
  | alias (name : String)
  | anchor (name : String)
  | tag (handle suffix : String)
  /-- A text, which is plain if it stands without quotes on its own. -/
  | scalar (text : String) (plain : Bool)
  deriving DecidableEq, Repr

end BicepMigration.Yaml
