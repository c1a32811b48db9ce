import BicepMigration.Json.Basic

/-!
# Text of JSON values

Two layouts: compact, without any white space, and indented by two spaces with an entry a line. Both write
strings with the short escapes of JSON, and other control characters as four hexadecimal digits; every
other character stands for itself.
-/

namespace BicepMigration

/-- The text of a number. -/
def JsonNumber.text : JsonNumber → String
  | .integer value => toString value
  | .float value => value.text

namespace Json

/-- A character inside a JSON string. -/
def escaped (c : Char) : List Char :=
  if c = '"' then ['\\', '"']
  else if c = '\\' then ['\\', '\\']
  else if c = '\x08' then ['\\', 'b']
  else if c = '\x0C' then ['\\', 'f']
  else if c = '\n' then ['\\', 'n']
  else if c = '\r' then ['\\', 'r']
  else if c = '\t' then ['\\', 't']
  else if c.toNat < 0x20 then
    '\\' :: 'u' :: '0' :: '0' :: [Nat.digitChar (c.toNat / 16), Nat.digitChar (c.toNat % 16)]
  else [c]

/-- A JSON string. -/
def quoted (text : String) : String :=
  String.ofList ('"' :: text.toList.flatMap escaped ++ ['"'])

mutual

/-- The compact text of a value. -/
def compact : Json → String
  | .null => "null"
  | .bool value => if value then "true" else "false"
  | .number value => value.text
  | .string value => quoted value
  | .array items => "[" ++ ",".intercalate (compactItems items) ++ "]"
  | .object entries => "\x7b" ++ ",".intercalate (compactEntries entries) ++ "\x7d"

/-- The compact texts of elements. -/
def compactItems : List Json → List String
  | [] => []
  | item :: rest => compact item :: compactItems rest

/-- The compact texts of entries. -/
def compactEntries : List (String × Json) → List String
  | [] => []
  | (key, value) :: rest => (quoted key ++ ":" ++ compact value) :: compactEntries rest

end

/-- A line break and the indentation of a nesting depth. -/
def lineAt (depth : Nat) : String :=
  String.ofList ('\n' :: List.replicate (2 * depth) ' ')

mutual

/-- The indented text of a value that stands at a nesting depth. -/
def indented (depth : Nat) : Json → String
  | .array [] => "[]"
  | .object [] => "\x7b\x7d"
  | .array (item :: rest) =>
    "[" ++ ",".intercalate (indentedItems (depth + 1) (item :: rest)) ++ lineAt depth ++ "]"
  | .object (entry :: rest) =>
    "\x7b" ++ ",".intercalate (indentedEntries (depth + 1) (entry :: rest)) ++ lineAt depth ++ "\x7d"
  | .null => "null"
  | .bool value => if value then "true" else "false"
  | .number value => value.text
  | .string value => quoted value

/-- Elements, each on its line. -/
def indentedItems (depth : Nat) : List Json → List String
  | [] => []
  | item :: rest => (lineAt depth ++ indented depth item) :: indentedItems depth rest

/-- Entries, each on its line. -/
def indentedEntries (depth : Nat) : List (String × Json) → List String
  | [] => []
  | (key, value) :: rest =>
    (lineAt depth ++ quoted key ++ ": " ++ indented depth value) :: indentedEntries depth rest

end

/-- The indented text of a value. -/
def pretty (value : Json) : String := indented 0 value

end Json

end BicepMigration
