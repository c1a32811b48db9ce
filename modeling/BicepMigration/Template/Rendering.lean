import BicepMigration.Template.EditedText
import BicepMigration.Template.Literal

/-!
# Text of module calls

A module call is written with one property a line, indented by two spaces a level, without commas. Values
that come from a template keep their text, with the edits that fall inside them.
-/

namespace BicepMigration.Template

/-- A module call that is ready to be written. -/
structure ModuleCall where
  /-- Lines above the declaration. -/
  decorators : List String
  symbol : String
  /-- Where the module is found. -/
  locator : String
  /-- The condition, without parentheses. -/
  condition : Option String
  body : ObjectLiteral

/-- The indentation of a level. -/
def indentation (depth : Nat) : String :=
  String.ofList (List.replicate (2 * depth) ' ')

/-- A key as it is written: in quotes if it was. -/
def renderKey (key : String) (quoted : Bool) : String :=
  if quoted then quote key else key

mutual

/-- A value whose line is indented to a level. -/
def renderValue (edited : EditedText) (depth : Nat) : Value → String
  | .string f => edited.fragment f
  | .interpolated f => edited.fragment f
  | .expression f => edited.fragment f
  | .number text => text
  | .bool value => if value then "true" else "false"
  | .null => "null"
  | .object [] => "\x7b\x7d"
  | .object (p :: rest) =>
    "\x7b\n" ++ renderEntries edited (depth + 1) (p :: rest) ++ indentation depth ++ "\x7d"
  | .array [] => "[]"
  | .array (item :: rest) =>
    "[\n" ++ renderItems edited (depth + 1) (item :: rest) ++ indentation depth ++ "]"

/-- Properties, a line each. -/
def renderEntries (edited : EditedText) (depth : Nat) : List (Property Value) → String
  | [] => ""
  | ⟨key, quoted, value, _⟩ :: rest =>
    indentation depth ++ renderKey key quoted ++ ": " ++ renderValue edited depth value ++ "\n" ++
      renderEntries edited depth rest

/-- Elements, a line each. -/
def renderItems (edited : EditedText) (depth : Nat) : List Value → String
  | [] => ""
  | item :: rest =>
    indentation depth ++ renderValue edited depth item ++ "\n" ++ renderItems edited depth rest

end

/-- The declaration line up to the body. -/
def ModuleCall.header (call : ModuleCall) : String :=
  "module " ++ call.symbol ++ " '" ++ call.locator ++ "' = " ++
    match call.condition with
    | none => ""
    | some condition => "if (" ++ condition ++ ") "

/-- A module call as template text. -/
def ModuleCall.render (edited : EditedText) (call : ModuleCall) : String :=
  String.join (call.decorators.map (· ++ "\n")) ++ call.header ++ renderValue edited 0 (.object call.body)

end BicepMigration.Template
