import BicepMigration.Text.Span

/-!
# Property trees

The body of a declaration is an ordered tree of properties. A value is a literal, an object, an array, or a
piece of template text that only a deployment can evaluate.
-/

namespace BicepMigration.Template

/-- A piece of template text. -/
structure Fragment where
  /-- The text itself. -/
  raw : String
  /-- Where it stands; absent if it was not read from a template. -/
  span : Option Text.Span
  deriving DecidableEq, Repr

/-- A key with its value. -/
structure Property (α : Type) where
  /-- The key, without quotes. -/
  key : String
  /-- The key is written as a string. -/
  quoted : Bool
  /-- The value. -/
  value : α
  /-- Line of the key, counted from one; zero if it was not read from a template. -/
  line : Nat
  deriving Repr

/-- The value of a property. -/
inductive Value where
  /-- A string without holes, with its quotes. -/
  | string (fragment : Fragment)
  /-- A string with holes, with its quotes. -/
  | interpolated (fragment : Fragment)
  /-- A number, as it is spelled. -/
  | number (text : String)
  | bool (value : Bool)
  | null
  | object (entries : List (Property Value))
  | array (items : List Value)
  /-- Anything else: an access, a call, an operation. -/
  | expression (fragment : Fragment)
  deriving Repr

/-- The entries of an object, in order. -/
abbrev ObjectLiteral := List (Property Value)

/-- The value of the first entry with a key. -/
def ObjectLiteral.get? (entries : ObjectLiteral) (key : String) : Option Value :=
  (entries.find? (·.key = key)).map (·.value)

/-- A property that was not read from a template. -/
def Property.plain {α : Type} (key : String) (value : α) : Property α := ⟨key, false, value, 0⟩

namespace Value

mutual

/-- The value holds no expression and no string with holes. -/
def isLiteral : Value → Bool
  | .expression _ => false
  | .interpolated _ => false
  | .array items => areLiteral items
  | .object entries => entriesLiteral entries
  | _ => true

/-- All elements are literal. -/
def areLiteral : List Value → Bool
  | [] => true
  | item :: rest => item.isLiteral && areLiteral rest

/-- All values of entries are literal. -/
def entriesLiteral : List (Property Value) → Bool
  | [] => true
  | ⟨_, _, value, _⟩ :: rest => value.isLiteral && entriesLiteral rest

end

end Value

end BicepMigration.Template
