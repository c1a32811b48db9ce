import BicepMigration.Yaml.Node

/-!
# Expansion of aliases

Aliases are followed only where a value is used: what stands under a key that no record knows is left out.
The number of aliases that may be followed is bounded, and so is the depth of sequences and mappings inside
one another, so that expansion ends for every document.
-/

namespace BicepMigration.Yaml

/-- A node without aliases. -/
inductive Tree where
  | scalar (text : String) (plain : Bool) (tag : Option String)
  | sequence (tag : Option String) (items : List Tree)
  | mapping (tag : Option String) (entries : List (Tree × Tree))
  deriving Repr

mutual

/-- The size of a node: two for a sequence or a mapping and one for any other, and the sizes of its parts. -/
def Node.size : Node → Nat
  | .sequence _ items => 2 + sizeOfItems items
  | .mapping _ entries => 2 + sizeOfEntries entries
  | _ => 1

/-- The size of elements. -/
def sizeOfItems : List Node → Nat
  | [] => 0
  | item :: rest => item.size + sizeOfItems rest

/-- The size of entries. -/
def sizeOfEntries : List (Node × Node) → Nat
  | [] => 0
  | (key, value) :: rest => key.size + value.size + sizeOfEntries rest

end

/-- Expansion. The state is the number of aliases that may still be followed. -/
abbrev Expander := StateT Nat Option

namespace Expander

/-- The node itself, or the node that an alias stands for. -/
def target (anchored : List (Nat × Node)) : Node → Expander Node
  | .alias number => fun budget =>
    if budget = 0 then none else (anchored.lookup number).map (·, budget - 1)
  | node => pure node

/-- Expands a node whole. The argument is the depth that is left. -/
def whole (anchored : List (Nat × Node)) : Nat → Node → Expander Tree
  | 0, node => do
    match ← target anchored node with
    | .scalar text plain tag => pure (.scalar text plain tag)
    | _ => failure
  | depth + 1, node => do
    match ← target anchored node with
    | .scalar text plain tag => pure (.scalar text plain tag)
    | .sequence tag items => .sequence tag <$> items.mapM (whole anchored depth)
    | .mapping tag entries =>
      .mapping tag <$> entries.mapM fun (key, value) => do
        return (← whole anchored depth key, ← whole anchored depth value)
    | .alias _ => failure

/-- A value that is used in some way, from the depth that is left. -/
abbrev Use := Nat → Node → Expander Tree

/-- Expands a list whose elements are used in one way. -/
def list (anchored : List (Nat × Node)) (each : Use) : Use
  | 0, node => whole anchored 0 node
  | depth + 1, node => do
    match ← target anchored node with
    | .sequence tag items => .sequence tag <$> items.mapM (each depth)
    | other => whole anchored (depth + 1) other

/-- Expands the entries of a record that are known. -/
def known (anchored : List (Nat × Node)) (fields : List (String × Use)) (depth : Nat) :
    List (Node × Node) → Expander (List (Tree × Tree))
  | [] => pure []
  | (key, value) :: rest => do
    let key ← whole anchored depth key
    match key with
    | .scalar name _ _ =>
      match fields.lookup name with
      | none => known anchored fields depth rest
      | some use => return (key, ← use depth value) :: (← known anchored fields depth rest)
    | _ => failure

/-- Expands a record whose fields are used in different ways. -/
def record (anchored : List (Nat × Node)) (fields : List (String × Use)) : Use
  | 0, node => whole anchored 0 node
  | depth + 1, node => do
    match ← target anchored node with
    | .mapping tag entries => .mapping tag <$> known anchored fields depth entries
    | other => whole anchored (depth + 1) other

end Expander

/-- Sequences and mappings may stand inside one another this deep. -/
def greatestDepth : Nat := 128

/-- Aliases may be followed a hundred times for each unit of size. -/
def Document.budget (document : Document) : Nat := 100 * document.root.size

/-- Expands the root of a document. -/
def Document.expand? (document : Document) (use : List (Nat × Node) → Expander.Use) : Option Tree :=
  ((use document.anchored greatestDepth document.root).run document.budget).map (·.1)

end BicepMigration.Yaml
