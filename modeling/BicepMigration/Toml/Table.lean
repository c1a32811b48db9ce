import BicepMigration.Number.Binary64

/-!
# Tables of TOML

A table is built line by line. A table can be defined once: by a header, or by keys with points in one table.
Tables on the way to another one are defined only implicitly, and a header may still define them. The
elements of an array of tables are defined by headers one after another. Entries keep their order.
-/

namespace BicepMigration.Toml

/-- A value. -/
inductive Value where
  | string (text : String)
  | integer (value : Int)
  | float (value : Number.Binary64)
  /-- A number that is infinite, or none. -/
  | beyond
  | bool (value : Bool)
  /-- A date, a time, or both. -/
  | moment (text : String)
  | array (items : List Value)
  | table (entries : List (String × Value))
  deriving Repr

/-- What stands under a key while tables are being built. -/
inductive Item where
  | value (value : Value)
  /-- A table: whether it is defined only implicitly, and whether by a key with points. -/
  | table (implicit dotted : Bool) (entries : List (String × Item))
  /-- An array of tables. -/
  | tables (elements : List (List (String × Item)))
  deriving Repr

/-- The entries of a table that is being built. -/
abbrev Entries := List (String × Item)

namespace Entries

/-- Puts an item in place of the one under a key, or at the end. -/
def put (key : String) (item : Item) : Entries → Entries
  | [] => [(key, item)]
  | (k, i) :: rest => if k = key then (k, item) :: rest else (k, i) :: put key item rest

/-- The entries without a key. -/
def remove (key : String) (entries : Entries) : Entries := entries.filter fun (k, _) => k ≠ key

/-- Changes the table at a path. Missing tables are made implicitly. Of an array of tables the last element is
meant. Keys with points may pass only through implicit tables. The change is told whether the table is made by
a key with points. -/
def change {α : Type} (byKey : Bool) (f : Bool → Entries → Option (α × Entries)) (dotted : Bool) :
    List String → Entries → Option (α × Entries)
  | [], entries => f dotted entries
  | key :: path, entries =>
    match entries.lookup key with
    | none => do
      let (result, inner) ← change byKey f byKey path []
      some (result, put key (.table true byKey inner) entries)
    | some (.value _) => none
    | some (.table implicit dotted inner) =>
      if byKey && !implicit then none
      else do
        let (result, inner) ← change byKey f dotted path inner
        some (result, put key (.table implicit dotted inner) entries)
    | some (.tables elements) =>
      match elements.getLast? with
      | none => none
      | some last => do
        let (result, inner) ← change byKey f false path last
        some (result, put key (.tables (elements.dropLast ++ [inner])) entries)

/-- Puts a value under a key with points, which must be free. -/
def define (path : List String) (value : Value) (entries : Entries) : Option Entries :=
  match path.getLast? with
  | none => none
  | some key =>
    let parents := path.dropLast
    (change true (fun dotted inner =>
      if dotted = parents.isEmpty || (inner.lookup key).isSome then none
      else some ((), put key (.value value) inner)) false parents entries).map (·.2)

mutual

/-- The value of an item. -/
def valueOf : Item → Value
  | .value v => v
  | .table _ _ entries => .table (valuesOf entries)
  | .tables elements => .array (tablesOf elements)

/-- The values of entries. -/
def valuesOf : List (String × Item) → List (String × Value)
  | [] => []
  | (key, item) :: rest => (key, valueOf item) :: valuesOf rest

/-- The values of elements. -/
def tablesOf : List (List (String × Item)) → List Value
  | [] => []
  | entries :: rest => .table (valuesOf entries) :: tablesOf rest

end

end Entries

/-- A document that is being built. -/
structure Building where
  /-- The tables that are complete. -/
  root : Entries
  /-- The path of the table that is being defined. -/
  path : List String
  /-- The table is an element of an array of tables. -/
  isElement : Bool
  /-- The entries of the table. -/
  entries : Entries

namespace Building

/-- Nothing is defined yet. -/
def start : Building := ⟨[], [], false, []⟩

/-- The tables with the one that was being defined. -/
def complete (b : Building) : Option Entries :=
  match b.path.getLast? with
  | none => some b.entries
  | some key =>
    (Entries.change false (fun _ parent =>
      match b.isElement, parent.lookup key with
      | true, some (.tables elements) => some ((), Entries.put key (.tables (elements ++ [b.entries])) parent)
      | true, none => some ((), Entries.put key (.tables [b.entries]) parent)
      | false, none => some ((), Entries.put key (.table false false b.entries) parent)
      | _, _ => none) false b.path.dropLast b.root).map (·.2)

/-- The header of a table. An implicit table is taken up and goes to the end of its parent. -/
def header (path : List String) (b : Building) : Option Building := do
  let root ← b.complete
  let key ← path.getLast?
  let (entries, root) ← Entries.change false (fun _ parent =>
    match parent.lookup key with
    | none => some ([], parent)
    | some (.table true false inner) => some (inner, Entries.remove key parent)
    | _ => none) false path.dropLast root
  some ⟨root, path, false, entries⟩

/-- The header of an element of an array of tables. -/
def elementHeader (path : List String) (b : Building) : Option Building := do
  let root ← b.complete
  let key ← path.getLast?
  let ((), root) ← Entries.change false (fun _ parent =>
    match parent.lookup key with
    | none => some ((), Entries.put key (.tables []) parent)
    | some (.tables _) => some ((), parent)
    | _ => none) false path.dropLast root
  some ⟨root, path, true, []⟩

/-- An entry of the table that is being defined. -/
def define (path : List String) (value : Value) (b : Building) : Option Building :=
  (b.entries.define path value).map fun entries => { b with entries := entries }

end Building

end BicepMigration.Toml
