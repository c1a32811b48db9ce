import BicepMigration.Yaml.Layout

/-!
# Nodes of YAML

A document is one node: a scalar, a sequence, a mapping, or an alias of a node with an anchor. Tokens are read
into nodes by the grammar of the language; where a node is left out, an empty plain scalar stands for it.
Anchors are numbered by the names seen so far. An anchor that takes up a name again gets the number that the
next new name gets too, and a number stands for the node that took it last.
-/

namespace BicepMigration.Yaml

/-- A node. -/
inductive Node where
  | scalar (text : String) (plain : Bool) (tag : Option String)
  | sequence (tag : Option String) (items : List Node)
  | mapping (tag : Option String) (entries : List (Node × Node))
  /-- The node that took the number. -/
  | alias (number : Nat)
  deriving Repr

/-- What stands for a node that is left out. -/
def Node.missing : Node := .scalar "" true none

/-- A text that was read as one document. -/
structure Document where
  root : Node
  /-- Nodes with anchors, by number. -/
  anchored : List (Nat × Node)
  deriving Repr

/-- Where the reader of nodes stands. -/
structure NodeState where
  tokens : List Token
  /-- Tag handles with the texts they stand for. -/
  handles : List (String × String)
  /-- Names of anchors with their numbers. -/
  names : List (String × Nat)
  /-- Numbers with the places of the nodes that took them, the last one first. -/
  takers : List (Nat × Nat)
  /-- The nodes with anchors that are complete, by place. -/
  complete : List (Nat × Node)

/-- Reading of nodes. -/
abbrev NodeReader := StateT NodeState Option

namespace NodeReader

/-- The next token. -/
def peek : NodeReader (Option Token) := fun s => some (s.tokens.head?, s)

/-- Passes over the next token. -/
def drop : NodeReader Unit := fun s => some ((), { s with tokens := s.tokens.tail })

/-- The next token is one of some, or the text ends. -/
def atAny (ts : List Token) : NodeReader Bool := do
  match ← peek with
  | none => pure true
  | some t => pure (ts.contains t)

/-- A tag's text. -/
def tagText (handle suffix : String) : NodeReader String := fun s =>
  if handle = "" then some (suffix, s) else (s.handles.lookup handle).map (· ++ suffix, s)

/-- An anchor before the node, if there is one. -/
def anchor? : NodeReader (Option String) := do
  match ← peek with
  | some (.anchor name) => drop; pure (some name)
  | _ => pure none

/-- A tag before the node, if there is one. -/
def tag? : NodeReader (Option String) := do
  match ← peek with
  | some (.tag handle suffix) => drop; some <$> tagText handle suffix
  | _ => pure none

/-- The anchor and the tag before a node, in either order. -/
def properties : NodeReader (Option String × Option String) := do
  match ← anchor? with
  | some name => pure (some name, ← tag?)
  | none =>
    let tag ← tag?
    match tag with
    | some _ => pure (← anchor?, tag)
    | none => pure (none, none)

/-- Gives a number to an anchor. The result is the place of the node. -/
def takeNumber (name : String) : NodeReader Nat := fun s =>
  let number := s.names.length
  let place := s.takers.length
  some (place,
    { s with
      names := (name, number) :: s.names.filter fun (other, _) => other ≠ name
      takers := (number, place) :: s.takers })

/-- Keeps a node that has an anchor. -/
def keep (place : Nat) (node : Node) : NodeReader Unit := fun s =>
  some ((), { s with complete := (place, node) :: s.complete })

/-- The number of an anchor that is known. -/
def numberOf (name : String) : NodeReader Nat := fun s => (s.names.lookup name).map (·, s)

/-- An empty scalar, if the node may be left out. -/
def missing (tag : Option String) (optional : Bool) : NodeReader Node :=
  if optional then pure (.scalar "" true tag) else failure

/-- Passes over the comma before an element that is not the first one. -/
def separator : Bool → NodeReader Unit
  | true => pure ()
  | false => do
    match ← peek with
    | some .flowEntry => drop
    | _ => failure

mutual

/-- Reads a node. Blocks are allowed only outside brackets; a sequence without indentation only as the key or
the value of a block. -/
def node : Nat → Bool → Bool → NodeReader Node
  | 0, _, _ => failure
  | steps + 1, block, level => do
    match ← peek with
    | some (.alias name) =>
      drop
      .alias <$> numberOf name
    | _ =>
      let (anchor, tag) ← properties
      match anchor with
      | none => content steps block level tag tag.isSome
      | some name =>
        let place ← takeNumber name
        let node ← content steps block level tag true
        keep place node
        pure node

/-- Reads a node after its anchor and tag. It may be left out if it has one of them. -/
def content : Nat → Bool → Bool → Option String → Bool → NodeReader Node
  | 0, _, _, _, _ => failure
  | steps + 1, block, level, tag, optional => do
    match ← peek with
    | some (.scalar text plain) =>
      drop
      pure (.scalar text plain (if tag = some "!" then none else tag))
    | some .flowSequenceStart =>
      drop
      .sequence tag <$> flowItems steps true
    | some .flowMappingStart =>
      drop
      .mapping tag <$> flowEntries steps true
    | some .blockEntry => if level then .sequence tag <$> levelItems steps else missing tag optional
    | some .blockSequenceStart =>
      if block then
        drop
        .sequence tag <$> blockItems steps
      else missing tag optional
    | some .blockMappingStart =>
      if block then
        drop
        .mapping tag <$> blockEntries steps
      else missing tag optional
    | _ => missing tag optional

/-- Reads a node, unless one of some tokens comes next. -/
def nodeUnless (ts : List Token) : Nat → Bool → Bool → NodeReader Node
  | 0, _, _ => failure
  | steps + 1, block, level => do
    if ← atAny ts then pure .missing else node steps block level

/-- Reads the elements of a block. -/
def blockItems : Nat → NodeReader (List Node)
  | 0 => failure
  | steps + 1 => do
    match ← peek with
    | some .blockEntry =>
      drop
      let item ← nodeUnless [.blockEntry, .blockEnd] steps true false
      return item :: (← blockItems steps)
    | some .blockEnd =>
      drop
      pure []
    | _ => failure

/-- Reads the elements of a sequence without indentation. -/
def levelItems : Nat → NodeReader (List Node)
  | 0 => failure
  | steps + 1 => do
    match ← peek with
    | some .blockEntry =>
      drop
      let item ← nodeUnless [.blockEntry, .key, .value, .blockEnd] steps true false
      return item :: (← levelItems steps)
    | _ => pure []

/-- Reads the entries of a block. -/
def blockEntries : Nat → NodeReader (List (Node × Node))
  | 0 => failure
  | steps + 1 => do
    match ← peek with
    | some .key =>
      drop
      let key ← nodeUnless [.key, .value, .blockEnd] steps true true
      let value ←
        match ← peek with
        | some .value =>
          drop
          nodeUnless [.key, .value, .blockEnd] steps true true
        | _ => pure .missing
      return (key, value) :: (← blockEntries steps)
    | some .blockEnd =>
      drop
      pure []
    | _ => failure

/-- Reads the value of a key in brackets, which may be left out. -/
def flowValue (close : Token) : Nat → NodeReader Node
  | 0 => failure
  | steps + 1 => do
    match ← peek with
    | some .value =>
      drop
      nodeUnless [.flowEntry, close] steps false false
    | _ => pure .missing

/-- Reads the key of an element in brackets. Where it is left out, the token that comes instead is passed
over. -/
def elementKey : Nat → NodeReader Node
  | 0 => failure
  | steps + 1 => do
    if ← atAny [.value, .flowEntry, .flowSequenceEnd] then
      drop
      pure .missing
    else node steps false false

/-- Reads the elements of a sequence in brackets. A key makes its element a mapping with one entry. -/
def flowItems : Nat → Bool → NodeReader (List Node)
  | 0, _ => failure
  | steps + 1, first => do
    match ← peek with
    | some .flowSequenceEnd =>
      drop
      pure []
    | _ =>
      separator first
      match ← peek with
      | some .flowSequenceEnd =>
        drop
        pure []
      | some .key =>
        drop
        let key ← elementKey steps
        let value ← flowValue .flowSequenceEnd steps
        return .mapping none [(key, value)] :: (← flowItems steps false)
      | _ =>
        let item ← node steps false false
        return item :: (← flowItems steps false)

/-- Reads the entries of a mapping in brackets. -/
def flowEntries : Nat → Bool → NodeReader (List (Node × Node))
  | 0, _ => failure
  | steps + 1, first => do
    match ← peek with
    | some .flowMappingEnd =>
      drop
      pure []
    | _ =>
      separator first
      match ← peek with
      | some .flowMappingEnd =>
        drop
        pure []
      | some .key =>
        drop
        let key ← nodeUnless [.value, .flowEntry, .flowMappingEnd] steps false false
        let value ← flowValue .flowMappingEnd steps
        return (key, value) :: (← flowEntries steps false)
      | _ =>
        let key ← node steps false false
        return (key, .missing) :: (← flowEntries steps false)

end

/-- Puts a directive into effect. A version may be told once, and a handle be defined once. -/
def directive (versionSeen : Bool) (defined : List (String × String)) :
    Directive → Option (Bool × List (String × String))
  | .version major minor =>
    if versionSeen || major ≠ 1 || !(minor = 1 || minor = 2) then none else some (true, defined)
  | .tag handle text => if (defined.lookup handle).isSome then none else some (versionSeen, (handle, text) :: defined)

/-- Reads the directives before a document. -/
def directives (versionSeen : Bool) (defined : List (String × String)) :
    List Token → Option (List (String × String) × List Token)
  | .directive d :: rest => do
    let (versionSeen, defined) ← directive versionSeen defined d
    directives versionSeen defined rest
  | rest => some (defined, rest)

/-- Tag handles that are always defined. -/
def standardHandles : List (String × String) := [("!", "!"), ("!!", "tag:yaml.org,2002:")]

/-- Reads the root of a document, which may be left out after a mark. -/
def root (marked : Bool) (steps : Nat) : NodeReader Node := do
  if marked then
    match ← peek with
    | some (.directive _) | some .documentStart | some .documentEnd | none => pure .missing
    | _ => node steps true false
  else node steps true false

end NodeReader

/-- The document made of tokens. There must be no second one. -/
def Document.ofTokens? (tokens : List Token) : Option Document :=
  match tokens with
  | [] => some ⟨.missing, []⟩
  | first :: _ => do
    let (defined, rest) ← NodeReader.directives false [] tokens
    let (marked, rest) ←
      match first, rest with
      | _, .documentStart :: rest => some (true, rest)
      | .directive _, _ => none
      | _, rest => some (false, rest)
    let start : NodeState :=
      { tokens := rest, handles := defined ++ NodeReader.standardHandles, names := [], takers := [], complete := [] }
    let (root, s) ← (NodeReader.root marked (4 * tokens.length + 4)).run start
    if s.tokens.all (· = .documentEnd) then
      let anchored := s.takers.filterMap fun (number, place) => (s.complete.lookup place).map (number, ·)
      some ⟨root, anchored⟩
    else none

/-- The document in a text. -/
def Document.read? (text : String) : Option Document :=
  (tokens? text).bind Document.ofTokens?

end BicepMigration.Yaml
