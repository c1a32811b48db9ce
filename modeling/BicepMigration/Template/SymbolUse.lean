import BicepMigration.Template.Token

/-!
# Uses of symbols

An identifier spelled like a symbol is a use of it, unless it names a member, a key or what is being
declared. A use takes the members that follow it along. A use without members that is a whole element of
the array under the key `dependsOn` only orders deployments.
-/

namespace BicepMigration.Template

open Text

/-- The words before the name in a declaration. -/
def declaringWords : List String := ["resource", "module", "param", "var", "output", "type", "func"]

/-- A use of a symbol. -/
structure SymbolUse where
  symbol : String
  /-- The members that are accessed through the symbol, outermost first. -/
  path : List String
  /-- The use is an element of a `dependsOn` array. -/
  dependsOn : Bool
  /-- The symbol with its members. -/
  span : Span
  line : Nat
  column : Nat
  deriving DecidableEq, Repr

/-- The use as it is written. -/
def SymbolUse.dotted (use : SymbolUse) : String :=
  ".".intercalate (use.symbol :: use.path)

/-- The names of the members that are accessed by the next tokens: a point and a name each. -/
def memberTokens : List Token → List Token
  | point :: name :: rest =>
    if point.kind = .dot && name.kind = .identifier then name :: memberTokens rest else []
  | _ => []

/-- The tokens from the opening of the innermost bracket that stands open, given the tokens before a place
in reverse order. The count is the number of brackets closed and not yet opened on the way back. -/
def enclosingBracket : Nat → List Token → List Token
  | _, [] => []
  | closed, t :: before =>
    if t.kind.closes then enclosingBracket (closed + 1) before
    else if t.kind.opens then if closed = 0 then t :: before else enclosingBracket (closed - 1) before
    else enclosingBracket closed before

/-- The token between others is a whole element of an array under the key `dependsOn`. The tokens before it
are given in reverse order. -/
def isDependsOnElement (before after : List Token) : Bool :=
  before.head?.any (fun t => t.kind = .bracketOpen || t.kind.separates) &&
    after.head?.any (fun t => t.kind = .bracketClose || t.kind.separates) &&
    match enclosingBracket 0 before with
    | bracket :: colon :: key :: _ =>
      bracket.kind = .bracketOpen && colon.kind = .colon && key.isWord "dependsOn"
    | _ => false

/-- The token between others stands where the key of a property stands. -/
def isKeyPosition (before after : List Token) : Bool :=
  before.head?.all (fun t => t.kind = .braceOpen || t.kind.separates) && after.head?.any (·.kind = .colon)

/-- The token between others is a value: no member, no key, not the name in a declaration. -/
def isValuePosition (before after : List Token) : Bool :=
  !(before.head?.any (·.kind = .dot)) && !isKeyPosition before after &&
    !(before.head?.any fun t => t.kind = .identifier && declaringWords.contains t.text)

/-- The use that starts with a token. -/
def SymbolUse.at (before : List Token) (t : Token) (after : List Token) : SymbolUse :=
  let members := memberTokens after
  { symbol := t.text
    path := members.map (·.text)
    dependsOn := members.isEmpty && isDependsOnElement before after
    span := ⟨t.span.start, (members.getLast?.getD t).span.stop⟩
    line := t.line
    column := t.column }

/-- The uses of symbols among tokens, given the tokens before those in reverse order. -/
def usesFrom (symbols : List String) (before : List Token) : List Token → List SymbolUse
  | [] => []
  | t :: after =>
    let others := usesFrom symbols (t :: before) after
    if t.kind = .identifier && symbols.contains t.text && isValuePosition before after then
      SymbolUse.at before t after :: others
    else others

/-- The uses of symbols in a template, in order. -/
def findUses (symbols : List String) (tokens : List Token) : List SymbolUse :=
  usesFrom symbols [] tokens

end BicepMigration.Template
