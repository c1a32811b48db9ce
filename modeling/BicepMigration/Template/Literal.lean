import BicepMigration.Json.Printer
import BicepMigration.Template.Value

/-!
# What literals mean

A single-line string stands for its text with the escapes decoded, a string between triple quotes for its
text as it is. The comparison of a value with a JSON value answers only for literals: an expression may
still turn out equal. Main statement: every text reads back from its quoted form.
-/

namespace BicepMigration.Template

/-- The character that a backslash and the character after it stand for. -/
def escapedChar (c : Char) : Char :=
  if c = 'n' then '\n' else if c = 'r' then '\r' else if c = 't' then '\t' else c

/-- Decodes escapes. A backslash at the end escapes nothing. -/
def unescape : List Char → Option (List Char)
  | [] => some []
  | ['\\'] => none
  | '\\' :: c :: cs => (unescape cs).map (escapedChar c :: ·)
  | c :: cs => (unescape cs).map (c :: ·)

/-- The characters between a mark at the start and the same mark at the end. -/
def between? (mark cs : List Char) : Option (List Char) :=
  if mark.isPrefixOf cs then
    let rest := cs.drop mark.length
    if mark.isSuffixOf rest then some (rest.take (rest.length - mark.length)) else none
  else none

/-- The content of a string literal, given with its quotes. -/
def stringContent? (raw : String) : Option String :=
  match between? ['\'', '\'', '\''] raw.toList with
  | some inner => some (String.ofList inner)
  | none => ((between? ['\''] raw.toList).bind unescape).map String.ofList

/-- A character inside a quoted string. -/
def escapeChar (c : Char) : List Char :=
  if c = '\\' || c = '\'' || c = '$' then ['\\', c]
  else if c = '\n' then ['\\', 'n']
  else [c]

/-- Encodes a text for the inside of a single-line string. -/
def escapeText (cs : List Char) : List Char := cs.flatMap escapeChar

/-- The single-line string literal for a text. -/
def quote (text : String) : String :=
  String.ofList ('\'' :: escapeText text.toList ++ ['\''])

/-- A character that is escaped is read back, whatever follows it. -/
theorem unescape_escapeChar_append (c : Char) (cs : List Char) :
    unescape (escapeChar c ++ cs) = (unescape cs).map (c :: ·) := by
  unfold escapeChar
  split
  · next h =>
    have hc : escapedChar c = c := by
      simp only [Bool.or_eq_true, decide_eq_true_eq] at h
      rcases h with (rfl | rfl) | rfl <;> decide
    simp [unescape, hc]
  · split
    · next h =>
      subst h
      simp [unescape, show escapedChar 'n' = '\n' by decide]
    · next h _ =>
      have hc : c ≠ '\\' := by rintro rfl; simp at h
      simp [unescape, hc]

/-- A text that is escaped is read back. -/
theorem unescape_escapeText (cs : List Char) : unescape (escapeText cs) = some cs := by
  induction cs with
  | nil => rfl
  | cons c cs ih =>
    rw [escapeText, List.flatMap_cons, unescape_escapeChar_append]
    exact congrArg (Option.map (c :: ·)) ih

/-- Two numbers are the same: spelled alike, or equal in binary64. -/
def numbersEqual (a b : String) : Bool :=
  a = b ||
    match Number.readBinary64? a.toList, Number.readBinary64? b.toList with
    | some x, some y => x.sameValue y
    | _, _ => false

namespace Value

mutual

/-- Whether a value equals a JSON value. Nothing if the value is not a literal, and so cannot be told. -/
def literalEq : Value → Json → Option Bool
  | .expression _, _ => none
  | .interpolated _, _ => none
  | .string fragment, .string text => (stringContent? fragment.raw).map (· = text)
  | .number text, .number value => some (numbersEqual text value.text)
  | .bool a, .bool b => some (a = b)
  | .null, .null => some true
  | .array items, .array values =>
    if items.length = values.length then itemsEq items values
    else if areLiteral items then some false else none
  | .object entries, .object values =>
    if !entriesLiteral entries then none
    else if entries.length = values.length then entriesEq entries values
    else some false
  | value, _ => if value.isLiteral then some false else none

/-- Whether elements equal JSON values one by one. -/
def itemsEq : List Value → List Json → Option Bool
  | item :: items, value :: values => do
    let first ← item.literalEq value
    let others ← itemsEq items values
    some (first && others)
  | _, _ => some true

/-- Whether every entry equals the JSON value under its key. -/
def entriesEq : List (Property Value) → List (String × Json) → Option Bool
  | [], _ => some true
  | ⟨key, _, value, _⟩ :: rest, values =>
    match Json.entry? values key with
    | none => some false
    | some expected =>
      match value.literalEq expected with
      | some true => entriesEq rest values
      | other => other

end

end Value

end BicepMigration.Template
