/-!
# Why a template cannot be read

Reading a template fails only where a bracket, a string or a comment is not closed as it was opened.
Everything else is a template.
-/

namespace BicepMigration.Template

/-- A pair of marks that must be balanced. -/
inductive Bracket where
  | brace
  | square
  | round
  /-- A hole in a string. -/
  | hole
  deriving DecidableEq, Repr

namespace Bracket

/-- The opening mark, in one character. -/
def opening : Bracket → Char
  | brace => '{'
  | square => '['
  | round => '('
  | hole => '$'

/-- The closing mark. -/
def closing : Bracket → Char
  | brace => '}'
  | square => ']'
  | round => ')'
  | hole => '}'

end Bracket

/-- What is not balanced. -/
inductive ScanFault where
  | openComment
  | openString
  | openMultilineString
  /-- The text ends inside a bracket. -/
  | unclosed (bracket : Bracket)
  /-- A closing mark meets a bracket of another kind, opened at the line and column. -/
  | mismatched (found : Char) (opened : Bracket) (line column : Nat)
  /-- A closing mark meets no open bracket. -/
  | unexpected (found : Char)
  deriving DecidableEq, Repr

/-- A fault and where it is reported. -/
structure ScanError where
  line : Nat
  column : Nat
  fault : ScanFault
  deriving DecidableEq, Repr

/-- The wording of a fault. -/
def ScanFault.message : ScanFault → String
  | openComment => "unterminated block comment"
  | openString => "unterminated string literal"
  | openMultilineString => "unterminated multi-line string"
  | unclosed .hole => "unclosed interpolation '$\x7b'"
  | unclosed bracket => "unclosed '" ++ toString bracket.opening ++ "'"
  | mismatched found opened line column =>
    "mismatched '" ++ toString found ++ "' (opened '" ++ toString opened.opening ++ "' at " ++
      toString line ++ ":" ++ toString column ++ ")"
  | unexpected found => "unexpected '" ++ toString found ++ "'"

/-- The wording of an error, with its place. -/
def ScanError.message (error : ScanError) : String :=
  "parse error at " ++ toString error.line ++ ":" ++ toString error.column ++ ": " ++ error.fault.message

end BicepMigration.Template
