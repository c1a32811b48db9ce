import BicepMigration.Proofs.Template.Lexeme
import BicepMigration.Proofs.Template.Unplaced
import BicepMigration.Proofs.Template.SeenStatements
import BicepMigration.Proofs.Text.LineColumn

/-!
# Tokens further on in a text

The tokens of a template that starts on a line of its own in a longer text are its tokens, some bytes and some lines
further on. Columns stay, and so does the text of each span. Main statement: what is read from these tokens in the longer
text is what is read in the template, with each span and each line moved.
-/

namespace BicepMigration.Text

/-- The span some bytes further on. -/
def Span.moved (s : Span) (bytes : Nat) : Span := ⟨s.start + bytes, s.stop + bytes⟩

/-- A span has its text also where other text comes before. -/
theorem slice_moved (before text : String) (s : Span) :
    slice (before ++ text) (s.moved before.utf8ByteSize) = slice text s := by
  apply String.toList_injective
  rw [slice, slice, String.toList_ofList, String.toList_ofList, String.toList_append, Span.moved,
    ← byteLength_toList before, Nat.add_comm s.start, dropBytes_append, Nat.add_comm s.stop, Nat.add_sub_add_left]

end BicepMigration.Text

namespace BicepMigration.Template

open Text

/-- The token some bytes and some lines further on, in the same column. -/
def Token.moved (bytes lines : Nat) (t : Token) : Token :=
  { t with span := t.span.moved bytes, line := t.line + lines }

/-- The aspect in which everything stands some bytes and some lines further on. -/
def Aspect.moved (bytes lines : Nat) : Aspect :=
  ⟨fun f => { f with span := f.span.map (·.moved bytes) }, id, (·.moved bytes), (· + lines)⟩

/-- The statement some bytes and some lines further on, with all that it holds. -/
def Statement.moved (bytes lines : Nat) (s : Statement) : Statement := s.seen (.moved bytes lines)

/-- Lexemes that start further on make tokens that stand further on. -/
theorem tokensAt_moved (here : Cursor) (bytes lines : Nat) (ls : List Lexeme) :
    tokensAt (here.moved bytes lines) ls = (tokensAt here ls).map (Token.moved bytes lines) := by
  induction ls generalizing here with
  | nil => rfl
  | cons l ls ih =>
    rw [tokensAt, tokensAt, List.map_cons, Cursor.advance_moved, Cursor.advance_moved, ih]
    congr 1
    simp only [Token.ofChars, Token.moved, Cursor.moved, Span.moved, Nat.add_right_comm]

/-- Tokens that are moved resemble the others. -/
theorem resembles_moved (bytes lines : Nat) : Resembles (Token.moved bytes lines) := ⟨fun _ => rfl, fun _ _ => rfl⟩

/-- Fragments are moved with their tokens. -/
theorem ofTokens_moved (before text : String) (lines : Nat) (first : Token) (others : List Token) :
    Fragment.ofTokens (before ++ text) (first.moved before.utf8ByteSize lines)
        (others.map (Token.moved before.utf8ByteSize lines)) =
      (Aspect.moved before.utf8ByteSize lines).fragment (Fragment.ofTokens text first others) := by
  have hspan : (⟨(first.moved before.utf8ByteSize lines).span.start,
      ((others.map (Token.moved before.utf8ByteSize lines)).getLast?.getD
        (first.moved before.utf8ByteSize lines)).span.stop⟩ : Span) =
      Span.moved ⟨first.span.start, (others.getLast?.getD first).span.stop⟩ before.utf8ByteSize := by
    rw [List.getLast?_map]
    cases others.getLast? <;> rfl
  unfold Fragment.ofTokens
  simp only [hspan, slice_moved]
  rfl

/-- Where other text comes before, everything is seen further on. -/
theorem seenAlike_moved (before text : String) (lines : Nat) (toks : List Token) :
    SeenAlike (.moved before.utf8ByteSize lines) .whole text (before ++ text)
      (Token.moved before.utf8ByteSize lines) toks where
  toResembles := resembles_moved _ _
  fragment first others _ := ofTokens_moved before text lines first others
  number first others _ := by
    rw [ofTokens_moved]
    rfl
  span first others _ _ := by
    rw [List.getLast?_map]
    cases others.getLast? <;> rfl
  line _ _ := rfl
  meets _ _ _ _ := Nat.add_right_cancel_iff

/-- Where other text comes before, tokens keep the text between them. -/
theorem carries_moved (before text : String) (lines : Nat) (toks : List Token) :
    Carries text (before ++ text) (Token.moved before.utf8ByteSize lines) toks where
  kind _ := rfl
  text _ := rfl
  raw first others _ := by
    rw [ofTokens_moved]
    rfl
  meets _ _ _ := Nat.add_right_cancel_iff

/-- Where other text comes before, the statements are read further on. -/
theorem readStatements_moved (before text : String) (lines : Nat) (toks : List Token) :
    readStatements (before ++ text) (toks.map (Token.moved before.utf8ByteSize lines)) =
      (readStatements text toks).map (Statement.moved before.utf8ByteSize lines) := by
  have hseen := seen_readStatements (seenAlike_moved before text lines toks)
  have hwhole : Statement.seen .whole = id := funext Statement.seen_whole
  rwa [hwhole, List.map_id] at hseen

end BicepMigration.Template
