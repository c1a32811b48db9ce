import Mathlib.Data.List.Induction
import BicepMigration.Text.Span

/-!
# Lines and columns, walked and counted

Line and column of a place can be kept while one walks over a text, or counted from the text before the place. Main
statement: from the start of a text on, both ways find the same line and the same column.
-/

namespace BicepMigration.Text

namespace Cursor

/-- The place some bytes and lines further on, in the same column. -/
def moved (here : Cursor) (bytes lines : Nat) : Cursor := ⟨here.offset + bytes, here.line + lines, here.column⟩

/-- A walk that starts further on ends further on, in the same column. -/
theorem advance_moved (here : Cursor) (bytes lines : Nat) (cs : List Char) :
    (here.moved bytes lines).advance cs = (here.advance cs).moved bytes lines := by
  induction cs generalizing here with
  | nil => rfl
  | cons c cs ih =>
    rw [advance_cons, advance_cons, ← ih]
    congr 1
    unfold next moved
    split <;> simp only [Nat.add_right_comm]

/-- Walking from the start counts the newlines, and the bytes after the last one. -/
theorem advance_origin (cs : List Char) :
    origin.advance cs =
      ⟨byteLength cs, cs.count '\n' + 1, byteLength (cs.reverse.takeWhile (· ≠ '\n')) + 1⟩ := by
  -- the last character decides whether a line has just started
  induction cs using List.reverseRecOn with
  | nil => rfl
  | append_singleton cs c ih =>
    rw [advance_append, ih, advance_cons, advance_nil, next]
    split
    · next h =>
      subst h
      simp only [byteLength_append, byteLength_cons, byteLength_nil, List.count_append, List.reverse_append,
        List.reverse_singleton, List.singleton_append, Nat.add_zero]
      rfl
    · next h =>
      simp [h, Nat.add_comm, Nat.add_left_comm]

end Cursor

/-- Counting up to a place finds what walking up to it finds. -/
theorem lineColumn_of_append {text : String} {before after : List Char} (h : text.toList = before ++ after) :
    lineColumn text (byteLength before) =
      ((Cursor.origin.advance before).line, (Cursor.origin.advance before).column) := by
  rw [Cursor.advance_origin, lineColumn, h, takeBytes_byteLength_append]

end BicepMigration.Text
