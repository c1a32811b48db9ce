/-!
# Byte positions in a text

Every position that a template, a token or a diagnostic carries counts UTF-8 bytes. A span is a
half-open byte range; a cursor is a byte offset together with the line and column that a reader sees.
Main statements: the length of a joined text is the sum of the lengths, walking over a joined text is
walking over its parts, and the offset of a cursor grows by exactly the bytes it walks over.
-/

namespace BicepMigration.Text

/-- Number of bytes that characters take in UTF-8. -/
def byteLength : List Char → Nat
  | [] => 0
  | c :: cs => c.utf8Size + byteLength cs

@[simp] theorem byteLength_nil : byteLength [] = 0 := rfl

@[simp] theorem byteLength_cons (c : Char) (cs : List Char) :
    byteLength (c :: cs) = c.utf8Size + byteLength cs := rfl

/-- The length of a joined text is the sum of the lengths. -/
@[simp] theorem byteLength_append (a b : List Char) :
    byteLength (a ++ b) = byteLength a + byteLength b := by
  induction a with
  | nil => simp
  | cons c cs ih => simp [ih, Nat.add_assoc]

/-- The characters left after the first `n` bytes. A character that `n` cuts is dropped whole. -/
def dropBytes : Nat → List Char → List Char
  | 0, cs => cs
  | _ + 1, [] => []
  | n + 1, c :: cs => dropBytes (n + 1 - c.utf8Size) cs

/-- The characters of the first `n` bytes. A character that `n` cuts is kept whole. -/
def takeBytes : Nat → List Char → List Char
  | 0, _ => []
  | _ + 1, [] => []
  | n + 1, c :: cs => c :: takeBytes (n + 1 - c.utf8Size) cs

/-- Dropping the bytes of the first part of a text leaves the second part. -/
theorem dropBytes_byteLength_append (a b : List Char) : dropBytes (byteLength a) (a ++ b) = b := by
  induction a with
  | nil => cases b <;> rfl
  | cons c cs ih =>
    have h : c.utf8Size + byteLength cs = (c.utf8Size + byteLength cs - 1) + 1 := by
      have := c.utf8Size_pos
      omega
    rw [byteLength_cons, h, List.cons_append, dropBytes, ← h, Nat.add_sub_cancel_left, ih]

/-- The bytes of the first part of a text are the first part. -/
theorem takeBytes_byteLength_append (a b : List Char) : takeBytes (byteLength a) (a ++ b) = a := by
  induction a with
  | nil => cases b <;> rfl
  | cons c cs ih =>
    have h : c.utf8Size + byteLength cs = (c.utf8Size + byteLength cs - 1) + 1 := by
      have := c.utf8Size_pos
      omega
    rw [byteLength_cons, h, List.cons_append, takeBytes, ← h, Nat.add_sub_cancel_left, ih]

/-- A half-open byte range. -/
structure Span where
  /-- Offset of the first byte. -/
  start : Nat
  /-- Offset just after the last byte. -/
  stop : Nat
  deriving DecidableEq, Repr, Inhabited

/-- The offset lies in the range. -/
def Span.contains (s : Span) (offset : Nat) : Bool :=
  s.start ≤ offset && offset < s.stop

/-- The text of a span. -/
def slice (text : String) (s : Span) : String :=
  String.ofList (takeBytes (s.stop - s.start) (dropBytes s.start text.toList))

/-- A place in a text, as an offset and as a reader counts it. -/
structure Cursor where
  /-- Bytes before this place. -/
  offset : Nat
  /-- Line, counted from one. -/
  line : Nat
  /-- Bytes since the start of the line, counted from one. -/
  column : Nat
  deriving DecidableEq, Repr

/-- The place before the first character. -/
def Cursor.origin : Cursor := ⟨0, 1, 1⟩

/-- The place after one more character; only a newline starts a line. -/
def Cursor.next (here : Cursor) (c : Char) : Cursor :=
  if c = '\n' then ⟨here.offset + 1, here.line + 1, 1⟩
  else ⟨here.offset + c.utf8Size, here.line, here.column + c.utf8Size⟩

/-- The place after walking over characters. -/
def Cursor.advance (here : Cursor) (cs : List Char) : Cursor :=
  cs.foldl Cursor.next here

@[simp] theorem Cursor.advance_nil (here : Cursor) : here.advance [] = here := rfl

@[simp] theorem Cursor.advance_cons (here : Cursor) (c : Char) (cs : List Char) :
    here.advance (c :: cs) = (here.next c).advance cs := rfl

/-- Walking over a joined text is walking over its parts. -/
theorem Cursor.advance_append (here : Cursor) (a b : List Char) :
    here.advance (a ++ b) = (here.advance a).advance b := by
  simp [Cursor.advance]

/-- One step goes on by the bytes of the character. -/
theorem Cursor.next_offset (here : Cursor) (c : Char) :
    (here.next c).offset = here.offset + c.utf8Size := by
  unfold Cursor.next
  split
  · next h => subst h; rfl
  · rfl

/-- Walking over characters goes on by their bytes. -/
theorem Cursor.advance_offset (here : Cursor) (cs : List Char) :
    (here.advance cs).offset = here.offset + byteLength cs := by
  induction cs generalizing here with
  | nil => simp
  | cons c cs ih => simp [ih, Cursor.next_offset, Nat.add_assoc]

/-- Line and column of a byte offset, found by counting: one more than the newlines before it, and one
more than the bytes since the last of them. An offset past the end stands for the end. -/
def lineColumn (text : String) (offset : Nat) : Nat × Nat :=
  let before := takeBytes offset text.toList
  (before.count '\n' + 1, byteLength (before.reverse.takeWhile (· ≠ '\n')) + 1)

end BicepMigration.Text
