import Mathlib.Order.Monotone.Basic
import BicepMigration.Proofs.Text.LineColumn
import BicepMigration.Proofs.Text.Slice

/-!
# Lines that end with carriage returns

Lines may end with a carriage return and a newline instead of a newline alone. Places after such a line end stand one
byte further on for each of the ends before them, and places keep their order. Main statement: a walk over both texts
comes to the same line and the same column.
-/

namespace BicepMigration.Text

/-- The characters with a carriage return before each newline. -/
def withReturns (cs : List Char) : List Char :=
  cs.flatMap fun c => if c = '\n' then ['\r', '\n'] else [c]

/-- The text with a carriage return before each newline. -/
def returned (text : String) : String := String.ofList (withReturns text.toList)

example : returned "a\nb" = "a\r\nb" := by decide

/-- The text without its carriage returns. -/
def withoutReturns (text : String) : String := String.ofList (text.toList.filter (· ≠ '\r'))

@[simp] theorem withReturns_nil : withReturns [] = [] := rfl

@[simp] theorem withReturns_newline (cs : List Char) : withReturns ('\n' :: cs) = '\r' :: '\n' :: withReturns cs := rfl

/-- No other character gets a carriage return. -/
theorem withReturns_cons {c : Char} (h : c ≠ '\n') (cs : List Char) : withReturns (c :: cs) = c :: withReturns cs := by
  simp [withReturns, h]

@[simp] theorem withReturns_append (a b : List Char) : withReturns (a ++ b) = withReturns a ++ withReturns b :=
  List.flatMap_append

/-- A line without its end stays. -/
theorem withReturns_of_not_mem {cs : List Char} (h : '\n' ∉ cs) : withReturns cs = cs := by
  induction cs with
  | nil => rfl
  | cons c cs ih =>
    obtain ⟨hc, hcs⟩ := not_or.1 (mt List.mem_cons.2 h)
    rw [withReturns_cons (Ne.symm hc), ih hcs]

/-- Only the empty text stays empty. -/
theorem withReturns_eq_nil_iff {cs : List Char} : withReturns cs = [] ↔ cs = [] := by
  cases cs with
  | nil => simp
  | cons c cs =>
    by_cases hc : c = '\n'
    · simp [hc]
    · simp [withReturns_cons hc]

/-- Only a newline is seen from its first character. -/
theorem head?_withReturns {d : Char} (hr : d ≠ '\r') (hn : d ≠ '\n') (cs : List Char) :
    (withReturns cs).head? = some d ↔ cs.head? = some d := by
  cases cs with
  | nil => rfl
  | cons c cs =>
    by_cases hc : c = '\n'
    · subst hc
      simp [hr.symm, hn.symm]
    · simp [withReturns_cons hc]

/-- A run that no line end belongs to stays, and so does the text after it. -/
theorem span_withReturns {p : Char → Bool} (hr : p '\r' = false) (hn : p '\n' = false) (cs : List Char) :
    (withReturns cs).takeWhile p = withReturns (cs.takeWhile p) ∧
      (withReturns cs).dropWhile p = withReturns (cs.dropWhile p) := by
  induction cs with
  | nil => exact ⟨rfl, rfl⟩
  | cons c cs ih =>
    by_cases hc : c = '\n'
    · subst hc
      simp [hr, hn]
    · rw [withReturns_cons hc, List.takeWhile_cons, List.takeWhile_cons, List.dropWhile_cons, List.dropWhile_cons]
      split
      · exact ⟨by rw [ih.1, withReturns_cons hc], ih.2⟩
      · exact ⟨rfl, (withReturns_cons hc cs).symm⟩

/-- The text of a line: a carriage return stands before the end of the line. -/
theorem line_withReturns (cs : List Char) :
    (cs.dropWhile (· ≠ '\n') = [] ∧ withReturns cs = cs) ∨
      ∃ rest, cs.dropWhile (· ≠ '\n') = '\n' :: rest ∧
        (withReturns cs).takeWhile (· ≠ '\n') = cs.takeWhile (· ≠ '\n') ++ ['\r'] ∧
        (withReturns cs).dropWhile (· ≠ '\n') = '\n' :: withReturns rest := by
  induction cs with
  | nil => exact .inl ⟨rfl, rfl⟩
  | cons c cs ih =>
    by_cases hc : c = '\n'
    · subst hc
      exact .inr ⟨cs, rfl, rfl, rfl⟩
    · rw [withReturns_cons hc]
      simp only [List.takeWhile_cons, List.dropWhile_cons, hc, ne_eq, not_false_eq_true, decide_true, if_true,
        List.cons.injEq, true_and, List.cons_append]
      exact ih

@[simp] theorem withoutReturns_returned (text : String) : withoutReturns (returned text) = withoutReturns text := by
  unfold withoutReturns returned
  rw [String.toList_ofList]
  refine congrArg String.ofList ?_
  induction text.toList with
  | nil => rfl
  | cons c cs ih =>
    by_cases hc : c = '\n'
    · subst hc
      simpa using ih
    · rw [withReturns_cons hc, List.filter_cons, List.filter_cons, ih]

/-- A walk over both texts comes to the same line and the same column. -/
theorem Cursor.advance_withReturns (here : Cursor) (bytes : Nat) (cs : List Char) :
    (here.moved bytes 0).advance (withReturns cs) = (here.advance cs).moved (bytes + cs.count '\n') 0 := by
  induction cs generalizing here bytes with
  | nil => rfl
  | cons c cs ih =>
    by_cases hc : c = '\n'
    · subst hc
      have hnext : ((here.moved bytes 0).next '\r').next '\n' = (here.next '\n').moved (bytes + 1) 0 := by
        simp only [next, moved, reduceIte, Char.reduceEq, Nat.add_zero, Cursor.mk.injEq, and_true]
        have hsize : ('\r').utf8Size = 1 := rfl
        omega
      rw [withReturns_newline, advance_cons, advance_cons, hnext, ih, advance_cons, List.count_cons_self]
      simp only [moved, Nat.add_comm, Nat.add_left_comm]
    · have hnext : (here.moved bytes 0).next c = (here.next c).moved bytes 0 := by
        simp only [next, moved, hc, if_false, Nat.add_zero, Nat.add_right_comm]
      rw [withReturns_cons hc, advance_cons, hnext, ih, advance_cons, List.count_cons_of_ne hc]

section Places

/-- Where a place of the text stands in the text with carriage returns. -/
def returnedPlace (text : String) (n : Nat) : Nat := n + (takeBytes n text.toList).count '\n'

/-- Where a span of the text stands in the text with carriage returns. -/
def Span.returned (text : String) (s : Span) : Span := ⟨returnedPlace text s.start, returnedPlace text s.stop⟩

/-- Where a reader stands in the text with carriage returns. -/
def Cursor.returned (text : String) (here : Cursor) : Cursor :=
  here.moved ((takeBytes here.offset text.toList).count '\n') 0

@[simp] theorem Cursor.returned_offset (text : String) (here : Cursor) :
    (here.returned text).offset = returnedPlace text here.offset := rfl

/-- A place moves by the newlines before it. -/
theorem Cursor.returned_of_append {text : String} {before after : List Char} {here : Cursor}
    (h : text.toList = before ++ after) (ho : here.offset = byteLength before) :
    here.returned text = here.moved (before.count '\n') 0 := by
  rw [returned, ho, h, takeBytes_byteLength_append]

/-- A walk over a part of the text is a walk over that part with carriage returns. -/
theorem Cursor.advance_returned {text : String} {before cs after : List Char} {here : Cursor}
    (h : text.toList = before ++ (cs ++ after)) (ho : here.offset = byteLength before) :
    (here.returned text).advance (withReturns cs) = (here.advance cs).returned text := by
  have hafter : (here.advance cs).offset = byteLength (before ++ cs) := by rw [advance_offset, ho, byteLength_append]
  rw [returned_of_append h ho, advance_withReturns,
    returned_of_append (by rw [h, List.append_assoc]) hafter, List.count_append]

/-- Places keep their order. -/
theorem strictMono_returnedPlace (text : String) : StrictMono (returnedPlace text) := by
  intro m n h
  have hcount := (takeBytes_start (Nat.le_of_lt h) text.toList).sublist.count_le '\n'
  unfold returnedPlace
  omega

/-- A place stays in a span. -/
theorem Span.contains_returned (text : String) (s : Span) (n : Nat) :
    (s.returned text).contains (returnedPlace text n) = s.contains n := by
  have hmono := strictMono_returnedPlace text
  simp only [Span.contains, Span.returned, hmono.le_iff_le, hmono.lt_iff_lt]

end Places

end BicepMigration.Text
