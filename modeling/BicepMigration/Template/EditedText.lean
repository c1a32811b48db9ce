import BicepMigration.Template.Value

/-!
# Edits of a text

An edit puts new text in place of a span. Edits may stand inside one another: the outer one then counts for
any span that holds it whole, and the inner one still counts for spans inside the outer one. All text
outside the edits is copied as it is. Main statement: without edits a span keeps its text.
-/

namespace BicepMigration.Template

open Text

/-- New text for a span. -/
structure Edit where
  span : Span
  replacement : String
  deriving DecidableEq, Repr

/-- Outer edits come before inner ones that start at the same place; otherwise order is by start. -/
def Edit.precedes (a b : Edit) : Bool :=
  a.span.start < b.span.start || (a.span.start = b.span.start && b.span.stop ≤ a.span.stop)

/-- A text with edits of it. -/
structure EditedText where
  /-- The text before any edit. -/
  source : String
  /-- The edits, by start, outer ones first. -/
  edits : List Edit
  deriving Repr

namespace EditedText

/-- A text with edits that are given in any order. -/
def ofEdits (source : String) (edits : List Edit) : EditedText :=
  ⟨source, edits.mergeSort Edit.precedes⟩

/-- A text without edits. -/
def unedited (source : String) : EditedText := ⟨source, []⟩

/-- The text from an offset to a later one. An edit that starts before the offset reached, or that ends
after the last one, is left out. -/
def textFrom (source : String) (stop : Nat) : Nat → List Edit → String
  | cursor, [] => slice source ⟨cursor, stop⟩
  | cursor, e :: rest =>
    if e.span.start < cursor || stop < e.span.stop then textFrom source stop cursor rest
    else slice source ⟨cursor, e.span.start⟩ ++ e.replacement ++ textFrom source stop e.span.stop rest

/-- The text of a span with the edits inside it. -/
def text (edited : EditedText) (span : Span) : String :=
  textFrom edited.source span.stop span.start edited.edits

/-- Without edits a span keeps its text. -/
theorem text_unedited (source : String) (span : Span) : (unedited source).text span = slice source span := rfl

/-- The whole text with all edits. -/
def apply (edited : EditedText) : String :=
  edited.text ⟨0, edited.source.utf8ByteSize⟩

/-- The text of a fragment with the edits inside it, if it has a place in the text. -/
def fragment (edited : EditedText) (f : Fragment) : String :=
  match f.span with
  | some span => edited.text span
  | none => f.raw

end EditedText

end BicepMigration.Template
