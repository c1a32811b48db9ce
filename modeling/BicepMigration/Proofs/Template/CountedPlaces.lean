import BicepMigration.Proofs.Template.UsePlaces
import BicepMigration.Proofs.Text.LineColumn

/-!
# Places that can be counted

The reader keeps line and column while it reads: over newlines, comments, strings of many lines, and the texts between
holes. Whoever knows the offset of a token only can count them instead. A byte-order mark at the start belongs to no line,
so it is left out before counting. Main statement: the place that a token or a use carries is the one that is counted.
-/

namespace BicepMigration.Template

open Text

section Mark

variable {source : String} {l : Layout}

/-- The bytes of the byte-order mark at the start of a text, if it has one. -/
def markLength (source : String) : Nat :=
  if source.toList.head? = some byteOrderMark then 3 else 0

/-- The text without the byte-order mark at its start. -/
def unmarked (source : String) : String :=
  String.ofList (dropBytes (markLength source) source.toList)

/-- The line and the column of a place are those counted in the text without its byte-order mark. -/
def IsCounted (source : String) (here : Cursor) : Prop :=
  markLength source ≤ here.offset ∧
    (here.line, here.column) = lineColumn (unmarked source) (here.offset - markLength source)

/-- The byte-order mark is as long as the one of the layout. -/
theorem Layout.markLength_eq (h : source.toList = l.chars) : markLength source = byteLength l.mark := by
  rw [markLength, h]
  rcases l.mark_eq with hmark | hmark
  · have hhead := l.head_ne hmark
    rw [Layout.chars, hmark, List.nil_append, if_neg hhead]
    rfl
  · rw [Layout.chars, hmark, List.singleton_append, List.head?_cons, if_pos rfl]
    decide

/-- Behind the byte-order mark stand the lexemes. -/
theorem Layout.toList_unmarked (h : source.toList = l.chars) :
    (unmarked source).toList = written l.lexemes ++ l.tail := by
  rw [unmarked, String.toList_ofList, l.markLength_eq h, h, Layout.chars, dropBytes_byteLength_append]

/-- A place is counted if one comes to it by walking over the text from where its first lexeme may start. -/
theorem Layout.isCounted_advance {before after : List Char} (h : source.toList = l.chars)
    (hparts : written l.lexemes ++ l.tail = before ++ after) : IsCounted source (l.start.advance before) := by
  have htext := (l.toList_unmarked h).trans hparts
  have hstart : l.start = Cursor.origin.moved (markLength source) 0 := by
    rw [l.markLength_eq h, Layout.start]
    simp [Cursor.origin, Cursor.moved]
  rw [hstart, Cursor.advance_moved]
  refine ⟨Nat.le_add_left .., ?_⟩
  simp only [Cursor.moved, Nat.add_sub_cancel]
  rw [Cursor.advance_offset, Cursor.origin, Nat.zero_add, lineColumn_of_append htext]
  rfl

end Mark

/-- One comes to a token by walking over the text before it. -/
theorem exists_walk_of_mem_tokensAt {here : Cursor} {ls : List Lexeme} {t : Token} (h : t ∈ tokensAt here ls) :
    ∃ before after, written ls = before ++ after ∧ t.place = here.advance before := by
  obtain ⟨a, b, hab⟩ := List.append_of_mem h
  obtain ⟨x, y, rfl, -, hy⟩ := tokensAt_eq_append hab
  obtain ⟨l, rest, rfl, rfl, -⟩ := tokensAt_eq_cons hy.symm
  refine ⟨written x ++ l.gap, l.text ++ written rest, by simp, ?_⟩
  rw [Cursor.advance_append]
  rfl

/-- Tokens and the uses of any symbols are found on the lines and in the columns that are counted. -/
theorem tokenize_counts_places {source : String} {ts : List Token} (h : tokenize source = .ok ts) :
    (∀ t ∈ ts, IsCounted source t.place) ∧
      ∀ symbols, ∀ u ∈ findUses symbols ts, IsCounted source u.place := by
  obtain ⟨l, hl, rfl⟩ := tokenize_eq_ok_iff.1 h
  have htoken : ∀ t ∈ l.tokens, IsCounted source t.place := by
    intro t ht
    obtain ⟨before, after, hparts, hplace⟩ := exists_walk_of_mem_tokensAt ht
    rw [hplace]
    exact l.isCounted_advance hl (by rw [hparts, List.append_assoc])
  refine ⟨htoken, fun symbols u hu => ?_⟩
  -- a use is placed where its first token is
  obtain ⟨before, t, after, heq, -, -, rfl⟩ := exists_place_of_mem_findUses hu
  exact htoken t (heq ▸ List.mem_append_right before List.mem_cons_self)

/-- A template with a byte-order mark, and with uses behind a comment, in a hole and after a string of many lines. -/
def placedSource : String :=
  "\uFEFFparam a string\n/* é\n*/ var b = 'x$\x7ba\x7dy$\x7ba.id\x7d'\nvar c = '''\n\n''' + a"

/-- In a template with a byte-order mark tokens and uses are counted from behind it. -/
theorem tokenize_counts_places_marked :
    tokenize placedSource = .ok (tokensOf placedSource) ∧
      (findUses ["a"] (tokensOf placedSource)).map (fun u => (u.line, u.column)) = [(3, 16), (3, 21), (6, 7)] ∧
      (∀ t ∈ tokensOf placedSource, IsCounted placedSource t.place) ∧
      ∀ symbols, ∀ u ∈ findUses symbols (tokensOf placedSource), IsCounted placedSource u.place := by
  have h : tokenize placedSource = .ok (tokensOf placedSource) := tokenize_eq (by decide +kernel)
  exact ⟨h, by decide +kernel, tokenize_counts_places h⟩

end BicepMigration.Template
